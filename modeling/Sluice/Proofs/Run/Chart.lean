import Sluice.Proofs.Border.Steps
import Sluice.Run.Control

/-!
Charts: which unit is at which end of which channel. A sound chart gives each channel one reader
and one writer, and each hop channel leads to a unit further down the plan.
-/

namespace Sluice

structure Chart where
  /-- How many units there are. -/
  units : Nat
  ins : Nat → List Nat
  outs : Nat → List Nat
  readers : List (Option Nat)
  /-- The channels that producers write to. -/
  feeds : List Nat

namespace Chart

def channels (ch : Chart) : Nat := ch.readers.length

/-- Every channel has its reader and, unless it is fed from outside, a writing unit. -/
structure Sound (ch : Chart) (writer : Nat → Option Nat) : Prop where
  reads : ∀ i c, c ∈ ch.ins i ↔ ch.readers[c]? = some (some i)
  reads_once : ∀ i, (ch.ins i).Nodup
  has_reader : ∀ c < ch.channels, ∃ i < ch.units, ch.readers[c]? = some (some i)
  writes : ∀ i c, c ∈ ch.outs i ↔ c < ch.channels ∧ writer c = some i
  writes_once : ∀ i, (ch.outs i).Nodup
  has_writer : ∀ c < ch.channels, ∀ i, writer c = some i → i < ch.units
  fed : ∀ c, c ∈ ch.feeds ↔ c < ch.channels ∧ writer c = none
  fed_once : ch.feeds.Nodup
  forward : ∀ c < ch.channels, ∀ i j, writer c = some i → ch.readers[c]? = some (some j) → i < j

def addReader (ch : Chart) (t : Nat) : Chart :=
  { ch with
    ins := Function.update ch.ins t (ch.ins t ++ [ch.channels])
    readers := ch.readers ++ [some t] }

def addWriter (ch : Chart) (s : Nat) (cs : List Nat) : Chart :=
  { ch with outs := Function.update ch.outs s (ch.outs s ++ cs) }

def link (ch : Chart) (s t : Nat) : Chart :=
  (ch.addReader t).addWriter s [ch.channels]

def feed (ch : Chart) (t : Nat) : Chart :=
  { ch.addReader t with feeds := ch.feeds ++ [ch.channels] }

@[simp] theorem channels_addReader (ch : Chart) (t : Nat) :
    (ch.addReader t).channels = ch.channels + 1 := by
  simp [addReader, channels]

@[simp] theorem channels_addWriter (ch : Chart) (s : Nat) (cs : List Nat) :
    (ch.addWriter s cs).channels = ch.channels := rfl

@[simp] theorem channels_link (ch : Chart) (s t : Nat) :
    (ch.link s t).channels = ch.channels + 1 := by
  simp [link]

theorem addWriter_nil (ch : Chart) (s : Nat) : ch.addWriter s [] = ch := by
  simp [addWriter]

theorem addWriter_append (ch : Chart) (s : Nat) (cs ds : List Nat) :
    (ch.addWriter s cs).addWriter s ds = ch.addWriter s (cs ++ ds) := by
  simp [addWriter]

theorem addReader_addWriter (ch : Chart) (s t : Nat) (cs : List Nat) :
    (ch.addWriter s cs).addReader t = (ch.addReader t).addWriter s cs := rfl

namespace Sound

variable {ch : Chart} {writer : Nat → Option Nat}

theorem fresh_in (h : ch.Sound writer) (i : Nat) : ch.channels ∉ ch.ins i := by
  rw [h.reads, List.getElem?_eq_none (by rfl : ch.readers.length ≤ ch.channels)]
  simp

theorem fresh_out (h : ch.Sound writer) (i : Nat) : ch.channels ∉ ch.outs i := by
  rw [h.writes]
  exact fun hc => Nat.lt_irrefl _ hc.1

theorem in_lt (h : ch.Sound writer) {i c : Nat} (hc : c ∈ ch.ins i) : c < ch.channels := by
  rw [h.reads] at hc
  exact (List.getElem?_eq_some_iff.mp hc).1

theorem in_unique (h : ch.Sound writer) {i j c : Nat} (hi : c ∈ ch.ins i) (hj : c ∈ ch.ins j) :
    i = j := by
  rw [h.reads] at hi hj
  simpa [hi] using hj

theorem out_unique (h : ch.Sound writer) {i j c : Nat} (hi : c ∈ ch.outs i) (hj : c ∈ ch.outs j) :
    i = j := by
  rw [h.writes] at hi hj
  simpa [hi.2] using hj.2

theorem out_not_fed (h : ch.Sound writer) {i c : Nat} (hi : c ∈ ch.outs i) : c ∉ ch.feeds := by
  rw [h.writes] at hi
  rw [h.fed]
  simp [hi.2]

theorem reads_addReader (h : ch.Sound writer) {t : Nat} (ht : t < ch.units) :
    (∀ i c, c ∈ (ch.addReader t).ins i ↔ (ch.addReader t).readers[c]? = some (some i)) ∧
      (∀ i, ((ch.addReader t).ins i).Nodup) ∧
      ∀ c < (ch.addReader t).channels, ∃ i < ch.units,
        (ch.addReader t).readers[c]? = some (some i) := by
  have hread (c : Nat) : (ch.readers ++ [some t])[c]? =
      if c = ch.channels then some (some t) else ch.readers[c]? := by
    by_cases hc : c = ch.channels
    · subst hc
      simp [channels]
    · rcases Nat.lt_or_gt_of_ne hc with hlt | hgt
      · simp [List.getElem?_append_left hlt, hc]
      · rw [List.getElem?_eq_none (by simp [channels] at hgt ⊢; omega),
          List.getElem?_eq_none (by simp [channels] at hgt ⊢; omega)]
        simp [hc]
  refine ⟨fun i c => ?_, fun i => ?_, fun c hc => ?_⟩
  · simp only [addReader, hread, Function.update_apply]
    by_cases hi : i = t
    · subst hi
      by_cases hc : c = ch.channels
      · simp [hc]
      · simp [hc, h.reads]
    · by_cases hc : c = ch.channels
      · subst hc
        simp only [hi, if_false, if_true, Option.some.injEq]
        exact ⟨fun hm => absurd hm (h.fresh_in i), fun ht => absurd ht.symm hi⟩
      · simp [hi, hc, h.reads]
  · simp only [addReader, Function.update_apply]
    split
    · exact List.nodup_append.mpr ⟨h.reads_once t, List.nodup_singleton _, by
        rintro a ha b hb rfl
        rw [List.mem_singleton] at hb
        exact h.fresh_in t (hb ▸ ha)⟩
    · exact h.reads_once i
  · simp only [addReader, hread]
    by_cases hc' : c = ch.channels
    · exact ⟨t, ht, by simp [hc']⟩
    · have hlt : c < ch.channels := by rw [channels_addReader] at hc; omega
      obtain ⟨i, hi, hr⟩ := h.has_reader c hlt
      exact ⟨i, hi, by simp [hc', hr]⟩

theorem link (h : ch.Sound writer) {s t : Nat} (hst : s < t) (ht : t < ch.units) :
    (ch.link s t).Sound (Function.update writer ch.channels (some s)) := by
  obtain ⟨hreads, hones, hhas⟩ := h.reads_addReader ht
  have houts (i : Nat) : (ch.link s t).outs i =
      if i = s then ch.outs s ++ [ch.channels] else ch.outs i := by
    simp [Chart.link, addWriter, addReader, Function.update_apply]
  refine ⟨hreads, hones, hhas, fun i c => ?_, fun i => ?_, fun c hc i hw => ?_, fun c => ?_,
    h.fed_once, fun c hc i j hw hr => ?_⟩
  · rw [channels_link, Function.update_apply, houts]
    by_cases hi : i = s
    · subst hi
      by_cases hc : c = ch.channels
      · simp [hc]
      · simp [hc, h.writes]
        omega
    · by_cases hc : c = ch.channels
      · subst hc
        simp only [hi, if_false, if_true, Option.some.injEq]
        exact ⟨fun hm => absurd hm (h.fresh_out i), fun hs => absurd hs.2.symm hi⟩
      · simp [hi, hc, h.writes]
        omega
  · rw [houts]
    split
    · exact List.nodup_append.mpr ⟨h.writes_once s, List.nodup_singleton _, by
        rintro a ha b hb rfl
        rw [List.mem_singleton] at hb
        exact h.fresh_out s (hb ▸ ha)⟩
    · exact h.writes_once i
  · rw [channels_link] at hc
    rw [Function.update_apply] at hw
    split at hw
    · simp only [Option.some.injEq] at hw
      exact hw ▸ hst.trans ht
    · exact h.has_writer c (by omega) i hw
  · simp only [channels_link, Function.update_apply]
    rw [show (ch.link s t).feeds = ch.feeds from rfl, h.fed]
    by_cases hc : c = ch.channels
    · simp [hc]
    · simp [hc]
      omega
  · rw [channels_link] at hc
    by_cases hc' : c = ch.channels
    · subst hc'
      have hj := (hreads j ch.channels).mpr hr
      simp only [Function.update_self, Option.some.injEq] at hw
      simp only [addReader, Function.update_apply] at hj
      split at hj
      · omega
      · exact absurd hj (h.fresh_in j)
    · have hlt : c < ch.channels := by omega
      rw [Function.update_of_ne hc'] at hw
      refine h.forward c hlt i j hw ?_
      rwa [show (ch.link s t).readers = ch.readers ++ [some t] from rfl,
        List.getElem?_append_left hlt] at hr

theorem feed (h : ch.Sound writer) {t : Nat} (ht : t < ch.units) :
    (ch.feed t).Sound (Function.update writer ch.channels none) := by
  obtain ⟨hreads, hones, hhas⟩ := h.reads_addReader ht
  have hchannels : (ch.feed t).channels = ch.channels + 1 := channels_addReader ch t
  refine ⟨hreads, hones, hhas, fun i c => ?_, h.writes_once, fun c hc i hw => ?_, fun c => ?_, ?_,
    fun c hc i j hw hr => ?_⟩
  · rw [hchannels, Function.update_apply, show (ch.feed t).outs = ch.outs from rfl, h.writes]
    by_cases hc : c = ch.channels
    · simp [hc]
    · simp [hc]
      omega
  · rw [hchannels] at hc
    rw [Function.update_apply] at hw
    split at hw
    · cases hw
    · exact h.has_writer c (by omega) i hw
  · rw [hchannels, Function.update_apply]
    simp only [Chart.feed, List.mem_append, List.mem_singleton, h.fed]
    by_cases hc : c = ch.channels
    · simp [hc]
    · simp [hc]
      omega
  · refine List.nodup_append.mpr ⟨h.fed_once, List.nodup_singleton _, ?_⟩
    rintro a ha b hb rfl
    rw [List.mem_singleton] at hb
    subst hb
    rw [h.fed] at ha
    exact Nat.lt_irrefl _ ha.1
  · rw [hchannels] at hc
    by_cases hc' : c = ch.channels
    · subst hc'
      simp at hw
    · have hlt : c < ch.channels := by omega
      rw [Function.update_of_ne hc'] at hw
      refine h.forward c hlt i j hw ?_
      rwa [show (ch.feed t).readers = ch.readers ++ [some t] from rfl,
        List.getElem?_append_left hlt] at hr

end Sound

end Chart

section

variable {σ : Type}

def chartOf (units : List (RunUnit σ)) (net : Net) (feeds : List Nat) : Chart where
  units := units.length
  ins i := ((units[i]?).map (·.border.inputChannels)).getD []
  outs i := ((units[i]?).map (·.border.outputChannels)).getD []
  readers := net.links.map (·.reader)
  feeds := feeds

def Wiring.chart (w : Wiring σ) : Chart :=
  chartOf w.units w.net []

def Run.chart (r : Run σ) : Chart :=
  chartOf r.units r.net (r.producers.map (·.channel))

namespace Run

variable {r : Run σ} {i : Nat} {u : RunUnit σ}

theorem chart_ins (hu : r.units[i]? = some u) : r.chart.ins i = u.border.inputChannels := by
  simp [chart, chartOf, hu]

theorem chart_outs (hu : r.units[i]? = some u) : r.chart.outs i = u.border.outputChannels := by
  simp [chart, chartOf, hu]

theorem mem_feeds {p : Producer} (hp : p ∈ r.producers) : p.channel ∈ r.chart.feeds :=
  List.mem_map_of_mem hp

end Run

end

end Sluice
