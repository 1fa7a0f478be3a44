import Sluice.Proofs.Border.Vigil
import Sluice.Proofs.Run.Closing
import Sluice.Proofs.Run.Owed

/-!
Wakeups. A reader of several inputs records the generation of its wakeup, looks at its inputs one
after another and sleeps until the generation has changed. As long as the wakeup has not moved, an
input that it found empty is empty still, or somebody owes the signal for it.
-/

namespace Sluice

section

variable {σ : Type}

/-- The generation that the read of a unit recorded. -/
def RunUnit.held (u : RunUnit σ) : Option UInt64 :=
  match u.stage with
  | .reading call _ => call.seen
  | _ => none

def RunUnit.Looked (u : RunUnit σ) (inlet : Inlet) : Prop :=
  match u.stage with
  | .reading call _ => u.border.Looked inlet call
  | _ => False

theorem RunUnit.Looked.held {u : RunUnit σ} {inlet : Inlet} (h : u.Looked inlet) :
    ∃ seen, u.held = some seen := by
  unfold Looked at h
  cases hs : u.stage with
  | reading call next =>
    simp only [hs] at h
    simpa only [RunUnit.held, hs] using h.seen
  | _ => simp [hs] at h

theorem RunUnit.Looked.mem {u : RunUnit σ} {inlet : Inlet} (h : u.Looked inlet) :
    inlet ∈ u.border.inputs := by
  unfold Looked at h
  cases hs : u.stage with
  | reading call next =>
    simp only [hs] at h
    exact h.mem
  | _ => simp [hs] at h

theorem RunUnit.Moved.held {u u' : RunUnit σ} {net : Net} {armed : List String} {t : Touch}
    (h : u.Moved net armed t u') {seen : UInt64} (hs : u'.held = some seen) :
    t = .nothing ∧ (u.held = some seen ∨ u.held = none ∧ seen = net.generation u.border.wakeup ∧
      ∀ inlet, ¬ u'.Looked inlet) := by
  cases h with
  | read_on stage step =>
    obtain ⟨rfl, hold⟩ := step.seen hs
    refine ⟨rfl, ?_⟩
    simpa only [RunUnit.held, RunUnit.Looked, stage] using hold
  | begin_read =>
    rename_i input next stage
    cases input <;> cases hs
  | batch_over _ judged => cases judged <;> cases hs
  | _ => cases hs

theorem RunUnit.Moved.looked {u u' : RunUnit σ} {net : Net} {armed : List String} {t : Touch}
    (h : u.Moved net armed t u') {inlet : Inlet} (hl : u'.Looked inlet)
    (hf : inlet.finished = false) :
    u.Looked inlet ∨ net.channel? inlet.channel = none ∨ net.Quiet inlet.channel := by
  cases h with
  | read_on stage step => simpa only [RunUnit.Looked, stage] using step.looked hl hf
  | begin_read =>
    rename_i input next stage
    cases input <;> cases hl
  | batch_over _ judged => cases judged <;> cases hl
  | _ => cases hl

/-- How often the wakeup of a unit has moved while the unit holds a generation, after one more deed,
which moves it once at most. -/
def Run.heardOn (r r' : Run σ) (i n : Nat) : Nat :=
  match (r.units[i]?).bind RunUnit.held, (r'.units[i]?).bind RunUnit.held with
  | some _, some _ => if r'.net.generation i = r.net.generation i then n else n + 1
  | _, _ => 0

/-- How often the wakeup of a unit moved since the unit recorded the generation that it holds at the
end of some deeds; `n` times before them. -/
def Run.heard (r : Run σ) (i n : Nat) : List Deed → Nat
  | [] => n
  | d :: ds => (r.act d).heard i (r.heardOn (r.act d) i n) ds

/-- No wakeup comes round to the generation that its reader holds. -/
def Run.Timely (r : Run σ) (ds : List Deed) : Prop :=
  ∀ i < (r.after ds).units.length, r.heard i 0 ds < 2 ^ 64

theorem Run.heard_append (r : Run σ) (i n : Nat) (ds : List Deed) (d : Deed) :
    r.heard i n (ds ++ [d]) =
      (r.after ds).heardOn ((r.after ds).act d) i (r.heard i n ds) := by
  induction ds generalizing r n with
  | nil => rfl
  | cons e ds ih =>
    rw [List.cons_append, heard, ih]
    rfl

theorem Run.heard_le (r : Run σ) (i n : Nat) (ds : List Deed) :
    r.heard i n ds ≤ n + ds.length := by
  induction ds generalizing r n with
  | nil => simp [heard]
  | cons d ds ih =>
    have hon : r.heardOn (r.act d) i n ≤ n + 1 := by
      unfold heardOn
      split
      · split <;> omega
      · omega
    have := ih (r.act d) (r.heardOn (r.act d) i n)
    simp only [heard, List.length_cons]
    omega

theorem Run.timely_of_length {r : Run σ} {ds : List Deed} (h : ds.length < 2 ^ 64) :
    r.Timely ds := fun i _ => by
  have := r.heard_le i 0 ds
  omega

namespace Run

/-- Nobody sleeps through a change: what a reader holds is the generation of its wakeup but for the
moves since then, and if there were none, what it found empty still is, or a signal is owed. -/
structure Heedful (r : Run σ) (heard : Nat → Nat) : Prop where
  generation : ∀ (i : Nat) (u : RunUnit σ) (seen : UInt64), r.units[i]? = some u →
    u.held = some seen → r.net.generation i = seen + UInt64.ofNat (heard i)
  quiet : ∀ (i : Nat) (u : RunUnit σ) (inlet : Inlet), r.units[i]? = some u →
    heard i = 0 → u.Looked inlet → inlet.finished = false →
    r.net.Quiet inlet.channel ∨ r.Owes (.signal inlet.channel)

variable {r r' : Run σ} {party : Party} {t : Touch} {heard : Nat → Nat}

theorem Stepped.heardOn (hs : r.Stepped party t r') (hl : r.Afoot) {i : Nat}
    {u v : RunUnit σ} (hu : r.units[i]? = some u) (hv : r'.units[i]? = some v)
    (hhu : u.held.isSome) (hhv : v.held.isSome) (n : Nat) :
    t = .notify i ∧ r'.net.generation i = r.net.generation i + 1 ∧ r.heardOn r' i n = n + 1 ∨
      t ≠ .notify i ∧ r'.net.generation i = r.net.generation i ∧ r.heardOn r' i n = n := by
  have ht := hs.touched
  obtain ⟨a, ha⟩ := Option.isSome_iff_exists.mp hhu
  obtain ⟨b, hb⟩ := Option.isSome_iff_exists.mp hhv
  have hon : r.heardOn r' i n =
      if r'.net.generation i = r.net.generation i then n else n + 1 := by
    simp [Run.heardOn, hu, hv, ha, hb]
  have hlt : i < r.net.wakeups.length := hl.wakeups ▸ (List.getElem?_eq_some_iff.mp hu).1
  obtain ⟨rfl, hgen, hne⟩ | ⟨hn, hgen⟩ := ht.generation_cases hlt
  · exact .inl ⟨rfl, hgen, by rw [hon, if_neg hne]⟩
  · exact .inr ⟨hn, hgen, by rw [hon, if_pos hgen]⟩

theorem Heedful.stepped (h : r.Heedful heard) (hl : r.Afoot) (hs : r.Stepped party t r') :
    r'.Heedful fun i => r.heardOn r' i (heard i) := by
  have ht := hs.touched
  have hkeep {i c : Nat} (hr : r.net.reader? c = some i) (hn : t ≠ .notify i)
      (hold : r.net.Quiet c ∨ r.Owes (.signal c)) :
      r'.net.Quiet c ∨ r'.Owes (.signal c) := by
    rcases hold with hq | ho
    · exact (ht.quiet hq).imp_right fun hd => hs.owes hd
    · exact .inr ((hs.still_owes hr ho).resolve_right hn)
  refine ⟨fun i v seen hv hheld => ?_, fun i v inlet hv hzero hlooked hf => ?_⟩
  · obtain ⟨u, hu, huv⟩ := hs.back_at hv
    have hstay (huheld : u.held = some seen) :
        r'.net.generation i = seen + UInt64.ofNat (r.heardOn r' i (heard i)) := by
      have hgen := h.generation i u seen hu huheld
      obtain ⟨-, hgen', hon⟩ | ⟨-, hgen', hon⟩ :=
        hs.heardOn hl hu hv (by simp [huheld]) (by simp [hheld]) (heard i)
      · rw [hgen', hgen, hon, UInt64.ofNat_add]
        exact UInt64.add_assoc _ _ _
      · rw [hgen', hgen, hon]
    rcases huv with rfl | hm
    · exact hstay hheld
    · obtain ⟨rfl, huheld | ⟨hnone, rfl, -⟩⟩ := hm.held hheld
      · exact hstay huheld
      · rw [ht.generation_of_ne (by simp), hl.wakeup i u hu]
        simp [Run.heardOn, hu, hnone]
  · obtain ⟨u, hu, huv⟩ := hs.back_at hv
    obtain ⟨seen, hheld⟩ := hlooked.held
    have hreader {c : Nat} (hc : c ∈ v.border.inputChannels) : r.net.reader? c = some i := by
      rcases huv with rfl | hm
      · exact hl.reader hu hc
      · exact hl.reader hu (Border.place_inputs (congrArg Station.place hm.station) ▸ hc)
    have hmem : inlet.channel ∈ v.border.inputChannels := List.mem_map_of_mem hlooked.mem
    have hstay (huheld : u.held = some seen) : t ≠ .notify i ∧ heard i = 0 := by
      obtain ⟨-, -, hon⟩ | ⟨hn, -, hon⟩ :=
        hs.heardOn hl hu hv (by simp [huheld]) (by simp [hheld]) (heard i)
      · simp [hon] at hzero
      · exact ⟨hn, hon ▸ hzero⟩
    rcases huv with rfl | hm
    · obtain ⟨hn, h0⟩ := hstay hheld
      exact hkeep (hreader hmem) hn (h.quiet i v inlet hu h0 hlooked hf)
    · obtain ⟨rfl, huheld | ⟨-, -, hnone⟩⟩ := hm.held hheld
      · refine hkeep (hreader hmem) (by simp) ?_
        obtain hlooked' | hnowhere | hq := hm.looked hlooked hf
        · exact h.quiet i u inlet hu (hstay huheld).2 hlooked' hf
        · have hlt := hl.in_lt (List.mem_of_getElem? hu)
            (Border.place_inputs (congrArg Station.place hm.station) ▸ hmem)
          simp [Net.channel?, hlt] at hnowhere
        · exact .inl hq
      · exact absurd hlooked (hnone inlet)

theorem heedful_of_held (hheld : ∀ u ∈ r.units, u.held = none) : r.Heedful heard := by
  refine ⟨fun i u seen hu hs => ?_, fun i u inlet hu _ hlooked => ?_⟩
  · simp [hheld u (List.mem_of_getElem? hu)] at hs
  · obtain ⟨seen, hs⟩ := hlooked.held
    simp [hheld u (List.mem_of_getElem? hu)] at hs

theorem Attended.heardOn (ha : r.Attended r') {i : Nat} {u : RunUnit σ} (hu : r.units[i]? = some u)
    (hs : u.held.isSome) (n : Nat) : r.heardOn r' i n = n := by
  obtain ⟨seen, hs⟩ := Option.isSome_iff_exists.mp hs
  simp [Run.heardOn, ha.units, ha.net, hu, hs]

theorem Heedful.attended (h : r.Heedful heard) (ha : r.Attended r') :
    r'.Heedful fun i => r.heardOn r' i (heard i) := by
  refine ⟨fun i u seen hu hs => ?_, fun i u inlet hu hzero hlooked hf => ?_⟩
  · rw [ha.units] at hu
    rw [ha.heardOn hu (by simp [hs]), ha.net]
    exact h.generation i u seen hu hs
  · rw [ha.units] at hu
    obtain ⟨seen, hs⟩ := hlooked.held
    rw [ha.heardOn hu (by simp [hs])] at hzero
    exact (h.quiet i u inlet hu hzero hlooked hf).imp (fun hq => ha.net ▸ hq) fun ho => ho.attended ha

variable {registry : Registry σ} {settings : Settings} {g : Graph} {armed : List String}

theorem heedful_conveys (ds : List Deed) (d : Deed) :
    let r := Run.new registry settings g armed
    Conveys (r.after ds) d (Heedful · fun i => r.heard i 0 ds)
      (Heedful · fun i => r.heard i 0 (ds ++ [d])) := by
  intro r
  simp only [heard_append]
  refine ⟨fun r' _ _ _ _ hl hp => heedful_of_held fun u hu => ?_,
    fun r' manifest _ ho hl hp _ hr' => heedful_of_held fun v hv => ?_,
    fun r' hr' _ _ h ha => hr' ▸ h.attended ha,
    fun r' party t hr' _ hl _ h _ hs => hr' ▸ h.stepped hl hs⟩
  · simp [RunUnit.held, (hl.unstarted u hu).mpr hp]
  · subst hr'
    obtain ⟨u, -, -, rfl⟩ := hl.spawned hp hv
    rfl

end Run

end

end Sluice
