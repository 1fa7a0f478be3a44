import Sluice.Proofs.Run.CutOff

/-!
Who reads the end of a stream, and what that says of the writer. Where nothing was cut off the
writer finished. So a unit that finishes has only finished units upstream of it, exactly when
nothing that leads to it was cut off.
-/

namespace Sluice

namespace Run

section

variable {σ : Type}

/-- The first unit writes a channel that the second one reads. -/
def Feeds (r : Run σ) (v u : RunUnit σ) : Prop :=
  v ∈ r.units ∧ u ∈ r.units ∧ ∃ c ∈ v.border.outputChannels, c ∈ u.border.inputChannels

def Upstream (r : Run σ) : RunUnit σ → RunUnit σ → Prop :=
  Relation.TransGen r.Feeds

theorem Upstream.mem {r : Run σ} {v u : RunUnit σ} (h : r.Upstream v u) : v ∈ r.units := by
  obtain ⟨w, hw, -⟩ := Relation.TransGen.head'_iff.mp h
  exact hw.1

end

variable {r : Run StepMemory} {l : Ledger} {cut : List Nat}

theorem Ended.feeds_finished (h : r.Ended cut) (hl : r.Live l) {v u : RunUnit StepMemory}
    (hvu : r.Feeds v u) (he : u.ending = some .finished)
    (hcut : ∀ c ∈ u.border.inputChannels, c ∉ cut) : v.ending = some .finished := by
  obtain ⟨hv, hu, c, hout, hin⟩ := hvu
  obtain ⟨inlet, hi, hf, rfl⟩ := hl.read_all hu he hin
  exact (h.read v hv u hu inlet hi hf hout).resolve_right fun hs => hcut _ hin hs.2

theorem Ended.upstream_iff (h : r.Ended cut) (hl : r.Live l) {u : RunUnit StepMemory}
    (hu : u ∈ r.units) (he : u.ending = some .finished) :
    (∀ v, r.Upstream v u → v.ending = some .finished) ↔
      ∀ w, w = u ∨ r.Upstream w u → ∀ c ∈ w.border.inputChannels, c ∉ cut := by
  constructor
  · intro hall w hw c hin hc
    obtain ⟨v, hv, hout, hs⟩ := h.stopped c hc
    have hwu : w ∈ r.units := by
      rcases hw with rfl | hw
      · exact hu
      · exact hw.mem
    have hfeeds : r.Feeds v w := ⟨hv, hwu, c, hout, hin⟩
    have hup : r.Upstream v u := by
      rcases hw with rfl | hw
      · exact .single hfeeds
      · exact .head hfeeds hw
    simp [hall v hup] at hs
  · intro hcut v hv
    induction hv using Relation.TransGen.head_induction_on with
    | single hfeeds => exact h.feeds_finished hl hfeeds he (hcut u (.inl rfl))
    | head hfeeds hup ih => exact h.feeds_finished hl hfeeds ih (hcut _ (.inr hup))

theorem Ended.read_iff (h : r.Ended cut) (hl : r.Live l) {v u : RunUnit StepMemory}
    (hv : v ∈ r.units) (hu : u ∈ r.units) {inlet : Inlet} (hi : inlet ∈ u.border.inputs)
    (hf : inlet.finished = true) (hout : inlet.channel ∈ v.border.outputChannels) :
    (v.ending = some .finished ∨ v.ending = some .stopped) ∧
      (v.ending = some .finished ↔ inlet.channel ∉ cut) := by
  have hread := h.read v hv u hu inlet hi hf hout
  refine ⟨hread.imp_right (·.1), fun he hc => ?_, fun hc => hread.resolve_right fun hs => hc hs.2⟩
  obtain ⟨writer, hsound⟩ := hl.sound
  obtain ⟨w, hw, hwout, hs⟩ := h.stopped _ hc
  obtain ⟨i, hi⟩ := List.getElem?_of_mem hv
  obtain ⟨k, hk⟩ := List.getElem?_of_mem hw
  rw [← chart_outs hi] at hout
  rw [← chart_outs hk] at hwout
  obtain rfl := hsound.out_unique hout hwout
  rw [hi, Option.some.injEq] at hk
  subst hk
  simp [he] at hs

/-- After any history: an input that was read to its end has a writer that finished, unless the
writer stopped and cut the stream off; and what is upstream of a finished unit finished, unless
something that leads to it was cut off. -/
theorem end_of_stream_iff (settings : Settings) (g : Graph) (armed : List String)
    (ds : List Deed) :
    let start := Run.new Catalog.builtins settings g armed
    let r := start.after ds
    (∀ v ∈ r.units, ∀ u ∈ r.units, ∀ inlet ∈ u.border.inputs, inlet.finished = true →
      inlet.channel ∈ v.border.outputChannels →
      (v.ending = some .finished ∨ v.ending = some .stopped) ∧
        (v.ending = some .finished ↔ inlet.channel ∉ start.cutOff ds)) ∧
    (∀ u ∈ r.units, u.ending = some .finished →
      ((∀ v, r.Upstream v u → v.ending = some .finished) ↔
        ∀ w, w = u ∨ r.Upstream w u → ∀ c ∈ w.border.inputChannels, c ∉ start.cutOff ds)) ∧
    ∀ u ∈ r.units, u.stage = .ended → u.ending = some u.life.outcome := by
  intro start r
  obtain ⟨ho, l, hs, -⟩ := steady_after (fun ds r => r.Ended (start.cutOff ds))
    (fun ds d => (ended_conveys ds d).carries) ds
  cases hs with
  | blank phase =>
    have hnone : r.units = [] := (ho.blank phase).units
    simp [hnone]
  | shelved phase units =>
    refine ⟨fun v _ u hu inlet hi hf => ?_, fun u hu he => ?_, fun u hu he => ?_⟩
    · simp [(units u hu).inputs inlet hi] at hf
    · simp [RunUnit.ending, (units u hu).stage] at he
    · simp [(units u hu).stage] at he
  | live live holds =>
    refine ⟨fun v hv u hu inlet hi hf hout => holds.read_iff live hv hu hi hf hout,
      fun u hu he => holds.upstream_iff live hu he, fun u hu hstage => ?_⟩
    obtain ⟨e, -, he, ho⟩ := (live.lively u hu).ended hstage
    rw [he, ho]

def pair : Graph where
  name := "pair"
  steps := [{ name := "a", type := "injector" }, { name := "b", type := "dummy" }]
  hops := [{ source := "a", target := "b" }]

/-- One of two rows has gone through both units and the second unit waits for another when the flag
goes up. No channel is aborted yet; the first unit sees the flag, stops and closes the channel. -/
def hastyStop : List Deed :=
  List.flatten [
    [.prepare, .addProducer ⟨"a", 0⟩, .start [] 0,
      .offer 0 [.ok ⟨⟨[]⟩, [], List.length_nil⟩, .ok ⟨⟨[]⟩, [], List.length_nil⟩]],
    .replicate 4 (.move (.producer 0)), .replicate 11 (.move (.unit 0)),
    .replicate 12 (.move (.unit 1)), [.stop, .move (.stop 0)], .replicate 9 (.move (.unit 0)),
    .replicate 11 (.move (.unit 1))]

/-- What each unit came to, the channels it writes and those it reads, with their ends seen. -/
def fates (r : Run StepMemory) : List (UnitState × List Nat × List (Nat × Bool)) :=
  r.units.map fun u =>
    (u.life.outcome, u.border.outputChannels, u.border.inputs.map fun i => (i.channel, i.finished))

theorem hastyStop_reads_cut_stream :
    let r := (Run.new Catalog.builtins { batchRows := 1 } pair []).after hastyStop
    ∃ v ∈ r.units, ∃ u ∈ r.units, ∃ inlet ∈ u.border.inputs,
      inlet.finished = true ∧ inlet.channel ∈ v.border.outputChannels ∧
        v.life.outcome = .stopped ∧ u.life.outcome = .finished ∧ r.Upstream v u := by
  intro r
  have hfates : r.fates = [(.stopped, [0], [(1, false)]), (.finished, [], [(0, true)])] := by
    decide +kernel
  obtain ⟨v, rest, hunits, hv, hrest⟩ := List.map_eq_cons_iff.mp hfates
  obtain ⟨u, _, rfl, hu, -⟩ := List.map_eq_cons_iff.mp hrest
  simp only [Prod.mk.injEq] at hv hu
  obtain ⟨hstopped, hout, -⟩ := hv
  obtain ⟨hfinished, -, hin⟩ := hu
  obtain ⟨inlet, _, hinputs, hinlet, -⟩ := List.map_eq_cons_iff.mp hin
  obtain ⟨hchannel, hend⟩ := Prod.mk.inj hinlet
  have hvmem : v ∈ r.units := by simp [hunits]
  have humem : u ∈ r.units := by simp [hunits]
  have hmem : inlet ∈ u.border.inputs := by simp [hinputs]
  have hwrites : inlet.channel ∈ v.border.outputChannels := by simp [hout, hchannel]
  refine ⟨v, hvmem, u, humem, inlet, hmem, hend, hwrites, hstopped, hfinished, .single ?_⟩
  exact ⟨hvmem, humem, _, hwrites, List.mem_map_of_mem hmem⟩

end Run

end Sluice
