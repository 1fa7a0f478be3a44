import Sluice.Proofs.Run.Braking
import Sluice.Proofs.Run.Wakeups

/-!
Runs in which nobody can move. A unit that waits for room has a unit further down that does not
read, and one that waits for rows has a unit further up that does not write; the first search ends
at a unit that reads one input while another one is full, the second one ends nowhere.
-/

namespace Sluice

/-- What a unit waits for: room in a channel that it writes, rows of any of its inputs, or those of
the one input that it concatenates now. -/
inductive RunUnit.Waits (u : RunUnit StepMemory) (net : Net) : Prop
  | room {c : Nat} (writes : c ∈ u.border.outputChannels) (full : net.Full c)
  | rows {inlet : Inlet} (mem : inlet ∈ u.border.inputs) (live : inlet.finished = false)
      (quiet : ∀ other ∈ u.border.inputs, other.finished = false → net.Quiet other.channel)
  | one {k : Nat} {next : Except StepError (Option Row) → BatchTask StepMemory} {inlet : Inlet}
      (append : u.setup.spec.type = "append") (stage : u.stage = .reading (.receive k) next)
      (at_k : u.border.inputs[k]? = some inlet) (quiet : net.Quiet inlet.channel)

/-- Reads one input, which is empty and open, while another one is full. -/
def RunUnit.Starved {σ : Type} (u : RunUnit σ) (net : Net) : Prop :=
  ∃ k next inlet other, u.stage = .reading (.receive k) next ∧ u.border.inputs[k]? = some inlet ∧
    net.Quiet inlet.channel ∧ other ∈ u.border.inputs ∧ net.Full other.channel

/-- A producer that has nothing left to put has ended its stream, or is about to. -/
def Producer.Finishes (p : Producer) (net : Net) : Prop :=
  p.offers = [] → p.ends = true ∨ .close p.channel ∈ p.todo ∨ net.Closed p.channel

instance (p : Producer) (net : Net) : Decidable (p.Finishes net) :=
  inferInstanceAs (Decidable (_ → _))

namespace Run

variable {r : Run StepMemory} {l : Ledger} {heard : Nat → Nat} {i : Nat} {u : RunUnit StepMemory}

theorem Stuck.waits (hstuck : r.Stuck) (hl : r.Live l) (hh : r.Heedful heard)
    (ht : ∀ i < r.units.length, heard i < 2 ^ 64) (hu : r.units[i]? = some u)
    (hbusy : u.isIdle = false) : u.Waits r.net := by
  have hmem := List.mem_of_getElem? hu
  obtain ⟨type, m, hstaffed, htracked⟩ := hl.staffed u hmem
  unfold RunUnit.Tracked at htracked
  obtain ⟨call, next, hstage, hblocked⟩ | ⟨call, next, hstage, hblocked⟩ :=
    RunUnit.move_none (hstuck.unit hu) hbusy
  · simp only [hstage] at htracked
    obtain ⟨j, input, -, hj, -, -, hmeets, hserves⟩ := htracked
    obtain ⟨seen, rfl, hgen⟩ | ⟨k, inlet, rfl, hk, hwait⟩ := Border.advanceRead_blocked hblocked
    · have hzero : heard i = 0 := by
        have hlt := ht i (List.getElem?_eq_some_iff.mp hu).1
        have hheld := hh.generation i u seen hu (by simp [RunUnit.held, hstage, Reading.seen])
        rw [hl.wakeup i u hu] at hgen
        rw [hgen] at hheld
        have hnat := congrArg UInt64.toNat hheld
        simp only [UInt64.toNat_add, UInt64.toNat_ofNat'] at hnat
        have := seen.toNat_lt
        omega
      obtain ⟨k, hk⟩ := List.exists_mem_of_ne_nil _ hserves.2
      obtain ⟨hklt, hlive⟩ := Border.mem_liveInputs.mp hk
      have hat := List.getElem?_eq_getElem hklt
      rw [Border.inputFinished_iff hat] at hlive
      refine .rows (List.getElem_mem hklt) hlive fun other hother hf => ?_
      have hlooked : u.Looked other := by
        simp only [RunUnit.Looked, hstage]
        exact hother
      exact (hh.quiet i u other hu hzero hlooked hf).resolve_right (hstuck.not_owes _)
    · have hquiet := hwait.resolve_left
        (Net.channel?_ne_none (hl.in_lt hmem (List.mem_map_of_mem (List.mem_of_getElem? hk))))
      obtain rfl | ⟨-, honly⟩ := hserves.2
      · have hasks : u.setup.asks u.border.inputs.length (some k) j := (hmeets j (.refl j)).1
        exact .one (Setup.asks_some hasks) hstage hk hquiet
      · have hlive := hserves.1
        rw [Border.inputFinished_iff hk] at hlive
        refine .rows (List.mem_of_getElem? hk) hlive fun other hother hf => ?_
        obtain ⟨n, hn⟩ := List.getElem?_of_mem hother
        have hnlive : n ∈ u.border.liveInputs := Border.mem_liveInputs.mpr
          ⟨(List.getElem?_eq_some_iff.mp hn).1, (Border.inputFinished_iff hn).trans hf⟩
        rw [honly, List.mem_singleton] at hnlive
        subst hnlive
        rw [hk, Option.some.injEq] at hn
        exact hn ▸ hquiet
  · simp only [hstage] at htracked
    obtain ⟨j, hop, row, -, -, -, -, hwrites⟩ := htracked
    obtain ⟨channel, hops, row', rfl, hwait⟩ := Border.advanceWrite_blocked hblocked
    obtain ⟨g, o, -, ho, -, hc, -⟩ := hwrites.2.current
    have hout := Border.mem_outputChannels ho (List.mem_of_getElem? hc)
    exact .room hout (hwait.resolve_left (Net.channel?_ne_none (hl.out_lt hmem hout)))

/-- Where nobody can move and some unit is not idle, nobody has raised the flag. -/
theorem Stuck.unstopped (hstuck : r.Stuck) (hl : r.Live l) (hh : r.Heedful heard)
    (ht : ∀ i < r.units.length, heard i < 2 ^ 64) (hb : r.Braking) (hu : r.units[i]? = some u)
    (hbusy : u.isIdle = false) : r.net.stopping = false := by
  have hmem := List.mem_of_getElem? hu
  by_contra hs
  obtain hinert | hall := hstuck.braked hb (by simpa using hs)
  · have hquiet := hinert u hmem
    obtain ⟨call, next, hstage, -⟩ | ⟨call, next, hstage, -⟩ :=
      RunUnit.move_none (hstuck.unit hu) hbusy
    · simp [RunUnit.Inert, hstage] at hquiet
    · simp [RunUnit.Inert, hstage] at hquiet
  · have hin {inlet : Inlet} (hi : inlet ∈ u.border.inputs) : r.net.Aborted inlet.channel :=
      hall _ (hl.in_lt hmem (List.mem_map_of_mem hi))
    cases hstuck.waits hl hh ht hu hbusy with
    | room writes full => exact full.not_aborted (hall _ (hl.out_lt hmem writes))
    | rows mem live quiet => exact (quiet _ mem live).not_aborted (hin mem)
    | one append stage at_k quiet => exact quiet.not_aborted (hin (List.mem_of_getElem? at_k))

theorem Live.idle_drained (hl : r.Live l) (hc : r.Closing) (ho : r.Orderly)
    (hp : r.phase ≠ .prepared) (hs : r.net.stopping = false) (hu : u ∈ r.units)
    (hidle : u.isIdle = true) :
    (∀ c ∈ u.border.inputChannels, r.net.Drained c) ∧
      ∀ c ∈ u.border.outputChannels, r.net.Closed c := by
  have hstage : u.stage = .ended := by
    have hstarted : u.stage ≠ .unstarted := fun h => hp ((hl.unstarted u hu).mp h)
    unfold RunUnit.isIdle at hidle
    split at hidle <;> simp_all
  have hcloses := hc.closes u hu
  simp only [RunUnit.Closes, hstage] at hcloses
  refine ⟨fun c hin => ?_, hcloses⟩
  obtain ⟨e, hend, he, -⟩ := (hl.lively u hu).ended hstage
  obtain ⟨type, m, -, htracked⟩ := hl.staffed u hu
  cases e with
  | finished =>
    obtain ⟨inlet, hi, hf, rfl⟩ := hl.read_all hu he hin
    exact hc.drained u hu inlet hi hf
  | stopped =>
    have hstopping := (htracked.concluded he).2 rfl
    simp [hs] at hstopping
  | errored =>
    have hab := ho.aborts c ((hc.fails u hu).errored he c (hl.in_lt hu hin))
    simp [hs] at hab
  | _ => simp [UnitState.isEnd] at hend

/-- A run in which nobody can move although some unit is not idle. -/
structure Deadlocked (r : Run StepMemory) : Prop where
  closing : r.Closing
  orderly : r.Orderly
  started : r.phase ≠ .prepared
  unstopped : r.net.stopping = false
  waits : ∀ u ∈ r.units, u.isIdle = false → u.Waits r.net
  producers : ∀ p ∈ r.producers, r.net.Full p.channel ∨ r.net.Closed p.channel

/-- A unit that concatenates holds the run up. -/
def HeldUp (r : Run StepMemory) : Prop :=
  ∃ u ∈ r.units, u.setup.spec ∈ r.graph.steps ∧ u.setup.spec.type = "append" ∧ u.Starved r.net

/-- The reader of a full channel cannot be idle, and if it waits for room itself the next full
channel has a reader further down. -/
theorem Deadlocked.downstream (h : r.Deadlocked) (hl : r.Live l) {c : Nat}
    (hread : r.chart.readers[c]? = some (some i)) (hfull : r.net.Full c) : r.HeldUp := by
  obtain ⟨writer, hsound⟩ := hl.sound
  induction hn : r.units.length - i using Nat.strongRecOn generalizing i c with
  | ind n ih =>
    have hin := (hsound.reads i c).mpr hread
    obtain ⟨k, hk, hk'⟩ := hsound.has_reader c (hsound.in_lt hin)
    rw [hread, Option.some.injEq, Option.some.injEq] at hk'
    subst hk'
    have hu : r.units[i]? = some r.units[i] := List.getElem?_eq_getElem hk
    have hmem := List.getElem_mem hk
    generalize r.units[i] = u at hu hmem
    rw [chart_ins hu] at hin
    obtain ⟨inlet, hinlet, rfl⟩ := List.mem_map.mp hin
    have hlive : inlet.finished = false := by
      by_contra hf
      exact hfull.not_drained (h.closing.drained u hmem inlet hinlet (by simpa using hf))
    have hbusy : u.isIdle = false := by
      by_contra hidle
      exact hfull.not_drained ((hl.idle_drained h.closing h.orderly h.started h.unstopped hmem
        (by simpa using hidle)).1 _ hin)
    cases h.waits u hmem hbusy with
    | @room c' writes full =>
      rw [← chart_outs hu, hsound.writes] at writes
      obtain ⟨j, hj, hread'⟩ := hsound.has_reader c' writes.1
      have hij := hsound.forward c' writes.1 i j writes.2 hread'
      have hj : j < r.units.length := hj
      exact ih (r.units.length - j) (by omega) hread' full rfl
    | rows _ _ quiet => exact absurd (quiet inlet hinlet hlive) hfull.not_quiet
    | one append stage at_k quiet =>
      obtain ⟨type, m, hstaffed, -⟩ := hl.staffed u hmem
      exact ⟨u, hmem, hstaffed.spec, append, _, _, _, inlet, stage, at_k, quiet, hinlet, hfull⟩

/-- The writer of an empty and open channel is a unit that cannot be idle, and if it waits for rows
itself the channel that it waits for has a writer further up. -/
theorem Deadlocked.upstream (h : r.Deadlocked) (hl : r.Live l) (hu : r.units[i]? = some u)
    (hbusy : u.isIdle = false) : r.HeldUp := by
  obtain ⟨writer, hsound⟩ := hl.sound
  induction i using Nat.strongRecOn generalizing u with
  | ind i ih =>
    have hempty {inlet : Inlet} (hi : inlet ∈ u.border.inputs) (hq : r.net.Quiet inlet.channel) :
        r.HeldUp := by
      have hin : inlet.channel ∈ r.chart.ins i := by
        rw [chart_ins hu]
        exact List.mem_map_of_mem hi
      have hlt := hsound.in_lt hin
      have hread := (hsound.reads i inlet.channel).mp hin
      rcases hw : writer inlet.channel with _ | j
      · obtain ⟨p, hp, hpc⟩ := List.mem_map.mp ((hsound.fed inlet.channel).mpr ⟨hlt, hw⟩)
        rcases h.producers p hp with hfull | hclosed
        · exact absurd (hpc ▸ hq) hfull.not_quiet
        · exact absurd (hpc ▸ hclosed) hq.not_closed
      · have hj := hsound.has_writer inlet.channel hlt j hw
        have hji := hsound.forward inlet.channel hlt j i hw hread
        have hv : r.units[j]? = some r.units[j] := List.getElem?_eq_getElem hj
        have hout := (hsound.writes j inlet.channel).mpr ⟨hlt, hw⟩
        rw [chart_outs hv] at hout
        refine ih j hji hv ?_
        by_contra hidle
        exact hq.not_closed ((hl.idle_drained h.closing h.orderly h.started h.unstopped
          (List.getElem_mem hj) (by simpa using hidle)).2 _ hout)
    cases h.waits u (List.mem_of_getElem? hu) hbusy with
    | @room c writes full =>
      rw [← chart_outs hu, hsound.writes] at writes
      obtain ⟨j, -, hread⟩ := hsound.has_reader c writes.1
      exact h.downstream hl hread full
    | rows mem live quiet => exact hempty mem (quiet _ mem live)
    | one _ _ at_k quiet => exact hempty (List.mem_of_getElem? at_k) quiet

theorem Stuck.producer_done (hstuck : r.Stuck) (hl : r.Live l) {p : Producer}
    (hp : p ∈ r.producers) (hf : p.Finishes r.net) :
    r.net.Full p.channel ∨ r.net.Closed p.channel := by
  obtain ⟨writer, hsound⟩ := hl.sound
  obtain ⟨htodo, ⟨hoffers, hends⟩ | hnowhere | hfull⟩ := Producer.move_none (hstuck.producer hp)
  · simpa [hends, htodo] using Or.inr (hf hoffers)
  · have hlt := ((hsound.fed p.channel).mp (mem_feeds hp)).1
    exact absurd hnowhere (Net.channel?_ne_none (by simpa [chart, chartOf, Chart.channels] using hlt))
  · exact .inl hfull

/-- A run of catalog steps can be stuck only where a unit that concatenates reads an empty and open
input while another one is full, so never without such a unit. This leaves out only histories with
2^64 notifications while a unit holds on to one generation. -/
theorem stuck_only_at_append (settings : Settings) (g : Graph) (armed : List String)
    (ds : List Deed) :
    let start := Run.new Catalog.builtins settings g armed
    let r := start.after ds
    start.Timely ds → (∀ p ∈ r.producers, p.Finishes r.net) → r.Stuck → r.unitsIdle = false →
      ∃ u ∈ r.units, u.setup.spec ∈ g.steps ∧ u.setup.spec.type = "append" ∧ u.Starved r.net := by
  intro start r timely finishing stuck busy
  obtain ⟨ho, l, hs, -⟩ := steady_after
    (fun ds r => r.Closing ∧ r.Braking ∧ r.Heedful fun i => start.heard i 0 ds)
    (fun ds d => (closing_conveys _ d).carries.and
      ((braking_conveys _ d).carries.and (heedful_conveys ds d).carries)) ds
  obtain ⟨u, hu, hbusy⟩ : ∃ u ∈ r.units, u.isIdle = false := by
    simpa [unitsIdle] using busy
  obtain ⟨i, hi⟩ := List.getElem?_of_mem hu
  cases hs with
  | blank phase =>
    have hnone : r.units = [] := (ho.blank phase).units
    simp [hnone] at hu
  | shelved phase units => simp [RunUnit.isIdle, (units u hu).stage] at hbusy
  | live live holds =>
    obtain ⟨hclosing, hbraking, hheedful⟩ := holds
    have hdead : r.Deadlocked :=
      { closing := hclosing
        orderly := ho
        started := fun hp => by
          simp [RunUnit.isIdle, (live.unstarted u hu).mpr hp] at hbusy
        unstopped := stuck.unstopped live hheedful timely hbraking hi hbusy
        waits := fun v hv hvbusy => by
          obtain ⟨k, hk⟩ := List.getElem?_of_mem hv
          exact stuck.waits live hheedful timely hk hvbusy
        producers := fun p hp => stuck.producer_done live hp (finishing p hp) }
    obtain ⟨v, hv, hspec, hrest⟩ := hdead.upstream live hi hbusy
    rw [graph_after] at hspec
    exact ⟨v, hv, hspec, hrest⟩

/-- A unit that reads another one directly and, before that, through a third one. -/
def bypass : Graph where
  name := "bypass"
  steps := [{ name := "s", type := "injector" }, { name := "x", type := "dummy" },
    { name := "t", type := "append" }]
  hops := [{ source := "x", target := "t" }, { source := "s", target := "t" },
    { source := "s", target := "x" }]

/-- Two rows, where each channel holds one. -/
def bypassed : List Deed :=
  List.flatten [
    [.prepare, .addProducer ⟨"s", 0⟩, .start [] 0,
      .offer 0 [.ok ⟨⟨[]⟩, [], List.length_nil⟩, .ok ⟨⟨[]⟩, [], List.length_nil⟩], .finish 0],
    .replicate 4 (.move (.unit 0)), .replicate 4 (.move (.unit 1)),
    .replicate 4 (.move (.unit 2)), .replicate 2 (.move (.producer 0)),
    .replicate 12 (.move (.unit 0)), .replicate 9 (.move (.unit 1)),
    .replicate 6 (.move (.unit 2)), .replicate 5 (.move (.producer 0)),
    .replicate 4 (.move (.unit 0))]

theorem bypassed_held_up :
    let start := Run.new Catalog.builtins { channelCapacity := 1 } bypass []
    let r := start.after bypassed
    start.Timely bypassed ∧ r.Stuck ∧ r.unitsIdle = false ∧ ∃ u ∈ r.units,
      u.setup.spec ∈ bypass.steps ∧ u.setup.spec.type = "append" ∧ u.Starved r.net := by
  intro start r
  have timely : start.Timely bypassed := timely_of_length (by decide)
  obtain ⟨finishing, stuck, busy⟩ :
      (∀ p ∈ r.producers, p.Finishes r.net) ∧ r.Stuck ∧ r.unitsIdle = false := by
    decide +kernel
  exact ⟨timely, stuck, busy,
    stuck_only_at_append _ bypass [] bypassed timely finishing stuck busy⟩

end Run

end Sluice
