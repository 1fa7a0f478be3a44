import Sluice.Proofs.Border.Split

/-!
The journal of a border: what its flags, its counters and the rows taken from its channels say. Each
step of a read keeps the journal, and leaves the task that asked where its condition expects it.
-/

namespace Sluice

namespace Crossing

def read? : Crossing → Option Row
  | .read row => some row
  | .written _ => none

def written? : Crossing → Option Row
  | .read _ => none
  | .written row => some row

@[simp] theorem read?_read (row : Row) : (Crossing.read row).read? = some row := rfl

@[simp] theorem read?_written (row : Row) : (Crossing.written row).read? = none := rfl

@[simp] theorem written?_read (row : Row) : (Crossing.read row).written? = none := rfl

@[simp] theorem written?_written (row : Row) : (Crossing.written row).written? = some row := rfl

end Crossing

/-- A listener has seen the rows that were read and the rows that were sent out. -/
def Journal.Heard (j : Journal) (log : Array Crossing) : Prop :=
  log.toList.filterMap (·.read?) = j.got.map (·.2) ∧
    log.toList.filterMap (·.written?) = j.out.filterMap (·.row?)

namespace Border

structure Journaled (p : Border) (j : Journal) (l : Ledger) : Prop where
  ended : ∀ k < p.inputs.length, (j.ended k ↔ p.inputFinished k = true)
  tags : ∀ q ∈ j.got, q.1 < p.inputs.length
  taken : ∀ (k : Nat) (inlet : Inlet), p.inputs[k]? = some inlet → l.taken inlet.channel = j.from k
  linesRead : p.counters.linesRead = j.got.length
  linesWritten : p.counters.linesWritten = (j.out.filterMap (·.row?)).length
  errors : p.counters.errors = (j.out.filterMap (·.fault?)).length
  messages : p.counters.messages.toList = j.out.filterMap (·.fault?)
  heard : ∀ log ∈ p.listeners, j.Heard log

variable {p p' : Border} {net : Net} {t : Touch} {j : Journal} {l : Ledger}

theorem inputFinished_iff {k : Nat} {inlet : Inlet} (h : p.inputs[k]? = some inlet) :
    p.inputFinished k = inlet.finished := by
  simp [inputFinished, h]

theorem mem_liveInputs {k : Nat} :
    k ∈ p.liveInputs ↔ k < p.inputs.length ∧ p.inputFinished k = false := by
  simp [liveInputs]

/-- What a read under way keeps to: the inputs that it was asked for, and that it waits only for
one whose end was not read. -/
def Serves (p : Border) (input : Option Nat) : Reading → Prop
  | .any => input = none
  | .only i => input = some i
  | .scan _ _ => input = none
  | .sleep _ => input = none ∧ p.liveInputs ≠ []
  | .receive i => p.inputFinished i = false ∧ (input = some i ∨ input = none ∧ p.liveInputs = [i])

@[simp] theorem onRead_inputs (p : Border) (row : Row) : (p.onRead row).inputs = p.inputs := rfl

theorem getElem?_finishInput (p : Border) (i k : Nat) :
    (p.finishInput i).inputs[k]? =
      (p.inputs[k]?).map fun inlet => if i = k then { inlet with finished := true } else inlet := by
  simp only [finishInput, List.getElem?_modify]
  cases p.inputs[k]? <;> by_cases h : i = k <;> simp [h]

theorem inputFinished_finishInput {i k : Nat} (hk : k < p.inputs.length) :
    (p.finishInput i).inputFinished k = true ↔ i = k ∨ p.inputFinished k = true := by
  simp only [inputFinished, getElem?_finishInput, List.getElem?_eq_getElem hk, Option.map_some,
    Option.all_some]
  by_cases h : i = k <;> simp [h]

@[simp] theorem length_finishInput (p : Border) (i : Nat) :
    (p.finishInput i).inputs.length = p.inputs.length := by
  simp [finishInput]

theorem Journaled.take (h : p.Journaled j l) (hn : p.inputChannels.Nodup) {i : Nat} {inlet : Inlet}
    (hi : p.inputs[i]? = some inlet) (row : Row) :
    (p.onRead row).Journaled (j.take i row) (l.after (.take inlet.channel row)) := by
  have hlt : i < p.inputs.length := (List.getElem?_eq_some_iff.mp hi).1
  refine ⟨h.ended, fun q hq => ?_, fun k inlet' hk => ?_, ?_, h.linesWritten, h.errors, h.messages,
    fun log hlog => ?_⟩
  · rcases List.mem_append.mp hq with hq | hq
    · exact h.tags q hq
    · rw [List.mem_singleton.mp hq]
      exact hlt
  · have hk : p.inputs[k]? = some inlet' := hk
    have hold := h.taken k inlet' hk
    rw [Journal.from_take]
    by_cases hik : i = k
    · subst hik
      rw [hi, Option.some.injEq] at hk
      subst hk
      simp [Ledger.after, hold]
    · have hne : inlet'.channel ≠ inlet.channel := by
        intro he
        have hgi : p.inputChannels[i]? = some inlet.channel := by simp [inputChannels, hi]
        have hgk : p.inputChannels[k]? = some inlet.channel := by simp [inputChannels, hk, he]
        obtain ⟨h1, h1'⟩ := List.getElem?_eq_some_iff.mp hgi
        obtain ⟨h2, h2'⟩ := List.getElem?_eq_some_iff.mp hgk
        exact hik ((List.Nodup.getElem_inj_iff hn).mp (h1'.trans h2'.symm))
      simp [Ledger.after, Function.update_of_ne hne, hold, hik]
  · simp [onRead, Journal.take, h.linesRead]
  · obtain ⟨old, hold, rfl⟩ := Array.mem_map.mp hlog
    obtain ⟨hread, hwritten⟩ := h.heard old hold
    exact ⟨by simp [hread, Journal.take], by simp [hwritten, Journal.take]⟩

theorem Journaled.finish (h : p.Journaled j l) (i : Nat) :
    (p.finishInput i).Journaled { j with ended := fun k => i = k ∨ j.ended k } l := by
  refine ⟨fun k hk => ?_, fun q hq => ?_, fun k inlet hk => ?_, h.linesRead, h.linesWritten,
    h.errors, h.messages, h.heard⟩
  · rw [length_finishInput] at hk
    exact (or_congr_right (h.ended k hk)).trans (inputFinished_finishInput hk).symm
  · rw [length_finishInput]
    exact h.tags q hq
  · rw [getElem?_finishInput, Option.map_eq_some_iff] at hk
    obtain ⟨inlet', hk, rfl⟩ := hk
    have := h.taken k inlet' hk
    by_cases hik : i = k <;> simp [hik, this, Journal.from]

theorem grows_finish (j : Journal) (i : Nat) :
    j.Grows { j with ended := fun k => i = k ∨ j.ended k } :=
  ⟨rfl, rfl, fun _ => .inr, id⟩

theorem Journaled.told (h : p.Journaled j l) : p.Journaled { j with stopped := True } l :=
  ⟨h.ended, h.tags, h.taken, h.linesRead, h.linesWritten, h.errors, h.messages, h.heard⟩

theorem grows_told (j : Journal) : j.Grows { j with stopped := True } :=
  ⟨rfl, rfl, fun _ => id, fun _ => trivial⟩

variable {α σ : Type} {site : Site} {input : Option Nat} {Q : α → σ → Journal → Prop}
  {next : Except StepError (Option Row) → Task (Except Halt α × σ)}

theorem meets_read_grows {j j' : Journal} (h : (Task.read input next).Meets site Q j)
    (hj : j.Grows j') : (Task.read input next).Meets site Q j' :=
  fun j'' hj' => h j'' (hj.trans hj')

/-- What is left after a step of a read that the task asked for. -/
def Served (p : Border) (site : Site) (Q : α → σ → Journal → Prop) (input : Option Nat)
    (next : Except StepError (Option Row) → Task (Except Halt α × σ)) (j : Journal) :
    Onward Reading (Except StepError (Option Row)) → Prop
  | .goes call => (Task.read input next).Meets site Q j ∧ p.Serves input call
  | .replies r => (next r).Meets site Q j

theorem meets_refused {e : StepError} {j j' : Journal} (h : (Task.read input next).Meets site Q j)
    (hj : j.Grows j') (he : e.Refused j') : (next (.error e)).Meets site Q j' := by
  obtain ⟨-, -, -, herr⟩ := h j' hj
  obtain ⟨halt, m, hnext, hjust⟩ := herr e he
  rw [hnext]
  exact hjust

theorem refused_told (j : Journal) : StepError.aborted.Refused { j with stopped := True } :=
  ⟨fun _ => trivial, fun _ h => by cases h⟩

theorem refused_fatal (fault : FatalFault) (j : Journal) : (StepError.fatal fault).Refused j :=
  ⟨by simp, by simp⟩

/-- One step of a read: the journal is kept, and the task is served as it expects. -/
theorem Journaled.read {call : Reading} {onward : Onward Reading (Except StepError (Option Row))}
    (h : p.Journaled j l) (hrest : p.AtRest j.out l.put) (hsite : site.inputs = p.inputs.length)
    (hn : p.inputChannels.Nodup) (hserves : p.Serves input call)
    (hm : (Task.read input next).Meets site Q j) (hstop : j.stopped → net.stopping = true)
    (hab : ∀ c, net.Aborted c → net.stopping = true) (hs : p.ReadStep net t call p' onward) :
    ∃ j', p'.Journaled j' (l.after t) ∧ p'.AtRest j'.out (l.after t).put ∧
      (j'.stopped → net.stopping = true) ∧ p'.Served site Q input next j' onward := by
  have hkeep {call' : Reading} (hserves' : p.Serves input call') :
      ∃ j', p.Journaled j' l ∧ p.AtRest j'.out l.put ∧ (j'.stopped → net.stopping = true) ∧
        p.Served site Q input next j' (.goes call') := ⟨j, h, hrest, hstop, hm, hserves'⟩
  have hended (k : Nat) (hk : k < site.inputs) (hf : p.inputFinished k = true) : j.ended k :=
    (h.ended k (hsite ▸ hk)).mpr hf
  have hnone (hall : ∀ k < site.inputs, (∀ i ∈ input, i = k) → j.ended k) :
      (next (.ok none)).Meets site Q j := (hm j (.refl j)).2.2.1 hall
  have hdone (hlive : p.liveInputs = []) :
      ∃ j', p.Journaled j' l ∧ p.AtRest j'.out l.put ∧ (j'.stopped → net.stopping = true) ∧
        p.Served site Q input next j' (.replies (.ok none)) := by
    refine ⟨j, h, hrest, hstop, hnone fun k hk _ => hended k hk ?_⟩
    by_contra hf
    have hmem : k ∈ p.liveInputs := mem_liveInputs.mpr ⟨hsite ▸ hk, by simpa using hf⟩
    simp [hlive] at hmem
  have htold (hstopping : net.stopping = true) :
      ∃ j', p.Journaled j' l ∧ p.AtRest j'.out l.put ∧ (j'.stopped → net.stopping = true) ∧
        p.Served site Q input next j' (.replies (.error .aborted)) :=
    ⟨_, h.told, hrest, fun _ => hstopping, meets_refused hm (grows_told j) (refused_told j)⟩
  have hfatal (fault : FatalFault) :
      ∃ j', p.Journaled j' l ∧ p.AtRest j'.out l.put ∧ (j'.stopped → net.stopping = true) ∧
        p.Served site Q input next j' (.replies (.error (.fatal fault))) :=
    ⟨j, h, hrest, hstop, meets_refused hm (.refl j) (refused_fatal fault j)⟩
  have hrow {i : Nat} {inlet : Inlet} (hi : p.inputs[i]? = some inlet)
      (hlive : p.inputFinished i = false) (hask : ∀ k ∈ input, k = i) (row : Row) :
      (next (.ok (some row))).Meets site Q (j.take i row) := by
    have hlt : i < p.inputs.length := (List.getElem?_eq_some_iff.mp hi).1
    refine (hm j (.refl j)).2.1 i row (hsite ▸ hlt) (fun he => ?_) hask
    simp [(h.ended i hlt).mp he] at hlive
  cases hs with
  | none_live live => exact hdone live
  | one_live live =>
    have hmem := mem_liveInputs.mp (live ▸ List.mem_singleton_self _)
    exact hkeep ⟨hmem.2, .inr ⟨hserves, live⟩⟩
  | many_live => exact hkeep hserves
  | no_input => exact hfatal _
  | past_end at_i finished =>
    refine ⟨j, h, hrest, hstop, hnone fun k hk hask => hended k hk ?_⟩
    obtain rfl := hask _ hserves
    rw [inputFinished_iff at_i, finished]
  | turn_to at_i live => exact hkeep ⟨by rw [inputFinished_iff at_i, live], .inl hserves⟩
  | skip => exact hkeep hserves
  | scan_refused _ _ _ aborted => exact htold (hab _ aborted)
  | scan_found _ at_i live =>
    have htake := h.take hn at_i
    refine ⟨_, ⟨(htake _).ended, (htake _).tags, (htake _).taken, (htake _).linesRead,
      (htake _).linesWritten, (htake _).errors, (htake _).messages, (htake _).heard⟩,
      ⟨hrest.turn, hrest.hops⟩, hstop,
      hrow at_i (by rw [inputFinished_iff at_i, live]) (fun k hk => ?_) _⟩
    rw [show input = none from hserves] at hk
    cases hk
  | @scan_ended seen done inlet _ at_i live =>
    exact ⟨_, h.finish _, ⟨hrest.turn, hrest.hops⟩, hstop,
      meets_read_grows hm (grows_finish j (p.slot done)), hserves⟩
  | scan_empty => exact hkeep hserves
  | round_over _ live => exact hdone live
  | round_stopped _ _ stopping => exact htold stopping
  | fall_asleep _ live => exact hkeep ⟨hserves, live⟩
  | wake => exact hkeep hserves.1
  | receive_nowhere => exact hfatal _
  | receive_refused _ aborted => exact htold (hab _ aborted)
  | @received i inlet row at_i =>
    refine ⟨_, h.take hn at_i row, ⟨hrest.turn, hrest.hops⟩, hstop,
      hrow at_i hserves.1 (fun k hk => ?_) row⟩
    obtain hi | ⟨hi, -⟩ := hserves.2
    · rw [hi, Option.mem_some] at hk
      exact hk.symm
    · rw [hi] at hk
      cases hk
  | @received_end i inlet at_i drained =>
    refine ⟨_, h.finish i, ⟨hrest.turn, hrest.hops⟩, hstop,
      (hm _ (grows_finish j i)).2.2.1 fun k hk hask => ?_⟩
    obtain hi | ⟨hi, hlive⟩ := hserves.2
    · exact .inl (hask i hi)
    · by_cases hik : i = k
      · exact .inl hik
      · refine .inr (hended k hk ?_)
        by_contra hf
        have hmem : k ∈ p.liveInputs := mem_liveInputs.mpr ⟨hsite ▸ hk, by simpa using hf⟩
        rw [hlive, List.mem_singleton] at hmem
        exact hik hmem.symm

theorem Journaled.congr {l' : Ledger} (h : p.Journaled j l) (hin : p'.inputs = p.inputs)
    (hc : p'.counters = p.counters) (hlog : p'.listeners = p.listeners)
    (htaken : ∀ c ∈ p.inputChannels, l'.taken c = l.taken c) : p'.Journaled j l' := by
  refine ⟨?_, ?_, fun k inlet hk => ?_, ?_, ?_, ?_, ?_, by rw [hlog]; exact h.heard⟩
  · simpa only [inputFinished, hin] using h.ended
  · simpa only [hin] using h.tags
  · rw [hin] at hk
    rw [htaken _ (List.mem_map_of_mem (List.mem_of_getElem? hk))]
    exact h.taken k inlet hk
  · rw [hc, h.linesRead]
  · rw [hc, h.linesWritten]
  · rw [hc, h.errors]
  · rw [hc, h.messages]

theorem Journaled.emit_row (h : p.Journaled j l) (hop : Option Nat) (row : Row) :
    (p.onWritten row).Journaled (j.emit (.row hop row)) l := by
  refine ⟨h.ended, h.tags, h.taken, h.linesRead, ?_, ?_, ?_, fun log hlog => ?_⟩
  · simp [onWritten, Journal.emit, h.linesWritten, Emission.row?]
  · simp [onWritten, Journal.emit, h.errors, Emission.fault?]
  · simp [onWritten, Journal.emit, h.messages, Emission.fault?]
  · obtain ⟨old, hold, rfl⟩ := Array.mem_map.mp hlog
    obtain ⟨hread, hwritten⟩ := h.heard old hold
    exact ⟨by simp [hread, Journal.emit], by simp [hwritten, Journal.emit]⟩

theorem Journaled.emit_fault (h : p.Journaled j l) (message : String) :
    (p.recordError message).Journaled (j.emit (.fault message)) l := by
  refine ⟨h.ended, h.tags, h.taken, h.linesRead, ?_, ?_, ?_, fun log hlog => ?_⟩
  · simp [recordError, Counters.recordError, Journal.emit, h.linesWritten, Emission.row?]
  · simp [recordError, Counters.recordError, Journal.emit, h.errors, Emission.fault?]
  · simp [recordError, Counters.recordError, Journal.emit, h.messages, Emission.fault?]
  · obtain ⟨hread, hwritten⟩ := h.heard log hlog
    exact ⟨hread, by simp [hwritten, Journal.emit]⟩

/-- The task is at its end, broken off. -/
def Broken (task : Task (Except Halt α × σ)) : Prop :=
  ∃ h m, task = .done (.error h, m)

/-- One step of a write: as long as it goes on the journal waits for it, and once the row is out the
journal tells of it. -/
theorem Journaled.write {hop : Option Nat} {row : Row} {call : Writing}
    {next : Except StepError Unit → Task (Except Halt α × σ)}
    {onward : Onward Writing (Except StepError Unit)} (h : p.Journaled j l)
    (hw : p.Writes j.out (.row hop row) l.put call) (hn : p.outputChannels.Nodup)
    (hm : (Task.write hop row next).Meets site Q j) (hstop : j.stopped → net.stopping = true)
    (hab : ∀ c, net.Aborted c → net.stopping = true) (hs : p.WriteStep net t call p' onward) :
    match onward with
    | .goes call' => p'.Journaled j (l.after t) ∧ p'.Writes j.out (.row hop row) (l.after t).put call'
    | .replies r => ∃ j', p'.Journaled j' (l.after t) ∧ (j'.stopped → net.stopping = true) ∧
        (next r).Meets site Q j' ∧ (p'.AtRest j'.out (l.after t).put ∨ Broken (next r)) := by
  have hstep := hw.step hn hs
  have hrefused {e : StepError} {j' : Journal} (hj : j.Grows j') (he : e.Refused j') :
      (next (.error e)).Meets site Q j' ∧ Broken (next (.error e)) := by
    obtain ⟨halt, m, hnext, hjust⟩ := hm.2 j' hj e he
    exact ⟨by rw [hnext]; exact hjust, halt, m, hnext⟩
  have htold (haborted : net.stopping = true) : ∃ j', p.Journaled j' l ∧
      (j'.stopped → net.stopping = true) ∧ (next (.error .aborted)).Meets site Q j' ∧
      (p.AtRest j'.out l.put ∨ Broken (next (.error .aborted))) := by
    obtain ⟨h1, h2⟩ := hrefused (grows_told j) (refused_told j)
    exact ⟨_, h.told, fun _ => haborted, h1, .inr h2⟩
  have hfatal {q : Border} (fault : FatalFault) (hq : q.Journaled j l) : ∃ j', q.Journaled j' l ∧
      (j'.stopped → net.stopping = true) ∧ (next (.error (.fatal fault))).Meets site Q j' ∧
      (q.AtRest j'.out l.put ∨ Broken (next (.error (.fatal fault)))) := by
    obtain ⟨h1, h2⟩ := hrefused (.refl j) (refused_fatal fault j)
    exact ⟨j, hq, hstop, h1, .inr h2⟩
  cases hs with
  | every_misfit => exact hfatal _ h
  | share => exact ⟨h.congr rfl rfl rfl fun _ _ => rfl, hstep⟩
  | spread => exact ⟨h.congr rfl rfl rfl fun _ _ => rfl, hstep⟩
  | only_misfit => exact hfatal _ h
  | only_to => exact ⟨h.congr rfl rfl rfl fun _ _ => rfl, hstep⟩
  | no_output => exact hfatal _ (h.congr rfl rfl rfl fun _ _ => rfl)
  | sent =>
    obtain rfl := Option.some.inj hw.1
    exact ⟨_, h.emit_row hop _, hstop, hm.1, .inl hstep⟩
  | pass => exact ⟨h, hstep⟩
  | choose turn =>
    obtain ⟨o, -, -, rfl⟩ := takeTurn_some turn
    exact ⟨h.congr rfl rfl rfl fun _ _ => rfl, hstep⟩
  | put_refused aborted => exact htold (hab _ aborted)
  | put_late => exact hfatal _ h
  | put => exact ⟨h.congr rfl rfl rfl fun _ _ => rfl, hstep⟩
  | tell => exact ⟨h.congr rfl rfl rfl fun _ _ => rfl, hstep⟩
  | tell_nobody => exact ⟨h, hstep⟩

theorem Sent.congr {o : Outlet} {put put' : Nat → List Row} {rows : List Row} (h : o.Sent put rows)
    (hput : ∀ c ∈ o.channels, put' c = put c) : o.Sent put' rows :=
  ⟨h.next, fun i c hi => (hput c (List.mem_of_getElem? hi)).trans (h.put i c hi)⟩

theorem mem_outputChannels {h : Nat} {o : Outlet} {c : Nat} (ho : p.outputs[h]? = some o)
    (hc : c ∈ o.channels) : c ∈ p.outputChannels :=
  List.mem_flatMap.mpr ⟨o, List.mem_of_getElem? ho, hc⟩

theorem AtRest.congr {out : List Emission} {put put' : Nat → List Row} (h : p.AtRest out put)
    (hput : ∀ c ∈ p.outputChannels, put' c = put c) : p.AtRest out put' :=
  ⟨h.turn, fun g o ho => Sent.congr (h.hops g o ho) fun c hc => hput c (mem_outputChannels ho hc)⟩

theorem Writes.congr {out : List Emission} {e : Emission} {put put' : Nat → List Row}
    {call : Writing} (h : p.Writes out e put call)
    (hput : ∀ c ∈ p.outputChannels, put' c = put c) : p.Writes out e put' call := by
  have hsent {g : Nat} {o : Outlet} {rows : List Row} (ho : p.outputs[g]? = some o)
      (hs : o.Sent put rows) : o.Sent put' rows :=
    Sent.congr hs fun c hc => hput c (mem_outputChannels ho hc)
  have hsending {hops : List Nat} {row : Row} (hs : p.Sending out e put hops row) :
      p.Sending out e put' hops row :=
    ⟨hs.turn, hs.nodup, hs.ahead, fun g o hg ho => hsent ho (hs.waiting g o hg ho),
      fun g o hg ho => hsent ho (hs.gone g o hg ho)⟩
  cases call with
  | every row => exact ⟨h.1, h.2.congr hput⟩
  | only hop row => exact ⟨h.1, h.2.congr hput⟩
  | send hops row => exact ⟨h.1, hsending h.2⟩
  | signal channel hops row => exact ⟨h.1, hsending h.2⟩
  | deliver channel hops row =>
    obtain ⟨he, hd⟩ := h
    obtain ⟨g, o, hg, ho, hne, hc, hnext, hputs, hahead, hgone⟩ := hd.current
    refine ⟨he, hd.turn, hd.nodup, hd.ahead, fun g o hg ho => hsent ho (hd.waiting g o hg ho), g, o,
      hg, ho, hne, hc, hnext, fun i c hi => ?_, hahead,
      fun g' o' hg' hne' ho' => hsent ho' (hgone g' o' hg' hne' ho')⟩
    rw [hput c (mem_outputChannels ho (List.mem_of_getElem? hi))]
    exact hputs i c hi

end Border

end Sluice
