import Sluice.Proofs.Run.Steady

/-!
Ends of streams. A unit closes its output channels on its way out, all of them and not before; one
that failed has seen to it that every channel is aborted first; and an input is at its end only when
its channel is closed and empty.
-/

namespace Sluice

namespace Net

def AllAborted (net : Net) : Prop :=
  ∀ c < net.links.length, net.Aborted c

/-- What is owed will leave every channel aborted. -/
def Covered (net : Net) (todo : List NetAction) : Prop :=
  .abortAll ∈ todo ∨ ∀ c < net.links.length, net.Aborted c ∨ .abort c ∈ todo

/-- What is owed will leave the first channels aborted, so many of them. -/
def CoveredTo (net : Net) (n : Nat) (todo : List NetAction) : Prop :=
  .abortAll ∈ todo ∨ ∀ c < n, net.Aborted c ∨ .abort c ∈ todo

variable {net net' : Net} {t : Touch} {n : Nat} {todo : List NetAction}

theorem coveredTo_stopAll (net : Net) (n : Nat) : net.CoveredTo n NetAction.stopAll :=
  .inl (by simp [NetAction.stopAll])

theorem CoveredTo.done (h : net.CoveredTo n []) : ∀ c < n, net.Aborted c := fun c hc => by
  simpa using h.resolve_left (by simp) c hc

theorem CoveredTo.mono (h : net.CoveredTo n todo) (ha : ∀ c, net.Aborted c → net'.Aborted c) :
    net'.CoveredTo n todo :=
  h.imp_right fun hall c hc => (hall c hc).imp_left (ha c)

theorem covered_iff : net.Covered todo ↔ net.CoveredTo net.links.length todo := Iff.rfl

theorem covered_stopAll (net : Net) : net.Covered NetAction.stopAll :=
  net.coveredTo_stopAll _

theorem Covered.done (h : net.Covered []) : net.AllAborted :=
  CoveredTo.done h

theorem Covered.touched (h : net.Covered todo) (ht : net.Touched t net') : net'.Covered todo := by
  rw [covered_iff, ht.links_length]
  exact CoveredTo.mono h fun c => ht.aborted

theorem AllAborted.touched (h : net.AllAborted) (ht : net.Touched t net') : net'.AllAborted := by
  intro c hc
  rw [ht.links_length] at hc
  exact ht.aborted (h c hc)

end Net

theorem NetAction.Does.coveredTo {net net' : Net} {t : Touch} {a : NetAction} {n : Nat}
    {owed rest : List NetAction} (h : a.Does net t owed) (ht : net.Touched t net')
    (hn : n ≤ net.links.length) (hc : net.CoveredTo n (a :: rest)) :
    net'.CoveredTo n (owed ++ rest) := by
  have hkeep (hne : a ≠ .abortAll) (habort : ∀ c < n, a = .abort c → net'.Aborted c) :
      net'.CoveredTo n (owed ++ rest) := by
    rcases hc with hc | hc
    · exact .inl (List.mem_append_right _ ((List.mem_cons.mp hc).resolve_left (Ne.symm hne)))
    · refine .inr fun c hlt => ?_
      rcases hc c hlt with ha | ha
      · exact .inl (ht.aborted ha)
      · rcases List.mem_cons.mp ha with rfl | ha
        · exact .inl (habort c hlt rfl)
        · exact .inr (List.mem_append_right _ ha)
  cases h with
  | abortAll =>
    refine .inr fun c hlt => .inr (List.mem_append_left _ ?_)
    exact List.mem_map_of_mem (List.mem_range.mpr (hlt.trans_le hn))
  | abort =>
    refine hkeep (by simp) ?_
    rintro c hlt he
    cases he
    exact ht.aborts
  | abort_again again =>
    refine hkeep (by simp) ?_
    rintro c hlt he
    cases he
    exact ht.aborted (again.resolve_left (Net.channel?_ne_none (hlt.trans_le hn)))
  | _ => exact hkeep (by simp) (by simp)

theorem NetAction.Does.covered {net net' : Net} {t : Touch} {a : NetAction}
    {owed rest : List NetAction} (h : a.Does net t owed) (ht : net.Touched t net')
    (hc : net.Covered (a :: rest)) : net'.Covered (owed ++ rest) := by
  rw [Net.covered_iff, ht.links_length]
  exact h.coveredTo ht le_rfl hc

variable {σ : Type}

namespace RunUnit

/-- How far a unit is with closing its outputs. -/
def Closes (u : RunUnit σ) (net : Net) : Prop :=
  match u.stage with
  | .closing todo _ => ∀ c ∈ u.border.outputChannels, net.Closed c ∨ .close c ∈ todo
  | .disposing _ | .leaving _ | .ended => ∀ c ∈ u.border.outputChannels, net.Closed c
  | _ => ∀ c ∈ u.border.outputChannels, ¬ net.Closed c

/-- A unit that failed stops the run before it leaves. -/
def Fails (u : RunUnit σ) (net : Net) : Prop :=
  match u.stage with
  | .failing todo => net.Covered todo
  | _ => u.ending = some .errored → net.AllAborted

variable {u u' : RunUnit σ} {net net' : Net} {armed : List String} {t : Touch}

theorem Closes.touched (h : u.Closes net) (ht : net.Touched t net')
    (hne : ∀ c ∈ u.border.outputChannels, t ≠ .close c) : u.Closes net' := by
  have hopen (ho : ∀ c ∈ u.border.outputChannels, ¬ net.Closed c) :
      ∀ c ∈ u.border.outputChannels, ¬ net'.Closed c := fun c hc hcl =>
    (ht.closed_inv hcl).elim (ho c hc) (hne c hc)
  unfold Closes at h ⊢
  cases hs : u.stage with
  | closing todo e =>
    simp only [hs] at h ⊢
    exact fun c hc => (h c hc).imp_left ht.closed
  | disposing | leaving | ended =>
    simp only [hs] at h ⊢
    exact fun c hc => ht.closed (h c hc)
  | _ =>
    simp only [hs] at h ⊢
    exact hopen h

/-- Only a unit whose end is settled has closed an output. -/
theorem Closes.settled (h : u.Closes net) (hl : u.Lively) {c : Nat}
    (hc : c ∈ u.border.outputChannels) (hcl : net.Closed c) : u.ending.isSome := by
  unfold Closes at h
  cases hs : u.stage with
  | closing | disposing => simp [ending, hs]
  | leaving states => exact hl.settled hs
  | ended =>
    obtain ⟨e, -, he, -⟩ := hl.ended hs
    simp [he]
  | _ =>
    simp only [hs] at h
    exact absurd hcl (h c hc)

theorem closes_leave (u : RunUnit σ) (e : UnitState) (net : Net) : (u.leave e).Closes net :=
  fun _ hc => .inr (List.mem_map_of_mem hc)

theorem Judged.closes {r : Except Halt BatchOutcome} (h : u.Judged r u')
    (hopen : ∀ c ∈ u.border.outputChannels, ¬ net.Closed c) : u'.Closes net := by
  cases h with
  | finished => exact closes_leave _ _ _
  | stopped => exact closes_leave _ _ _
  | _ => exact hopen

theorem Closes.moved (h : u.Closes net) (ho : u.Owing (net.stopping = true))
    (hm : u.Moved net armed t u') (ht : net.Touched t net')
    (hlt : ∀ c ∈ u.border.outputChannels, c < net.links.length) : u'.Closes net' := by
  have hstay (hne : ∀ c, t ≠ .close c) (hopen : ∀ c ∈ u.border.outputChannels, ¬ net.Closed c) :
      ∀ c ∈ u'.border.outputChannels, ¬ net'.Closed c := fun c hc hcl =>
    (ht.closed_inv hcl).elim (hopen c (hm.outputs ▸ hc)) (hne c)
  have hshut (hall : ∀ c ∈ u.border.outputChannels, net.Closed c) :
      ∀ c ∈ u'.border.outputChannels, net'.Closed c := fun c hc =>
    ht.closed (hall c (hm.outputs ▸ hc))
  have hclose (c : Nat) (he : t = .close c) : ∃ rest e, u.stage = .closing (.close c :: rest) e := by
    subst he
    exact (ho.closes hm).2
  unfold Closes at h
  cases hm with
  | misplaced => exact closes_leave _ _ _
  | see_stop => exact closes_leave _ _ _
  | no_step => exact closes_leave _ _ _
  | failed => exact closes_leave _ _ _
  | batch_over stage judged =>
    simp only [stage] at h
    exact judged.closes fun c hc hcl => (ht.closed_inv hcl).elim (h c hc) (by simp)
  | close_on stage does =>
    simp only [stage] at h
    intro c hc
    rcases h c hc with hcl | hmem
    · exact .inl (ht.closed hcl)
    · rcases List.mem_cons.mp hmem with rfl | hmem
      · cases does with
        | close => exact .inl ht.closes
        | close_again again =>
          refine .inl (ht.closed (again.resolve_left ?_))
          simp [Net.channel?, hlt c hc]
      · exact .inr (List.mem_append_right _ hmem)
  | closed stage =>
    simp only [stage] at h
    exact hshut fun c hc => by simpa using h c hc
  | disposed stage =>
    simp only [stage] at h
    exact hshut h
  | enter stage =>
    simp only [stage] at h
    exact hshut h
  | exit stage =>
    simp only [stage] at h
    exact hshut h
  | read_on stage | read_done stage | write_on stage | write_done stage | stop_on stage
  | spawn stage | trip stage | batch stage | begin_read stage | begin_write stage
  | count_fault stage | pass_fault stage
  | ask_stop stage =>
    simp only [stage] at h
    refine hstay (fun c he => ?_) h
    obtain ⟨rest, e, hs⟩ := hclose c he
    simp [stage] at hs

theorem fails_iff (hs : ∀ todo, u.stage ≠ .failing todo) :
    u.Fails net ↔ (u.ending = some .errored → net.AllAborted) := by
  unfold Fails
  split
  · exact absurd ‹_› (hs _)
  · rfl

theorem Fails.touched (h : u.Fails net) (ht : net.Touched t net') : u.Fails net' := by
  by_cases hs : ∃ todo, u.stage = .failing todo
  · obtain ⟨todo, hs⟩ := hs
    simp only [Fails, hs] at h ⊢
    exact h.touched ht
  · rw [not_exists] at hs
    rw [fails_iff hs] at h ⊢
    exact fun he => (h he).touched ht

theorem Fails.errored (h : u.Fails net) (he : u.ending = some .errored) : net.AllAborted := by
  refine (fails_iff fun todo hs => ?_).mp h he
  simp [ending, hs] at he

theorem Judged.fails {r : Except Halt BatchOutcome} (h : u.Judged r u') : u'.Fails net := by
  cases h with
  | bad_row => exact net.covered_stopAll
  | broken => exact net.covered_stopAll
  | panicked => exact net.covered_stopAll
  | _ => simp [Fails, leave, ending]

theorem Fails.moved (h : u.Fails net) (hl : u.Lively) (hm : u.Moved net armed t u')
    (ht : net.Touched t net') : u'.Fails net' := by
  have hkeep (hs : u.ending.isSome) (hf : ∀ todo, u.stage ≠ .failing todo)
      (hf' : ∀ todo, u'.stage ≠ .failing todo) : u'.Fails net' := by
    obtain ⟨e, he⟩ := Option.isSome_iff_exists.mp hs
    rw [fails_iff hf, he] at h
    rw [fails_iff hf', hl.ending_moved hm he]
    exact fun he => (h he).touched ht
  cases hm with
  | trip => exact net'.covered_stopAll
  | batch_over _ judged => exact judged.fails
  | stop_on stage does =>
    simp only [Fails, stage] at h
    exact does.covered ht h
  | failed stage =>
    simp only [Fails, stage] at h
    exact fun _ => h.done.touched ht
  | close_on stage => exact hkeep (by simp [ending, stage]) (by simp [stage]) (by simp)
  | closed stage => exact hkeep (by simp [ending, stage]) (by simp [stage]) (by simp)
  | disposed stage => exact hkeep (by simp [ending, stage]) (by simp [stage]) (by simp)
  | enter stage => exact hkeep (hl.settled stage) (by simp [stage]) (by simp)
  | exit stage => exact hkeep (hl.settled stage) (by simp [stage]) (by simp)
  | _ => simp [Fails, leave, ending]

/-- The inputs of a unit stay as they are, but for one whose channel is found closed, empty and not
aborted. -/
theorem Moved.inputs (hm : u.Moved net armed t u') : u'.border.inputs = u.border.inputs ∨
    ∃ (k : Nat) (inlet : Inlet), u.border.inputs[k]? = some inlet ∧ net.Drained inlet.channel ∧
      ¬ net.Aborted inlet.channel ∧ u'.border.inputs = (u.border.finishInput k).inputs := by
  cases hm with
  | batch_over _ judged => cases judged <;> exact .inl rfl
  | read_on _ step =>
    cases step with
    | scan_ended _ at_i _ drained unaborted => exact .inr ⟨_, _, at_i, drained, unaborted, rfl⟩
    | _ => exact .inl rfl
  | read_done _ step =>
    cases step with
    | received_end at_i drained unaborted => exact .inr ⟨_, _, at_i, drained, unaborted, rfl⟩
    | _ => exact .inl rfl
  | write_on _ step =>
    cases step with
    | choose turn =>
      obtain ⟨o, -, -, rfl⟩ := Border.takeTurn_some turn
      exact .inl rfl
    | _ => exact .inl rfl
  | write_done _ step => cases step <;> exact .inl rfl
  | disposed =>
    refine .inl ?_
    unfold disposeStep
    split
    · rfl
    · dsimp only
      split <;> rfl
  | _ => exact .inl rfl

theorem Moved.finished (hm : u.Moved net armed t u') {inlet : Inlet}
    (hi : inlet ∈ u'.border.inputs) (hf : inlet.finished = true) :
    inlet ∈ u.border.inputs ∨ net.Drained inlet.channel ∧ ¬ net.Aborted inlet.channel := by
  obtain heq | ⟨k, inlet', hk, hd, ha, heq⟩ := hm.inputs
  · exact .inl (heq ▸ hi)
  · rw [heq] at hi
    obtain hi | ⟨old, hold, rfl⟩ := List.mem_modify hi
    · exact .inl hi
    · rw [hk, Option.some.injEq] at hold
      subst hold
      exact .inr ⟨hd, ha⟩

theorem Moved.inputFinished (hm : u.Moved net armed t u') {k : Nat} (hk : k < u.border.inputs.length)
    (hf : u.border.inputFinished k = true) : u'.border.inputFinished k = true := by
  obtain heq | ⟨i, inlet, -, -, -, heq⟩ := hm.inputs
  · unfold Border.inputFinished at hf ⊢
    rw [heq]
    exact hf
  · have hfinished := (Border.inputFinished_finishInput (i := i) hk).mpr (.inr hf)
    unfold Border.inputFinished at hfinished ⊢
    rw [heq]
    exact hfinished

end RunUnit

namespace Run

structure Closing (r : Run σ) : Prop where
  closes : ∀ u ∈ r.units, u.Closes r.net
  fails : ∀ u ∈ r.units, u.Fails r.net
  drained : ∀ u ∈ r.units, ∀ inlet ∈ u.border.inputs, inlet.finished = true →
    r.net.Drained inlet.channel

section

variable {r r' : Run σ}

theorem Closing.stepped (h : r.Closing) (ho : r.Orderly) (hl : r.Afoot) {party : Party} {t : Touch}
    (hs : r.Stepped party t r') : r'.Closing := by
  have ht := hs.touched
  have hother {k : Nat} {v : RunUnit σ} (hv : r.units[k]? = some v)
      (hp : party ≠ .unit k) : v.Closes r'.net := by
    refine (h.closes v (List.mem_of_getElem? hv)).touched ht ?_
    rintro c hc rfl
    exact hp (hl.closer ho hv hc hs).1
  have hall (hp : ∀ k, party ≠ .unit k) (hu : r'.units = r.units) : r'.Closing := by
    refine ⟨fun v hv => ?_, fun v hv => ?_, fun v hv inlet hi hf => ?_⟩
    · obtain ⟨k, hk⟩ := List.getElem?_of_mem (hu ▸ hv)
      exact hother hk (hp k)
    · exact (h.fails v (hu ▸ hv)).touched ht
    · exact ht.drained (h.drained v (hu ▸ hv) inlet hi hf)
  cases hs with
  | @unit i u u' t net calls at_i moved touched =>
    have hmem := List.mem_of_getElem? at_i
    refine ⟨fun v hv => ?_, fun v hv => ?_, fun v hv inlet hi hf => ?_⟩
    · obtain rfl | ⟨k, hk, hv⟩ := List.mem_set_cases hv
      · exact (h.closes u hmem).moved (ho.units u hmem) moved touched fun c hc => hl.out_lt hmem hc
      · exact hother hv (by simpa using Ne.symm hk)
    · rcases List.mem_or_eq_of_mem_set hv with hv | rfl
      · exact (h.fails v hv).touched touched
      · exact (h.fails u hmem).moved (hl.lively u hmem) moved touched
    · rcases List.mem_or_eq_of_mem_set hv with hv | rfl
      · exact touched.drained (h.drained v hv inlet hi hf)
      · obtain hi | ⟨hd, -⟩ := moved.finished hi hf
        · exact touched.drained (h.drained u hmem inlet hi hf)
        · exact touched.drained hd
  | producer => exact hall (by simp) rfl
  | stop => exact hall (by simp) rfl

theorem Afoot.closing (h : r.Afoot) (hp : r.phase = .prepared) : r.Closing := by
  obtain ⟨writer, hsound⟩ := h.sound
  have hstage (u : RunUnit σ) (hu : u ∈ r.units) : u.stage = .unstarted :=
    (h.unstarted u hu).mpr hp
  refine ⟨fun u hu => ?_, fun u hu => ?_, fun u hu inlet hi hf => ?_⟩
  · simp only [RunUnit.Closes, hstage u hu]
    intro c hc hcl
    obtain ⟨i, hi⟩ := List.getElem?_of_mem hu
    rw [← chart_outs hi] at hc
    exact hsound.out_not_fed hc (h.calm hp c hcl)
  · simp [RunUnit.Fails, RunUnit.ending, hstage u hu]
  · simp [h.unread hp u hu inlet hi] at hf

theorem Closing.started (h : r.Closing) (hl : r.Afoot) (hp : r.phase = .prepared)
    {manifest : Option Manifest} :
    Closing { r with phase := .running, manifest, units := r.units.map RunUnit.spawn } := by
  refine ⟨fun v hv => ?_, fun v hv => ?_, fun v hv inlet hi hf => ?_⟩
  · obtain ⟨u, hu, hs, rfl⟩ := hl.spawned hp hv
    have := h.closes u hu
    simp only [RunUnit.Closes, hs] at this ⊢
    exact this
  · obtain ⟨u, -, -, rfl⟩ := hl.spawned hp hv
    simp [RunUnit.Fails, RunUnit.ending]
  · obtain ⟨u, hu, -, rfl⟩ := hl.spawned hp hv
    exact h.drained u hu inlet hi hf

theorem Closing.attended (h : r.Closing) (ha : r.Attended r') : r'.Closing := by
  constructor
  · rw [ha.units, ha.net]
    exact h.closes
  · rw [ha.units, ha.net]
    exact h.fails
  · rw [ha.units, ha.net]
    exact h.drained

theorem closing_conveys (r : Run σ) (d : Deed) : Conveys r d Closing Closing :=
  ⟨fun _ _ _ _ _ hl hp => hl.closing hp,
    fun _ _ _ _ hl hp _ hr => hr ▸ (hl.closing hp).started hl hp,
    fun _ _ _ _ h ha => h.attended ha, fun _ _ _ _ ho hl _ h _ hs => h.stepped ho hl hs⟩

end

variable {r : Run StepMemory} {l : Ledger}

theorem Live.finished_journal (h : r.Live l) {u : RunUnit StepMemory} (hu : u ∈ r.units)
    (he : u.ending = some .finished) : ∃ t m j, u.Staffed r.graph t m ∧ u.border.Journaled j l ∧
      u.border.AtRest j.out l.put ∧ j.AllEnded u.site ∧ (m.contract u.site).finished j := by
  obtain ⟨type, m, hstaffed, ht⟩ := h.staffed u hu
  obtain ⟨j, hj⟩ := (ht.concluded he).1 rfl
  exact ⟨type, m, j, hstaffed, hj⟩

/-- A unit that finished has read every input to its end. -/
theorem Live.read_all (h : r.Live l) {u : RunUnit StepMemory} (hu : u ∈ r.units)
    (he : u.ending = some .finished) {c : Nat} (hc : c ∈ u.border.inputChannels) :
    ∃ inlet ∈ u.border.inputs, inlet.finished = true ∧ inlet.channel = c := by
  obtain ⟨type, m, j, -, hj, -, hall, -⟩ := h.finished_journal hu he
  obtain ⟨inlet, hi, rfl⟩ := List.mem_map.mp hc
  obtain ⟨k, hk⟩ := List.getElem?_of_mem hi
  have hlt := (List.getElem?_eq_some_iff.mp hk).1
  have hf := (hj.ended k hlt).mp (hall k hlt)
  rw [Border.inputFinished_iff hk] at hf
  exact ⟨inlet, hi, hf, rfl⟩

theorem Live.inputs_read (h : r.Live l) (hc : r.Closing) {u : RunUnit StepMemory} (hu : u ∈ r.units)
    {j : Journal} (hj : u.border.Journaled j l) (hall : j.AllEnded u.site) :
    u.border.inputChannels.map l.put = (List.range u.border.inputs.length).map j.from := by
  refine List.ext_getElem (by simp [Border.inputChannels]) fun k hk _ => ?_
  have hlt : k < u.border.inputs.length := by simpa [Border.inputChannels] using hk
  have hat := List.getElem?_eq_getElem hlt
  have hf := (hj.ended k hlt).mp (hall k hlt)
  rw [Border.inputFinished_iff hat] at hf
  obtain ⟨ch, hch, -, hq⟩ := hc.drained u hu _ (List.getElem_mem hlt) hf
  simp [Border.inputChannels, (h.fits _ ch hch).queue, hq, hj.taken k _ hat]

end Run

end Sluice
