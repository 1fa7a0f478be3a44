import Sluice.Proofs.Run.Closing
import Sluice.Proofs.Run.Owed

/-!
Runs that are stopping. Once the flag is up, every channel is aborted, or somebody is about to abort
what is left; a run that was stopped before it began has units that do not begin a batch.
-/

namespace Sluice

variable {σ : Type}

/-- Not inside a batch. -/
def RunUnit.Inert (u : RunUnit σ) : Prop :=
  match u.stage with
  | .working _ | .reading _ _ | .writing _ _ => False
  | _ => True

namespace RunUnit

variable {u u' : RunUnit σ} {net : Net} {armed : List String} {t : Touch}

theorem Inert.moved (h : u.Inert) (hs : net.stopping = true) (hm : u.Moved net armed t u') :
    u'.Inert := by
  unfold Inert at h
  cases hm with
  | batch _ stopping => simp [hs] at stopping
  | batch_over stage | begin_read stage | begin_write stage | count_fault stage | pass_fault stage
  | ask_stop stage | read_on stage | read_done stage | write_on stage | write_done stage =>
    simp [stage] at h
  | _ => trivial

theorem Owing.raises (h : u.Owing (net.stopping = true)) (hm : u.Moved net armed .raise u')
    (hs : net.stopping = false) : u'.stage = .failing [.abortAll, .notifyAll] := by
  obtain ⟨action, rest, owed, does, ⟨stage, rfl⟩ | ⟨ending, stage, -⟩⟩ := hm.ends (.inl rfl)
  · simp only [Owing, stage] at h
    cases does
    have hall := h.raised.resolve_right (by simp [hs])
    simp only [NetAction.stopAll, List.cons.injEq, true_and] at hall
    simp [hall]
  · simp only [Owing, stage] at h
    cases does
    obtain ⟨c, -, he | he⟩ := h _ List.mem_cons_self <;> cases he

end RunUnit

namespace Run

/-- A stop under way, from outside or of a unit that failed, with this left to do. -/
def Halts (r : Run σ) (todo : List NetAction) : Prop :=
  todo ∈ r.stops ∨ ∃ u ∈ r.units, u.stage = .failing todo

/-- All is aborted, or will be, or nobody is in a batch. -/
def Braked (r : Run σ) : Prop :=
  (∀ u ∈ r.units, u.Inert) ∨ r.net.AllAborted ∨ ∃ todo, r.Halts todo ∧ r.net.Covered todo

def Braking (r : Run σ) : Prop :=
  r.net.stopping = true → r.Braked

variable {r r' : Run σ} {party : Party} {t : Touch}

theorem Stepped.raises (h : r.Stepped party .raise r') (ho : r.Orderly)
    (hs : r.net.stopping = false) : r'.Halts [.abortAll, .notifyAll] := by
  cases h with
  | unit at_i moved =>
    have hlt := (List.getElem?_eq_some_iff.mp at_i).1
    exact .inr ⟨_, List.mem_set hlt _, (ho.units _ (List.mem_of_getElem? at_i)).raises moved hs⟩
  | producer at_k moved =>
    have howing := ho.producers _ (List.mem_of_getElem? at_k)
    cases moved with
    | act todo does =>
      cases does
      obtain ⟨c, -, he | he⟩ := howing _ (todo ▸ List.mem_cons_self) <;> cases he
  | @stop k action rest owed _ _ at_k does =>
    have hlt := (List.getElem?_eq_some_iff.mp at_k).1
    cases does
    have hall := (ho.stops _ (List.mem_of_getElem? at_k)).raised.resolve_right (by simp [hs])
    simp only [NetAction.stopAll, List.cons.injEq, true_and] at hall
    refine .inl ?_
    subst hall
    exact List.mem_set hlt _

theorem Halts.stepped {todo : List NetAction} (h : r.Halts todo) (hc : r.net.Covered todo)
    (hs : r.Stepped party t r') : r'.Braked := by
  have ht := hs.touched
  obtain hmem | ⟨u, hu, hstage⟩ := h
  · cases hs with
    | unit => exact .inr (.inr ⟨todo, .inl hmem, hc.touched ht⟩)
    | producer => exact .inr (.inr ⟨todo, .inl hmem, hc.touched ht⟩)
    | @stop k action rest owed _ _ at_k does =>
      have hlt := (List.getElem?_eq_some_iff.mp at_k).1
      obtain rfl | hmem := List.eq_or_mem_set at_k hmem (owed ++ rest)
      · exact .inr (.inr ⟨_, .inl (List.mem_set hlt _), does.covered ht hc⟩)
      · exact .inr (.inr ⟨todo, .inl hmem, hc.touched ht⟩)
  · obtain ⟨i, hi⟩ := List.getElem?_of_mem hu
    obtain ⟨v, hv, rfl | hm⟩ := hs.forth hi
    · exact .inr (.inr ⟨todo, .inr ⟨v, List.mem_of_getElem? hv, hstage⟩, hc.touched ht⟩)
    · cases hm with
      | stop_on stage does =>
        rw [hstage, Stage.failing.injEq] at stage
        subst stage
        exact .inr (.inr ⟨_, .inr ⟨_, List.mem_of_getElem? hv, rfl⟩, does.covered ht hc⟩)
      | failed stage =>
        rw [hstage, Stage.failing.injEq] at stage
        subst stage
        exact .inr (.inl (hc.done.touched ht))
      | _ => simp_all

theorem Braking.stepped (h : r.Braking) (ho : r.Orderly) (hs : r.Stepped party t r') :
    r'.Braking := by
  intro hstop
  have ht := hs.touched
  cases hbefore : r.net.stopping with
  | true =>
    obtain hinert | hall | ⟨todo, hhalts, hcovered⟩ := h hbefore
    · refine .inl fun v hv => ?_
      obtain ⟨i, u, hu, rfl | hm⟩ := hs.back hv
      · exact hinert v (List.mem_of_getElem? hu)
      · exact (hinert u (List.mem_of_getElem? hu)).moved hbefore hm
    · exact .inr (.inl (hall.touched ht))
    · exact hhalts.stepped hcovered hs
  | false =>
    obtain rfl : t = .raise := by
      by_contra hne
      rw [ht.stopping_of_ne hne, hbefore] at hstop
      cases hstop
    exact .inr (.inr ⟨_, hs.raises ho hbefore, .inl (by simp)⟩)

theorem Afoot.inert (h : r.Afoot) (hp : r.phase = .prepared) {u : RunUnit σ} (hu : u ∈ r.units) :
    u.Inert := by
  simp [RunUnit.Inert, (h.unstarted u hu).mpr hp]

theorem Braking.attended (h : r.Braking) (ha : r.Attended r') : r'.Braking := by
  intro hstop
  rw [ha.net] at hstop
  obtain hinert | hall | ⟨todo, hhalts, hcovered⟩ := h hstop
  · exact .inl (ha.units ▸ hinert)
  · exact .inr (.inl (ha.net ▸ hall))
  · refine .inr (.inr ⟨todo, ?_, ha.net ▸ hcovered⟩)
    obtain hmem | hunit := hhalts
    · obtain hs | hs := ha.stops
      · exact .inl (hs ▸ hmem)
      · exact .inl (hs ▸ List.mem_append_left _ hmem)
    · exact .inr (ha.units ▸ hunit)

theorem braking_conveys (r : Run σ) (d : Deed) : Conveys r d Braking Braking := by
  refine ⟨fun r' _ _ _ _ hl hp _ => .inl fun u hu => hl.inert hp hu,
    fun r' manifest _ ho hl hp _ hr' _ => ?_, fun _ _ _ _ h ha => h.attended ha,
    fun _ _ _ _ ho _ _ h _ hs => h.stepped ho hs⟩
  subst hr'
  refine .inl fun v hv => ?_
  obtain ⟨u, -, -, rfl⟩ := hl.spawned hp hv
  trivial

/-- Where nobody can move and the flag is up, no unit is in a batch or all channels are aborted. -/
theorem Stuck.braked (h : r.Stuck) (hb : r.Braking) (hs : r.net.stopping = true) :
    (∀ u ∈ r.units, u.Inert) ∨ r.net.AllAborted := by
  obtain hinert | hall | ⟨todo, hmem | ⟨u, hu, hstage⟩, hcovered⟩ := hb hs
  · exact .inl hinert
  · exact .inr hall
  · obtain rfl := h.stop hmem
    exact .inr hcovered.done
  · obtain ⟨i, hi⟩ := List.getElem?_of_mem hu
    have hnone := h.unit hi
    rcases todo with _ | ⟨action, rest⟩ <;> simp [RunUnit.move, hstage] at hnone

end Run

end Sluice
