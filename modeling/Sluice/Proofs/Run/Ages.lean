import Mathlib.Data.List.Destutter
import Sluice.Proofs.Run.Todo
import Sluice.Run.Lifetime

/-!
How units age. Whatever happens to a run, no unit of it goes back to a state it has left: whoever
looks sees one way through life, with at most one end on it.
-/

namespace Sluice

theorem List.sublist_destutter'_of_isChain {α : Type} [DecidableEq α] {a : α} {l m : List α}
    (hm : m.IsChain (· ≠ ·)) (h : m.Sublist (a :: l)) :
    m.Sublist (l.destutter' (· ≠ ·) a) := by
  induction l generalizing a m with
  | nil => exact h
  | cons b l ih =>
    by_cases hab : a = b
    · subst hab
      rw [List.destutter'_cons_neg _ (by simp)]
      refine ih hm ?_
      cases h with
      | cons _ h => exact h
      | @cons_cons m' _ _ h =>
        refine List.cons_sublist_cons.mpr ?_
        cases h with
        | cons _ h => exact h
        | cons_cons _ h => simp at hm
    · rw [List.destutter'_cons_pos _ hab]
      cases h with
      | cons _ h => exact (ih hm h).cons _
      | cons_cons _ h => exact (ih hm.of_cons h).cons_cons _

/-- Whoever looks only now and then sees no more than who looks all the time. -/
theorem List.destutter_ne_sublist {α : Type} [DecidableEq α] {l m : List α} (h : m.Sublist l) :
    (m.destutter (· ≠ ·)).Sublist (l.destutter (· ≠ ·)) := by
  have hm : (m.destutter (· ≠ ·)).Sublist l := (m.destutter_sublist (· ≠ ·)).trans h
  cases l with
  | nil => simpa using hm
  | cons a l => exact List.sublist_destutter'_of_isChain (m.isChain_destutter (· ≠ ·)) hm

namespace UnitState

/-- Stays, or moves on. -/
def Ages (s t : UnitState) : Prop :=
  t = s ∨ s.canMoveTo t = true

def Ways (way : List UnitState) : Prop :=
  way = [.created, .initialized, .disposed] ∨
    ∃ e : UnitState, e.isEnd = true ∧ way = [.created, .initialized, .running, e, .disposed]

theorem onward_of_ages {s : UnitState} {l : List UnitState} (h : (s :: l).IsChain Ages) :
    ∃ rest, l.destutter' (· ≠ ·) s = s :: rest ∧
      (s :: rest).IsChain fun a b => a.canMoveTo b = true := by
  induction l generalizing s with
  | nil => exact ⟨[], rfl, .singleton s⟩
  | cons t l ih =>
    obtain ⟨hst, h⟩ := List.isChain_cons_cons.mp h
    obtain ⟨rest, hrest, hchain⟩ := ih h
    by_cases heq : s = t
    · subst heq
      exact ⟨rest, by rw [List.destutter'_cons_neg _ (by simp), hrest], hchain⟩
    · refine ⟨t :: rest, by rw [List.destutter'_cons_pos _ heq, hrest], ?_⟩
      exact .cons_cons (hst.resolve_left (Ne.symm heq)) hchain

section

variable {l : List UnitState}

theorem onward_disposed (h : (disposed :: l).IsChain fun a b => a.canMoveTo b = true) : l = [] := by
  cases l with
  | nil => rfl
  | cons s l => simp [canMoveTo] at h

theorem onward_end {e : UnitState} (he : e.isEnd = true)
    (h : (e :: l).IsChain fun a b => a.canMoveTo b = true) : l <+: [disposed] := by
  cases l with
  | nil => exact List.nil_prefix
  | cons s l =>
    obtain ⟨hs, h⟩ := List.isChain_cons_cons.mp h
    obtain rfl : s = disposed := by cases e <;> cases s <;> simp_all [canMoveTo, isEnd]
    rw [onward_disposed h]

theorem onward_running (h : (running :: l).IsChain fun a b => a.canMoveTo b = true) :
    ∃ e : UnitState, e.isEnd = true ∧ l <+: [e, disposed] := by
  cases l with
  | nil => exact ⟨finished, rfl, List.nil_prefix⟩
  | cons e l =>
    obtain ⟨he, h⟩ := List.isChain_cons_cons.mp h
    exact ⟨e, he, (List.prefix_cons_inj e).mpr (onward_end he h)⟩

theorem onward_initialized (h : (initialized :: l).IsChain fun a b => a.canMoveTo b = true) :
    l <+: [disposed] ∨ ∃ e : UnitState, e.isEnd = true ∧ l <+: [running, e, disposed] := by
  cases l with
  | nil => exact .inl List.nil_prefix
  | cons s l =>
    obtain ⟨hs, h⟩ := List.isChain_cons_cons.mp h
    cases s with
    | running =>
      obtain ⟨e, he, hl⟩ := onward_running h
      exact .inr ⟨e, he, (List.prefix_cons_inj _).mpr hl⟩
    | disposed => rw [onward_disposed h]; exact .inl (List.prefix_refl _)
    | created | initialized | finished | stopped | errored => simp [canMoveTo] at hs

end

theorem way_of_onward {s : UnitState} {l : List UnitState}
    (h : (s :: l).IsChain fun a b => a.canMoveTo b = true) : ∃ way, Ways way ∧ s :: l <:+: way := by
  have hway (before : List UnitState) {after way : List UnitState} (hw : Ways way) (hl : l <+: after)
      (heq : before ++ s :: after = way) : ∃ way, Ways way ∧ s :: l <:+: way :=
    ⟨way, hw, ((List.prefix_cons_inj s).mpr hl).isInfix.trans (List.IsSuffix.isInfix ⟨before, heq⟩)⟩
  by_cases hend : s.isEnd = true
  · exact hway [created, initialized, running] (.inr ⟨s, hend, rfl⟩) (onward_end hend h) rfl
  · cases s with
    | created =>
      cases l with
      | nil => exact hway [] (.inl rfl) List.nil_prefix rfl
      | cons t l =>
        obtain ⟨ht, h⟩ := List.isChain_cons_cons.mp h
        obtain rfl : t = initialized := by cases t <;> simp_all [canMoveTo]
        obtain hl | ⟨e, he, hl⟩ := onward_initialized h
        · exact hway [] (.inl rfl) ((List.prefix_cons_inj _).mpr hl) rfl
        · exact hway [] (.inr ⟨e, he, rfl⟩) ((List.prefix_cons_inj _).mpr hl) rfl
    | initialized =>
      obtain hl | ⟨e, he, hl⟩ := onward_initialized h
      · exact hway [created] (.inl rfl) hl rfl
      · exact hway [created] (.inr ⟨e, he, rfl⟩) hl rfl
    | running =>
      obtain ⟨e, he, hl⟩ := onward_running h
      exact hway [created, initialized] (.inr ⟨e, he, rfl⟩) hl rfl
    | disposed =>
      obtain rfl : l = [] := onward_disposed h
      exact hway [created, initialized] (.inl rfl) List.nil_prefix rfl
    | finished | stopped | errored => exact absurd rfl hend

theorem way_of_ages {l : List UnitState} (h : l.IsChain Ages) :
    ∃ way, Ways way ∧ l.destutter (· ≠ ·) <:+: way := by
  cases l with
  | nil => exact ⟨_, .inl rfl, List.nil_infix⟩
  | cons s l =>
    obtain ⟨rest, hrest, hchain⟩ := onward_of_ages h
    rw [List.destutter_cons', hrest]
    exact way_of_onward hchain

end UnitState

variable {σ : Type}

theorem Lifecycle.advance_ages (l : Lifecycle) (next : UnitState) :
    l.state.Ages (l.advance next).state := by
  unfold advance advance?
  split
  · exact .inr ‹_›
  · exact .inl rfl

namespace RunUnit

variable {u u' : RunUnit σ} {net : Net} {armed : List String} {t : Touch}

/-- The same unit, some time later. -/
structure Ages (u v : RunUnit σ) : Prop where
  id : v.id = u.id
  state : u.life.state.Ages v.life.state

theorem ages_self (u : RunUnit σ) : u.Ages u :=
  ⟨rfl, .inl rfl⟩

theorem Moved.ages (h : u.Moved net armed t u') : u.Ages u' := by
  refine ⟨h.id, ?_⟩
  cases h with
  | @spawn life _ advance =>
    have hlife : life = u.life.advance .running := by simp [Lifecycle.advance, advance]
    rw [hlife]
    exact u.life.advance_ages _
  | enter => exact u.life.advance_ages _
  | disposed => exact .inl (congrArg Lifecycle.state (disposeStep_life u))
  | batch_over _ judged => cases judged <;> exact .inl rfl
  | _ => exact .inl rfl

end RunUnit

theorem Disposal.ofUnits_ages (units : List (RunUnit σ)) :
    List.Forall₂ RunUnit.Ages units (ofUnits units).units := by
  have hself (units : List (RunUnit σ)) : List.Forall₂ RunUnit.Ages units units :=
    List.forall₂_same.mpr fun u _ => u.ages_self
  induction units with
  | nil => exact .nil
  | cons u rest ih =>
    unfold ofUnits
    split
    · exact .cons u.ages_self ih
    · dsimp only
      split
      · exact .cons ⟨rfl, .inl rfl⟩ (hself rest)
      · exact .cons ⟨rfl, u.life.advance_ages .disposed⟩ ih

namespace Run

variable {r r' : Run σ} {d : Deed}

theorem Acted.ages (ha : r.Acted d r') :
    r.phase = .new ∧ r'.phase ≠ .new ∨ List.Forall₂ RunUnit.Ages r.units r'.units := by
  have hself : List.Forall₂ RunUnit.Ages r.units r.units :=
    List.forall₂_same.mpr fun u _ => u.ages_self
  have hmodify {f : RunUnit σ → RunUnit σ} (hf : ∀ u : RunUnit σ, u.Ages (f u)) (i : Nat) :
      List.Forall₂ RunUnit.Ages r.units (r.units.modify i f) :=
    List.forall₂_modify (fun u _ => u.ages_self) (fun u _ => hf u) i
  cases ha with
  | spoiled phase | shelved phase | prepared phase => exact .inl ⟨phase, by simp⟩
  | idle | unwound | offered | finishing | stopped | waited => exact .inr hself
  | fed =>
    refine .inr (hmodify (fun _ => ?_) _)
    exact ⟨rfl, .inl rfl⟩
  | observed =>
    refine .inr (hmodify (fun _ => ?_) _)
    exact ⟨rfl, .inl rfl⟩
  | started =>
    refine .inr (List.forall₂_map_right_iff.mpr (List.forall₂_same.mpr fun u _ => ?_))
    unfold RunUnit.spawn
    split <;> exact ⟨rfl, .inl rfl⟩
  | moved stepped =>
    cases stepped with
    | unit at_i moved => exact .inr (List.forall₂_set (fun u _ => u.ages_self) at_i moved.ages)
    | producer => exact .inr hself
    | stop => exact .inr hself

theorem abandon_same (r : Run σ) : r.abandon.units = r.unload.units ∧
    r.abandon.calls = r.unload.calls.reverse ++ r.calls ∧ r.abandon.phase = r.phase ∧
      r.abandon.registry = r.registry := by
  unfold abandon
  dsimp only
  split <;> exact ⟨rfl, rfl, rfl, rfl⟩

theorem undergo_ages (r : Run σ) (h : Happening) : r.phase = .new ∧ (r.undergo h).phase ≠ .new ∨
    List.Forall₂ RunUnit.Ages r.units (r.undergo h).units := by
  cases h with
  | deed d => exact (r.act_acted d).ages
  | abandon =>
    refine .inr ?_
    rw [undergo, r.abandon_same.1, unload]
    split
    · exact Disposal.ofUnits_ages r.units
    · exact List.forall₂_same.mpr fun u _ => u.ages_self

/-- Without units before it is prepared. -/
def Unbuilt (r : Run σ) : Prop :=
  r.phase = .new → r.units = []

theorem Unbuilt.undergo (hb : r.Unbuilt) (h : Happening) : (r.undergo h).Unbuilt := by
  intro hnew
  obtain ⟨-, hne⟩ | hages := r.undergo_ages h
  · exact absurd hnew hne
  · have hphase : r.phase = .new := by
      cases h with
      | deed d => exact (r.act_acted d).new hnew
      | abandon => exact r.abandon_same.2.2.1.symm.trans hnew
    rw [hb hphase] at hages
    exact List.forall₂_nil_left_iff.mp hages

theorem unitState_ages {units units' : List (RunUnit σ)} {id : UnitId} {s : UnitState}
    (h : List.Forall₂ RunUnit.Ages units units')
    (hs : (units.find? (·.id == id)).map (·.life.state) = some s) :
    ∃ t, (units'.find? (·.id == id)).map (·.life.state) = some t ∧ s.Ages t := by
  induction h with
  | nil => simp at hs
  | @cons u v us vs hages _ ih =>
    rw [List.find?_cons] at hs ⊢
    rw [hages.id]
    split at hs
    · simp only [Option.map_some, Option.some.injEq] at hs ⊢
      exact ⟨_, rfl, hs ▸ hages.state⟩
    · exact ih hs

theorem Unbuilt.seen (hb : r.Unbuilt) (h : Happening) {id : UnitId} {s : UnitState}
    (hs : r.unitState id = some s) : ∃ t, (r.undergo h).unitState id = some t ∧ s.Ages t := by
  obtain ⟨hnew, -⟩ | hages := r.undergo_ages h
  · simp [unitState, unit?, hb hnew] at hs
  · exact unitState_ages hages hs

theorem Unbuilt.states (hb : r.Unbuilt) (id : UnitId) (hs : List Happening) :
    (r.states id hs).IsChain UnitState.Ages ∧
      ∀ s, r.unitState id = some s → ∃ rest, r.states id hs = s :: rest := by
  induction hs generalizing r with
  | nil =>
    cases hu : r.unitState id <;> simp [Run.states, hu]
  | cons h hs ih =>
    obtain ⟨hchain, hhead⟩ := ih (hb.undergo h)
    cases hu : r.unitState id with
    | none => simpa [Run.states, hu] using hchain
    | some s =>
      obtain ⟨t, ht, hages⟩ := hb.seen h hu
      obtain ⟨rest, hrest⟩ := hhead t ht
      simp only [Run.states, hu, Option.toList_some, List.cons_append, List.nil_append,
        Option.some.injEq]
      rw [hrest] at hchain ⊢
      exact ⟨.cons_cons hages hchain, fun s' hs' => ⟨_, by rw [hs']⟩⟩

/-- Who looks at a unit all the time sees part of one way without gaps, who looks now and then part
of it. -/
theorem Unbuilt.lives (hb : r.Unbuilt) (id : UnitId) (hs : List Happening) :
    ∃ way, UnitState.Ways way ∧ (r.states id hs).destutter (· ≠ ·) <:+: way ∧
      ∀ seen : List UnitState, seen.Sublist (r.states id hs) →
        (seen.destutter (· ≠ ·)).Sublist way := by
  obtain ⟨way, hway, hinfix⟩ := UnitState.way_of_ages (hb.states id hs).1
  exact ⟨way, hway, hinfix, fun _ hseen =>
    (List.destutter_ne_sublist hseen).trans hinfix.sublist⟩

end Run

end Sluice
