import Sluice.Proofs.Run.Begun

/-!
Signals owed. Whoever puts a row into a channel, closes it or aborts it owes its reader a signal
from then on, until the wakeup of the reader has moved. Where nobody can move nothing is owed.
-/

namespace Sluice

variable {σ : Type}

/-- What a unit is sure to do to the net next. -/
def RunUnit.todo (u : RunUnit σ) : List NetAction :=
  match u.stage with
  | .failing todo | .closing todo _ => todo
  | .writing (.signal c _ _) _ => [.signal c]
  | _ => []

namespace RunUnit

variable {u u' : RunUnit σ} {net : Net} {armed : List String} {t : Touch} {c w : Nat}

theorem Moved.owes (h : u.Moved net armed t u') (ht : t.Disturbs c) : .signal c ∈ u'.todo := by
  obtain ⟨row, rfl⟩ | hends := ht
  · obtain ⟨hops, next, -, rfl⟩ := h.puts
    exact List.mem_singleton_self _
  · obtain ⟨action, rest, owed, does, ⟨-, rfl⟩ | ⟨ending, -, rfl⟩⟩ := h.ends (.inr ⟨c, hends⟩)
    · exact List.mem_append_left _ (does.disturbs (.inr hends))
    · exact List.mem_append_left _ (does.disturbs (.inr hends))

theorem Moved.still_owes (h : u.Moved net armed t u') (hr : net.reader? c = some w)
    (ho : .signal c ∈ u.todo) : .signal c ∈ u'.todo ∨ t = .notify w := by
  unfold todo at ho
  cases h with
  | stop_on stage does =>
    simp only [stage] at ho
    rcases List.mem_cons.mp ho with rfl | ho
    · exact .inr (does.signal_sent hr)
    · exact .inl (List.mem_append_right _ ho)
  | close_on stage does =>
    simp only [stage] at ho
    rcases List.mem_cons.mp ho with rfl | ho
    · exact .inr (does.signal_sent hr)
    · exact .inl (List.mem_append_right _ ho)
  | write_on stage step =>
    simp only [stage] at ho
    cases step with
    | tell reader =>
      obtain rfl : c = _ := by simpa using ho
      rw [hr, Option.some.injEq] at reader
      exact .inr (by rw [reader])
    | tell_nobody reader =>
      obtain rfl : c = _ := by simpa using ho
      simp [hr] at reader
    | _ => simp at ho
  | write_done stage step =>
    simp only [stage] at ho
    cases step <;> simp at ho
  | batch_over stage | spawn stage | misplaced stage | see_stop stage | trip stage | no_step stage
  | batch stage | begin_read stage | begin_write stage | count_fault stage | pass_fault stage
  | ask_stop stage | read_on stage | read_done stage | failed stage | closed stage
  | disposed stage | enter stage | exit stage => simp [stage] at ho

theorem todo_moves {a : NetAction} (h : u.move net armed = none) : a ∉ u.todo := by
  intro ha
  have hbusy : u.isIdle = false := by
    unfold todo at ha
    unfold isIdle
    split <;> simp_all
  obtain ⟨call, next, hs, -⟩ | ⟨call, next, hs, hw⟩ := move_none h hbusy
  · simp [todo, hs] at ha
  · obtain ⟨channel, hops, row, rfl, -⟩ := Border.advanceWrite_blocked hw
    simp [todo, hs] at ha

end RunUnit

namespace Producer

variable {p p' : Producer} {net : Net} {t : Touch} {c w : Nat}

theorem Moved.owes (h : p.Moved net t p') (ht : t.Disturbs c) : .signal c ∈ p'.todo := by
  cases h with
  | act todo does => exact List.mem_append_left _ (does.disturbs ht)
  | give_up => exact absurd ht (by simp [Touch.Disturbs])
  | put =>
    obtain ⟨row, he⟩ | he | he := ht
    · cases he
      exact List.mem_singleton_self _
    · cases he
    · cases he
  | finish => exact absurd ht (by simp [Touch.Disturbs])

theorem Moved.still_owes (h : p.Moved net t p') (hr : net.reader? c = some w)
    (ho : .signal c ∈ p.todo) : .signal c ∈ p'.todo ∨ t = .notify w := by
  cases h with
  | act todo does =>
    rw [todo] at ho
    rcases List.mem_cons.mp ho with rfl | ho
    · exact .inr (does.signal_sent hr)
    · exact .inl (List.mem_append_right _ ho)
  | give_up => exact .inl ho
  | put todo => simp [todo] at ho
  | finish todo => simp [todo] at ho

end Producer

namespace Run

def Owes (r : Run σ) (a : NetAction) : Prop :=
  (∃ u ∈ r.units, a ∈ u.todo) ∨ (∃ p ∈ r.producers, a ∈ p.todo) ∨ ∃ todo ∈ r.stops, a ∈ todo

variable {r r' : Run σ} {party : Party} {t : Touch} {c w : Nat}

theorem Stepped.owes (h : r.Stepped party t r') (ht : t.Disturbs c) : r'.Owes (.signal c) := by
  cases h with
  | unit at_i moved =>
    have hlt := (List.getElem?_eq_some_iff.mp at_i).1
    exact .inl ⟨_, List.mem_set hlt _, moved.owes ht⟩
  | producer at_k moved =>
    have hlt := (List.getElem?_eq_some_iff.mp at_k).1
    exact .inr (.inl ⟨_, List.mem_set hlt _, moved.owes ht⟩)
  | stop at_k does =>
    have hlt := (List.getElem?_eq_some_iff.mp at_k).1
    exact .inr (.inr ⟨_, List.mem_set hlt _, List.mem_append_left _ (does.disturbs ht)⟩)

/-- A signal stays owed until it is sent. -/
theorem Stepped.still_owes (h : r.Stepped party t r') (hr : r.net.reader? c = some w)
    (ho : r.Owes (.signal c)) : r'.Owes (.signal c) ∨ t = .notify w := by
  obtain ⟨v, hv, ha⟩ | ⟨q, hq, ha⟩ | ⟨todo, htodo, ha⟩ := ho
  · cases h with
    | @unit i u u' _ _ _ at_i moved =>
      have hlt := (List.getElem?_eq_some_iff.mp at_i).1
      obtain rfl | hv := List.eq_or_mem_set at_i hv u'
      · exact (moved.still_owes hr ha).imp_left fun ha => .inl ⟨_, List.mem_set hlt _, ha⟩
      · exact .inl (.inl ⟨v, hv, ha⟩)
    | producer => exact .inl (.inl ⟨v, hv, ha⟩)
    | stop => exact .inl (.inl ⟨v, hv, ha⟩)
  · cases h with
    | unit => exact .inl (.inr (.inl ⟨q, hq, ha⟩))
    | @producer k p p' _ _ at_k moved =>
      have hlt := (List.getElem?_eq_some_iff.mp at_k).1
      obtain rfl | hq := List.eq_or_mem_set at_k hq p'
      · exact (moved.still_owes hr ha).imp_left fun ha => .inr (.inl ⟨_, List.mem_set hlt _, ha⟩)
      · exact .inl (.inr (.inl ⟨q, hq, ha⟩))
    | stop => exact .inl (.inr (.inl ⟨q, hq, ha⟩))
  · cases h with
    | unit => exact .inl (.inr (.inr ⟨todo, htodo, ha⟩))
    | producer => exact .inl (.inr (.inr ⟨todo, htodo, ha⟩))
    | @stop k action rest owed _ _ at_k does =>
      have hlt := (List.getElem?_eq_some_iff.mp at_k).1
      obtain rfl | htodo := List.eq_or_mem_set at_k htodo (owed ++ rest)
      · rcases List.mem_cons.mp ha with rfl | ha
        · exact .inr (does.signal_sent hr)
        · exact .inl (.inr (.inr ⟨_, List.mem_set hlt _, List.mem_append_right _ ha⟩))
      · exact .inl (.inr (.inr ⟨todo, htodo, ha⟩))

def Stuck (r : Run σ) : Prop :=
  ∀ party ∈ r.parties, r.move party = none

instance (r : Run σ) : Decidable r.Stuck :=
  inferInstanceAs (Decidable (∀ party ∈ r.parties, r.move party = none))

theorem Stuck.unit (h : r.Stuck) {i : Nat} {u : RunUnit σ} (hu : r.units[i]? = some u) :
    u.move r.net r.armed = none := by
  have hlt := (List.getElem?_eq_some_iff.mp hu).1
  exact unit_waits hu (h _ (by simp [parties, hlt]))

theorem Stuck.producer (h : r.Stuck) {p : Producer} (hp : p ∈ r.producers) :
    p.move r.net = none := by
  obtain ⟨k, hk⟩ := List.getElem?_of_mem hp
  have hlt := (List.getElem?_eq_some_iff.mp hk).1
  exact producer_waits hk (h _ (by simp [parties, hlt]))

theorem Stuck.stop (h : r.Stuck) {todo : List NetAction} (ht : todo ∈ r.stops) : todo = [] := by
  obtain ⟨k, hk⟩ := List.getElem?_of_mem ht
  have hlt := (List.getElem?_eq_some_iff.mp hk).1
  exact stop_waits hk (h _ (by simp [parties, hlt]))

theorem Stuck.not_owes (h : r.Stuck) (a : NetAction) : ¬ r.Owes a := by
  rintro (⟨u, hu, ha⟩ | ⟨p, hp, ha⟩ | ⟨todo, htodo, ha⟩)
  · obtain ⟨i, hi⟩ := List.getElem?_of_mem hu
    exact RunUnit.todo_moves (h.unit hi) ha
  · simp [(Producer.move_none (h.producer hp)).1] at ha
  · simp [h.stop htodo] at ha

theorem Owes.attended {a : NetAction} (ho : r.Owes a) (h : r.Attended r') :
    r'.Owes a := by
  obtain ⟨u, hu, ha⟩ | ⟨p, hp, ha⟩ | ⟨todo, htodo, ha⟩ := ho
  · exact .inl ⟨u, h.units ▸ hu, ha⟩
  · have hmem : (p.unit, p.channel, p.todo) ∈ r'.producers.map fun p =>
        (p.unit, p.channel, p.todo) := h.producers ▸ List.mem_map_of_mem hp
    obtain ⟨p', hp', hsame⟩ := List.mem_map.mp hmem
    simp only [Prod.mk.injEq] at hsame
    exact .inr (.inl ⟨p', hp', hsame.2.2 ▸ ha⟩)
  · obtain hs | hs := h.stops
    · exact .inr (.inr ⟨todo, hs ▸ htodo, ha⟩)
    · exact .inr (.inr ⟨todo, hs ▸ List.mem_append_left _ htodo, ha⟩)

end Run

end Sluice
