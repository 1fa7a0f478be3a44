import Mathlib.Tactic
import Sluice.Proofs.Channel.Parking

/-!
The threads of a channel with its lock. To take the lock, to go on from there and to give a signal
are moves of their own, so that a signal may come between a caller's taking the lock and its going
to sleep. New calls may come in at any time, and a sleeper may wake up for no reason.
-/

namespace Sluice.Waiting

variable {α : Type}

theorem Place.AtLock.exists_call {p : Place α} (h : p.AtLock) :
    ∃ call, p = .entering call ∨ p = .woken call := by
  cases p with
  | entering call => exact ⟨call, .inl rfl⟩
  | woken call => exact ⟨call, .inr rfl⟩
  | _ => exact h.elim

section Step

variable {s s' : State α} {t pick : Nat}

theorem step_look {p : Place α} {call : Call α} (ht : s.threads[t]? = some p)
    (hp : p = .entering call ∨ p = .woken call) :
    step s t pick = some { s with
      channel := (attempt s call).2, threads := s.threads.set t (attempt s call).1 } := by
  rcases hp with rfl | rfl <;> simp only [step, ht]

theorem step_signal {signal : Signal} {owed : List Signal} {reply : Reply α}
    (ht : s.threads[t]? = some (.signalling (signal :: owed) reply)) :
    step s t pick = some s' ↔ (∀ on, signal = .one on → mayPick on pick s = true) ∧
      s' = deliver signal pick { s with threads := s.threads.set t (.signalling owed reply) } := by
  simp only [step, ht, Option.ite_none_right_eq_some, Option.some.injEq, eq_comm (b := s')]
  cases signal <;> simp

theorem step_return {reply : Reply α} (ht : s.threads[t]? = some (.signalling [] reply)) :
    step s t pick = some { s with threads := s.threads.set t (.returned reply) } := by
  simp only [step, ht]

theorem exists_mayPick (on : Condition) (s : State α) : ∃ pick, mayPick on pick s = true := by
  by_cases h : ∃ (pick : Nat) (call : Call α), s.threads[pick]? = some (.parked on call)
  · obtain ⟨pick, call, h⟩ := h
    exact ⟨pick, by simp [mayPick, h]⟩
  · refine ⟨0, ?_⟩
    simp only [mayPick, Bool.or_eq_true, Bool.not_eq_true', List.any_eq_false]
    refine .inr fun p hp => ?_
    cases p with
    | parked c call =>
      obtain ⟨i, hi⟩ := List.getElem?_of_mem hp
      simpa using fun hc : c = on => h ⟨i, call, hc ▸ hi⟩
    | _ => simp

theorem exists_step_signalling {owed : List Signal} {reply : Reply α}
    (ht : s.threads[t]? = some (.signalling owed reply)) : ∃ pick s', step s t pick = some s' := by
  cases owed with
  | nil => exact ⟨0, _, step_return ht⟩
  | cons signal owed =>
    cases signal with
    | one on =>
      obtain ⟨pick, hpick⟩ := exists_mayPick on s
      exact ⟨pick, _, (step_signal ht).mpr ⟨by simpa using hpick, rfl⟩⟩
    | all on => exact ⟨0, _, (step_signal ht).mpr ⟨by simp, rfl⟩⟩
    | wakeup => exact ⟨0, _, (step_signal ht).mpr ⟨by simp, rfl⟩⟩

theorem step_atLock {owed : List Signal} {reply : Reply α} {u : Nat} {p : Place α}
    (ht : s.threads[t]? = some (.signalling owed reply)) (h : step s t pick = some s')
    (hu : s.threads[u]? = some p) (hlock : p.AtLock) : s'.threads[u]? = some p := by
  have hne : t ≠ u := by
    rintro rfl
    rw [ht, Option.some.injEq] at hu
    exact (hu ▸ hlock : (Place.signalling owed reply).AtLock).elim
  have hset (q : Place α) : (s.threads.set t q)[u]? = some p := by
    rw [List.getElem?_set_ne hne, hu]
  cases owed with
  | nil =>
    rw [step_return ht, Option.some.injEq] at h
    exact h ▸ hset _
  | cons signal owed =>
    obtain ⟨-, rfl⟩ := (step_signal ht).mp h
    have hkept := deliver_threads (R := fun p q : Place α => p.AtLock → q = p)
      (fun p _ => rfl) (fun on p h => by cases p <;> first | rfl | exact h.elim) signal pick
      { s with threads := s.threads.set t (.signalling owed reply) }
    obtain ⟨q, hq, heq⟩ := List.forall₂_getElem? hkept.flip (hset _)
    rw [hq, heq hlock]

end Step

/-- What all threads of a channel together can still do. -/
def State.energy (s : State α) : Nat :=
  (s.threads.map (Place.energy s.threads.length)).sum

theorem energy_deliver (signal : Signal) (pick : Nat) (s : State α) :
    (deliver signal pick s).energy ≤ s.energy + s.threads.length := by
  have hroused : List.Forall₂ (fun p q : Place α => ∀ n, q.energy n ≤ p.energy n + 1) s.threads
      (deliver signal pick s).threads :=
    deliver_threads (fun p n => Nat.le_succ _) (fun on p n => energy_wake n on p) signal pick s
  have hlength := hroused.length_eq
  have hsum : ((deliver signal pick s).threads.map (Place.energy s.threads.length)).sum ≤
      (s.threads.map fun p => p.energy s.threads.length + 1).sum := by
    refine List.Forall₂.sum_le_sum ?_
    rw [List.forall₂_map_left_iff, List.forall₂_map_right_iff]
    exact hroused.flip.imp fun q p h => h _
  simpa [State.energy, ← hlength, List.sum_map_add] using hsum

theorem energy_set {s : State α} {t : Nat} {p : Place α} (ht : s.threads[t]? = some p)
    (q : Place α) (c : Channel α) :
    { s with channel := c, threads := s.threads.set t q : State α }.energy +
      p.energy s.threads.length = s.energy + q.energy s.threads.length := by
  have h := List.sum_map_set (Place.energy s.threads.length) ht q
  simpa [State.energy] using h

theorem energy_step {s s' : State α} {t pick : Nat} (h : step s t pick = some s') :
    s'.energy < s.energy := by
  cases ht : s.threads[t]? with
  | none => simp [step, ht] at h
  | some p =>
    have hlook {call : Call α} (hp : p = .entering call ∨ p = .woken call) :
        s'.energy < s.energy := by
      rw [step_look ht hp, Option.some.injEq] at h
      subst h
      have hset := energy_set ht (attempt s call).1 (attempt s call).2
      have hlt := (attempt_looked s call).energy_lt s.threads.length
      have hp : p.energy s.threads.length = (Place.woken call).energy s.threads.length := by
        rcases hp with rfl | rfl <;> rfl
      omega
    cases p with
    | entering call => exact hlook (.inl rfl)
    | woken call => exact hlook (.inr rfl)
    | parked on call => simp [step, ht] at h
    | returned reply => simp [step, ht] at h
    | signalling owed reply =>
      cases owed with
      | nil =>
        rw [step_return ht, Option.some.injEq] at h
        subst h
        have hset := energy_set ht (.returned reply) s.channel
        simp only [Place.energy] at hset
        omega
      | cons signal owed =>
        obtain ⟨-, rfl⟩ := (step_signal ht).mp h
        have hset := energy_set ht (.signalling owed reply) s.channel
        have hwake := energy_deliver signal pick
          { s with threads := s.threads.set t (.signalling owed reply) }
        simp only [Place.energy, List.length_cons, Nat.succ_mul, List.length_set] at hset hwake
        omega

namespace Attended

variable {s s' : State α} {t pick : Nat}

theorem new (capacity : Nat) (hasWakeup : Bool) :
    Attended ({ channel := .new capacity, hasWakeup } : State α) :=
  ⟨by simp, by simp, by simp⟩

theorem enter (h : Attended s) (call : Call α) : Attended (Waiting.enter s call) := by
  have hsleepers {on : Condition} : (∃ p ∈ s.threads ++ [.entering call], p.SleepsOn on) →
      ∃ p ∈ s.threads, p.SleepsOn on := by
    rintro ⟨p, hp, hsleeps⟩
    rcases List.mem_append.mp hp with hp | hp
    · exact ⟨p, hp, hsleeps⟩
    · obtain rfl := List.mem_singleton.mp hp
      exact hsleeps.elim
  refine ⟨fun p hp => ?_, fun on hon hopen hex => ?_, fun on hon hended hex => ?_⟩
  · rcases List.mem_append.mp hp with hp | hp
    · exact h.fits p hp
    · obtain rfl := List.mem_singleton.mp hp
      trivial
  · have hcount := h.counted on hon hopen (hsleepers hex)
    simpa [Waiting.enter, Place.pledges] using hcount
  · obtain ⟨p, hp, howes⟩ := h.released on hon hended (hsleepers hex)
    exact ⟨p, List.mem_append_left _ hp, howes⟩

theorem step (h : Attended s) (hs : Waiting.step s t pick = some s') : Attended s' := by
  cases ht : s.threads[t]? with
  | none => simp [Waiting.step, ht] at hs
  | some p =>
    have hlook {call : Call α} (hp : p = .entering call ∨ p = .woken call) : Attended s' := by
      rw [step_look ht hp, Option.some.injEq] at hs
      exact hs ▸ h.look ht hp (attempt_looked s call)
    cases p with
    | entering call => exact hlook (.inl rfl)
    | woken call => exact hlook (.inr rfl)
    | parked on call => simp [Waiting.step, ht] at hs
    | returned reply => simp [Waiting.step, ht] at hs
    | signalling owed reply =>
      cases owed with
      | nil =>
        rw [step_return ht, Option.some.injEq] at hs
        exact hs ▸ h.eased (List.forall₂_set (fun p _ => .refl p) ht (eases_returned reply))
      | cons signal owed =>
        obtain ⟨hpick, rfl⟩ := (step_signal ht).mp hs
        exact h.signal ht hpick

end Attended

structure Guarded (α : Type) extends State α where
  /-- The thread that has the lock. -/
  holder : Option Nat := none

namespace Guarded

inductive Move (g : Guarded α) : Guarded α → Prop
  /-- A thread in front of the lock takes it. -/
  | lock {t : Nat} {p : Place α} (free : g.holder = none) (at_t : g.threads[t]? = some p)
      (atLock : p.AtLock) : Move g { g with holder := some t }
  /-- The thread that has the lock looks at the channel, and gives up the lock to park or when it
  is done with the channel. -/
  | look {t : Nat} {s : State α} (held : g.holder = some t) (h : step g.toState t 0 = some s) :
      Move g { toState := s }
  /-- A thread that is done with the channel gives a signal, or returns after the last. -/
  | signal {t pick : Nat} {owed : List Signal} {reply : Reply α} {s : State α}
      (at_t : g.threads[t]? = some (.signalling owed reply))
      (h : step g.toState t pick = some s) : Move g { g with toState := s }

/-- What a new channel can come to, whoever calls it and when. -/
inductive Reachable : Guarded α → Prop
  | new (capacity : Nat) (hasWakeup : Bool) : Reachable { channel := .new capacity, hasWakeup }
  | enter {g : Guarded α} (h : Reachable g) (call : Call α) :
      Reachable { g with toState := Waiting.enter g.toState call }
  | move {g g' : Guarded α} (h : Reachable g) (hm : Move g g') : Reachable g'
  /-- A sleeper wakes up without a signal. -/
  | stray {g : Guarded α} (h : Reachable g) {t : Nat} {on : Condition} {call : Call α}
      (at_t : g.threads[t]? = some (.parked on call)) :
      Reachable { g with threads := g.threads.set t (.woken call) }

def Rests (g : Guarded α) : Prop :=
  ∀ g', ¬ g.Move g'

theorem Reachable.attended {g : Guarded α} (h : g.Reachable) : Attended g.toState := by
  induction h with
  | new capacity hasWakeup => exact .new capacity hasWakeup
  | enter _ call ih => exact ih.enter call
  | move _ hm ih =>
    cases hm with
    | lock => exact ih
    | look _ h => exact ih.step h
    | signal _ h => exact ih.step h
  | stray _ at_t ih =>
    exact ih.eased (List.forall₂_set (fun p _ => .refl p) at_t (eases_woken _ _))

theorem Reachable.holder_atLock {g : Guarded α} (h : g.Reachable) {t : Nat}
    (ht : g.holder = some t) : ∃ p, g.threads[t]? = some p ∧ p.AtLock := by
  induction h with
  | new => cases ht
  | enter _ call ih =>
    obtain ⟨p, hp, hlock⟩ := ih ht
    refine ⟨p, ?_, hlock⟩
    rw [← hp]
    exact List.getElem?_append_left (List.getElem?_eq_some_iff.mp hp).1
  | move _ hm ih =>
    cases hm with
    | lock _ at_t atLock =>
      obtain rfl := Option.some.inj ht
      exact ⟨_, at_t, atLock⟩
    | look => cases ht
    | signal at_u h =>
      obtain ⟨p, hp, hlock⟩ := ih ht
      exact ⟨p, step_atLock at_u h hp hlock, hlock⟩
  | stray _ at_u ih =>
    obtain ⟨p, hp, hlock⟩ := ih ht
    refine ⟨p, ?_, hlock⟩
    rw [← hp]
    refine List.getElem?_set_ne ?_
    rintro rfl
    rw [at_u, Option.some.injEq] at hp
    exact (hp ▸ hlock : (Place.parked _ _).AtLock).elim

/-- What is left to do, the taking of a free lock counted. -/
def energy (g : Guarded α) : Nat :=
  2 * g.toState.energy + if g.holder = none then 1 else 0

theorem Move.energy_lt {g g' : Guarded α} (h : g.Move g') : g'.energy < g.energy := by
  cases h with
  | lock free => simp [energy, free]
  | look held h =>
    have hlt := energy_step h
    simp only [energy, held]
    simp
    omega
  | signal _ h =>
    have hlt := energy_step h
    simp only [energy]
    omega

/-- Threads without new calls come to a rest, whatever moves they make. -/
theorem move_wellFounded : WellFounded fun g' g : Guarded α => g.Move g' :=
  Subrelation.wf Move.energy_lt (measure energy).wf

theorem Rests.parked {g : Guarded α} (hr : g.Rests) (h : g.Reachable) {p : Place α}
    (hp : p ∈ g.threads) : ¬ p.AtLock ∧ ∀ on, ¬ p.Owes on := by
  obtain ⟨t, ht⟩ := List.getElem?_of_mem hp
  refine ⟨fun hlock => ?_, fun on howes => ?_⟩
  · cases hheld : g.holder with
    | none => exact hr _ (.lock hheld ht hlock)
    | some u =>
      obtain ⟨q, hq, hlock⟩ := h.holder_atLock hheld
      obtain ⟨call, hcall⟩ := hlock.exists_call
      exact hr _ (.look hheld (step_look hq hcall))
  · cases p with
    | signalling owed reply =>
      obtain ⟨pick, s', hs⟩ := exists_step_signalling ht
      exact hr _ (.signal ht hs)
    | _ => exact howes.elim

/-- A get that sleeps though it could go ahead is about to be woken, or another is up and will look;
the same for a put. The threads come to a rest, and then nobody sleeps that could go ahead. -/
theorem sleepers_cared_for {g : Guarded α} (h : g.Reachable) :
    (∀ on, .parked on .get ∈ g.threads →
      g.channel.queue ≠ [] ∨ g.channel.closed = true ∨ g.channel.aborted = true →
      (∃ p ∈ g.threads, p.Owes .notEmpty) ∨ .woken .get ∈ g.threads) ∧
    (∀ on a, .parked on (.put a) ∈ g.threads →
      g.channel.queue.length < g.channel.capacity ∨ g.channel.closed = true ∨
        g.channel.aborted = true →
      (∃ p ∈ g.threads, p.Owes .notFull) ∨ ∃ b, .woken (.put b) ∈ g.threads) ∧
    Acc (fun g₂ g₁ : Guarded α => g₁.Move g₂) g ∧
    (g.Rests →
      (∀ on, .parked on .get ∈ g.threads →
        g.channel.queue = [] ∧ g.channel.closed = false ∧ g.channel.aborted = false) ∧
      ∀ on a, .parked on (.put a) ∈ g.threads →
        g.channel.capacity ≤ g.channel.queue.length ∧ g.channel.closed = false ∧
          g.channel.aborted = false) := by
  have hget (on : Condition) (hp : .parked on .get ∈ g.threads)
      (hopen : g.channel.queue ≠ [] ∨ g.channel.closed = true ∨ g.channel.aborted = true) :
      (∃ p ∈ g.threads, p.Owes .notEmpty) ∨ .woken .get ∈ g.threads := by
    obtain rfl : Condition.notEmpty = on := Option.some.inj (h.attended.fits _ hp)
    refine (h.attended.cared_for (by decide) ⟨_, hp, rfl⟩
      (hopen.imp_left List.length_pos_iff.mpr)).imp_right ?_
    rintro ⟨call, hcall, hwoken⟩
    cases call <;> first | exact hwoken | cases hcall
  have hput (on : Condition) (a : α) (hp : .parked on (.put a) ∈ g.threads)
      (hopen : g.channel.queue.length < g.channel.capacity ∨ g.channel.closed = true ∨
        g.channel.aborted = true) :
      (∃ p ∈ g.threads, p.Owes .notFull) ∨ ∃ b, .woken (.put b) ∈ g.threads := by
    obtain rfl : Condition.notFull = on := Option.some.inj (h.attended.fits _ hp)
    refine (h.attended.cared_for (by decide) ⟨_, hp, rfl⟩
      (hopen.imp_left Nat.sub_pos_of_lt)).imp_right ?_
    rintro ⟨call, hcall, hwoken⟩
    cases call <;> first | exact ⟨_, hwoken⟩ | cases hcall
  refine ⟨hget, hput, move_wellFounded.apply g, fun hrests => ⟨fun on hp => ?_, fun on a hp => ?_⟩⟩
  · by_contra hopen
    rcases hget on hp (by simpa [or_iff_not_imp_left] using hopen) with ⟨p, hp, howes⟩ | hwoken
    · exact (hrests.parked h hp).2 _ howes
    · exact (hrests.parked h hwoken).1 trivial
  · by_contra hopen
    rcases hput on a hp (by simpa [or_iff_not_imp_left] using hopen) with
      ⟨p, hp, howes⟩ | ⟨b, hwoken⟩
    · exact (hrests.parked h hp).2 _ howes
    · exact (hrests.parked h hwoken).1 trivial

/-- A get sleeps, and the put whose item it could take has still to give its signal. -/
def beforeSignal : Guarded Nat where
  channel := (Channel.new 1).push 7
  hasWakeup := false
  threads := [.parked .notEmpty .get, .signalling [.one .notEmpty, .wakeup] (.put (.ok ()))]

theorem beforeSignal_reachable : beforeSignal.Reachable := by
  have hentered : Reachable { channel := .new 1, hasWakeup := false, threads := [.entering .get] } :=
    (Reachable.new (α := Nat) 1 false).enter .get
  have hlocked := hentered.move (.lock (t := 0) rfl rfl (p := .entering .get) trivial)
  have hparked : Reachable
      { channel := .new 1, hasWakeup := false, threads := [.parked .notEmpty .get] } :=
    hlocked.move (.look (t := 0) rfl rfl)
  exact ((hparked.enter (.put 7)).move (.lock (t := 1) rfl rfl (p := .entering (.put 7)) trivial)).move
    (.look (t := 1) rfl rfl)

theorem beforeSignal_cared_for :
    beforeSignal.Reachable ∧ .parked .notEmpty .get ∈ beforeSignal.threads ∧
      beforeSignal.channel.queue ≠ [] ∧
      ((∃ p ∈ beforeSignal.threads, p.Owes .notEmpty) ∨ .woken .get ∈ beforeSignal.threads) := by
  have hparked : .parked .notEmpty .get ∈ beforeSignal.threads := List.mem_cons_self
  have hqueue : beforeSignal.channel.queue ≠ [] := by decide
  exact ⟨beforeSignal_reachable, hparked, hqueue,
    (sleepers_cared_for beforeSignal_reachable).1 _ hparked (.inl hqueue)⟩

end Guarded

end Sluice.Waiting
