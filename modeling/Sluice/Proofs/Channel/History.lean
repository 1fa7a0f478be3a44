import Mathlib.Tactic
import Sluice.Channel.Waiting
import Sluice.Proofs.Channel.Turns

/-!
Whole histories of one channel. A history is the list of accesses in the order in which the lock
was taken; a caller that has to wait makes its access again later, so every interleaving of any
number of callers is such a list. What went in is what came out followed by what is queued.
-/

namespace Sluice.Channel

variable {α : Type}

/-- What a caller does while it holds the lock. -/
inductive Access (α : Type) where
  | put (a : α)
  | get
  | tryGet
  | close
  | abort

inductive Answer (α : Type) where
  | waits
  | put (r : Except Refusal Unit)
  | got (r : Except Refusal (Option α))
  | polled (r : Except Refusal (Poll α))
  | done

def access (c : Channel α) : Access α → Answer α × Channel α
  | .put a =>
    match c.put a with
    | .waits => (.waits, c)
    | .returns r c => (.put r, c)
  | .get =>
    match c.get with
    | .waits => (.waits, c)
    | .returns r c => (.got r, c)
  | .tryGet => let (r, c) := c.tryGet; (.polled r, c)
  | .close => (.done, c.close)
  | .abort => (.done, c.abort)

def after (c : Channel α) (xs : List (Access α)) : Channel α :=
  xs.foldl (fun c x => (c.access x).2) c

/-- The item a successful put puts in. -/
def Access.entering : Access α → Answer α → List α
  | .put a, .put (.ok ()) => [a]
  | _, _ => []

/-- The item handed to a reader. -/
def Answer.leaving : Answer α → List α
  | .got (.ok (some a)) => [a]
  | .polled (.ok (.item a)) => [a]
  | _ => []

/-- A reader is told that there is nothing more to come. -/
def Answer.isEnd : Answer α → Prop
  | .got (.ok none) => True
  | .polled (.ok .ended) => True
  | _ => False

def accepted (c : Channel α) : List (Access α) → List α
  | [] => []
  | x :: xs => x.entering (c.access x).1 ++ accepted (c.access x).2 xs

def handed (c : Channel α) : List (Access α) → List α
  | [] => []
  | x :: xs => (c.access x).1.leaving ++ handed (c.access x).2 xs

/-- The largest length that the queue has at any time of a history. -/
def deepest (c : Channel α) : List (Access α) → Nat
  | [] => c.queue.length
  | x :: xs => max c.queue.length (deepest (c.access x).2 xs)

/-- What `get` would answer, in the words of `tryGet`. -/
def Answer.asPoll : Answer α → Answer α
  | .waits => .polled (.ok .empty)
  | .got (.ok (some a)) => .polled (.ok (.item a))
  | .got (.ok none) => .polled (.ok .ended)
  | .got (.error e) => .polled (.error e)
  | r => r

@[simp] theorem after_nil (c : Channel α) : c.after [] = c := rfl

@[simp] theorem after_cons (c : Channel α) (x : Access α) (xs : List (Access α)) :
    c.after (x :: xs) = (c.access x).2.after xs := rfl

theorem after_append (c : Channel α) (xs ys : List (Access α)) :
    c.after (xs ++ ys) = (c.after xs).after ys := by
  simp [after]

theorem accepted_append (c : Channel α) (xs ys : List (Access α)) :
    c.accepted (xs ++ ys) = c.accepted xs ++ (c.after xs).accepted ys := by
  induction xs generalizing c with
  | nil => rfl
  | cons x xs ih => simp [accepted, ih]

theorem handed_append (c : Channel α) (xs ys : List (Access α)) :
    c.handed (xs ++ ys) = c.handed xs ++ (c.after xs).handed ys := by
  induction xs generalizing c with
  | nil => rfl
  | cons x xs ih => simp [handed, ih]

theorem access_conserves (c : Channel α) (x : Access α) :
    c.queue ++ x.entering (c.access x).1 = (c.access x).1.leaving ++ (c.access x).2.queue ∧
      (c.access x).2.rowsPut = c.rowsPut + (x.entering (c.access x).1).length := by
  cases x with
  | put a =>
    rcases c.put_cases a with ⟨-, h⟩ | ⟨-, -, h⟩ | ⟨-, -, -, h⟩ | ⟨-, -, -, h⟩ <;>
      simp [access, h, Access.entering, Answer.leaving]
  | get =>
    rcases c.get_cases with ⟨-, h⟩ | ⟨-, -, -, h⟩ | ⟨-, -, -, h⟩ | ⟨-, a, rest, hq, h⟩ <;>
      simp [access, Access.entering, Answer.leaving, *]
  | tryGet =>
    rcases c.tryGet_cases with ⟨-, h⟩ | ⟨-, -, -, h⟩ | ⟨-, -, -, h⟩ | ⟨-, a, rest, hq, h⟩ <;>
      simp [access, Access.entering, Answer.leaving, *]
  | close => simp [access, Access.entering, Answer.leaving]
  | abort => simp [access, Access.entering, Answer.leaving]

/-- The queue is within bounds, and its peak has been kept up with. -/
structure Bounded (c : Channel α) : Prop where
  room : c.queue.length ≤ c.capacity
  peak : c.queue.length ≤ c.peakDepth

theorem access_bounded {c : Channel α} (h : c.Bounded) (x : Access α) :
    (c.access x).2.Bounded ∧ (c.access x).2.capacity = c.capacity ∧
      (c.access x).2.peakDepth = max c.peakDepth (c.access x).2.queue.length := by
  have hroom := h.room
  have hpeak := h.peak
  have hsame : c.Bounded ∧ c.capacity = c.capacity ∧
      c.peakDepth = max c.peakDepth c.queue.length := ⟨h, rfl, by omega⟩
  have hpop (a : α) (rest : List α) (hq : c.queue = a :: rest) : (c.pop rest).Bounded ∧
      (c.pop rest).capacity = c.capacity ∧
      (c.pop rest).peakDepth = max c.peakDepth (c.pop rest).queue.length := by
    rw [hq, List.length_cons] at hroom hpeak
    exact ⟨⟨by simp; omega, by simp; omega⟩, rfl, by simp; omega⟩
  cases x with
  | put a =>
    rcases c.put_cases a with ⟨-, ha⟩ | ⟨-, -, ha⟩ | ⟨-, -, -, ha⟩ | ⟨-, -, hlt, ha⟩
    · simpa [access, ha] using hsame
    · simpa [access, ha] using hsame
    · simpa [access, ha] using hsame
    · simp only [access, ha]
      exact ⟨⟨by simp; omega, by simp⟩, rfl, by simp⟩
  | get =>
    rcases c.get_cases with ⟨-, ha⟩ | ⟨-, -, -, ha⟩ | ⟨-, -, -, ha⟩ | ⟨-, a, rest, hq, ha⟩
    · simpa [access, ha] using hsame
    · simpa [access, ha] using hsame
    · simpa [access, ha] using hsame
    · simpa only [access, ha] using hpop a rest hq
  | tryGet =>
    rcases c.tryGet_cases with ⟨-, ha⟩ | ⟨-, -, -, ha⟩ | ⟨-, -, -, ha⟩ | ⟨-, a, rest, hq, ha⟩
    · simpa [access, ha] using hsame
    · simpa [access, ha] using hsame
    · simpa [access, ha] using hsame
    · simpa only [access, ha] using hpop a rest hq
  | close => exact ⟨⟨hroom, hpeak⟩, rfl, by simp [access, hpeak]⟩
  | abort => exact ⟨⟨hroom, hpeak⟩, rfl, by simp [access, hpeak]⟩

/-- What is over stays over: a closed channel with nothing left in it. -/
structure Drained (c : Channel α) : Prop where
  closed : c.closed = true
  empty : c.queue = []

theorem access_drained {c : Channel α} (h : c.Drained) (x : Access α) :
    (c.access x).2.Drained ∧ x.entering (c.access x).1 = [] ∧ (c.access x).1.leaving = [] := by
  obtain ⟨hc, hq⟩ := h
  cases x with
  | put a => cases ha : c.aborted <;>
      simp [access, put, hc, hq, ha, Access.entering, Answer.leaving, Drained.mk]
  | get => cases ha : c.aborted <;>
      simp [access, get, hc, hq, ha, Access.entering, Answer.leaving, Drained.mk]
  | tryGet => cases ha : c.aborted <;>
      simp [access, tryGet, hc, hq, ha, Access.entering, Answer.leaving, Drained.mk]
  | close => exact ⟨⟨rfl, hq⟩, rfl, rfl⟩
  | abort => exact ⟨⟨hc, hq⟩, rfl, rfl⟩

theorem drained_of_end {c : Channel α} {x : Access α} (h : (c.access x).1.isEnd) : c.Drained := by
  cases x with
  | put a =>
    rcases c.put_cases a with ⟨-, ha⟩ | ⟨-, -, ha⟩ | ⟨-, -, -, ha⟩ | ⟨-, -, -, ha⟩ <;>
      simp [access, ha, Answer.isEnd] at h
  | get =>
    rcases c.get_cases with ⟨-, ha⟩ | ⟨-, hc, hq, -⟩ | ⟨-, -, -, ha⟩ | ⟨-, a, rest, -, ha⟩
    · simp [access, ha, Answer.isEnd] at h
    · exact ⟨hc, hq⟩
    · simp [access, ha, Answer.isEnd] at h
    · simp [access, ha, Answer.isEnd] at h
  | tryGet =>
    rcases c.tryGet_cases with ⟨-, ha⟩ | ⟨-, hc, hq, -⟩ | ⟨-, -, -, ha⟩ | ⟨-, a, rest, -, ha⟩
    · simp [access, ha, Answer.isEnd] at h
    · exact ⟨hc, hq⟩
    · simp [access, ha, Answer.isEnd] at h
    · simp [access, ha, Answer.isEnd] at h
  | close => exact h.elim
  | abort => exact h.elim

theorem access_aborted {c : Channel α} (h : c.aborted = true) (x : Access α) :
    (c.access x).2.aborted = true ∧ (c.access x).2.queue = c.queue := by
  cases x <;> simp [access, put, get, tryGet, h]

theorem put_aborted {c : Channel α} (h : c.aborted = true) (a : α) :
    c.access (.put a) = (.put (.error .aborted), c) := by
  simp [access, put, h]

theorem get_aborted {c : Channel α} (h : c.aborted = true) :
    c.access .get = (.got (.error .aborted), c) := by
  simp [access, get, h]

theorem tryGet_aborted {c : Channel α} (h : c.aborted = true) :
    c.access .tryGet = (.polled (.error .aborted), c) := by
  simp [access, tryGet, h]

/-- Looking without waiting finds what waiting would find, and does the same to the channel. -/
theorem tryGet_eq_get (c : Channel α) :
    c.access .tryGet = ((c.access .get).1.asPoll, (c.access .get).2) := by
  cases ha : c.aborted with
  | true => simp [access, tryGet, get, ha, Answer.asPoll]
  | false =>
    cases hq : c.queue with
    | nil => cases hc : c.closed <;> simp [access, tryGet, get, ha, hq, hc, Answer.asPoll]
    | cons a rest => simp [access, tryGet, get, ha, hq, Answer.asPoll]

theorem asPoll_get_empty_iff (c : Channel α) :
    (c.access .get).1.asPoll = .polled (.ok .empty) ↔ (c.access .get).1 = .waits := by
  simp only [access]
  cases c.get with
  | waits => simp [Answer.asPoll]
  | returns r c' => rcases r with e | _ | a <;> simp [Answer.asPoll]

theorem after_conserves (c : Channel α) (xs : List (Access α)) :
    c.queue ++ c.accepted xs = c.handed xs ++ (c.after xs).queue ∧
      (c.after xs).rowsPut = c.rowsPut + (c.accepted xs).length := by
  induction xs generalizing c with
  | nil => simp [accepted, handed]
  | cons x xs ih =>
    obtain ⟨h1, h2⟩ := access_conserves c x
    obtain ⟨ih1, ih2⟩ := ih (c.access x).2
    constructor
    · rw [accepted, handed, after_cons, ← List.append_assoc, h1, List.append_assoc, ih1,
        List.append_assoc]
    · rw [accepted, after_cons, ih2, h2, List.length_append]
      omega

theorem after_bounded {c : Channel α} (h : c.Bounded) (xs : List (Access α)) :
    (c.after xs).Bounded ∧ (c.after xs).capacity = c.capacity ∧
      (c.after xs).peakDepth = max c.peakDepth (c.deepest xs) := by
  induction xs generalizing c with
  | nil => exact ⟨h, rfl, by simpa [deepest] using h.peak⟩
  | cons x xs ih =>
    obtain ⟨h1, h2, h3⟩ := access_bounded h x
    obtain ⟨ih1, ih2, ih3⟩ := ih h1
    refine ⟨ih1, ih2.trans h2, ?_⟩
    have hpeak := h.peak
    have hfirst : (c.access x).2.queue.length ≤ (c.access x).2.deepest xs := by
      cases xs <;> simp [deepest]
    rw [after_cons, ih3, h3, deepest]
    omega

theorem after_drained {c : Channel α} (h : c.Drained) (xs : List (Access α)) :
    c.accepted xs = [] ∧ c.handed xs = [] := by
  induction xs generalizing c with
  | nil => exact ⟨rfl, rfl⟩
  | cons x xs ih =>
    obtain ⟨h1, h2, h3⟩ := access_drained h x
    obtain ⟨ih1, ih2⟩ := ih h1
    exact ⟨by rw [accepted, h2, ih1]; rfl, by rw [handed, h3, ih2]; rfl⟩

theorem after_aborted {c : Channel α} (h : c.aborted = true) (xs : List (Access α)) :
    (c.after xs).aborted = true ∧ (c.after xs).queue = c.queue := by
  induction xs generalizing c with
  | nil => exact ⟨h, rfl⟩
  | cons x xs ih =>
    obtain ⟨h1, h2⟩ := access_aborted h x
    obtain ⟨ih1, ih2⟩ := ih h1
    exact ⟨ih1, ih2.trans h2⟩

theorem aborted_of_mem {c : Channel α} {xs : List (Access α)} (h : .abort ∈ xs) :
    (c.after xs).aborted = true := by
  induction xs generalizing c with
  | nil => cases h
  | cons x xs ih =>
    rcases List.mem_cons.1 h with rfl | h
    · exact (after_aborted rfl xs).1
    · exact ih h

/-- Everything that every history of a new channel keeps to. -/
theorem history_lawful (capacity : Nat) (xs : List (Access α)) :
    let c : Channel α := new capacity
    -- Nothing is lost, made up or reordered.
    c.accepted xs = c.handed xs ++ (c.after xs).queue ∧
    (c.after xs).rowsPut = (c.accepted xs).length ∧
    (c.after xs).queue.length ≤ max capacity 1 ∧
    (c.after xs).peakDepth = c.deepest xs ∧
    -- The end is told only when it has come, and it stays the end.
    (∀ x, ((c.after xs).access x).1.isEnd →
      (c.after xs).closed = true ∧ c.handed xs = c.accepted xs ∧
      ∀ ys, c.accepted (xs ++ x :: ys) = c.accepted xs ∧
        c.handed (xs ++ x :: ys) = c.handed xs) ∧
    -- An abort freezes the queue and refuses everybody.
    (.abort ∈ xs →
      (∀ ys, (c.after (xs ++ ys)).queue = (c.after xs).queue) ∧
      (∀ a, ((c.after xs).access (.put a)).1 = .put (.error .aborted)) ∧
      ((c.after xs).access .get).1 = .got (.error .aborted) ∧
      ((c.after xs).access .tryGet).1 = .polled (.error .aborted)) ∧
    -- Looking without waiting is waiting, where waiting would not have to.
    (((c.after xs).access .tryGet).1 = .polled (.ok .empty) ↔
      ((c.after xs).access .get).1 = .waits) ∧
    (c.after xs).access .tryGet =
      (((c.after xs).access .get).1.asPoll, ((c.after xs).access .get).2) := by
  intro c
  obtain ⟨hall, hput⟩ := after_conserves c xs
  have hall : c.accepted xs = c.handed xs ++ (c.after xs).queue := by simpa [c, new] using hall
  have hnew : c.Bounded := ⟨by simp [c, new], by simp [c, new]⟩
  obtain ⟨hbounded, hcap, hpeak⟩ := after_bounded hnew xs
  refine ⟨hall, by simpa [c, new] using hput, ?_, by simpa [c, new] using hpeak, ?_, ?_, ?_,
    tryGet_eq_get _⟩
  · have := hbounded.room
    rwa [hcap] at this
  · intro x hend
    have hdrained := drained_of_end hend
    refine ⟨hdrained.closed, by rw [hall, hdrained.empty, List.append_nil], fun ys => ?_⟩
    obtain ⟨hin, hout⟩ := after_drained hdrained (x :: ys)
    rw [accepted_append, handed_append, hin, hout]
    simp
  · intro habort
    have h := aborted_of_mem (c := c) habort
    refine ⟨fun ys => ?_, fun a => ?_, ?_, ?_⟩
    · rw [after_append]
      exact (after_aborted h ys).2
    · rw [put_aborted h]
    · rw [get_aborted h]
    · rw [tryGet_aborted h]
  · rw [tryGet_eq_get]
    exact asPoll_get_empty_iff _

end Sluice.Channel

namespace Sluice.Waiting

variable {α : Type}

/-- The access that a call makes each time it has the lock; one on the wakeup makes none. -/
def Call.access? : Call α → Option (Channel.Access α)
  | .put a => some (.put a)
  | .get => some .get
  | .tryGet => some .tryGet
  | .close => some .close
  | .abort => some .abort
  | .past _ => none

/-- The access that the next step of a thread makes, if it is at its lock. -/
def access? (s : State α) (thread : Nat) : Option (Channel.Access α) :=
  match s.threads[thread]? with
  | some (.entering call) | some (.woken call) => call.access?
  | _ => none

theorem attempt_channel (s : State α) (call : Call α) :
    (attempt s call).2 = s.channel.after call.access?.toList := by
  cases call with
  | put a =>
    rcases s.channel.put_cases a with ⟨-, h⟩ | ⟨-, -, h⟩ | ⟨-, -, -, h⟩ | ⟨-, -, -, h⟩ <;>
      simp [attempt, Call.access?, Channel.access, h]
  | get =>
    rcases s.channel.get_cases with ⟨-, h⟩ | ⟨-, -, -, h⟩ | ⟨-, -, -, h⟩ | ⟨-, a, rest, -, h⟩ <;>
      simp [attempt, Call.access?, Channel.access, h]
  | tryGet =>
    rcases s.channel.tryGet_cases with ⟨-, h⟩ | ⟨-, -, -, h⟩ | ⟨-, -, -, h⟩ | ⟨-, a, rest, -, h⟩ <;>
      simp [attempt, Call.access?, Channel.access, h]
  | close =>
    have h (hc : s.channel.closed = true) : s.channel.close = s.channel := by
      cases hs : s.channel
      simp_all [Channel.close]
    by_cases hc : s.channel.closed = true <;>
      simp [attempt, Call.access?, Channel.access, hc, h]
  | abort =>
    have h (ha : s.channel.aborted = true) : s.channel.abort = s.channel := by
      cases hs : s.channel
      simp_all [Channel.abort]
    by_cases ha : s.channel.aborted = true <;>
      simp [attempt, Call.access?, Channel.access, ha, h]
  | past seen =>
    simp only [attempt, Call.access?]
    split <;> rfl

theorem deliver_channel (signal : Signal) (pick : Nat) (s : State α) :
    (deliver signal pick s).channel = s.channel := by
  cases signal with
  | one c => rfl
  | all c => rfl
  | wakeup => simp only [deliver]; split <;> rfl

/-- Threads that park, wake and signal in any order still make a history, access by access. -/
theorem step_channel {s s' : State α} {thread pick : Nat} (h : step s thread pick = some s') :
    s'.channel = s.channel.after (access? s thread).toList := by
  cases ht : s.threads[thread]? with
  | none => simp [step, ht] at h
  | some place =>
    cases place with
    | entering call =>
      simp only [step, ht, Option.some.injEq] at h
      subst h
      simpa [access?, ht] using attempt_channel s call
    | woken call =>
      simp only [step, ht, Option.some.injEq] at h
      subst h
      simpa [access?, ht] using attempt_channel s call
    | signalling owed reply =>
      cases owed with
      | nil =>
        simp only [step, ht, Option.some.injEq] at h
        subst h
        simp [access?, ht]
      | cons signal owed =>
        simp only [step, ht] at h
        obtain ⟨-, h⟩ := Option.ite_none_right_eq_some.1 h
        simp only [Option.some.injEq] at h
        subst h
        simp [access?, ht, deliver_channel]
    | parked on call => simp [step, ht] at h
    | returned reply => simp [step, ht] at h

end Sluice.Waiting
