import Mathlib.Tactic
import Sluice.Proofs.Channel.History
import Sluice.Proofs.Prelude

/-!
No sleeper is forgotten. A signal is given after the lock is given up, so that between the change
of a channel and its signal others may take the item or the room, may park or may wake. What holds
all the time is a count: while callers of a kind sleep, those of the kind that are awake and those
about to be woken are at least as many as can go ahead.
-/

namespace Sluice.Waiting

variable {α : Type}

/-- The condition that a call parks on. -/
def Call.awaits : Call α → Option Condition
  | .put _ => some .notFull
  | .get => some .notEmpty
  | .past _ => some .changed
  | .tryGet | .close | .abort => none

/-- How many of the callers that wait for a condition can go ahead, one after the other. -/
def openings (c : Channel α) : Condition → Nat
  | .notEmpty => c.queue.length
  | .notFull => c.capacity - c.queue.length
  | .changed => 0

def Ended (c : Channel α) : Prop :=
  c.closed = true ∨ c.aborted = true

namespace Place

def SleepsOn (on : Condition) : Place α → Prop
  | .parked c _ => c = on
  | _ => False

/-- Signals to one thread that are still to be given, and threads woken by one. -/
def pledges (on : Condition) : Place α → Nat
  | .woken call => if call.awaits = some on then 1 else 0
  | .signalling owed _ => owed.count (.one on)
  | _ => 0

def OwesAll (on : Condition) : Place α → Prop
  | .signalling owed _ => .all on ∈ owed
  | _ => False

/-- A signal on the condition is still to be given. -/
def Owes (on : Condition) : Place α → Prop
  | .signalling owed _ => .one on ∈ owed ∨ .all on ∈ owed
  | _ => False

/-- Nobody parks on a condition that its call does not wait for. -/
def Fits : Place α → Prop
  | .parked on call => call.awaits = some on
  | _ => True

def AtLock : Place α → Prop
  | .entering _ | .woken _ => True
  | _ => False

/-- What a thread can still do among `n` of them. Waking all of them costs less than a signal. -/
def energy (n : Nat) : Place α → Nat
  | .entering _ | .woken _ => 3 * (n + 1) + 3
  | .parked _ _ => 3 * (n + 1) + 2
  | .signalling owed _ => owed.length * (n + 1) + 1
  | .returned _ => 0

end Place

open Place

/-- All that a look at the channel can come to: where the caller goes on, with which channel. -/
inductive Looked (c : Channel α) (call : Call α) : Place α → Channel α → Prop
  | parks {on : Condition} (awaits : call.awaits = some on) (shut : openings c on = 0)
      (open_ : on ≠ .changed → ¬ Ended c) : Looked c call (.parked on call) c
  | returns {reply : Reply α} (h : ∀ on, on ≠ .changed → call.awaits = some on → Ended c) :
      Looked c call (.returned reply) c
  | puts {a : α} {reply : Reply α} (h : call = .put a) (room : c.queue.length < c.capacity) :
      Looked c call (.signalling [.one .notEmpty, .wakeup] reply) (c.push a)
  | takes {a : α} {rest : List α} {reply : Reply α} (h : call = .get ∨ call = .tryGet)
      (hq : c.queue = a :: rest) : Looked c call (.signalling [.one .notFull] reply) (c.pop rest)
  | ends {c' : Channel α} {reply : Reply α} (h : Ended c') :
      Looked c call (.signalling endSignals reply) c'

theorem attempt_looked (s : State α) (call : Call α) :
    Looked s.channel call (attempt s call).1 (attempt s call).2 := by
  cases call with
  | put a =>
    simp only [attempt]
    rcases s.channel.put_cases a with ⟨ha, h⟩ | ⟨-, hc, h⟩ | ⟨ha, hc, hfull, h⟩ | ⟨-, -, hroom, h⟩ <;>
      rw [h]
    · exact .returns fun _ _ _ => .inr ha
    · exact .returns fun _ _ _ => .inl hc
    · exact .parks rfl (Nat.sub_eq_zero_of_le hfull) fun _ => by simp [Ended, ha, hc]
    · exact .puts rfl hroom
  | get =>
    simp only [attempt]
    rcases s.channel.get_cases with ⟨ha, h⟩ | ⟨-, hc, -, h⟩ | ⟨ha, hc, hq, h⟩ | ⟨-, a, rest, hq, h⟩ <;>
      rw [h]
    · exact .returns fun _ _ _ => .inr ha
    · exact .returns fun _ _ _ => .inl hc
    · exact .parks rfl (by simp [openings, hq]) fun _ => by simp [Ended, ha, hc]
    · exact .takes (.inl rfl) hq
  | tryGet =>
    have hnone (on : Condition) (_ : on ≠ .changed) : Call.awaits (.tryGet (α := α)) = some on →
        Ended s.channel := by simp [Call.awaits]
    simp only [attempt]
    rcases s.channel.tryGet_cases with ⟨-, h⟩ | ⟨-, -, -, h⟩ | ⟨-, -, -, h⟩ | ⟨-, a, rest, hq, h⟩ <;>
      rw [h]
    · exact .returns hnone
    · exact .returns hnone
    · exact .returns hnone
    · exact .takes (.inr rfl) hq
  | close =>
    simp only [attempt]
    split
    · exact .returns (by simp [Call.awaits])
    · exact .ends (.inl rfl)
  | abort =>
    simp only [attempt]
    split
    · exact .returns (by simp [Call.awaits])
    · exact .ends (.inr rfl)
  | past seen =>
    simp only [attempt]
    split
    · exact .parks rfl rfl fun h => absurd rfl h
    · exact .returns (by simp +contextual [Call.awaits, eq_comm])

namespace Looked

variable {c c' : Channel α} {call : Call α} {p : Place α} {on : Condition}

theorem fits (h : Looked c call p c') : p.Fits := by
  cases h with
  | parks awaits => exact awaits
  | _ => trivial

/-- Who changes the channel owes a signal for it, and who goes to sleep finds nothing. -/
theorem balance (h : Looked c call p c') (hon : on ≠ .changed) (hopen : ¬ Ended c') :
    openings c' on = 0 ∨ ¬ p.SleepsOn on ∧
      openings c' on + (Place.woken call).pledges on ≤ openings c on + p.pledges on := by
  cases h with
  | @parks on' awaits shut =>
    by_cases heq : on' = on
    · exact .inl (heq ▸ shut)
    · exact .inr ⟨heq, by simp [pledges, awaits, heq]⟩
  | returns hended =>
    have hne : call.awaits ≠ some on := fun h => hopen (hended on hon h)
    exact .inr ⟨id, by simp [pledges, hne]⟩
  | puts hcall room =>
    subst hcall
    cases on with
    | notEmpty => simp [openings, pledges, Call.awaits, SleepsOn]
    | notFull => simp [openings, pledges, Call.awaits, SleepsOn]; omega
    | changed => exact absurd rfl hon
  | takes hcall hq =>
    cases on with
    | notEmpty => rcases hcall with rfl | rfl <;> simp [openings, pledges, Call.awaits, SleepsOn, hq]
    | notFull =>
      rcases hcall with rfl | rfl <;> simp [openings, pledges, Call.awaits, SleepsOn, hq] <;> omega
    | changed => exact absurd rfl hon
  | ends h => exact absurd h hopen

/-- Nobody goes to sleep at a channel that has ended, and who ends it owes a signal to all. -/
theorem ended (h : Looked c call p c') (hon : on ≠ .changed) (hended : Ended c') :
    ¬ p.SleepsOn on ∧ (Ended c ∨ p.OwesAll on) := by
  cases h with
  | parks _ _ hopen =>
    refine ⟨?_, .inl hended⟩
    rintro rfl
    exact hopen hon hended
  | returns => exact ⟨id, .inl hended⟩
  | puts => exact ⟨id, .inl hended⟩
  | takes => exact ⟨id, .inl hended⟩
  | ends =>
    refine ⟨id, .inr ?_⟩
    cases on with
    | notEmpty => simp [OwesAll, endSignals]
    | notFull => simp [OwesAll, endSignals]
    | changed => exact absurd rfl hon

theorem energy_lt (h : Looked c call p c') (n : Nat) :
    p.energy n < (Place.woken call).energy n := by
  cases h <;> simp [Place.energy, endSignals] <;> omega

theorem stays_ended (h : Looked c call p c') (hended : Ended c) : Ended c' := by
  cases h with
  | ends h => exact h
  | _ => exact hended

end Looked

/-- A change of place that lets no sleeper down. -/
structure Place.Eases (p q : Place α) : Prop where
  fits : p.Fits → q.Fits
  sleepsOn : ∀ on, q.SleepsOn on → p.SleepsOn on
  pledges_le : ∀ on, p.pledges on ≤ q.pledges on
  owesAll : ∀ on, p.OwesAll on → q.OwesAll on

theorem Place.Eases.refl (p : Place α) : p.Eases p :=
  ⟨id, fun _ => id, fun _ => le_rfl, fun _ => id⟩

theorem eases_woken (on : Condition) (call : Call α) : (Place.parked on call).Eases (.woken call) :=
  ⟨fun _ => trivial, fun _ => False.elim, fun _ => Nat.zero_le _, fun _ => False.elim⟩

theorem eases_returned (reply : Reply α) : (Place.signalling [] reply).Eases (.returned reply) :=
  ⟨fun _ => trivial, fun _ => False.elim, fun _ => le_rfl, fun _ h => nomatch h⟩

theorem eases_wake (on : Condition) (p : Place α) : p.Eases (wake on p) := by
  cases p with
  | parked c call =>
    simp only [wake]
    split
    · exact eases_woken c call
    · exact .refl _
  | _ => exact .refl _

theorem energy_wake (n : Nat) (on : Condition) (p : Place α) :
    (wake on p).energy n ≤ p.energy n + 1 := by
  cases p with
  | parked c call => simp only [wake]; split <;> simp [Place.energy]
  | _ => exact Nat.le_succ _

/-- A signal only wakes: what every wake does to one thread, a signal does to all. -/
theorem deliver_threads {R : Place α → Place α → Prop} (hself : ∀ p, R p p)
    (hwake : ∀ on p, R p (wake on p)) (signal : Signal) (pick : Nat) (s : State α) :
    List.Forall₂ R s.threads (deliver signal pick s).threads := by
  have hall (on : Condition) : List.Forall₂ R s.threads (s.threads.map (wake on)) :=
    List.forall₂_map_right_iff.mpr (List.forall₂_same.mpr fun p _ => hwake on p)
  cases signal with
  | one on => exact List.forall₂_modify (fun p _ => hself p) (fun p _ => hwake on p) pick
  | all on => exact hall on
  | wakeup =>
    simp only [deliver]
    split
    · exact hall .changed
    · exact List.forall₂_same.mpr fun p _ => hself p

theorem mayPick_sleeper {s : State α} {on : Condition} {pick : Nat} (h : mayPick on pick s = true)
    (hsleeper : ∃ p ∈ s.threads, p.SleepsOn on) :
    ∃ call, s.threads[pick]? = some (.parked on call) := by
  obtain ⟨p, hp, hsleeps⟩ := hsleeper
  simp only [mayPick, Bool.or_eq_true, Bool.not_eq_true', List.any_eq_false] at h
  rcases h with h | h
  · cases hq : s.threads[pick]? with
    | none => simp [hq] at h
    | some q =>
      cases q with
      | parked c call =>
        obtain rfl : c = on := by simpa [hq] using h
        exact ⟨call, rfl⟩
      | _ => simp [hq] at h
  · cases p with
    | parked c call => exact absurd (decide_eq_true (show c = on from hsleeps)) (h _ hp)
    | _ => exact hsleeps.elim

/-- What is promised to the sleepers of a channel. -/
structure Attended (s : State α) : Prop where
  fits : ∀ p ∈ s.threads, p.Fits
  counted : ∀ on, on ≠ .changed → ¬ Ended s.channel → (∃ p ∈ s.threads, p.SleepsOn on) →
    openings s.channel on ≤ (s.threads.map (pledges on)).sum
  released : ∀ on, on ≠ .changed → Ended s.channel → (∃ p ∈ s.threads, p.SleepsOn on) →
    ∃ p ∈ s.threads, p.OwesAll on

namespace Attended

variable {s : State α} {t : Nat} {p : Place α}

theorem eased (h : Attended s) {threads : List (Place α)}
    (heased : List.Forall₂ Eases s.threads threads) : Attended { s with threads } := by
  have hsleepers {on : Condition} : (∃ q ∈ threads, q.SleepsOn on) →
      ∃ p ∈ s.threads, p.SleepsOn on := by
    rintro ⟨q, hq, hsleeps⟩
    obtain ⟨p, hp, he⟩ := List.forall₂_mem heased hq
    exact ⟨p, hp, he.sleepsOn on hsleeps⟩
  refine ⟨fun q hq => ?_, fun on hon hopen hex => ?_, fun on hon hended hex => ?_⟩
  · obtain ⟨p, hp, he⟩ := List.forall₂_mem heased hq
    exact he.fits (h.fits p hp)
  · refine (h.counted on hon hopen (hsleepers hex)).trans (List.Forall₂.sum_le_sum ?_)
    rw [List.forall₂_map_left_iff, List.forall₂_map_right_iff]
    exact heased.imp fun p q he => he.pledges_le on
  · obtain ⟨p, hp, howes⟩ := h.released on hon hended (hsleepers hex)
    obtain ⟨q, hq, he⟩ := List.forall₂_mem heased.flip hp
    exact ⟨q, hq, he.owesAll on howes⟩

theorem look (h : Attended s) {call : Call α} (ht : s.threads[t]? = some p)
    (hp : p = .entering call ∨ p = .woken call) {q : Place α} {c : Channel α}
    (hlook : Looked s.channel call q c) :
    Attended { s with channel := c, threads := s.threads.set t q } := by
  have hsleepers {on : Condition} (hawake : ¬ q.SleepsOn on) :
      (∃ r ∈ s.threads.set t q, r.SleepsOn on) → ∃ r ∈ s.threads, r.SleepsOn on := by
    rintro ⟨r, hr, hsleeps⟩
    rcases List.mem_or_eq_of_mem_set hr with hr | rfl
    · exact ⟨r, hr, hsleeps⟩
    · exact absurd hsleeps hawake
  refine ⟨fun r hr => ?_, fun on hon hopen hex => ?_, fun on hon hended hex => ?_⟩
  · rcases List.mem_or_eq_of_mem_set hr with hr | rfl
    · exact h.fits r hr
    · exact hlook.fits
  · change openings c on ≤ _
    rcases hlook.balance hon hopen with hzero | ⟨hawake, hbalance⟩
    · simp [hzero]
    · have hopen' : ¬ Ended s.channel := fun h => hopen (hlook.stays_ended h)
      have hcount := h.counted on hon hopen' (hsleepers hawake hex)
      have hsum := List.sum_map_set (pledges on) ht q
      have hle : p.pledges on ≤ (Place.woken call).pledges on := by
        rcases hp with rfl | rfl
        · exact Nat.zero_le _
        · exact le_rfl
      dsimp only
      omega
  · obtain ⟨hawake, hbefore | howes⟩ := hlook.ended hon hended
    · obtain ⟨r, hr, howes⟩ := h.released on hon hbefore (hsleepers hawake hex)
      refine ⟨r, (List.eq_or_mem_set ht hr q).resolve_left ?_, howes⟩
      rintro rfl
      rcases hp with rfl | rfl <;> exact howes.elim
    · exact ⟨q, List.mem_set (List.getElem?_eq_some_iff.mp ht).1 _, howes⟩

theorem signal (h : Attended s) {signal : Signal} {owed : List Signal} {reply : Reply α}
    (ht : s.threads[t]? = some (.signalling (signal :: owed) reply)) {pick : Nat}
    (hpick : ∀ on, signal = .one on → mayPick on pick s = true) :
    Attended (deliver signal pick { s with threads := s.threads.set t (.signalling owed reply) }) := by
  set before := { s with threads := s.threads.set t (.signalling owed reply) } with hbefore
  have hroused : List.Forall₂ Eases before.threads (deliver signal pick before).threads :=
    deliver_threads .refl eases_wake signal pick before
  have hchannel : (deliver signal pick before).channel = s.channel := deliver_channel _ _ _
  have hsleepers {on : Condition} : (∃ q ∈ (deliver signal pick before).threads, q.SleepsOn on) →
      ∃ q ∈ s.threads, q.SleepsOn on := by
    rintro ⟨r, hr, hsleeps⟩
    obtain ⟨q, hq, he⟩ := List.forall₂_mem hroused hr
    rcases List.mem_or_eq_of_mem_set hq with hq | rfl
    · exact ⟨q, hq, he.sleepsOn on hsleeps⟩
    · exact (he.sleepsOn on hsleeps).elim
  refine ⟨fun r hr => ?_, fun on hon hopen hex => ?_, fun on hon hended hex => ?_⟩
  · obtain ⟨q, hq, he⟩ := List.forall₂_mem hroused hr
    rcases List.mem_or_eq_of_mem_set hq with hq | rfl
    · exact he.fits (h.fits q hq)
    · exact he.fits trivial
  · rw [hchannel] at hopen ⊢
    have hcount := h.counted on hon hopen (hsleepers hex)
    have hgiven : (before.threads.map (pledges on)).sum + (signal :: owed).count (.one on) =
        (s.threads.map (pledges on)).sum + owed.count (.one on) :=
      List.sum_map_set (pledges on) ht (.signalling owed reply)
    by_cases hone : signal = .one on
    · -- one signal less, but a sleeper more that is awake
      subst hone
      obtain ⟨call, hcall⟩ := mayPick_sleeper (hpick on rfl) (hsleepers hex)
      have hpicked : before.threads[pick]? = some (.parked on call) := by
        have hne : t ≠ pick := by
          rintro rfl
          simp [ht] at hcall
        rw [hbefore, List.getElem?_set_ne hne, hcall]
      have hwoken : before.threads.modify pick (wake on) = before.threads.set pick (.woken call) := by
        simp [List.modify_eq_set_getElem?, hpicked, wake]
      have hawake := List.sum_map_set (pledges on) hpicked (.woken call)
      have hfits : call.awaits = some on := h.fits _ (List.mem_of_getElem? hcall)
      rw [List.count_cons_self] at hgiven
      simp only [pledges, hfits, if_true] at hawake
      simp only [deliver, wakeOne, hwoken]
      omega
    · have hsame : (before.threads.map (pledges on)).sum ≤
          ((deliver signal pick before).threads.map (pledges on)).sum := by
        refine List.Forall₂.sum_le_sum ?_
        rw [List.forall₂_map_left_iff, List.forall₂_map_right_iff]
        exact hroused.imp fun p q he => he.pledges_le on
      rw [List.count_cons_of_ne hone] at hgiven
      omega
  · rw [hchannel] at hended
    by_cases hall : signal = .all on
    · -- nobody sleeps any more
      subst hall
      obtain ⟨r, hr, hsleeps⟩ := hex
      obtain ⟨q, -, rfl⟩ := List.mem_map.mp hr
      cases q with
      | parked c call => by_cases hc : c = on <;> simp [wake, hc, SleepsOn] at hsleeps
      | _ => exact hsleeps.elim
    · obtain ⟨o, ho, howes⟩ := h.released on hon hended (hsleepers hex)
      have hstill : ∃ q ∈ before.threads, q.OwesAll on := by
        rcases List.eq_or_mem_set ht ho (.signalling owed reply) with rfl | ho
        · exact ⟨_, List.mem_set (List.getElem?_eq_some_iff.mp ht).1 _,
            (List.mem_cons.mp howes).resolve_left fun h => hall h.symm⟩
        · exact ⟨o, ho, howes⟩
      obtain ⟨q, hq, howes⟩ := hstill
      obtain ⟨r, hr, he⟩ := List.forall₂_mem hroused.flip hq
      exact ⟨r, hr, he.owesAll on howes⟩

/-- A sleeper that could go ahead is on somebody's list. -/
theorem cared_for (h : Attended s) {on : Condition} (hon : on ≠ .changed)
    (hsleeper : ∃ p ∈ s.threads, p.SleepsOn on) (hopen : 0 < openings s.channel on ∨ Ended s.channel) :
    (∃ p ∈ s.threads, p.Owes on) ∨ ∃ call, call.awaits = some on ∧ .woken call ∈ s.threads := by
  by_cases hended : Ended s.channel
  · obtain ⟨p, hp, howes⟩ := h.released on hon hended hsleeper
    cases p with
    | signalling owed reply => exact .inl ⟨_, hp, .inr howes⟩
    | _ => exact howes.elim
  · have hsome : 0 < (s.threads.map (pledges on)).sum :=
      (hopen.resolve_right hended).trans_le (h.counted on hon hended hsleeper)
    obtain ⟨n, hn, hpos⟩ := List.sum_pos_iff_exists_pos_nat.mp hsome
    obtain ⟨p, hp, rfl⟩ := List.mem_map.mp hn
    cases p with
    | woken call =>
      have hawaits : call.awaits = some on := by
        by_contra hne
        simp [pledges, hne] at hpos
      exact .inr ⟨call, hawaits, hp⟩
    | signalling owed reply => exact .inl ⟨_, hp, .inl (List.count_pos_iff.mp hpos)⟩
    | _ => exact absurd hpos (lt_irrefl 0)

end Attended

end Sluice.Waiting
