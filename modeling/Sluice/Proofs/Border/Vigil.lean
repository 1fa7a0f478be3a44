import Sluice.Proofs.Border.Journal
import Sluice.Proofs.Run.Station

/-!
Watching several inputs. A reader records the generation of its wakeup, looks at its inputs one after
another, looks at the stop flag and sleeps until the generation has changed. Whoever changes a channel
tells the reader afterwards, and whoever stops everybody raises the flag first and tells all readers
last. In whatever order all this happens, a reader that sleeps has missed nothing that somebody is not
about to tell it.
-/

namespace Sluice

def Reading.seen : Reading → Option UInt64
  | .scan seen _ | .sleep seen => some seen
  | _ => none

namespace Border

/-- A read has looked at this input since it recorded the generation. -/
def Looked (p : Border) (inlet : Inlet) : Reading → Prop
  | .scan _ done => ∃ n < done, p.inputs[p.slot n]? = some inlet
  | .sleep _ => inlet ∈ p.inputs
  | _ => False

variable {p p' : Border} {net : Net} {t : Touch} {call call' : Reading}

theorem Looked.seen {inlet : Inlet} (h : p.Looked inlet call) : ∃ seen, call.seen = some seen := by
  cases call with
  | scan seen | sleep seen => exact ⟨seen, rfl⟩
  | any | only | receive => exact h.elim

theorem Looked.mem {inlet : Inlet} (h : p.Looked inlet call) : inlet ∈ p.inputs := by
  cases call with
  | scan =>
    obtain ⟨n, -, hi⟩ := h
    exact List.mem_of_getElem? hi
  | sleep => exact h
  | any | only | receive => exact h.elim

/-- How many places after the first input of a round this one comes up. -/
def ahead (p : Border) (k : Nat) : Nat :=
  ringDistance p.inputs.length p.nextInput k

theorem slot_ahead {k : Nat} (hk : k < p.inputs.length) : p.slot (p.ahead k) = k :=
  add_ringDistance_mod hk

theorem slot_surjective {inlet : Inlet} (h : inlet ∈ p.inputs) :
    ∃ n < p.inputs.length, p.inputs[p.slot n]? = some inlet := by
  obtain ⟨k, hk⟩ := List.getElem?_of_mem h
  have hlt := (List.getElem?_eq_some_iff.mp hk).1
  exact ⟨p.ahead k, ringDistance_lt hlt, by rw [slot_ahead hlt, hk]⟩

theorem ReadStep.seen (h : p.ReadStep net t call p' (.goes call')) {seen : UInt64}
    (hs : call'.seen = some seen) :
    t = .nothing ∧ (call.seen = some seen ∨ call.seen = none ∧ seen = net.generation p.wakeup ∧
      ∀ inlet, ¬ p'.Looked inlet call') := by
  cases h with
  | many_live =>
    exact ⟨rfl, .inr ⟨rfl, by simpa [Reading.seen] using hs.symm, by simp [Looked]⟩⟩
  | skip | scan_ended | scan_empty | fall_asleep => exact ⟨rfl, .inl hs⟩
  | one_live | turn_to | wake => cases hs

theorem ReadStep.looked (h : p.ReadStep net t call p' (.goes call')) {inlet : Inlet}
    (hl : p'.Looked inlet call') (hf : inlet.finished = false) :
    p.Looked inlet call ∨ net.channel? inlet.channel = none ∨ net.Quiet inlet.channel := by
  have hnext {done : Nat} {seen : UInt64}
      (hn : ∃ n < done + 1, p.inputs[p.slot n]? = some inlet) :
      p.Looked inlet (.scan seen done) ∨ p.inputs[p.slot done]? = some inlet := by
    obtain ⟨n, hn, hi⟩ := hn
    rcases Nat.lt_succ_iff_lt_or_eq.mp hn with hn | rfl
    · exact .inl ⟨n, hn, hi⟩
    · exact .inr hi
  cases h with
  | many_live => simp [Looked] at hl
  | one_live | turn_to | wake => exact hl.elim
  | skip _ at_i finished =>
    refine (hnext hl).imp_right fun hi => ?_
    rw [at_i, Option.some.injEq] at hi
    simp [hi, hf] at finished
  | @scan_ended seen done old _ at_i =>
    obtain ⟨n, hn, hi⟩ := hl
    have hslot : (p.finishInput (p.slot done)).slot n = p.slot n := by
      simp [slot, finishInput]
    rw [hslot, getElem?_finishInput, Option.map_eq_some_iff] at hi
    obtain ⟨old, hold, rfl⟩ := hi
    by_cases hsame : p.slot done = p.slot n
    · simp [hsame] at hf
    · rw [if_neg hsame] at hf ⊢
      rcases Nat.lt_succ_iff_lt_or_eq.mp hn with hn | rfl
      · exact .inl ⟨n, hn, hold⟩
      · exact absurd rfl hsame
  | scan_empty _ at_i _ quiet =>
    refine (hnext hl).imp_right fun hi => ?_
    rw [at_i, Option.some.injEq] at hi
    exact hi ▸ quiet
  | fall_asleep all =>
    obtain ⟨n, hn, hi⟩ := slot_surjective hl
    exact .inl ⟨n, by omega, hi⟩

end Border

/-- A reader, and what others that use its net owe to the net. -/
structure Vigil where
  border : Border
  net : Net
  /-- The read under way. -/
  call : Option Reading := none
  owed : List (List NetAction) := []

namespace Vigil

/-- What can happen next. Everybody but the reader is free to come with as many threads as it likes. -/
inductive Turn where
  /-- The reader asks for a row, from any input or from one. -/
  | ask (input : Option Nat)
  /-- The read under way goes on. -/
  | read
  /-- Somebody puts a row into a channel, if there is room. -/
  | put (c : Nat) (row : Row)
  /-- Somebody is going to mark the end of a stream. -/
  | close (c : Nat)
  | abort (c : Nat)
  /-- Somebody is going to stop everybody. -/
  | stop
  /-- One of the others does the next thing that it owes. -/
  | pay (k : Nat)

def step (v : Vigil) : Turn → Vigil
  | .ask input =>
    match v.call with
    | none => { v with call := some (Border.readingOf input) }
    | some _ => v
  | .read =>
    match v.call with
    | none => v
    | some call =>
      match v.border.advanceRead v.net call with
      | .blocked => v
      | .continues call border net => { v with border, net, call := some call }
      | .replies _ border net => { v with border, net, call := none }
  | .put c row =>
    match v.net.put c row with
    | some (.ok (), net) => { v with net, owed := v.owed ++ [[.signal c]] }
    | _ => v
  | .close c => { v with owed := v.owed ++ [[.close c]] }
  | .abort c => { v with owed := v.owed ++ [[.abort c]] }
  | .stop => { v with owed := v.owed ++ [NetAction.stopAll] }
  | .pay k =>
    match v.owed[k]? with
    | some (action :: rest) =>
      let (net, more) := action.perform v.net
      { v with net, owed := v.owed.set k (more ++ rest) }
    | _ => v

def after (v : Vigil) (turns : List Turn) : Vigil :=
  turns.foldl step v

def held (v : Vigil) : Option UInt64 :=
  v.call.bind Reading.seen

/-- How often the wakeup has moved while the reader holds a generation, after one more turn, which
moves it once at most. -/
def heardOn (v v' : Vigil) (n : Nat) : Nat :=
  match v.held, v'.held with
  | some _, some _ =>
    if v'.net.generation v.border.wakeup = v.net.generation v.border.wakeup then n else n + 1
  | _, _ => 0

/-- How often the wakeup moved since the reader recorded the generation that it holds in the end. -/
def heard (v : Vigil) (n : Nat) : List Turn → Nat
  | [] => n
  | turn :: turns => (v.step turn).heard (v.heardOn (v.step turn) n) turns

def Owes (v : Vigil) (a : NetAction) : Prop :=
  ∃ todo ∈ v.owed, a ∈ todo

/-- The channels of the inputs tell the wakeup of the reader. -/
structure Wired (v : Vigil) : Prop where
  wakeup : v.border.wakeup < v.net.wakeups.length
  inputs : ∀ c ∈ v.border.inputChannels, v.net.reader? c = some v.border.wakeup

inductive Stepped (v : Vigil) : Vigil → Prop
  | idle : Stepped v v
  | ask {input : Option Nat} (free : v.call = none) :
      Stepped v { v with call := some (Border.readingOf input) }
  | read_on {call call' : Reading} {t : Touch} {border : Border} {net : Net}
      (under_way : v.call = some call) (step : v.border.ReadStep v.net t call border (.goes call'))
      (touched : v.net.Touched t net) : Stepped v { v with border, net, call := some call' }
  | read_done {call : Reading} {r : Except StepError (Option Row)} {t : Touch} {border : Border}
      {net : Net} (under_way : v.call = some call)
      (step : v.border.ReadStep v.net t call border (.replies r)) (touched : v.net.Touched t net) :
      Stepped v { v with border, net, call := none }
  | put {c : Nat} {row : Row} {net : Net} (touched : v.net.Touched (.put c row) net) :
      Stepped v { v with net, owed := v.owed ++ [[.signal c]] }
  | comes {todo : List NetAction} (program : todo = NetAction.stopAll ∨ .raise ∉ todo) :
      Stepped v { v with owed := v.owed ++ [todo] }
  | pay {k : Nat} {action : NetAction} {rest more : List NetAction} {t : Touch} {net : Net}
      (at_k : v.owed[k]? = some (action :: rest)) (does : action.Does v.net t more)
      (touched : v.net.Touched t net) : Stepped v { v with net, owed := v.owed.set k (more ++ rest) }

variable {v v' : Vigil} {n : Nat}

theorem step_stepped (v : Vigil) (turn : Turn) : v.Stepped (v.step turn) := by
  cases turn with
  | ask input =>
    cases hc : v.call with
    | none => simpa [step, hc] using Stepped.ask hc
    | some call => simpa [step, hc] using Stepped.idle
  | read =>
    cases hc : v.call with
    | none => simpa [step, hc] using Stepped.idle
    | some call =>
      have ho := v.border.advanceRead_obeys v.net call
      cases hr : v.border.advanceRead v.net call with
      | blocked => simpa [step, hc, hr] using Stepped.idle
      | continues call' border net =>
        rw [hr] at ho
        obtain ⟨t, hs, hn⟩ := ho
        simpa [step, hc, hr] using Stepped.read_on hc hs hn
      | replies r border net =>
        rw [hr] at ho
        obtain ⟨t, hs, hn⟩ := ho
        simpa [step, hc, hr] using Stepped.read_done hc hs hn
  | put c row =>
    rcases hp : v.net.put c row with _ | ⟨r, net⟩
    · simpa [step, hp] using Stepped.idle
    · obtain ⟨rfl, ht⟩ | ⟨-, ⟨rfl, -⟩ | ⟨rfl, -⟩⟩ := Net.put_touched hp
      · simpa [step, hp] using Stepped.put ht
      · simpa [step, hp] using Stepped.idle
      · simpa [step, hp] using Stepped.idle
  | close c => exact .comes (.inr (by simp))
  | abort c => exact .comes (.inr (by simp))
  | stop => exact .comes (.inl rfl)
  | pay k =>
    rcases hk : v.owed[k]? with _ | _ | ⟨action, rest⟩
    · simpa [step, hk] using Stepped.idle
    · simpa [step, hk] using Stepped.idle
    · obtain ⟨t, hd, hn⟩ := action.perform_does v.net
      simpa [step, hk] using Stepped.pay hk hd hn

/-- Nothing is lost on the reader: what it holds is the generation of its wakeup but for the moves
since then. If there were none, what it found empty still is, or the signal is owed; and if it sleeps
although everybody is to stop, it is going to be told. -/
structure Watchful (v : Vigil) (n : Nat) : Prop where
  wired : v.Wired
  programs : ∀ todo ∈ v.owed, todo = NetAction.stopAll ∨ .raise ∉ todo
  generation : ∀ seen, v.held = some seen →
    v.net.generation v.border.wakeup = seen + UInt64.ofNat n
  quiet : n = 0 → ∀ call, v.call = some call → ∀ inlet, v.border.Looked inlet call →
    inlet.finished = false → v.net.Quiet inlet.channel ∨ v.Owes (.signal inlet.channel)
  told : n = 0 → ∀ seen, v.call = some (.sleep seen) → v.net.stopping = true →
    v.Owes .notifyAll ∨ v.Owes (.notify v.border.wakeup)

theorem Wired.touched {t : Touch} {net : Net} {border : Border} {call : Option Reading}
    {owed : List (List NetAction)} (h : v.Wired) (ht : v.net.Touched t net)
    (hp : border.place = v.border.place) : Wired { border, net, call, owed } := by
  have hwakeup : border.wakeup = v.border.wakeup := congrArg Place.wakeup hp
  refine ⟨?_, fun c hc => ?_⟩
  · rw [hwakeup, ht.wakeups_length]
    exact h.wakeup
  · rw [hwakeup, ht.reader?]
    exact h.inputs c (Border.place_inputs hp ▸ hc)

/-- Somebody else touches the net. Whoever owed something still does, or has just done it and owes
what follows. -/
theorem Watchful.shared {t : Touch} {net : Net} {owed : List (List NetAction)}
    (h : v.Watchful n) (ht : v.net.Touched t net)
    (hprograms : ∀ todo ∈ owed, todo = NetAction.stopAll ∨ .raise ∉ todo)
    (hnew : ∀ c, t.Disturbs c → Owes { v with owed } (.signal c))
    (hraise : t = .raise → Owes { v with owed } .notifyAll)
    (hstill : ∀ a, v.Owes a → Owes { v with owed } a ∨
      ∃ more, a.Does v.net t more ∧ ∀ b ∈ more, Owes { v with owed } b) :
    Watchful { v with net, owed } (v.heardOn { v with net, owed } n) := by
  have hon {seen : UInt64} (hs : v.held = some seen) :
      t = .notify v.border.wakeup ∧ net.generation v.border.wakeup =
          v.net.generation v.border.wakeup + 1 ∧ v.heardOn { v with net, owed } n = n + 1 ∨
        t ≠ .notify v.border.wakeup ∧ net.generation v.border.wakeup =
          v.net.generation v.border.wakeup ∧ v.heardOn { v with net, owed } n = n := by
    have hs' : Vigil.held { v with net, owed } = some seen := hs
    obtain ⟨htold, hgen, hne⟩ | ⟨hne, hgen⟩ := ht.generation_cases h.wired.wakeup
    · exact .inl ⟨htold, hgen, by simp [heardOn, hs, hs', hne]⟩
    · exact .inr ⟨hne, hgen, by simp [heardOn, hs, hs', hgen]⟩
  have hzero {call : Reading} {seen : UInt64} (hc : v.call = some call)
      (hseen : call.seen = some seen) (h0 : v.heardOn { v with net, owed } n = 0) :
      n = 0 ∧ t ≠ .notify v.border.wakeup := by
    have hs : v.held = some seen := by simp [held, hc, hseen]
    obtain ⟨-, -, hn⟩ | ⟨hne, -, hn⟩ := hon hs
    · omega
    · exact ⟨by omega, hne⟩
  refine ⟨h.wired.touched ht rfl, hprograms, fun seen hs => ?_, fun h0 call hc inlet hl hf => ?_,
    fun h0 seen hc hstop => ?_⟩
  · have hgen := h.generation seen hs
    obtain ⟨-, hmoved, hn⟩ | ⟨-, hsame, hn⟩ := hon hs
    · rw [hn, UInt64.ofNat_add]
      exact hmoved.trans (by rw [hgen]; exact UInt64.add_assoc _ _ _)
    · rw [hn]
      exact hsame.trans hgen
  · have hl : v.border.Looked inlet call := hl
    obtain ⟨seen, hseen⟩ := hl.seen
    obtain ⟨rfl, hne⟩ := hzero hc hseen h0
    rcases h.quiet rfl call hc inlet hl hf with hq | ho
    · exact (ht.quiet hq).imp_right (hnew _)
    · refine .inr ((hstill _ ho).resolve_right ?_)
      rintro ⟨more, hdoes, -⟩
      exact hne (hdoes.signal_sent (h.wired.inputs _ (List.mem_map_of_mem hl.mem)))
  · obtain ⟨rfl, hne⟩ := hzero hc rfl h0
    by_cases hraised : t = .raise
    · exact .inl (hraise hraised)
    · rw [ht.stopping_of_ne hraised] at hstop
      rcases h.told rfl seen hc hstop with ho | ho
      · refine (hstill _ ho).imp_right ?_
        rintro ⟨more, hdoes, hmore⟩
        cases hdoes
        exact hmore _ (List.mem_map_of_mem (List.mem_range.mpr h.wired.wakeup))
      · refine .inr ((hstill _ ho).resolve_right ?_)
        rintro ⟨more, hdoes, -⟩
        cases hdoes
        exact hne rfl

theorem Wired.watchful (h : v.Wired)
    (programs : ∀ todo ∈ v.owed, todo = NetAction.stopAll ∨ .raise ∉ todo) (hheld : v.held = none) :
    v.Watchful n := by
  refine ⟨h, programs, fun seen hs => ?_, fun _ call hc inlet hl => ?_, fun _ seen hc => ?_⟩
  · simp [hheld] at hs
  · obtain ⟨seen, hs⟩ := hl.seen
    simp [held, hc, hs] at hheld
  · simp [held, hc, Reading.seen] at hheld

theorem Wired.channel (h : v.Wired) {inlet : Inlet} (hi : inlet ∈ v.border.inputs) :
    v.net.channel? inlet.channel ≠ none := by
  have hr := h.inputs _ (List.mem_map_of_mem hi)
  intro hnone
  rw [Net.channel?, Option.map_eq_none_iff] at hnone
  simp [Net.reader?, hnone] at hr

theorem Watchful.reads {call call' : Reading} {border : Border} {net : Net} {t : Touch}
    (h : v.Watchful n) (hc : v.call = some call)
    (hs : v.border.ReadStep v.net t call border (.goes call')) (ht : v.net.Touched t net) :
    Watchful { v with border, net, call := some call' }
      (v.heardOn { v with border, net, call := some call' } n) := by
  have hwired : Wired { v with border, net, call := some call' } := h.wired.touched ht hs.place
  cases hseen : call'.seen with
  | none => exact hwired.watchful h.programs hseen
  | some seen =>
    obtain ⟨rfl, hold⟩ := hs.seen hseen
    cases ht
    have hwakeup : border.wakeup = v.border.wakeup := congrArg Place.wakeup hs.place
    have hasleep (s : UInt64) (he : call' = .sleep s) : v.net.stopping = false := by
      subst he
      cases hs
      assumption
    have htold (s : UInt64) (he : some call' = some (.sleep s)) (hstop : v.net.stopping = true) :
        v.Owes .notifyAll ∨ v.Owes (.notify border.wakeup) := by
      simp [hasleep s (Option.some.inj he)] at hstop
    rcases hold with hbefore | ⟨hbefore, hnow, hnone⟩
    · have hn : v.heardOn { v with border, net := v.net, call := some call' } n = n := by
        simp [heardOn, held, hc, hbefore, hseen]
      rw [hn]
      refine ⟨hwired, h.programs, fun s he => ?_, fun h0 c he inlet hl hf => ?_, fun _ => htold⟩
      · have hsame : s = seen := by simpa [held, hseen] using he.symm
        rw [hwakeup, hsame]
        exact h.generation seen (by simp [held, hc, hbefore])
      · obtain rfl := Option.some.inj he
        rcases hs.looked hl hf with hlooked | hnowhere | hq
        · exact h.quiet h0 call hc inlet hlooked hf
        · exact absurd hnowhere (hwired.channel hl.mem)
        · exact .inl hq
    · have hn : v.heardOn { v with border, net := v.net, call := some call' } n = 0 := by
        simp [heardOn, held, hc, hbefore]
      rw [hn]
      refine ⟨hwired, h.programs, fun s he => ?_, fun _ c he inlet hl => ?_, fun _ => htold⟩
      · have hsame : s = seen := by simpa [held, hseen] using he.symm
        rw [hwakeup, hsame, hnow]
        simp
      · obtain rfl := Option.some.inj he
        exact absurd hl (hnone inlet)

theorem owes_append {a : NetAction} {todo : List NetAction}
    (h : v.Owes a ∨ a ∈ todo) : Owes { v with owed := v.owed ++ [todo] } a := by
  rcases h with ⟨todo', hmem, ha⟩ | ha
  · exact ⟨todo', List.mem_append_left _ hmem, ha⟩
  · exact ⟨todo, List.mem_append_right _ (List.mem_singleton_self _), ha⟩

theorem Watchful.stepped (h : v.Watchful n) (hs : v.Stepped v') : v'.Watchful (v.heardOn v' n) := by
  have happend {todo : List NetAction} (hnew : todo = NetAction.stopAll ∨ .raise ∉ todo) :
      ∀ todo' ∈ v.owed ++ [todo], todo' = NetAction.stopAll ∨ .raise ∉ todo' := by
    intro todo' hmem
    rcases List.mem_append.mp hmem with hmem | hmem
    · exact h.programs todo' hmem
    · exact List.mem_singleton.mp hmem ▸ hnew
  cases hs with
  | idle =>
    cases hh : v.held with
    | none => exact h.wired.watchful h.programs hh
    | some seen => simpa [heardOn, hh] using h
  | @ask input free =>
    refine Wired.watchful (h.wired.touched .nothing rfl) h.programs ?_
    cases input <;> rfl
  | read_on under_way step touched => exact h.reads under_way step touched
  | read_done under_way step touched =>
    exact Wired.watchful (h.wired.touched touched step.place) h.programs rfl
  | put touched =>
    refine h.shared touched (happend (.inr (by simp))) (fun c hd => owes_append (.inr ?_)) (by simp)
      fun a ha => .inl (owes_append (.inl ha))
    simpa [Touch.Disturbs, eq_comm] using hd
  | comes program =>
    exact h.shared .nothing (happend program) (by simp [Touch.Disturbs]) (by simp)
      fun a ha => .inl (owes_append (.inl ha))
  | @pay k action rest more t net at_k does touched =>
    have hlt := (List.getElem?_eq_some_iff.mp at_k).1
    have hmem := List.mem_of_getElem? at_k
    have hleft {a : NetAction} (ha : a ∈ more ++ rest) :
        Owes { v with owed := v.owed.set k (more ++ rest) } a :=
      ⟨more ++ rest, List.mem_set hlt _, ha⟩
    refine h.shared touched (fun todo htodo => ?_) (fun c hd => ?_) (fun hraise => ?_) fun a ha => ?_
    · rcases List.mem_or_eq_of_mem_set htodo with htodo | rfl
      · exact h.programs todo htodo
      · refine .inr fun hraise => ?_
        rcases List.mem_append.mp hraise with hr | hr
        · cases does <;> simp at hr
        · rcases h.programs _ hmem with hall | hnone
          · simp only [NetAction.stopAll, List.cons.injEq] at hall
            simp [hall.2] at hr
          · exact hnone (List.mem_cons_of_mem _ hr)
    · exact hleft (List.mem_append_left _ (does.disturbs hd))
    · subst hraise
      cases does
      have hall := (h.programs _ hmem).resolve_right (by simp)
      simp only [NetAction.stopAll, List.cons.injEq, true_and] at hall
      exact hleft (List.mem_append_right _ (by simp [hall]))
    · obtain ⟨todo, htodo, ha⟩ := ha
      rcases List.eq_or_mem_set at_k htodo (more ++ rest) with rfl | htodo
      · rcases List.mem_cons.mp ha with rfl | ha
        · exact .inr ⟨more, does, fun b hb => hleft (List.mem_append_left _ hb)⟩
        · exact .inl (hleft (List.mem_append_right _ ha))
      · exact .inl ⟨todo, htodo, ha⟩

theorem Watchful.after (h : v.Watchful n) (turns : List Turn) :
    (v.after turns).Watchful (v.heard n turns) := by
  induction turns generalizing v n with
  | nil => exact h
  | cons turn turns ih => exact ih (h.stepped (v.step_stepped turn))

/-- A reader that sleeps, and not only because its wakeup came round, finds nothing at any of its
inputs that is left, or somebody who changed one is still to signal that. If everybody is to stop,
whoever stops them is still to notify the reader. -/
theorem no_wakeup_lost (border : Border) (net : Net) (wired : Wired { border, net })
    (turns : List Turn) (timely : heard { border, net } 0 turns < 2 ^ 64) :
    let v := Vigil.after { border, net } turns
    ∀ seen, v.call = some (.sleep seen) → v.net.generation v.border.wakeup = seen →
      (∀ inlet ∈ v.border.inputs, inlet.finished = false →
        v.net.Quiet inlet.channel ∨ v.Owes (.signal inlet.channel)) ∧
      (v.net.stopping = true → v.Owes .notifyAll ∨ v.Owes (.notify v.border.wakeup)) := by
  intro v seen hcall hsame
  have hstart : Watchful { border, net } 0 := wired.watchful (by simp) rfl
  have hv : v.Watchful (heard { border, net } 0 turns) := hstart.after turns
  have hgen := hv.generation seen (by simp [held, hcall, Reading.seen])
  have hzero : heard { border, net } 0 turns = 0 := by
    rw [hsame] at hgen
    have := congrArg UInt64.toNat hgen
    rw [UInt64.toNat_add, UInt64.toNat_ofNat_of_lt' timely] at this
    have := seen.toNat_lt
    omega
  exact ⟨fun inlet hi hf => hv.quiet hzero _ hcall inlet hi hf, hv.told hzero seen hcall⟩

def twoInputs : Border where
  unit := ⟨"s", 0⟩
  inputs := [{ source := ⟨"a", 0⟩, channel := 0 }, { source := ⟨"b", 0⟩, channel := 1 }]

def twoChannels : Net where
  links := [⟨.new 1, some 0⟩, ⟨.new 1, some 0⟩]
  wakeups := [{}]

/-- A row comes after the reader has looked at its inputs, and the flag goes up after it has looked at
the flag. -/
def behindItsBack : List Turn :=
  [.ask none, .read, .read, .read, .put 0 ⟨⟨[]⟩, [], rfl⟩, .read, .stop, .pay 1]

theorem behindItsBack_not_lost :
    let v := Vigil.after { border := twoInputs, net := twoChannels } behindItsBack
    v.call = some (.sleep 0) ∧ v.net.stopping = true ∧ ¬ v.net.Quiet 0 ∧ v.Owes (.signal 0) ∧
      (v.Owes .notifyAll ∨ v.Owes (.notify 0)) := by
  intro v
  have hcall : v.call = some (.sleep 0) := by decide
  have hstop : v.net.stopping = true := by decide
  have hloud : ¬ v.net.Quiet 0 := by
    rintro ⟨ch, hc, -, -, hq⟩
    have hqueue : (v.net.channel? 0).map (·.queue.length) = some 1 := by decide
    simp [hc, hq] at hqueue
  obtain ⟨hquiet, htold⟩ := no_wakeup_lost twoInputs twoChannels ⟨by decide, by decide⟩
    behindItsBack (by decide) 0 hcall (by decide)
  have hinlet : ∃ inlet ∈ v.border.inputs, inlet.channel = 0 ∧ inlet.finished = false := by decide
  obtain ⟨inlet, hi, hzero, hf⟩ := hinlet
  have howes := hquiet inlet hi hf
  rw [hzero] at howes
  exact ⟨hcall, hstop, hloud, howes.resolve_left hloud, htold hstop⟩

end Vigil

end Sluice
