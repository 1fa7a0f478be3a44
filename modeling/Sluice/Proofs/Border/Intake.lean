import Sluice.Proofs.Border.Solo

/-!
What a reader gets. A reader asks for rows, from any of its inputs or from a particular one, while
others put rows into the channels of its inputs and end their streams, all in whatever order. The rows
that it gets from an input, followed by those that are still queued, are the rows that were put there;
a read from any input finds no row exactly when the end of every input was read; and once all streams
are ended no read has to wait.
-/

namespace Sluice

def Touch.brings (t : Touch) (c : Nat) : List Row :=
  match t with
  | .put i row => if i = c then [row] else []
  | _ => []

theorem Touch.queue_on {t : Touch} {c : Nat} {ch : Channel Row} (h : ∀ i row, t ≠ .take i row) :
    (t.on c ch).queue = ch.queue ++ t.brings c := by
  cases t with
  | take i row => exact absurd rfl (h i row)
  | put i row => by_cases hi : i = c <;> simp [on, brings, hi]
  | close i => by_cases hi : i = c <;> simp [on, brings, hi]
  | abort i => by_cases hi : i = c <;> simp [on, brings, hi]
  | nothing | raise | notify => simp [on, brings]

namespace Border

def facing (p : Border) : Reading → Option Nat
  | .scan _ done => some (p.slot done)
  | .receive i => some i
  | .any | .only _ | .sleep _ => none

variable {p p' : Border} {net : Net} {t : Touch} {call call' : Reading} {asked : Option Nat}

theorem ReadStep.goes_nothing (h : p.ReadStep net t call p' (.goes call')) : t = .nothing := by
  cases h <;> rfl

theorem ReadStep.serves (h : p.ReadStep net t call p' (.goes call')) (hs : p.Serves asked call) :
    p'.Serves asked call' := by
  cases h with
  | one_live live => exact ⟨(mem_liveInputs.mp (live ▸ List.mem_singleton_self _)).2, .inr ⟨hs, live⟩⟩
  | many_live => exact hs
  | turn_to at_i live => exact ⟨by rw [inputFinished_iff at_i, live], .inl hs⟩
  | skip => exact hs
  | scan_ended => exact hs
  | scan_empty => exact hs
  | fall_asleep _ live => exact ⟨hs, live⟩
  | wake => exact hs.1

theorem inputFinished_mono {i k : Nat} (h : p.inputFinished k = true) :
    (p.finishInput i).inputFinished k = true := by
  simp only [inputFinished, getElem?_finishInput] at h ⊢
  cases hk : p.inputs[k]? with
  | none => rfl
  | some inlet =>
    by_cases hik : i = k
    · simp [hik]
    · simpa [hk, hik] using h

theorem ReadStep.finished {onward : Onward Reading (Except StepError (Option Row))}
    (h : p.ReadStep net t call p' onward) {k : Nat} (hk : p.inputFinished k = true) :
    p'.inputFinished k = true := by
  cases h with
  | scan_ended => exact inputFinished_mono hk
  | received_end => exact inputFinished_mono hk
  | _ => exact hk

theorem ReadStep.takes {c : Nat} {row : Row} {reply : Except StepError (Option Row)}
    (h : p.ReadStep net (.take c row) call p' (.replies reply)) :
    reply = .ok (some row) ∧ p'.inputs = p.inputs ∧ ∃ k inlet, p.facing call = some k ∧
      p.inputs[k]? = some inlet ∧ inlet.channel = c := by
  cases h with
  | scan_found _ at_i => exact ⟨rfl, rfl, _, _, rfl, at_i, rfl⟩
  | received at_i => exact ⟨rfl, rfl, _, _, rfl, at_i, rfl⟩

theorem ReadStep.takes_nothing {onward : Onward Reading (Except StepError (Option Row))}
    (h : p.ReadStep net t call p' onward) (ht : ∀ c row, t ≠ .take c row) :
    t = .nothing ∧ (∀ row, onward ≠ .replies (.ok (some row))) ∧
      (p' = p ∨ ∃ k inlet, p' = p.finishInput k ∧ p.inputs[k]? = some inlet ∧
        net.Drained inlet.channel) := by
  cases h with
  | scan_found => exact absurd rfl (ht _ _)
  | received => exact absurd rfl (ht _ _)
  | scan_ended _ at_i _ drained => exact ⟨rfl, by simp, .inr ⟨_, _, rfl, at_i, drained⟩⟩
  | received_end at_i drained => exact ⟨rfl, by simp, .inr ⟨_, _, rfl, at_i, drained⟩⟩
  | _ => exact ⟨rfl, by simp, .inl rfl⟩

end Border

structure Answer where
  /-- The input that was asked for, unless any would do. -/
  asked : Option Nat
  reply : Except StepError (Option Row)
  /-- The input that the read was looking at in the end. -/
  source : Option Nat

namespace Answer

def got (a : Answer) : Option (Nat × Row) :=
  match a.source, a.reply with
  | some k, .ok (some row) => some (k, row)
  | _, _ => none

theorem got_eq_none {asked source : Option Nat} {reply : Except StepError (Option Row)}
    (h : ∀ row, reply ≠ .ok (some row)) : got ⟨asked, reply, source⟩ = none := by
  unfold got
  split
  · exact absurd ‹_› (h _)
  · rfl

/-- What an answer says of the inputs: the row is from one of those asked for, whose end was not read;
or the end of all that were asked for was read; or there is no such input. -/
def Holds (a : Answer) (p : Border) : Prop :=
  match a.reply with
  | .ok (some _) => ∃ k < p.inputs.length, a.source = some k ∧ (∀ i ∈ a.asked, i = k) ∧
      p.inputFinished k = false
  | .ok none => ∀ k < p.inputs.length, (∀ i ∈ a.asked, i = k) → p.inputFinished k = true
  | .error e => ∃ i, p.inputs.length ≤ i ∧ a.asked = some i ∧ e = .fatal (.noInput i)

end Answer

theorem Border.ReadStep.holds {p p' : Border} {net : Net} {t : Touch} {call : Reading}
    {asked : Option Nat} {reply : Except StepError (Option Row)}
    (h : p.ReadStep net t call p' (.replies reply)) (hs : p.Serves asked call)
    (unaborted : ∀ c ∈ p.inputChannels, ¬ net.Aborted c) (going : net.stopping = false) :
    Answer.Holds ⟨asked, reply, p.facing call⟩ p' := by
  have hopen {k : Nat} {inlet : Inlet} (hk : p.inputs[k]? = some inlet)
      (ha : net.Aborted inlet.channel) : False :=
    unaborted _ (List.mem_map_of_mem (List.mem_of_getElem? hk)) ha
  have hall (hlive : p.liveInputs = []) : ∀ k < p.inputs.length, (∀ i ∈ asked, i = k) →
      p.inputFinished k = true := fun k hk _ => liveInputs_eq_nil_iff.mp hlive k hk
  cases h with
  | none_live live => exact hall live
  | @no_input i missing => exact ⟨i, List.getElem?_eq_none_iff.mp missing, hs, rfl⟩
  | past_end at_i finished =>
    intro k _ hask
    obtain rfl := hask _ hs
    rw [inputFinished_iff at_i, finished]
  | scan_refused _ at_i _ aborted => exact (hopen at_i aborted).elim
  | @scan_found seen done inlet row more at_i live =>
    refine ⟨p.slot done, (List.getElem?_eq_some_iff.mp at_i).1, rfl, fun i hi => ?_, ?_⟩
    · rw [show asked = none from hs] at hi
      cases hi
    · exact (inputFinished_iff at_i).trans live
  | round_over _ live => exact hall live
  | round_stopped _ _ stopping => simp [going] at stopping
  | @receive_nowhere i missing =>
    have := hs.1
    simp [inputFinished, missing] at this
  | receive_refused at_i aborted => exact (hopen at_i aborted).elim
  | @received i inlet row at_i =>
    refine ⟨i, (List.getElem?_eq_some_iff.mp at_i).1, rfl, fun k hk => ?_, hs.1⟩
    obtain hask | ⟨hask, -⟩ := hs.2
    · exact Option.some.inj (hk.symm.trans hask)
    · rw [hask] at hk
      cases hk
  | @received_end i inlet at_i drained =>
    intro k hk hask
    obtain hi | ⟨-, hlive⟩ := hs.2
    · exact (inputFinished_finishInput (by simpa using hk)).mpr (.inl (hask i hi))
    · exact liveInputs_eq_nil_iff.mp (liveInputs_finishInput hlive) k hk

def rowsOf (k : Nat) (log : List (Nat × Row)) : List Row :=
  (log.filter (·.1 = k)).map (·.2)

theorem rowsOf_append (k : Nat) (log log' : List (Nat × Row)) :
    rowsOf k (log ++ log') = rowsOf k log ++ rowsOf k log' := by
  simp [rowsOf]

theorem rowsOf_singleton (k i : Nat) (row : Row) :
    rowsOf k [(i, row)] = if i = k then [row] else [] := by
  by_cases h : i = k <;> simp [rowsOf, h]

def Answer.rowsFrom (k : Nat) (given : List Answer) : List Row :=
  rowsOf k (given.filterMap (·.got))

theorem Answer.rowsFrom_append (k : Nat) (given given' : List Answer) :
    rowsFrom k (given ++ given') = rowsFrom k given ++ rowsFrom k given' := by
  simp [rowsFrom, rowsOf_append]

/-- A reader and others at work, with all rows that went into the channels and all answers so far. -/
structure Intake where
  vigil : Vigil
  /-- What the read under way was asked for. -/
  asked : Option Nat := none
  /-- Each row that was put, with the number of its channel. -/
  put : List (Nat × Row) := []
  given : List Answer := []

/-- Nobody breaks anything off. -/
def Vigil.Turn.Gentle : Vigil.Turn → Prop
  | .abort _ | .stop => False
  | _ => True

instance : DecidablePred Vigil.Turn.Gentle
  | .abort _ | .stop => .isFalse id
  | .ask _ | .read | .put _ _ | .close _ | .pay _ => .isTrue trivial

namespace Intake

def border (x : Intake) : Border := x.vigil.border

def net (x : Intake) : Net := x.vigil.net

/-- The row that a turn gets into a channel. -/
def entry? (x : Intake) : Vigil.Turn → Option (Nat × Row)
  | .put c row =>
    match x.net.put c row with
    | some (.ok (), _) => some (c, row)
    | _ => none
  | _ => none

def answer? (x : Intake) : Vigil.Turn → Option Answer
  | .read =>
    match x.vigil.call with
    | none => none
    | some call =>
      match x.border.advanceRead x.net call with
      | .replies reply _ _ => some ⟨x.asked, reply, x.border.facing call⟩
      | _ => none
  | _ => none

def request (x : Intake) : Vigil.Turn → Option Nat
  | .ask input => if x.vigil.call.isNone then input else x.asked
  | _ => x.asked

def step (x : Intake) (turn : Vigil.Turn) : Intake where
  vigil := x.vigil.step turn
  asked := x.request turn
  put := x.put ++ (x.entry? turn).toList
  given := x.given ++ (x.answer? turn).toList

def after (x : Intake) (turns : List Vigil.Turn) : Intake :=
  turns.foldl step x

inductive Stepped (x : Intake) : Intake → Prop
  | idle : Stepped x x
  | ask {input : Option Nat} (free : x.vigil.call = none) :
      Stepped x
        { x with
          vigil := { x.vigil with call := some (Border.readingOf input) }
          asked := input }
  | goes {call call' : Reading} {border : Border} (under_way : x.vigil.call = some call)
      (step : x.border.ReadStep x.net .nothing call border (.goes call')) :
      Stepped x { x with vigil := { x.vigil with border, call := some call' } }
  | replies {call : Reading} {reply : Except StepError (Option Row)} {t : Touch} {border : Border}
      {net : Net} (under_way : x.vigil.call = some call)
      (step : x.border.ReadStep x.net t call border (.replies reply)) (touched : x.net.Touched t net) :
      Stepped x
        { x with
          vigil := { x.vigil with border, net, call := none }
          given := x.given ++ [⟨x.asked, reply, x.border.facing call⟩] }
  | put {c : Nat} {row : Row} {net : Net} (touched : x.net.Touched (.put c row) net) :
      Stepped x
        { x with
          vigil := { x.vigil with net, owed := x.vigil.owed ++ [[.signal c]] }
          put := x.put ++ [(c, row)] }
  | close {c : Nat} :
      Stepped x { x with vigil := { x.vigil with owed := x.vigil.owed ++ [[.close c]] } }
  | pay {k : Nat} {action : NetAction} {rest more : List NetAction} {t : Touch} {net : Net}
      (at_k : x.vigil.owed[k]? = some (action :: rest)) (does : action.Does x.net t more)
      (touched : x.net.Touched t net) :
      Stepped x { x with vigil := { x.vigil with net, owed := x.vigil.owed.set k (more ++ rest) } }

theorem step_read {x : Intake} {call : Reading} (hc : x.vigil.call = some call) :
    x.border.advanceRead x.net call = .blocked ∧ x.step .read = x ∨
      (∃ call' border, x.border.ReadStep x.net .nothing call border (.goes call') ∧
        x.step .read = { x with vigil := { x.vigil with border, call := some call' } }) ∨
      ∃ reply t border net, x.border.ReadStep x.net t call border (.replies reply) ∧
        x.net.Touched t net ∧
        x.step .read =
          { x with
            vigil := { x.vigil with border, net, call := none }
            given := x.given ++ [⟨x.asked, reply, x.border.facing call⟩] } := by
  have ho := x.border.advanceRead_obeys x.net call
  cases hr : x.border.advanceRead x.net call with
  | blocked =>
    refine .inl ⟨rfl, ?_⟩
    simp only [border, net] at hr
    simp [step, Vigil.step, answer?, entry?, request, border, net, hc, hr]
  | continues call' border' net' =>
    rw [hr] at ho
    obtain ⟨t, hs, ht⟩ := ho
    obtain rfl := hs.goes_nothing
    cases ht
    refine .inr (.inl ⟨call', border', hs, ?_⟩)
    simp only [border, net] at hr
    simp [step, Vigil.step, answer?, entry?, request, border, net, hc, hr]
  | replies reply border' net' =>
    rw [hr] at ho
    obtain ⟨t, hs, ht⟩ := ho
    refine .inr (.inr ⟨reply, t, border', net', hs, ht, ?_⟩)
    simp only [border, net] at hr
    simp [step, Vigil.step, answer?, entry?, request, border, net, hc, hr]

theorem step_stepped (x : Intake) {turn : Vigil.Turn} (gentle : turn.Gentle) :
    x.Stepped (x.step turn) := by
  cases turn with
  | ask input =>
    cases hc : x.vigil.call with
    | none => simpa [step, Vigil.step, answer?, entry?, request, hc] using Stepped.ask hc
    | some call => simpa [step, Vigil.step, answer?, entry?, request, hc] using Stepped.idle
  | read =>
    cases hc : x.vigil.call with
    | none => simpa [step, Vigil.step, answer?, entry?, request, hc] using Stepped.idle
    | some call =>
      obtain ⟨-, heq⟩ | ⟨call', border, hs, heq⟩ | ⟨reply, t, border, net, hs, ht, heq⟩ := step_read hc
      · rw [heq]
        exact .idle
      · exact heq ▸ .goes hc hs
      · exact heq ▸ .replies hc hs ht
  | put c row =>
    rcases hp : x.vigil.net.put c row with _ | ⟨r, net⟩
    · simpa [step, Vigil.step, answer?, entry?, request, Intake.net, hp] using Stepped.idle
    · obtain ⟨rfl, ht⟩ | ⟨-, ⟨rfl, -⟩ | ⟨rfl, -⟩⟩ := Net.put_touched hp
      · simpa [step, Vigil.step, answer?, entry?, request, Intake.net, hp] using Stepped.put ht
      · simpa [step, Vigil.step, answer?, entry?, request, Intake.net, hp] using Stepped.idle
      · simpa [step, Vigil.step, answer?, entry?, request, Intake.net, hp] using Stepped.idle
  | close c => simpa [step, Vigil.step, answer?, entry?, request] using Stepped.close
  | abort c => exact gentle.elim
  | stop => exact gentle.elim
  | pay k =>
    rcases hk : x.vigil.owed[k]? with _ | _ | ⟨action, rest⟩
    · simpa [step, Vigil.step, answer?, entry?, request, hk] using Stepped.idle
    · simpa [step, Vigil.step, answer?, entry?, request, hk] using Stepped.idle
    · obtain ⟨t, hd, ht⟩ := action.perform_does x.vigil.net
      simpa [step, Vigil.step, answer?, entry?, request, hk] using Stepped.pay hk hd ht

/-- Where a reader begins: each input has a channel of its own, none has been read to its end, and
nothing is broken off. -/
structure Unread (border : Border) (net : Net) : Prop where
  apart : border.inputChannels.Nodup
  unread : ∀ inlet ∈ border.inputs, inlet.finished = false
  empty : ∀ c ∈ border.inputChannels, ∃ ch, net.channel? c = some ch ∧ ch.queue = []
  unaborted : ∀ c ∈ border.inputChannels, ¬ net.Aborted c
  going : net.stopping = false

/-- What others do besides putting rows in: they end streams and tell readers. -/
def Ending (todo : List NetAction) : Prop :=
  ∀ a ∈ todo, ∃ c, a = .close c ∨ a = .signal c

structure Sound (x : Intake) : Prop where
  apart : x.border.inputChannels.Nodup
  ending : ∀ todo ∈ x.vigil.owed, Ending todo
  unaborted : ∀ c ∈ x.border.inputChannels, ¬ x.net.Aborted c
  going : x.net.stopping = false
  /-- What was got from an input and what is queued there is what was put. -/
  account : ∀ (k : Nat) (inlet : Inlet), x.border.inputs[k]? = some inlet →
    ∃ ch, x.net.channel? inlet.channel = some ch ∧
      rowsOf inlet.channel x.put = Answer.rowsFrom k x.given ++ ch.queue
  ended : ∀ (k : Nat) (inlet : Inlet), x.border.inputs[k]? = some inlet → inlet.finished = true →
    x.net.Drained inlet.channel
  serves : ∀ call, x.vigil.call = some call → x.border.Serves x.asked call

variable {x x' : Intake}

theorem Unread.sound {border : Border} {net : Net} (h : Unread border net) :
    Sound { vigil := { border, net } } := by
  refine ⟨h.apart, by simp, h.unaborted, h.going, fun k inlet hk => ?_, fun k inlet hk hf => ?_,
    fun call hc => by cases hc⟩
  · obtain ⟨ch, hc, hq⟩ := h.empty _ (List.mem_map_of_mem (List.mem_of_getElem? hk))
    exact ⟨ch, hc, by simp [hq, Answer.rowsFrom, rowsOf]⟩
  · simp [h.unread inlet (List.mem_of_getElem? hk)] at hf

/-- Such a touch neither breaks anything off nor moves a row. -/
def Calm (t : Touch) : Prop :=
  t ≠ .raise ∧ ∀ c, t ≠ .abort c ∧ ∀ row, t ≠ .take c row ∧ t ≠ .put c row

theorem Ending.perform {action : NetAction} {rest more : List NetAction} {t : Touch} {net : Net}
    (h : Ending (action :: rest)) (hd : action.Does net t more) :
    Ending (more ++ rest) ∧ Calm t := by
  have hrest : Ending rest := fun a ha => h a (List.mem_cons_of_mem _ ha)
  obtain ⟨c, rfl | rfl⟩ := h _ List.mem_cons_self
  · cases hd with
    | close =>
      refine ⟨fun a ha => ?_, by simp [Calm]⟩
      rcases List.mem_cons.mp ha with rfl | ha
      · exact ⟨c, .inr rfl⟩
      · exact hrest a ha
    | close_again => exact ⟨hrest, by simp [Calm]⟩
  · cases hd with
    | signal => exact ⟨hrest, by simp [Calm]⟩
    | signal_nobody => exact ⟨hrest, by simp [Calm]⟩

theorem Sound.others {t : Touch} {net : Net} {owed : List (List NetAction)} {put : List (Nat × Row)}
    (h : x.Sound) (ht : x.net.Touched t net) (hending : ∀ todo ∈ owed, Ending todo)
    (hraise : t ≠ .raise) (hgentle : ∀ c, t ≠ .abort c ∧ ∀ row, t ≠ .take c row)
    (hput : ∀ c, rowsOf c put = rowsOf c x.put ++ t.brings c) :
    Sound { x with vigil := { x.vigil with net, owed }, put } := by
  refine ⟨h.apart, hending, fun c hc ha => ?_, ?_, fun k inlet hk => ?_,
    fun k inlet hk hf => ht.drained (h.ended k inlet hk hf), h.serves⟩
  · exact (ht.aborted_inv ha).elim (h.unaborted c hc) (hgentle c).1
  · exact (ht.stopping_of_ne hraise).trans h.going
  · obtain ⟨ch, hc, hrows⟩ := h.account k inlet hk
    have hc' : x.net.channel? inlet.channel = some ch := hc
    refine ⟨t.on inlet.channel ch, by rw [Intake.net, ht.channel, hc']; rfl, ?_⟩
    rw [hput, hrows, Touch.queue_on (fun c row => (hgentle c).2 row), List.append_assoc]

theorem Sound.looked {border : Border} {call : Option Reading} {given : List Answer} (h : x.Sound)
    (hin : border = x.border ∨ ∃ k inlet, border = x.border.finishInput k ∧
      x.border.inputs[k]? = some inlet ∧ x.net.Drained inlet.channel)
    (hgiven : given.filterMap (·.got) = x.given.filterMap (·.got))
    (hserves : ∀ call', call = some call' → border.Serves x.asked call') :
    Sound { x with vigil := { x.vigil with border, call }, given } := by
  have hgot (k : Nat) : Answer.rowsFrom k given = Answer.rowsFrom k x.given := by
    rw [Answer.rowsFrom, hgiven, Answer.rowsFrom]
  have hold {k : Nat} {inlet : Inlet} (hk : border.inputs[k]? = some inlet) :
      ∃ old, x.border.inputs[k]? = some old ∧ old.channel = inlet.channel ∧
        (inlet.finished = true → old.finished = true ∨ x.net.Drained inlet.channel) := by
    obtain rfl | ⟨i, found, rfl, hi, hd⟩ := hin
    · exact ⟨inlet, hk, rfl, .inl⟩
    · obtain ⟨old, hold, hchannel, hfinished⟩ := Border.getElem?_of_finishInput hk
      refine ⟨old, hold, hchannel, fun hf => (hfinished hf).symm.imp_right fun hik => ?_⟩
      subst hik
      obtain rfl := Option.some.inj (hi.symm.trans hold)
      exact hchannel ▸ hd
  have hchannels : border.inputChannels = x.border.inputChannels := by
    obtain rfl | ⟨i, found, rfl, -, -⟩ := hin
    · rfl
    · exact Border.place_inputs (Border.place_finishInput x.border i)
  refine ⟨hchannels ▸ h.apart, h.ending, hchannels ▸ h.unaborted, h.going, fun k inlet hk => ?_,
    fun k inlet hk hf => ?_, hserves⟩
  · obtain ⟨old, hk, heq, -⟩ := hold hk
    obtain ⟨ch, hc, hrows⟩ := h.account k old hk
    refine ⟨ch, heq ▸ hc, ?_⟩
    rw [hgot, ← heq, hrows]
  · obtain ⟨old, hk, heq, hfinished⟩ := hold hk
    exact (hfinished hf).elim (fun hf => heq ▸ h.ended k old hk hf) id

theorem Sound.took {k : Nat} {inlet : Inlet} {row : Row} {border : Border} {net : Net} {a : Answer}
    (h : x.Sound) (hk : x.border.inputs[k]? = some inlet) (hin : border.inputs = x.border.inputs)
    (ht : x.net.Touched (.take inlet.channel row) net) (ha : a.got = some (k, row)) :
    Sound { x with vigil := { x.vigil with border, net, call := none }, given := x.given ++ [a] } := by
  have hchannels : border.inputChannels = x.border.inputChannels := by
    simp only [Border.inputChannels, hin]
  have hapart : (x.border.inputs.map (·.channel)).Nodup := h.apart
  refine ⟨hchannels ▸ h.apart, h.ending, fun c hc hab => ?_, ?_, fun i other hi => ?_,
    fun i other hi hf => ?_, fun call hc => by cases hc⟩
  · exact (ht.aborted_inv hab).elim (h.unaborted c (hchannels ▸ hc)) (by simp)
  · exact (ht.stopping_of_ne (by simp)).trans h.going
  · have hi : x.border.inputs[i]? = some other := hin ▸ hi
    obtain ⟨ch, hc, hrows⟩ := h.account i other hi
    have hgot : Answer.rowsFrom i (x.given ++ [a]) =
        Answer.rowsFrom i x.given ++ if k = i then [row] else [] := by
      rw [Answer.rowsFrom_append, ← rowsOf_singleton]
      simp [Answer.rowsFrom, ha]
    refine ⟨(Touch.take inlet.channel row).on other.channel ch, ?_, ?_⟩
    · rw [Intake.net, ht.channel, show x.net.channel? other.channel = some ch from hc]
      rfl
    · rw [hgot, hrows, List.append_assoc]
      congr 1
      -- no two inputs share a channel, so the queues of the others are what they were
      by_cases hki : k = i
      · subst hki
        obtain rfl := Option.some.inj (hk.symm.trans hi)
        cases ht with
        | take hc' _ hq =>
          obtain rfl := Option.some.inj (hc'.symm.trans hc)
          simp [Touch.on, hq]
      · have hne : inlet.channel ≠ other.channel := fun he =>
          hki (List.eq_of_key_eq hapart hk hi he)
        simp [Touch.on, hki, hne]
  · exact ht.drained (h.ended i other (hin ▸ hi) hf)

theorem Sound.stepped (h : x.Sound) (hs : x.Stepped x') : x'.Sound := by
  cases hs with
  | idle => exact h
  | @ask input free =>
    refine ⟨h.apart, h.ending, h.unaborted, h.going, h.account, h.ended, fun call hc => ?_⟩
    obtain rfl := Option.some.inj hc
    cases input <;> rfl
  | @goes call call' border under_way step =>
    obtain ⟨-, -, hin⟩ := step.takes_nothing (by simp)
    refine h.looked hin rfl fun call'' hc => ?_
    obtain rfl := Option.some.inj hc
    exact step.serves (h.serves call under_way)
  | @replies call reply t border net under_way step touched =>
    by_cases htake : ∃ c row, t = .take c row
    · obtain ⟨c, row, rfl⟩ := htake
      obtain ⟨rfl, hin, k, inlet, hfacing, hk, rfl⟩ := step.takes
      exact h.took hk hin touched (by simp [Answer.got, hfacing])
    · obtain ⟨rfl, hnone, hin⟩ := step.takes_nothing fun c row ht => htake ⟨c, row, ht⟩
      cases touched
      refine h.looked hin ?_ fun _ hc => by cases hc
      simp [Answer.got_eq_none fun row hr => hnone row (congrArg Onward.replies hr)]
  | @put c row net touched =>
    refine h.others touched (fun todo hmem => ?_) (by simp) (by simp) fun i => ?_
    · rcases List.mem_append.mp hmem with hmem | hmem
      · exact h.ending todo hmem
      · rw [List.mem_singleton.mp hmem]
        exact fun a ha => ⟨c, .inr (List.mem_singleton.mp ha)⟩
    · rw [rowsOf_append, rowsOf_singleton]
      rfl
  | @close c =>
    refine h.others .nothing (fun todo hmem => ?_) (by simp) (by simp) fun i => ?_
    · rcases List.mem_append.mp hmem with hmem | hmem
      · exact h.ending todo hmem
      · rw [List.mem_singleton.mp hmem]
        exact fun a ha => ⟨c, .inl (List.mem_singleton.mp ha)⟩
    · exact (List.append_nil _).symm
  | @pay k action rest more t net at_k does touched =>
    obtain ⟨hending, hcalm⟩ := (h.ending _ (List.mem_of_getElem? at_k)).perform does
    refine h.others touched (fun todo hmem => ?_) hcalm.1
      (fun c => ⟨(hcalm.2 c).1, fun row => ((hcalm.2 c).2 row).1⟩) fun i => ?_
    · rcases List.mem_or_eq_of_mem_set hmem with hmem | rfl
      · exact h.ending todo hmem
      · exact hending
    · cases t with
      | put c row => exact absurd rfl ((hcalm.2 c).2 row).2
      | _ => exact (List.append_nil _).symm

theorem Sound.after (h : x.Sound) {turns : List Vigil.Turn} (gentle : ∀ turn ∈ turns, turn.Gentle) :
    (x.after turns).Sound := by
  induction turns generalizing x with
  | nil => exact h
  | cons turn turns ih =>
    obtain ⟨hturn, hturns⟩ := List.forall_mem_cons.mp gentle
    exact ih (h.stepped (x.step_stepped hturn)) hturns

theorem after_append (x : Intake) (turns turns' : List Vigil.Turn) :
    x.after (turns ++ turns') = (x.after turns).after turns' := List.foldl_append

/-- Each answer is right about the inputs at its time. -/
theorem Sound.answer (h : x.Sound) {a : Answer} (ha : (x.step .read).given = x.given ++ [a]) :
    a.asked = x.asked ∧ a.Holds (x.step .read).border := by
  cases hc : x.vigil.call with
  | none => simp [step, answer?, hc] at ha
  | some call =>
    obtain ⟨-, heq⟩ | ⟨call', border, -, heq⟩ | ⟨reply, t, border, net, hs, -, heq⟩ := step_read hc
    · simp [heq] at ha
    · simp [heq] at ha
    · rw [heq] at ha ⊢
      obtain rfl := List.singleton_injective (List.append_cancel_left ha)
      exact ⟨rfl, hs.holds (h.serves call hc) h.unaborted h.going⟩

/-- What was put and what was answered stay so, and what has ended stays ended. -/
structure Grows (x x' : Intake) : Prop where
  put : x.put <+: x'.put
  given : x.given <+: x'.given
  channels : x'.border.inputChannels = x.border.inputChannels
  finished : ∀ k, x.border.inputFinished k = true → x'.border.inputFinished k = true
  closed : ∀ c, x.net.Closed c → x'.net.Closed c

theorem Grows.refl (x : Intake) : x.Grows x :=
  ⟨List.prefix_rfl, List.prefix_rfl, rfl, fun _ => id, fun _ => id⟩

theorem Grows.trans {x'' : Intake} (h : x.Grows x') (h' : x'.Grows x'') : x.Grows x'' :=
  ⟨h.put.trans h'.put, h.given.trans h'.given, h'.channels.trans h.channels,
    fun k hk => h'.finished k (h.finished k hk), fun c hc => h'.closed c (h.closed c hc)⟩

theorem Grows.length (h : x.Grows x') : x'.border.inputs.length = x.border.inputs.length := by
  simpa [Border.inputChannels] using congrArg List.length h.channels

theorem Stepped.grows (hs : x.Stepped x') : x.Grows x' := by
  cases hs with
  | goes _ step =>
    exact ⟨List.prefix_rfl, List.prefix_rfl, Border.place_inputs step.place, fun k => step.finished,
      fun c => id⟩
  | replies _ step touched =>
    exact ⟨List.prefix_rfl, List.prefix_append _ _, Border.place_inputs step.place,
      fun k => step.finished, fun c => touched.closed⟩
  | put touched =>
    exact ⟨List.prefix_append _ _, List.prefix_rfl, rfl, fun k => id, fun c => touched.closed⟩
  | pay _ _ touched =>
    exact ⟨List.prefix_rfl, List.prefix_rfl, rfl, fun k => id, fun c => touched.closed⟩
  | _ => exact ⟨List.prefix_rfl, List.prefix_rfl, rfl, fun k => id, fun c => id⟩

theorem grows_after (x : Intake) {turns : List Vigil.Turn} (gentle : ∀ turn ∈ turns, turn.Gentle) :
    x.Grows (x.after turns) := by
  induction turns generalizing x with
  | nil => exact .refl x
  | cons turn turns ih =>
    obtain ⟨hturn, hturns⟩ := List.forall_mem_cons.mp gentle
    exact (x.step_stepped hturn).grows.trans (ih (x.step turn) hturns)

theorem given_after (x : Intake) (turns : List Vigil.Turn) : x.given <+: (x.after turns).given := by
  induction turns generalizing x with
  | nil => exact List.prefix_rfl
  | cons turn turns ih => exact (List.prefix_append _ _).trans (ih (x.step turn))

theorem exists_read_of_mem {turns : List Vigil.Turn} {later : List Answer} {a : Answer}
    (hlater : (x.after turns).given = x.given ++ later) (ha : a ∈ later) :
    ∃ before behind, turns = before ++ .read :: behind ∧
      ((x.after before).step .read).given = (x.after before).given ++ [a] := by
  induction turns generalizing x later with
  | nil =>
    obtain rfl : later = [] := List.self_eq_append_right.mp hlater
    cases ha
  | cons turn turns ih =>
    obtain ⟨rest, hrest⟩ := (x.step turn).given_after turns
    have hsplit : later = (x.answer? turn).toList ++ rest :=
      List.append_cancel_left (hlater.symm.trans (hrest.symm.trans (List.append_assoc _ _ _)))
    rw [hsplit, List.mem_append] at ha
    -- the answer came in the first turn, or in one of the others
    rcases ha with ha | ha
    · rw [Option.mem_toList] at ha
      obtain rfl : turn = .read := by cases turn <;> first | rfl | cases ha
      exact ⟨[], turns, rfl, by simp [after, step, ha]⟩
    · obtain ⟨before, behind, rfl, hread⟩ := ih hrest.symm ha
      exact ⟨turn :: before, behind, rfl, hread⟩

end Intake

namespace Border

variable {p p' : Border} {net : Net} {t : Touch} {call call' : Reading}

/-- A read that has found nothing but ends so far. -/
def Hurries (p : Border) : Reading → Prop
  | .any | .only _ => True
  | .scan _ done => done ≤ p.inputs.length ∧ ∀ n < done, p.inputFinished (p.slot n) = true
  | .receive i => p.inputFinished i = false
  | .sleep _ => False

/-- How often such a read can go on, at most. -/
def stepsLeft (p : Border) : Reading → Nat
  | .any => p.inputs.length + 2
  | .only _ => 1
  | .scan _ done => p.inputs.length + 1 - done
  | .receive _ | .sleep _ => 0

theorem ReadStep.hurries (h : p.ReadStep net t call p' (.goes call'))
    (complete : ∀ c ∈ p.inputChannels, net.Complete c) (hh : p.Hurries call) :
    p'.Hurries call' ∧ p'.stepsLeft call' < p.stepsLeft call := by
  cases h with
  | one_live live =>
    exact ⟨(mem_liveInputs.mp (live ▸ List.mem_singleton_self _)).2, by simp [stepsLeft]⟩
  | many_live => exact ⟨⟨Nat.zero_le _, fun n hn => absurd hn (Nat.not_lt_zero n)⟩, by simp [stepsLeft]⟩
  | turn_to at_i live => exact ⟨(inputFinished_iff at_i).trans live, by simp [stepsLeft]⟩
  | @skip seen done inlet more at_i finished =>
    have hround := Nat.forall_lt_succ_right.mpr ⟨hh.2, (inputFinished_iff at_i).trans finished⟩
    exact ⟨⟨more, hround⟩, by simp only [stepsLeft]; omega⟩
  | @scan_ended seen done inlet more at_i =>
    exact ⟨⟨by simpa using more, round_finishInput more hh.2⟩,
      by simp only [stepsLeft, length_finishInput]; omega⟩
  | scan_empty _ at_i _ quiet => exact absurd quiet (complete _ (mem_inputs at_i)).not_quiet
  | fall_asleep all live =>
    exact absurd (liveInputs_eq_nil_of_round fun n hn => hh.2 n (Nat.lt_of_lt_of_le hn all)) live
  | wake => exact hh.elim

theorem Hurries.not_blocked (h : p.Hurries call) (complete : ∀ c ∈ p.inputChannels, net.Complete c) :
    p.advanceRead net call ≠ .blocked :=
  not_blocked_of_complete complete fun seen hc => by
    subst hc
    exact h

end Border

def Vigil.Turn.isRead : Vigil.Turn → Bool
  | .read => true
  | _ => false

namespace Intake

variable {x : Intake}

theorem step_other {turn : Vigil.Turn} (hturn : turn.isRead = false) :
    (x.step turn).border = x.border ∧ (x.step turn).given = x.given ∧
      ((x.step turn).vigil.call = x.vigil.call ∧ (x.step turn).asked = x.asked ∨
        x.vigil.call = none ∧ ∃ input, turn = .ask input ∧ (x.step turn).asked = input ∧
          (x.step turn).vigil.call = some (Border.readingOf input)) := by
  cases turn with
  | read => cases hturn
  | ask input => cases hc : x.vigil.call <;> simp [step, Vigil.step, answer?, request, border, hc]
  | put c row =>
    simp only [step, Vigil.step, answer?, request, border]
    split <;> simp
  | close c | abort c | stop => simp [step, Vigil.step, answer?, request, border]
  | pay k =>
    simp only [step, Vigil.step, answer?, request, border]
    split <;> simp

/-- Every stream is ended, and the read under way has gone on so many times. -/
structure Prompt (x : Intake) (reads : Nat) : Prop where
  sound : x.Sound
  closed : ∀ c ∈ x.border.inputChannels, x.net.Closed c
  under_way : ∃ call, x.vigil.call = some call ∧ x.border.Hurries call ∧
    reads + x.border.stepsLeft call ≤ x.border.inputs.length + 2

theorem Prompt.complete {reads : Nat} (h : x.Prompt reads) :
    ∀ c ∈ x.border.inputChannels, x.net.Complete c :=
  fun c hc => ⟨h.closed c hc, h.sound.unaborted c hc⟩

theorem Prompt.step {reads : Nat} (h : x.Prompt reads) {turn : Vigil.Turn} (gentle : turn.Gentle)
    (unanswered : (x.step turn).given = x.given) :
    (x.step turn).Prompt (reads + if turn.isRead then 1 else 0) := by
  obtain ⟨call, hc, hh, hleft⟩ := h.under_way
  have hstepped := x.step_stepped gentle
  have hgrows := hstepped.grows
  refine ⟨h.sound.stepped hstepped, fun c hmem => hgrows.closed c (h.closed c (hgrows.channels ▸ hmem)),
    ?_⟩
  cases hturn : turn.isRead with
  | true =>
    obtain rfl : turn = .read := by cases turn <;> first | rfl | cases hturn
    obtain ⟨hb, -⟩ | ⟨call', border, hs, heq⟩ | ⟨reply, t, border, net, -, -, heq⟩ := step_read hc
    · exact absurd hb (hh.not_blocked h.complete)
    · have hlen : border.inputs.length = x.border.inputs.length := Border.place_inputs_length hs.place
      obtain ⟨hh', hless⟩ := hs.hurries h.complete hh
      rw [heq]
      refine ⟨call', rfl, hh', ?_⟩
      change reads + 1 + border.stepsLeft call' ≤ border.inputs.length + 2
      omega
    · rw [heq] at unanswered
      simp at unanswered
  | false =>
    obtain ⟨hborder, -, ⟨hcall, -⟩ | ⟨free, -⟩⟩ := step_other (x := x) hturn
    · exact ⟨call, hcall.trans hc, hborder ▸ hh, by simpa [hborder] using hleft⟩
    · simp [hc] at free

theorem Prompt.after {reads : Nat} (h : x.Prompt reads) {turns : List Vigil.Turn}
    (gentle : ∀ turn ∈ turns, turn.Gentle) (unanswered : (x.after turns).given = x.given) :
    (x.after turns).Prompt (reads + turns.countP (·.isRead)) := by
  induction turns generalizing x reads with
  | nil => exact h
  | cons turn turns ih =>
    obtain ⟨hturn, hturns⟩ := List.forall_mem_cons.mp gentle
    have hstep := (x.step_stepped hturn).grows.given
    have hrest := ((x.step turn).grows_after hturns).given
    -- answers are never taken back, so there is none after the first turn either
    have hsame : (x.step turn).given = x.given :=
      (hstep.eq_of_length_le (unanswered ▸ hrest.length_le)).symm
    have hprompt := ih (h.step hturn hsame) hturns (unanswered.trans hsame.symm)
    rwa [Nat.add_assoc, Nat.add_comm (if turn.isRead = true then 1 else 0), ← List.countP_cons]
      at hprompt

/-- Where all streams are ended, a read that was just asked for neither waits nor sleeps. -/
theorem Sound.prompt (h : x.Sound) (closed : ∀ c ∈ x.border.inputChannels, x.net.Closed c)
    (free : x.vigil.call = none) (input : Option Nat) : (x.step (.ask input)).Prompt 0 := by
  refine ⟨h.stepped (x.step_stepped trivial), ?_, Border.readingOf input, ?_, ?_, ?_⟩
  · simpa [step, Vigil.step, border, net, free] using closed
  · simp [step, Vigil.step, free]
  · cases input <;> trivial
  · cases input <;> simp [step, Vigil.step, border, free, Border.readingOf, Border.stepsLeft]

end Intake

end Sluice
