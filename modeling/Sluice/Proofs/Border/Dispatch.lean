import Sluice.Proofs.Border.Solo

/-!
What a writer sends out. A writer is asked to write rows, to all of its hops or to a particular one,
while others read from the channels, in whatever order. Its hops take turns when it distributes, and the
channels of each hop take turns; neither turn is disturbed by the other, nor by rows for one hop alone.
-/

namespace Sluice

structure Order where
  /-- The hop it is for, if it is for one alone. -/
  hop : Option Nat
  row : Row

namespace Order

def emission (o : Order) : Emission :=
  .row o.hop o.row

def writing (o : Order) : Writing :=
  Border.writingOf o.row o.hop

@[simp] theorem row?_emission (o : Order) : o.emission.row? = some o.row := rfl

end Order

/-- A writer and others at work, with all rows that went into the channels or came out of them, and how
the writes were answered. -/
structure Dispatch where
  border : Border
  net : Net
  /-- The write under way. -/
  call : Option (Order × Writing) := none
  ledger : Ledger := {}
  answers : List (Order × Except StepError Unit) := []

namespace Dispatch

inductive Turn where
  /-- The writer is asked to write a row. -/
  | ask (order : Order)
  /-- The write under way goes on. -/
  | write
  /-- Somebody reads from a channel. -/
  | take (c : Nat)
  /-- Somebody else writes to a channel. -/
  | put (c : Nat) (row : Row)
  /-- Somebody ends a stream or breaks it off, stops everybody, or tells a reader. -/
  | act (action : NetAction)

/-- A write that goes on from here has put a row into a channel. -/
def landing : Writing → Touch
  | .deliver c _ row => .put c row
  | _ => .nothing

def step (x : Dispatch) : Turn → Dispatch
  | .ask order =>
    match x.call with
    | none => { x with call := some (order, order.writing) }
    | some _ => x
  | .write =>
    match x.call with
    | none => x
    | some (order, call) =>
      match x.border.advanceWrite x.net call with
      | .blocked => x
      | .continues call' border net =>
        { x with border, net, call := some (order, call'), ledger := x.ledger.after (landing call) }
      | .replies reply border net =>
        { x with border, net, call := none, answers := x.answers ++ [(order, reply)] }
  | .take c =>
    match x.net.tryGet c with
    | (.ok (.item row), net) => { x with net, ledger := x.ledger.after (.take c row) }
    | _ => x
  | .put c row =>
    match x.net.put c row with
    | some (.ok (), net) => { x with net, ledger := x.ledger.after (.put c row) }
    | _ => x
  | .act action => { x with net := (action.perform x.net).1 }

def after (x : Dispatch) (turns : List Turn) : Dispatch :=
  turns.foldl step x

/-- The rows whose writes were answered without an error, in order. -/
def accepted (x : Dispatch) : List Order :=
  x.answers.filterMap fun a =>
    match a.2 with
    | .ok () => some a.1
    | .error _ => none

inductive Stepped (x : Dispatch) : Turn → Dispatch → Prop
  | idle {turn : Turn} : Stepped x turn x
  | ask {order : Order} (free : x.call = none) :
      Stepped x (.ask order) { x with call := some (order, order.writing) }
  | goes {order : Order} {call call' : Writing} {t : Touch} {border : Border} {net : Net}
      (under_way : x.call = some (order, call))
      (step : x.border.WriteStep x.net t call border (.goes call')) (touched : x.net.Touched t net) :
      Stepped x .write
        { x with border, net, call := some (order, call'), ledger := x.ledger.after t }
  | replies {order : Order} {call : Writing} {reply : Except StepError Unit} {border : Border}
      (under_way : x.call = some (order, call))
      (step : x.border.WriteStep x.net .nothing call border (.replies reply)) :
      Stepped x .write
        { x with border, call := none, answers := x.answers ++ [(order, reply)] }
  | take {c : Nat} {row : Row} {net : Net} (touched : x.net.Touched (.take c row) net) :
      Stepped x (.take c) { x with net, ledger := x.ledger.after (.take c row) }
  | put {c : Nat} {row : Row} {net : Net} (touched : x.net.Touched (.put c row) net) :
      Stepped x (.put c row) { x with net, ledger := x.ledger.after (.put c row) }
  | act {action : NetAction} {t : Touch} {more : List NetAction} {net : Net}
      (does : action.Does x.net t more) (touched : x.net.Touched t net) :
      Stepped x (.act action) { x with net, ledger := x.ledger.after t }

theorem landing_eq {p p' : Border} {net : Net} {t : Touch} {call call' : Writing} (l : Ledger)
    (h : p.WriteStep net t call p' (.goes call')) : l.after (landing call) = l.after t := by
  cases h <;> rfl

theorem step_stepped (x : Dispatch) (turn : Turn) : x.Stepped turn (x.step turn) := by
  cases turn with
  | ask order =>
    cases hc : x.call with
    | none => simpa [step, hc] using Stepped.ask hc
    | some call => simpa [step, hc] using Stepped.idle
  | write =>
    rcases hc : x.call with _ | ⟨order, call⟩
    · simpa [step, hc] using Stepped.idle
    · have ho := x.border.advanceWrite_obeys x.net call
      cases hr : x.border.advanceWrite x.net call with
      | blocked => simpa [step, hc, hr] using Stepped.idle
      | continues call' border net =>
        rw [hr] at ho
        obtain ⟨t, hs, ht⟩ := ho
        simpa [step, hc, hr, landing_eq _ hs] using Stepped.goes hc hs ht
      | replies reply border net =>
        rw [hr] at ho
        obtain ⟨t, hs, ht⟩ := ho
        obtain rfl : t = .nothing := by cases hs <;> rfl
        cases ht
        simpa [step, hc, hr] using Stepped.replies hc hs
  | take c =>
    rcases hg : x.net.tryGet c with ⟨r, net⟩
    obtain ⟨row, rfl, ht⟩ | ⟨-, ⟨rfl, -⟩ | ⟨rfl, -⟩ | ⟨rfl, -⟩⟩ := Net.tryGet_touched hg
    · simpa [step, hg] using Stepped.take ht
    all_goals simpa [step, hg] using Stepped.idle
  | put c row =>
    rcases hp : x.net.put c row with _ | ⟨r, net⟩
    · simpa [step, hp] using Stepped.idle
    · obtain ⟨rfl, ht⟩ | ⟨-, ⟨rfl, -⟩ | ⟨rfl, -⟩⟩ := Net.put_touched hp
      · simpa [step, hp] using Stepped.put ht
      all_goals simpa [step, hp] using Stepped.idle
  | act action =>
    obtain ⟨t, hd, ht⟩ := action.perform_does x.net
    have := Stepped.act hd ht
    rwa [hd.ledger] at this

/-- Nobody else writes to these channels, ends their streams or breaks them off. -/
def Turn.Spares (channels : List Nat) : Turn → Prop
  | .put c _ | .act (.close c) | .act (.abort c) => c ∉ channels
  | _ => True

instance (channels : List Nat) : DecidablePred (Turn.Spares channels)
  | .put c _ | .act (.close c) | .act (.abort c) => inferInstanceAs (Decidable (c ∉ channels))
  | .ask _ | .write | .take _ | .act .raise | .act .abortAll | .act .notifyAll | .act (.signal _)
  | .act (.notify _) => .isTrue trivial

end Dispatch

namespace Border

variable {p p' : Border} {net : Net} {t : Touch} {row : Row}

theorem checkLayout_error_iff {e : StepError} : p.checkLayout row = .error e ↔
    p.safeMode = true ∧ ∃ first, p.layout = some first ∧ first.bare ≠ row.schema.bare ∧
      e = .fatal (.layout p.unit row.schema.names first.names) := by
  unfold checkLayout
  cases hs : p.safeMode with
  | false => simp
  | true =>
    cases hl : p.layout with
    | none => simp
    | some first =>
      have hfits : (first == row.schema || first.sameLayout row.schema) = true ↔
          first.bare = row.schema.bare := by
        rw [Bool.or_eq_true, beq_iff_eq, Schema.sameLayout_iff]
        exact ⟨fun h => h.elim (congrArg Schema.bare) id, .inr⟩
      by_cases h : first.bare = row.schema.bare
      · simp [hfits.mpr h, h]
      · simp [mt hfits.mp h, h, eq_comm]

/-- What the counter and the listeners say of the rows written so far. -/
def WritesTold (p : Border) (rows : List Row) : Prop :=
  p.counters.linesWritten = rows.length ∧
    ∀ log ∈ p.listeners, log.toList.filterMap (·.written?) = rows

theorem WritesTold.written {rows : List Row} (h : p.WritesTold rows) (row : Row) :
    (p.onWritten row).WritesTold (rows ++ [row]) := by
  refine ⟨by simp [onWritten, h.1], fun log hlog => ?_⟩
  obtain ⟨old, hold, rfl⟩ := Array.mem_map.mp hlog
  simp [h.2 old hold]

theorem WriteStep.quiet {call call' : Writing} (h : p.WriteStep net t call p' (.goes call')) :
    p'.counters = p.counters ∧ p'.listeners = p.listeners := by
  cases h with
  | choose turn =>
    obtain ⟨o, -, -, rfl⟩ := takeTurn_some turn
    exact ⟨rfl, rfl⟩
  | _ => exact ⟨rfl, rfl⟩

end Border

namespace Dispatch

/-- Where a writer begins: its hops have open channels of their own, nobody has had a turn, and no row
was written. -/
structure Unwritten (border : Border) (net : Net) : Prop where
  apart : border.outputChannels.Nodup
  peopled : ∀ o ∈ border.outputs, o.channels ≠ []
  opened : ∀ c ∈ border.outputChannels, ∃ ch, net.channel? c = some ch ∧ ch.closed = false ∧
    ch.aborted = false
  turn : border.nextOutput = 0
  turns : ∀ o ∈ border.outputs, o.next = 0
  told : border.WritesTold []

/-- A row is accepted unless there is no such hop, or safe mode refuses its layout. -/
def Answered (home : Border) (order : Order) : Except StepError Unit → Prop
  | .ok () => True
  | .error e =>
    (∃ hop, order.hop = some hop ∧ home.outputs.length ≤ hop ∧ e = .fatal (.noOutput hop)) ∨
      home.safeMode = true ∧ ∃ names first, e = .fatal (.layout home.unit names first)

def sent (x : Dispatch) : List Emission :=
  x.accepted.map Order.emission

structure Sound (home : Border) (x : Dispatch) : Prop where
  frame : x.border.frame = home.frame
  apart : x.border.outputChannels.Nodup
  opened : ∀ c ∈ x.border.outputChannels, ¬ x.net.Closed c ∧ ¬ x.net.Aborted c
  rest : x.call = none → x.border.AtRest x.sent x.ledger.put
  writes : ∀ order call, x.call = some (order, call) →
    x.border.Writes x.sent order.emission x.ledger.put call
  told : x.border.WritesTold (x.accepted.map (·.row))
  audience : x.border.listeners.size = home.listeners.size
  answers : ∀ a ∈ x.answers, Answered home a.1 a.2

variable {home : Border} {x x' : Dispatch}

theorem Unwritten.sound {border : Border} {net : Net} (h : Unwritten border net) :
    Sound border { border, net } := by
  refine ⟨rfl, h.apart, fun c hc => ?_, fun _ => ⟨fun _ => ?_, fun j o ho => ⟨fun _ => ?_, ?_⟩⟩,
    fun _ _ hc => (by cases hc), h.told, rfl, by simp⟩
  · obtain ⟨ch, hch, hopened, hunaborted⟩ := h.opened c hc
    exact ⟨by simp [Net.Closed, hch, hopened], by simp [Net.Aborted, hch, hunaborted]⟩
  · simp [h.turn, sent, accepted]
  · simp [h.turns o (List.mem_of_getElem? ho), sent, accepted, Border.rowsTo, hopRows]
  · intro i c _
    simp [sent, accepted, Border.rowsTo, hopRows, deal]

theorem Sound.others {t : Touch} {net : Net} (h : x.Sound home) (ht : x.net.Touched t net)
    (spared : ∀ c ∈ x.border.outputChannels, t ≠ .close c ∧ t ≠ .abort c ∧ ∀ row, t ≠ .put c row) :
    Sound home { x with net, ledger := x.ledger.after t } := by
  have hput : ∀ c ∈ x.border.outputChannels, (x.ledger.after t).put c = x.ledger.put c :=
    fun c hc => Ledger.put_after_of_ne (spared c hc).2.2
  refine ⟨h.frame, h.apart, fun c hc => ⟨fun hclosed => ?_, fun haborted => ?_⟩,
    fun hfree => (h.rest hfree).congr hput, fun order call hc => (h.writes order call hc).congr hput,
    h.told, h.audience, h.answers⟩
  · exact (ht.closed_inv hclosed).elim (h.opened c hc).1 (spared c hc).1
  · exact (ht.aborted_inv haborted).elim (h.opened c hc).2 (spared c hc).2.1

theorem Turn.Spares.does {channels : List Nat} {action : NetAction} {net : Net} {t : Touch}
    {more : List NetAction} (h : Turn.Spares channels (.act action)) (does : action.Does net t more) :
    ∀ c ∈ channels, t ≠ .close c ∧ t ≠ .abort c ∧ ∀ row, t ≠ .put c row := by
  intro c hc
  cases does with
  | abort => exact ⟨by simp, fun he => h (Touch.abort.inj he ▸ hc), by simp⟩
  | close => exact ⟨fun he => h (Touch.close.inj he ▸ hc), by simp, by simp⟩
  | _ => simp

theorem Sound.goes {order : Order} {call call' : Writing} {t : Touch} {border : Border} {net : Net}
    (h : x.Sound home) (hc : x.call = some (order, call))
    (hs : x.border.WriteStep x.net t call border (.goes call')) (ht : x.net.Touched t net) :
    Sound home
      { x with border, net, call := some (order, call'), ledger := x.ledger.after t } := by
  have hout : border.outputChannels = x.border.outputChannels := Border.place_outputs hs.place
  obtain ⟨hcounters, hlisteners⟩ := hs.quiet
  have hgentle (c : Nat) : t ≠ .close c ∧ t ≠ .abort c := by cases hs <;> simp
  refine ⟨hs.frame.trans h.frame, hout ▸ h.apart, fun c hmem => ⟨fun hclosed => ?_, fun haborted => ?_⟩,
    fun hfree => (by cases hfree), fun order' call'' hc' => ?_, ?_, ?_, h.answers⟩
  · exact (ht.closed_inv hclosed).elim (h.opened c (hout ▸ hmem)).1 (hgentle c).1
  · exact (ht.aborted_inv haborted).elim (h.opened c (hout ▸ hmem)).2 (hgentle c).2
  · obtain ⟨rfl, rfl⟩ := Prod.mk.inj (Option.some.inj hc')
    exact (h.writes order call hc).step h.apart hs
  · rw [Border.WritesTold, hcounters, hlisteners]
    exact h.told
  · rw [hlisteners]
    exact h.audience

theorem Sound.replies {order : Order} {call : Writing} {reply : Except StepError Unit} {border : Border}
    (h : x.Sound home) (hc : x.call = some (order, call))
    (hs : x.border.WriteStep x.net .nothing call border (.replies reply)) :
    Sound home
      { x with border, call := none, answers := x.answers ++ [(order, reply)] } := by
  have hout : border.outputChannels = x.border.outputChannels := Border.place_outputs hs.place
  have hframe : border.frame = home.frame := hs.frame.trans h.frame
  have hw := h.writes order call hc
  -- a refused write leaves everything where it was, except that the row may have set the layout
  have hrefused {e : StepError} (hrest : border.AtRest x.sent x.ledger.put)
      (hcounters : border.counters = x.border.counters)
      (hlisteners : border.listeners = x.border.listeners) (why : Answered home order (.error e)) :
      Sound home
        { x with border, call := none, answers := x.answers ++ [(order, .error e)] } := by
    have haccepted : Dispatch.accepted
        { x with border, call := none, answers := x.answers ++ [(order, .error e)] } = x.accepted := by
      simp [accepted]
    refine ⟨hframe, hout ▸ h.apart, hout ▸ h.opened, fun _ => ?_,
      fun _ _ hc => (by cases hc), ?_, hlisteners ▸ h.audience, ?_⟩
    · rwa [sent, haccepted]
    · rw [haccepted, Border.WritesTold, hcounters, hlisteners]
      exact h.told
    · exact List.forall_mem_append.mpr ⟨h.answers, List.forall_mem_singleton.mpr why⟩
  have hmisfit {row : Row} {fault : FatalFault}
      (misfit : x.border.checkLayout row = .error (.fatal fault)) :
      Answered home order (.error (.fatal fault)) := by
    obtain ⟨hsafe, first, -, -, hfault⟩ := Border.checkLayout_error_iff.mp misfit
    rw [Border.frame_safeMode h.frame] at hsafe
    rw [Border.frame_unit h.frame] at hfault
    exact .inr ⟨hsafe, _, _, hfault⟩
  cases hs with
  | every_misfit misfit => exact hrefused hw.2 rfl rfl (hmisfit misfit)
  | only_misfit misfit => exact hrefused hw.2 rfl rfl (hmisfit misfit)
  | @no_output hop row l fits unknown =>
    have hhop : order.hop = some hop := (Emission.row.inj hw.1).1
    have hlength : x.border.outputs.length = home.outputs.length :=
      Border.place_outputs_length (Border.frame_place h.frame)
    exact hrefused ⟨hw.2.turn, hw.2.hops⟩ rfl rfl (.inl ⟨hop, hhop, hlength ▸ unknown, rfl⟩)
  | @sent row =>
    obtain rfl : order.row = row := by simpa using hw.1
    have haccepted : Dispatch.accepted
        { x with
          border := x.border.onWritten order.row
          call := none
          answers := x.answers ++ [(order, .ok ())] } = x.accepted ++ [order] := by
      simp [accepted]
    refine ⟨hframe, hout ▸ h.apart, hout ▸ h.opened, fun _ => ?_,
      fun _ _ hc => (by cases hc), ?_, ?_, ?_⟩
    · rw [Dispatch.sent, haccepted, List.map_append]
      exact hw.2.sent
    · rw [haccepted, List.map_append]
      exact h.told.written order.row
    · simpa [Border.onWritten] using h.audience
    · exact List.forall_mem_append.mpr ⟨h.answers, List.forall_mem_singleton.mpr trivial⟩
  | @put_refused channel hops row aborted =>
    exact absurd aborted (h.opened channel (Border.Delivering.next hw.2).1).2
  | @put_late channel hops row closed =>
    exact absurd closed (h.opened channel (Border.Delivering.next hw.2).1).1

theorem Sound.stepped {turn : Turn} (h : x.Sound home) (hs : x.Stepped turn x')
    (spares : turn.Spares x.border.outputChannels) : x'.Sound home := by
  cases hs with
  | idle => exact h
  | @ask order free =>
    refine ⟨h.frame, h.apart, h.opened, fun hfree => (by cases hfree), fun order' call hc => ?_, h.told,
      h.audience, h.answers⟩
    obtain ⟨rfl, rfl⟩ := Prod.mk.inj (Option.some.inj hc)
    rcases order with ⟨_ | hop, row⟩
    · exact ⟨rfl, h.rest free⟩
    · exact ⟨rfl, h.rest free⟩
  | goes under_way step touched => exact h.goes under_way step touched
  | replies under_way step => exact h.replies under_way step
  | take touched => exact h.others touched (by simp)
  | @put c row net touched =>
    refine h.others touched fun c' hc' => ⟨by simp, by simp, fun row' he => spares ?_⟩
    rwa [(Touch.put.inj he).1]
  | act does touched => exact h.others touched (spares.does does)

theorem Sound.after (h : x.Sound home) {turns : List Turn}
    (spares : ∀ turn ∈ turns, turn.Spares home.outputChannels) : (x.after turns).Sound home := by
  induction turns generalizing x with
  | nil => exact h
  | cons turn turns ih =>
    obtain ⟨hturn, hturns⟩ := List.forall_mem_cons.mp spares
    have hout : x.border.outputChannels = home.outputChannels :=
      Border.place_outputs (Border.frame_place h.frame)
    exact ih (h.stepped (x.step_stepped turn) (hout ▸ hturn)) hturns

end Dispatch

namespace Border

variable {p p' : Border} {out : List Emission} {put : Nat → List Row}

theorem shares_congr (h : p'.place = p.place) : p'.shares = p.shares := by
  have hdistribute : p'.distribute = p.distribute := congrArg Place.distribute h
  rw [shares, shares, place_outputs_length h, hdistribute]

theorem rowsTo_congr (h : p'.place = p.place) (out : List Emission) (hop : Nat) :
    p'.rowsTo out hop = p.rowsTo out hop := by
  rw [rowsTo, rowsTo, shares_congr h, place_outputs_length h]

theorem AtRest.sent (h : p'.AtRest out put) (hp : p'.place = p.place) {j : Nat} {o : Outlet}
    (ho : p.outputs[j]? = some o) :
    ∃ o' : Outlet, o'.channels = o.channels ∧ o'.Sent put (p.rowsTo out j) := by
  have hout := congrArg (fun f => f.outs[j]?) hp
  simp only [place, List.getElem?_map, ho, Option.map_some, Option.map_eq_some_iff] at hout
  obtain ⟨o', ho', hchannels⟩ := hout
  exact ⟨o', hchannels, rowsTo_congr hp out j ▸ h.hops j o' ho'⟩

end Border

namespace Dispatch

variable {home : Border} {x x' : Dispatch}

/-- The channels of a hop take turns, whichever writes the rows of the hop came from. -/
theorem Sound.dealt (h : x.Sound home) (free : x.call = none) {j : Nat} {o : Outlet}
    (ho : home.outputs[j]? = some o) :
    (∀ i c, o.channels[i]? = some c →
      x.ledger.put c = deal o.channels.length i 0 (home.rowsTo x.sent j)) ∧
    (o.channels ≠ [] → (o.channels.flatMap x.ledger.put).Perm (home.rowsTo x.sent j)) ∧
    ∀ c ∈ o.channels, ∀ c' ∈ o.channels, (x.ledger.put c).length ≤ (x.ledger.put c').length + 1 := by
  obtain ⟨o', hchannels, hsent⟩ := (h.rest free).sent (Border.frame_place h.frame) ho
  have hput := hsent.put
  rw [hchannels] at hput
  refine ⟨hput, fun hne => ?_, fun c hc c' hc' => ?_⟩
  · have := hsent.perm (hchannels ▸ hne)
    rwa [hchannels] at this
  · obtain ⟨i, hi⟩ := List.getElem?_of_mem hc
    obtain ⟨i', hi'⟩ := List.getElem?_of_mem hc'
    rw [hput i c hi, hput i' c' hi']
    exact length_deal_near (List.getElem?_eq_some_iff.mp hi).1 (List.getElem?_eq_some_iff.mp hi').1 _

theorem Sound.sublist (h : x.Sound home) (free : x.call = none) {c : Nat}
    (hc : c ∈ home.outputChannels) : (x.ledger.put c).Sublist (x.accepted.map (·.row)) := by
  obtain ⟨o, ho, hmem⟩ := List.mem_flatMap.mp hc
  obtain ⟨j, hj⟩ := List.getElem?_of_mem ho
  obtain ⟨i, hi⟩ := List.getElem?_of_mem hmem
  have hrows : x.sent.filterMap (·.row?) = x.accepted.map (·.row) := by
    simp [Dispatch.sent, List.filterMap_map, Function.comp_def]
  rw [(h.dealt free hj).1 i c hi, ← hrows]
  exact (deal_sublist _ _ _ _).trans (hopRows_sublist _ _ _ _ _)

theorem rowsTo_unaimed (unaimed : ∀ order ∈ x.accepted, order.hop = none) (p : Border) (j : Nat) :
    p.rowsTo x.sent j =
      if p.shares then deal p.outputs.length j 0 (x.accepted.map (·.row))
      else x.accepted.map (·.row) := by
  have hsent : x.sent = (x.accepted.map (·.row)).map (.row none) := by
    rw [Dispatch.sent, List.map_map]
    exact List.map_congr_left fun order ho => by rw [Order.emission, unaimed order ho]; rfl
  rw [Border.rowsTo, hsent, hopRows_spread]

theorem Stepped.touched {turn : Turn} (hs : x.Stepped turn x') :
    ∃ t, x.net.Touched t x'.net ∧ x'.ledger = x.ledger.after t := by
  cases hs with
  | goes _ _ touched => exact ⟨_, touched, rfl⟩
  | take touched => exact ⟨_, touched, rfl⟩
  | put touched => exact ⟨_, touched, rfl⟩
  | act _ touched => exact ⟨_, touched, rfl⟩
  | _ => exact ⟨.nothing, .nothing, rfl⟩

/-- What went into a channel comes out of it in that order. -/
theorem balanced_after {c : Nat} {before : List Row} {ch : Channel Row}
    (hc : x.net.channel? c = some ch) (h : before ++ x.ledger.put c = x.ledger.taken c ++ ch.queue)
    (turns : List Turn) : ∃ ch', (x.after turns).net.channel? c = some ch' ∧
      before ++ (x.after turns).ledger.put c = (x.after turns).ledger.taken c ++ ch'.queue := by
  induction turns generalizing x ch with
  | nil => exact ⟨ch, hc, h⟩
  | cons turn turns ih =>
    obtain ⟨t, ht, hledger⟩ := (x.step_stepped turn).touched
    have hchannel : (x.step turn).net.channel? c = some (t.on c ch) := by
      rw [ht.channel, hc]
      rfl
    have hbalanced := Ledger.balanced_after ht hc h
    rw [← hledger] at hbalanced
    exact ih hchannel hbalanced

/-- Whatever others do meanwhile, once its writes are answered a writer's rows are accepted, counted
and shown to every listener. Each hop deals its rows to its channels in turn; rows for no hop in
particular go to each hop, or are dealt to the hops in turn. -/
theorem rows_dealt (border : Border) (net : Net) (start : Unwritten border net) (turns : List Turn)
    (spares : ∀ turn ∈ turns, turn.Spares border.outputChannels)
    (free : (Dispatch.after { border, net } turns).call = none) :
    let x := Dispatch.after { border, net } turns
    let put := x.ledger.put
    let rows := x.accepted.map (·.row)
    let n := border.outputs.length
    -- Only what is not to be accepted is not.
    (∀ a ∈ x.answers, Answered border a.1 a.2) ∧
    -- Every accepted row is counted and shown once, in order.
    (x.border.counters.linesWritten = rows.length ∧
      x.border.listeners.size = border.listeners.size ∧
      ∀ log ∈ x.border.listeners, log.toList.filterMap (·.written?) = rows) ∧
    -- A channel carries some of the rows, in order.
    (∀ c ∈ border.outputChannels, (put c).Sublist rows ∧
      ∃ ch ch', net.channel? c = some ch ∧ x.net.channel? c = some ch' ∧
        ch.queue ++ put c = x.ledger.taken c ++ ch'.queue) ∧
    -- The rows for a hop, of whichever writes, go round its channels.
    (∀ j o, border.outputs[j]? = some o →
      (∀ i c, o.channels[i]? = some c →
        put c = rowsAt (fun k => k % o.channels.length = i) (border.rowsTo x.sent j)) ∧
      (o.channels.flatMap put).Perm (border.rowsTo x.sent j) ∧
      ∀ c ∈ o.channels, ∀ c' ∈ o.channels, (put c).length ≤ (put c').length + 1) ∧
    ((∀ order ∈ x.accepted, order.hop = none) →
      -- Rows that are not shared out go to each hop.
      ((border.distribute && decide (1 < n)) = false → ∀ o ∈ border.outputs,
        (o.channels.flatMap put).Perm rows ∧
        ∀ i c, o.channels[i]? = some c → put c = rowsAt (fun k => k % o.channels.length = i) rows) ∧
      -- Rows that are shared out go round the hops.
      ((border.distribute && decide (1 < n)) = true →
        (border.outputChannels.flatMap put).Perm rows ∧
        (∀ j o, border.outputs[j]? = some o → ∀ i c, o.channels[i]? = some c →
          put c = rowsAt (fun k => k % n = j ∧ k / n % o.channels.length = i) rows) ∧
        ∀ o ∈ border.outputs, ∀ o' ∈ border.outputs,
          (o.channels.flatMap put).length ≤ (o'.channels.flatMap put).length + 1)) := by
  intro x put rows n
  have hx : x.Sound border := start.sound.after spares
  have hdealt {j : Nat} {o : Outlet} (ho : border.outputs[j]? = some o) := hx.dealt free ho
  have hperm {j : Nat} {o : Outlet} (ho : border.outputs[j]? = some o) :
      (o.channels.flatMap put).Perm (border.rowsTo x.sent j) :=
    (hdealt ho).2.1 (start.peopled o (List.mem_of_getElem? ho))
  refine ⟨hx.answers, ⟨by simpa [rows] using hx.told.1, hx.audience, hx.told.2⟩,
    fun c hc => ⟨hx.sublist free hc, ?_⟩, fun j o ho => ⟨fun i c hi => ?_, hperm ho, (hdealt ho).2.2⟩,
    fun unaimed => ⟨fun hshared o ho => ?_, fun hshared => ?_⟩⟩
  · obtain ⟨ch, hch, -⟩ := start.opened c hc
    obtain ⟨ch', hch', hbalanced⟩ := balanced_after (x := { border, net }) (c := c) hch
      (List.append_nil ch.queue) turns
    exact ⟨ch, ch', hch, hch', hbalanced⟩
  · rw [← deal_eq_rowsAt]
    exact (hdealt ho).1 i c hi
  · obtain ⟨j, hj⟩ := List.getElem?_of_mem ho
    have hrows : border.rowsTo x.sent j = rows := by
      rw [rowsTo_unaimed unaimed, Border.shares, hshared]
      rfl
    refine ⟨hrows ▸ hperm hj, fun i c hi => ?_⟩
    rw [← deal_eq_rowsAt, ← hrows]
    exact (hdealt hj).1 i c hi
  · have hrows (j : Nat) : border.rowsTo x.sent j = deal n j 0 rows := by
      rw [rowsTo_unaimed unaimed, Border.shares, hshared]
      rfl
    have hpos : 0 < n := by
      simp only [Bool.and_eq_true, decide_eq_true_eq] at hshared
      omega
    refine ⟨?_, fun j o ho i c hi => ?_, fun o ho o' ho' => ?_⟩
    · rw [Border.outputChannels, List.flatMap_assoc]
      refine (List.flatMap_perm_flatMap_range fun j o ho => ?_).trans (flatMap_deal_perm hpos rows)
      rw [← hrows j]
      exact hperm ho
    · rw [← deal_deal (List.getElem?_eq_some_iff.mp ho).1, ← hrows j]
      exact (hdealt ho).1 i c hi
    · obtain ⟨j, hj⟩ := List.getElem?_of_mem ho
      obtain ⟨j', hj'⟩ := List.getElem?_of_mem ho'
      rw [(hperm hj).length_eq, (hperm hj').length_eq, hrows, hrows]
      exact length_deal_near (List.getElem?_eq_some_iff.mp hj).1
        (List.getElem?_eq_some_iff.mp hj').1 rows

/-- A writer that distributes its rows to a hop with two channels and a hop with one. -/
def twoHops : Border where
  unit := ⟨"s", 0⟩
  outputs := [{ target := "t", channels := [0, 1] }, { target := "u", channels := [2] }]
  distribute := true
  listeners := #[#[]]

def threeChannels : Net where
  links := [⟨.new 1, none⟩, ⟨.new 1, none⟩, ⟨.new 1, none⟩]

def flag (b : Bool) : Row :=
  ⟨⟨[{ name := "flag", type := .boolean }]⟩, [.boolean b], rfl⟩

/-- A row for no hop in particular is asked for and written without a break. -/
def wholeWrite (row : Row) : List Turn :=
  [.ask ⟨none, row⟩, .write, .write, .write, .write, .write]

theorem twoHops_dealt :
    let turns := wholeWrite (flag true) ++ wholeWrite (flag true) ++ wholeWrite (flag false)
    let x := Dispatch.after { border := twoHops, net := threeChannels } turns
    Unwritten twoHops threeChannels ∧ (∀ turn ∈ turns, turn.Spares twoHops.outputChannels) ∧
      x.call = none ∧ x.border.counters.linesWritten = 3 ∧
      x.ledger.put 1 = [flag false] := by
  intro turns x
  have hnew : ∀ c ∈ twoHops.outputChannels, threeChannels.channel? c = some (.new 1) := by decide
  have hstart : Unwritten twoHops threeChannels := by
    refine ⟨by decide, by decide, fun c hc => ⟨_, hnew c hc, rfl, rfl⟩, rfl, by decide, rfl,
      fun log hlog => ?_⟩
    obtain rfl : log = #[] := by simpa [twoHops] using hlog
    rfl
  have hspares : ∀ turn ∈ turns, turn.Spares twoHops.outputChannels := by decide
  have hfree : x.call = none := rfl
  have hunaimed : ∀ order ∈ x.accepted, order.hop = none := by
    have haccepted : x.accepted = [⟨none, flag true⟩, ⟨none, flag true⟩, ⟨none, flag false⟩] := rfl
    simp [haccepted]
  obtain ⟨-, ⟨hcount, -⟩, -, -, hplain⟩ :=
    rows_dealt twoHops threeChannels hstart turns hspares hfree
  obtain ⟨-, hdealt⟩ := hplain hunaimed
  have hlast := (hdealt rfl).2.1 0 _ rfl 1 1 rfl
  exact ⟨hstart, hspares, hfree, hcount, hlast⟩

end Dispatch

end Sluice
