import Sluice.Proofs.Border.Intake

/-!
Inputs take turns. A round begins behind the input that last had a row, so while an input with rows
waits, each row from another input brings the beginning of the round nearer to it: no input comes up
twice before it.
-/

namespace Sluice

namespace Net

def Queued (net : Net) (c : Nat) : Prop :=
  ∃ ch, net.channel? c = some ch ∧ ch.queue ≠ []

variable {net : Net} {c : Nat}

theorem Queued.not_drained (h : net.Queued c) : ¬ net.Drained c := by
  obtain ⟨ch, hc, hq⟩ := h
  rintro ⟨ch', hc', -, hempty⟩
  obtain rfl := Option.some.inj (hc.symm.trans hc')
  exact hq hempty

theorem Queued.not_quiet (h : net.Queued c) : ¬ (net.channel? c = none ∨ net.Quiet c) := by
  obtain ⟨ch, hc, hq⟩ := h
  rintro (hnone | ⟨ch', hc', -, -, hempty⟩)
  · simp [hc] at hnone
  · obtain rfl := Option.some.inj (hc.symm.trans hc')
    exact hq hempty

end Net

namespace Border

/-- A round under way has not come past this input yet. -/
def Passes (p : Border) (i : Nat) : Reading → Prop
  | .scan _ done => done ≤ p.ahead i
  | _ => True

variable {p p' : Border} {net : Net} {t : Touch} {call call' : Reading} {i : Nat} {inlet : Inlet}

@[simp] theorem ahead_finishInput (p : Border) (k i : Nat) : (p.finishInput k).ahead i = p.ahead i := by
  simp [ahead, finishInput]

theorem ReadStep.passes (h : p.ReadStep net t call p' (.goes call')) (at_i : p.inputs[i]? = some inlet)
    (live : inlet.finished = false) (queued : net.Queued inlet.channel) (hp : p.Passes i call) :
    p'.Passes i call' ∧ p'.ahead i = p.ahead i := by
  have hlt : i < p.inputs.length := (List.getElem?_eq_some_iff.mp at_i).1
  have hnext {seen : UInt64} {done : Nat} (hp : p.Passes i (.scan seen done))
      (hne : p.inputs[p.slot done]? ≠ some inlet) : done + 1 ≤ p.ahead i := by
    have hle : done ≤ p.ahead i := hp
    rcases Nat.lt_or_eq_of_le hle with hlt | rfl
    · exact hlt
    · rw [slot_ahead hlt] at hne
      exact absurd at_i hne
  cases h with
  | many_live => exact ⟨Nat.zero_le _, rfl⟩
  | skip _ at_done finished =>
    refine ⟨hnext hp fun he => ?_, rfl⟩
    obtain rfl := Option.some.inj (at_done.symm.trans he)
    simp [live] at finished
  | scan_ended _ at_done _ drained =>
    refine ⟨?_, ahead_finishInput p _ i⟩
    refine (hnext hp fun he => ?_).trans_eq (ahead_finishInput p _ i).symm
    obtain rfl := Option.some.inj (at_done.symm.trans he)
    exact queued.not_drained drained
  | scan_empty _ at_done _ quiet =>
    refine ⟨hnext hp fun he => ?_, rfl⟩
    obtain rfl := Option.some.inj (at_done.symm.trans he)
    exact queued.not_quiet quiet
  | one_live | turn_to | fall_asleep | wake => exact ⟨trivial, rfl⟩

/-- The row that is taken is that of the input, or of one before it in the round, and then the next
round begins nearer to the input. -/
theorem ReadStep.chooses {c : Nat} {row : Row} {reply : Except StepError (Option Row)}
    (h : p.ReadStep net (.take c row) call p' (.replies reply)) (hi : i < p.inputs.length)
    (live : p.inputFinished i = false) (hs : p.Serves none call) (hp : p.Passes i call) :
    ∃ k < p.inputs.length, p.facing call = some k ∧
      (k ≠ i → p'.ahead i < ringDistance p.inputs.length k i ∧
        ringDistance p.inputs.length k i ≤ p.ahead i) := by
  cases h with
  | @scan_found seen done inlet _ _ at_done =>
    -- a round comes to its inputs by their distance, and the next one begins behind the chosen one
    refine ⟨p.slot done, (List.getElem?_eq_some_iff.mp at_done).1, rfl, fun hne => ?_⟩
    have hpassed : ringDistance p.inputs.length (p.slot done) i = p.ahead i - done :=
      ringDistance_add hi hp
    have hpos : 1 ≤ ringDistance p.inputs.length (p.slot done) i := by
      by_contra hzero
      have hhere := add_ringDistance_mod (a := p.slot done) hi
      rw [Nat.lt_one_iff.mp (Nat.not_le.mp hzero), Nat.add_zero, slot, Nat.mod_mod] at hhere
      exact hne hhere
    have hnext : ringDistance p.inputs.length ((p.slot done + 1) % p.inputs.length) i =
        ringDistance p.inputs.length (p.slot done) i - 1 := ringDistance_add hi hpos
    change ringDistance p.inputs.length ((p.slot done + 1) % p.inputs.length) i < _ ∧ _
    omega
  | @received k _ _ at_k =>
    refine ⟨k, (List.getElem?_eq_some_iff.mp at_k).1, rfl, fun hne => absurd ?_ hne⟩
    obtain hask | ⟨-, hlive⟩ := hs.2
    · cases hask
    · have hmem : i ∈ p.liveInputs := mem_liveInputs.mpr ⟨hi, live⟩
      rw [hlive, List.mem_singleton] at hmem
      exact hmem.symm

/-- These are different inputs, and the next round begins nearer to this input than each of them is. -/
def Nearer (p : Border) (i : Nat) (chosen : List Nat) : Prop :=
  chosen.Nodup ∧ ∀ j ∈ chosen, j < p.inputs.length ∧ p.ahead i < ringDistance p.inputs.length j i

theorem Nearer.congr {chosen : List Nat} (h : p.Nearer i chosen)
    (length : p'.inputs.length = p.inputs.length) (ahead : p'.ahead i = p.ahead i) :
    p'.Nearer i chosen := by
  rw [Nearer, length, ahead]
  exact h

theorem Nearer.concat {chosen : List Nat} {k : Nat} (h : p.Nearer i chosen)
    (length : p'.inputs.length = p.inputs.length) (hk : k < p.inputs.length)
    (behind : p'.ahead i < ringDistance p.inputs.length k i)
    (within : ringDistance p.inputs.length k i ≤ p.ahead i) : p'.Nearer i (chosen ++ [k]) := by
  obtain ⟨hnodup, hnear⟩ := h
  have hnew : k ∉ chosen := fun hmem => by
    have := hnear k hmem
    omega
  refine ⟨List.nodup_append.mpr ⟨hnodup, List.nodup_singleton k, ?_⟩, fun j hj => ?_⟩
  · intro j hj j' hj' heq
    rw [List.mem_singleton] at hj'
    exact hnew (hj' ▸ heq ▸ hj)
  · rw [length]
    rcases List.mem_append.mp hj with hj | hj
    · have := hnear j hj
      omega
    · rw [List.mem_singleton.mp hj]
      exact ⟨hk, behind⟩

theorem Nearer.length_lt {chosen : List Nat} (h : p.Nearer i chosen) (hi : i < p.inputs.length)
    (hnot : i ∉ chosen) : chosen.length < p.inputs.length := by
  have hsub : i :: chosen ⊆ List.range p.inputs.length := by
    intro j hj
    rcases List.mem_cons.mp hj with rfl | hj
    · exact List.mem_range.mpr hi
    · exact List.mem_range.mpr (h.2 j hj).1
  simpa using (List.subperm_of_subset (List.nodup_cons.mpr ⟨hnot, h.1⟩) hsub).length_le

end Border

/-- The inputs that rows came from, in order. -/
def Answer.chosen (given : List Answer) : List Nat :=
  (given.filterMap (·.got)).map (·.1)

namespace Answer

theorem chosen_append (given given' : List Answer) :
    chosen (given ++ given') = chosen given ++ chosen given' := by
  simp [chosen]

theorem rowsFrom_eq_nil {k : Nat} {given : List Answer} (h : k ∉ chosen given) :
    rowsFrom k given = [] := by
  simp only [chosen, List.mem_map, not_exists, not_and] at h
  simpa [rowsFrom, rowsOf] using fun q hq => h q (List.mem_filterMap.mpr hq)

/-- A read from any input finds no row exactly where the end of every input was read. -/
theorem Holds.ended_iff {a : Answer} {p : Border} (h : a.Holds p) (asked : a.asked = none) :
    a.reply = .ok none ↔ ∀ k < p.inputs.length, p.inputFinished k = true := by
  rcases hreply : a.reply with e | _ | row <;> simp only [Holds, hreply] at h
  · obtain ⟨i, -, hi, -⟩ := h
    simp [asked] at hi
  · simpa [asked] using h
  · obtain ⟨k, hk, -, -, hf⟩ := h
    refine iff_of_false (by simp) fun hall => ?_
    simp [hall k hk] at hf

end Answer

namespace Intake

open Answer

/-- Rows wait at this input. -/
def Waits (x : Intake) (i : Nat) : Prop :=
  ∃ inlet, x.border.inputs[i]? = some inlet ∧ inlet.finished = false ∧ x.net.Queued inlet.channel

variable {x x' : Intake} {i : Nat} {past : List Answer}

/-- Nobody but the reader takes rows, so they wait until it comes to this input. -/
theorem Waits.grows (hw : x.Waits i) (h : x.Sound) (h' : x'.Sound) (hg : x.Grows x')
    (hrows : rowsFrom i x'.given = rowsFrom i x.given) : x'.Waits i := by
  obtain ⟨inlet, hi, -, ch, hc, hq⟩ := hw
  obtain ⟨inlet', hi', hchannel⟩ :
      ∃ inlet', x'.border.inputs[i]? = some inlet' ∧ inlet'.channel = inlet.channel := by
    have := congrArg (·[i]?) hg.channels
    simpa [Border.inputChannels, hi] using this
  obtain ⟨old, hold, hput⟩ := h.account i inlet hi
  obtain ⟨ch', hc', hput'⟩ := h'.account i inlet' hi'
  obtain rfl : old = ch := Option.some.inj (hold.symm.trans hc)
  obtain ⟨more, hmore⟩ := hg.put
  have hqueue : ch'.queue = old.queue ++ rowsOf inlet.channel more := by
    rw [← hmore, hchannel, rowsOf_append, hput, hrows, List.append_assoc] at hput'
    exact (List.append_cancel_left hput').symm
  have hne : ch'.queue ≠ [] := by simp [hqueue, hq]
  refine ⟨inlet', hi', ?_, ch', hc', hne⟩
  by_contra hf
  obtain ⟨ended, hended, -, hempty⟩ := h'.ended i inlet' hi' (by simpa using hf)
  obtain rfl : ended = ch' := Option.some.inj (hended.symm.trans hc')
  exact hne hempty

/-- Since some time rows came from other inputs only, and each brought the round nearer to this one. -/
structure Passing (i : Nat) (past : List Answer) (x : Intake) : Prop where
  sound : x.Sound
  waits : x.Waits i
  call : ∀ call, x.vigil.call = some call → x.asked = none ∧ x.border.Passes i call
  nearer : ∃ later, x.given = past ++ later ∧ x.border.Nearer i (chosen later)

theorem Passing.read {later : List Answer} {call : Reading} (h : x.Passing i past)
    (hc : x.vigil.call = some call) (hlater : x.given = past ++ later)
    (hnear : x.border.Nearer i (chosen later))
    (others : ∀ later, (x.step .read).given = past ++ later → i ∉ chosen later) :
    (∀ call, (x.step .read).vigil.call = some call →
      (x.step .read).asked = none ∧ (x.step .read).border.Passes i call) ∧
    ∃ later, (x.step .read).given = past ++ later ∧ (x.step .read).border.Nearer i (chosen later) := by
  obtain ⟨hasked, hpasses⟩ := h.call call hc
  obtain ⟨inlet, hi, live, queued⟩ := h.waits
  have hlt : i < x.border.inputs.length := (List.getElem?_eq_some_iff.mp hi).1
  obtain ⟨-, heq⟩ | ⟨call', border, hs, heq⟩ | ⟨reply, t, border, net, hs, ht, heq⟩ := step_read hc
  · rw [heq]
    exact ⟨h.call, later, hlater, hnear⟩
  · obtain ⟨hpasses', hahead⟩ := hs.passes hi live queued hpasses
    rw [heq]
    refine ⟨fun call'' hc'' => ?_, later, hlater, ?_⟩
    · obtain rfl := Option.some.inj hc''
      exact ⟨hasked, hpasses'⟩
    · exact hnear.congr (Border.place_inputs_length hs.place) hahead
  · have hgiven : (x.step .read).given =
        past ++ (later ++ [⟨x.asked, reply, x.border.facing call⟩]) := by
      rw [heq, ← List.append_assoc, ← hlater]
    have hnot := others _ hgiven
    rw [heq] at hgiven ⊢
    refine ⟨fun call'' hc'' => (by cases hc''), _, hgiven, ?_⟩
    rw [chosen_append] at hnot ⊢
    by_cases htake : ∃ c row, t = .take c row
    · obtain ⟨c, row, rfl⟩ := htake
      obtain ⟨rfl, hin, -⟩ := hs.takes
      have hserves : x.border.Serves none call := hasked ▸ h.sound.serves call hc
      obtain ⟨k, hk, hfacing, hnext⟩ :=
        hs.chooses hlt ((Border.inputFinished_iff hi).trans live) hserves hpasses
      rw [hfacing] at hnot ⊢
      have hne : k ≠ i := fun he => hnot (by simp [chosen, got, he])
      exact hnear.concat (congrArg List.length hin) hk (hnext hne).1 (hnext hne).2
    · obtain ⟨rfl, hnone, hborder⟩ := hs.takes_nothing fun c row ht => htake ⟨c, row, ht⟩
      have hgot : chosen [⟨x.asked, reply, x.border.facing call⟩] = [] := by
        simp [chosen, got_eq_none fun row hr => hnone row (congrArg Onward.replies hr)]
      rw [hgot, List.append_nil]
      refine hnear.congr (Border.place_inputs_length hs.place) ?_
      obtain rfl | ⟨k, inlet', rfl, -⟩ := hborder
      · rfl
      · exact Border.ahead_finishInput x.border k i

theorem Passing.step (h : x.Passing i past) {turn : Vigil.Turn} (gentle : turn.Gentle)
    (general : ∀ k, turn ≠ .ask (some k))
    (others : ∀ later, (x.step turn).given = past ++ later → i ∉ chosen later) :
    (x.step turn).Passing i past := by
  have hstepped := x.step_stepped gentle
  have hsound := h.sound.stepped hstepped
  obtain ⟨later, hlater, hnear⟩ := h.nearer
  have hwaits : (x.step turn).Waits i := by
    obtain ⟨more, hmore⟩ := hstepped.grows.given
    -- a row in this turn comes from another input as well, so what waits is still there
    have hnot := others (later ++ more) (by rw [← hmore, hlater, List.append_assoc])
    rw [chosen_append, List.mem_append, not_or] at hnot
    refine h.waits.grows h.sound hsound hstepped.grows ?_
    rw [← hmore, rowsFrom_append, rowsFrom_eq_nil hnot.2, List.append_nil]
  cases hturn : turn.isRead with
  | false =>
    obtain ⟨hborder, hgiven, hcall⟩ := step_other (x := x) hturn
    refine ⟨hsound, hwaits, fun call hc => ?_, later, hgiven.trans hlater, hborder ▸ hnear⟩
    rw [hborder]
    obtain ⟨hcall, hasked⟩ | ⟨-, input, rfl, hasked, hcall⟩ := hcall
    · rw [hasked]
      exact h.call call (hcall.symm.trans hc)
    · cases input with
      | none =>
        obtain rfl := Option.some.inj (hcall.symm.trans hc)
        exact ⟨hasked, trivial⟩
      | some k => exact absurd rfl (general k)
  | true =>
    obtain rfl : turn = .read := by cases turn <;> first | rfl | cases hturn
    cases hc : x.vigil.call with
    | none =>
      have hidle : x.step .read = x := by simp [Intake.step, Vigil.step, answer?, entry?, request, hc]
      exact hidle.symm ▸ h
    | some call =>
      obtain ⟨hcall, hnearer⟩ := h.read hc hlater hnear others
      exact ⟨hsound, hwaits, hcall, hnearer⟩

theorem Passing.after (h : x.Passing i past) {turns : List Vigil.Turn}
    (gentle : ∀ turn ∈ turns, turn.Gentle) (general : ∀ k, .ask (some k) ∉ turns)
    (others : ∀ later, (x.after turns).given = past ++ later → i ∉ chosen later) :
    (x.after turns).Passing i past := by
  induction turns generalizing x with
  | nil => exact h
  | cons turn turns ih =>
    obtain ⟨hturn, hturns⟩ := List.forall_mem_cons.mp gentle
    obtain ⟨more, hmore⟩ := (x.step turn).given_after turns
    refine ih (h.step hturn (fun k hk => general k (hk ▸ List.mem_cons_self)) fun later hlater => ?_)
      hturns (fun k hk => general k (List.mem_cons_of_mem _ hk)) others
    have hnot := others (later ++ more) (by
      rw [← List.append_assoc, ← hlater]
      exact hmore.symm)
    rw [chosen_append, List.mem_append, not_or] at hnot
    exact hnot.1

theorem Sound.ended_after (h : x.Sound)
    (finished : ∀ k < x.border.inputs.length, x.border.inputFinished k = true)
    {turns : List Vigil.Turn} (gentle : ∀ turn ∈ turns, turn.Gentle) {later : List Answer}
    (hlater : (x.after turns).given = x.given ++ later) {a : Answer} (ha : a ∈ later)
    (asked : a.asked = none) : a.reply = .ok none := by
  obtain ⟨before, behind, rfl, hread⟩ := exists_read_of_mem hlater ha
  have hgentle : ∀ turn ∈ before ++ [.read], turn.Gentle := fun turn hturn =>
    gentle turn (by simp only [List.mem_append, List.mem_singleton] at hturn; simp; tauto)
  have hafter : (x.after before).step .read = x.after (before ++ [.read]) := by
    rw [after_append]
    rfl
  have hgrows := x.grows_after hgentle
  have hholds := ((h.after fun turn hturn => hgentle turn (List.mem_append_left _ hturn)).answer hread).2
  rw [hafter] at hholds
  exact (hholds.ended_iff asked).mpr fun k hk =>
    hgrows.finished k (finished k (hgrows.length ▸ hk))

/-- What a reader can rely on while others put rows in and end their streams, in whatever order: its rows
are those that were put, it finds none exactly when all streams are read to their ends, it does not wait
for streams that are ended, and no input is passed over. -/
theorem reads_lawful (border : Border) (net : Net) (start : Unread border net)
    (turns : List Vigil.Turn) (gentle : ∀ turn ∈ turns, turn.Gentle) :
    let x := Intake.after { vigil := { border, net } } turns
    let n := x.border.inputs.length
    -- The rows from an input are the first of those that were put there, and in the end all of them.
    (∀ k inlet, x.border.inputs[k]? = some inlet → ∃ ch, x.net.channel? inlet.channel = some ch ∧
      rowsOf inlet.channel x.put = rowsFrom k x.given ++ ch.queue ∧
      (inlet.finished = true → ch.closed = true ∧ ch.queue = [])) ∧
    -- An answer is right, and it is no row exactly when the end of every input was read.
    (∀ a, (x.step .read).given = x.given ++ [a] →
      a.asked = x.asked ∧ a.Holds (x.step .read).border ∧
      (a.asked = none → (a.reply = .ok none ↔
        ∀ k < n, (x.step .read).border.inputFinished k = true))) ∧
    -- After that it stays so.
    ((∀ k < n, x.border.inputFinished k = true) → ∀ more : List Vigil.Turn,
      (∀ turn ∈ more, turn.Gentle) → ∀ later, (x.after more).given = x.given ++ later →
      ∀ a ∈ later, a.asked = none → a.reply = .ok none) ∧
    -- Once all streams are ended, a read is answered after so many steps and does not wait before.
    ((∀ c ∈ x.border.inputChannels, x.net.Closed c) → x.vigil.call = none →
      ∀ (input : Option Nat) (more : List Vigil.Turn), (∀ turn ∈ more, turn.Gentle) →
      let y := (x.step (.ask input)).after more
      y.given = x.given → more.countP (·.isRead) ≤ n + 2 ∧
        ∃ call, y.vigil.call = some call ∧ (∀ seen, call ≠ .sleep seen) ∧
          y.border.advanceRead y.net call ≠ .blocked) ∧
    -- While rows wait at an input and others are chosen, these are all different.
    (∀ (i : Nat) (stretch : List Vigil.Turn), (∀ turn ∈ stretch, turn.Gentle) →
      (∀ k, .ask (some k) ∉ stretch) → x.vigil.call = none → x.Waits i →
      ∀ later, (x.after stretch).given = x.given ++ later → i ∉ chosen later →
        (chosen later).Nodup ∧ (chosen later).length < n) := by
  intro x n
  have hx : x.Sound := start.sound.after gentle
  refine ⟨fun k inlet hk => ?_, fun a ha => ?_, fun finished more hmore later hlater a ha hasked => ?_,
    ?_, fun i stretch hstretch general free hwaits later hlater hnot => ?_⟩
  · obtain ⟨ch, hc, hrows⟩ := hx.account k inlet hk
    refine ⟨ch, hc, hrows, fun hf => ?_⟩
    obtain ⟨ended, hended, hclosed, hempty⟩ := hx.ended k inlet hk hf
    obtain rfl := Option.some.inj (hended.symm.trans hc)
    exact ⟨hclosed, hempty⟩
  · obtain ⟨hasked, hholds⟩ := hx.answer ha
    have hread : Vigil.Turn.Gentle .read := trivial
    have hlen : (x.step .read).border.inputs.length = n := (x.step_stepped hread).grows.length
    exact ⟨hasked, hholds, fun hany => hlen ▸ hholds.ended_iff hany⟩
  · exact hx.ended_after finished hmore hlater ha hasked
  · intro closed free input more hmore y hy
    have hasks : (x.step (.ask input)).given = x.given := (step_other rfl).2.1
    have hborder : (x.step (.ask input)).border = x.border := (step_other rfl).1
    have hprompt := (hx.prompt closed free input).after hmore (hy.trans hasks.symm)
    obtain ⟨call, hc, hh, hleft⟩ := hprompt.under_way
    have hlen : y.border.inputs.length = n :=
      ((x.step (.ask input)).grows_after hmore).length.trans (congrArg (·.inputs.length) hborder)
    refine ⟨?_, call, hc, fun seen he => ?_, hh.not_blocked hprompt.complete⟩
    · change 0 + more.countP _ + y.border.stepsLeft call ≤ y.border.inputs.length + 2 at hleft
      omega
    · subst he
      exact hh
  · have hstart : x.Passing i x.given :=
      ⟨hx, hwaits, fun call hc => (by simp [free] at hc), [], by simp, by simp [chosen, Border.Nearer]⟩
    have hend := hstart.after hstretch general fun later' hlater' => by
      rwa [List.append_cancel_left (hlater'.symm.trans hlater)]
    obtain ⟨later', hlater', hnear⟩ := hend.nearer
    obtain rfl := List.append_cancel_left (hlater'.symm.trans hlater)
    obtain ⟨inlet, hi, -⟩ := hwaits
    have hlen : (x.after stretch).border.inputs.length = n := (x.grows_after hstretch).length
    have hlt := (List.getElem?_eq_some_iff.mp hi).1
    exact ⟨hnear.1, hlen ▸ hnear.length_lt (hlen.symm ▸ hlt) hnot⟩

def ready (b : Bool) : Row :=
  ⟨⟨[{ name := "ready", type := .boolean }]⟩, [.boolean b], rfl⟩

/-- A row waits at each of two inputs. -/
def bothWaiting : List Vigil.Turn :=
  [.put 0 (ready true), .put 1 (ready false)]

theorem bothWaiting_served :
    let vigil : Vigil := { border := Vigil.twoInputs, net := Vigil.twoChannels }
    let x := Intake.after { vigil } bothWaiting
    let later := (x.after [.ask none, .read, .read]).given
    Unread Vigil.twoInputs Vigil.twoChannels ∧ (∀ turn ∈ bothWaiting, turn.Gentle) ∧
      (∃ ch, x.net.channel? 1 = some ch ∧ rowsOf 1 x.put = rowsFrom 1 x.given ++ ch.queue) ∧
      x.Waits 1 ∧ chosen later = [0] ∧ (chosen later).Nodup ∧ (chosen later).length < 2 := by
  intro vigil x later
  have hnew : ∀ c ∈ Vigil.twoInputs.inputChannels, Vigil.twoChannels.channel? c = some (.new 1) := by
    decide
  have hstart : Unread Vigil.twoInputs Vigil.twoChannels := by
    refine ⟨by decide, by decide, fun c hc => ⟨_, hnew c hc, rfl⟩, ?_, rfl⟩
    rintro c hc ⟨ch, hch, haborted⟩
    obtain rfl := Option.some.inj (hch.symm.trans (hnew c hc))
    cases haborted
  have hgentle : ∀ turn ∈ bothWaiting, turn.Gentle := by decide
  obtain ⟨haccount, -, -, -, hfair⟩ :=
    reads_lawful Vigil.twoInputs Vigil.twoChannels hstart bothWaiting hgentle
  obtain ⟨ch, hch, hrows, -⟩ := haccount 1 _ rfl
  have hwaits : x.Waits 1 := ⟨_, rfl, rfl, _, rfl, by decide⟩
  have hchosen : chosen later = [0] := by decide
  have hserved := hfair 1 [.ask none, .read, .read] (by decide) (by simp) rfl hwaits later rfl
    (by rw [hchosen]; decide)
  exact ⟨hstart, hgentle, ⟨ch, hch, hrows⟩, hwaits, hchosen, hserved.1, hserved.2⟩

end Intake

end Sluice
