import Sluice.Proofs.Border.Totals
import Sluice.Proofs.Border.Vigil
import Sluice.Proofs.Step.Rowwise

/-!
A border that nobody else interferes with. The streams of its inputs are complete, the channels of
its outputs are open and have room for every row that may come, and nobody stops the run. A read
then never waits, and comes to a row or to the end of all streams; a write never waits and is never
refused.
-/

namespace Sluice

/-- No stop, and no end of a stream. -/
def Touch.Mild (t : Touch) : Prop :=
  t ≠ .raise ∧ ∀ c, t ≠ .close c ∧ t ≠ .abort c

namespace Net

/-- Open, with room for so many rows in all. -/
def Roomy (net : Net) (rows c : Nat) : Prop :=
  ∃ ch, net.channel? c = some ch ∧ ch.aborted = false ∧ ch.closed = false ∧ rows ≤ ch.capacity

/-- The end of the stream is marked, and what is queued can still be read. -/
def Complete (net : Net) (c : Nat) : Prop :=
  net.Closed c ∧ ¬ net.Aborted c

variable {net net' : Net} {t : Touch} {c rows : Nat}

theorem Roomy.touched (h : net.Roomy rows c) (ht : net.Touched t net') (mild : t.Mild) :
    net'.Roomy rows c := by
  obtain ⟨ch, hc, ha, hcl, hroom⟩ := h
  refine ⟨t.on c ch, by rw [ht.channel, hc]; rfl, ?_⟩
  cases t with
  | close i => exact absurd rfl (mild.2 i).1
  | abort i => exact absurd rfl (mild.2 i).2
  | put i row => by_cases hi : i = c <;> simp [Touch.on, hi, ha, hcl, hroom, Channel.push]
  | take i row => by_cases hi : i = c <;> simp [Touch.on, hi, ha, hcl, hroom, Channel.pop]
  | nothing | raise | notify => exact ⟨ha, hcl, hroom⟩

theorem Roomy.not_aborted (h : net.Roomy rows c) : ¬ net.Aborted c := by
  obtain ⟨ch, hc, ha, -⟩ := h
  rintro ⟨ch', hc', ha'⟩
  rw [hc, Option.some.injEq] at hc'
  simp [← hc', ha] at ha'

theorem Roomy.not_closed (h : net.Roomy rows c) : ¬ net.Closed c := by
  obtain ⟨ch, hc, -, hcl, -⟩ := h
  rintro ⟨ch', hc', hcl'⟩
  rw [hc, Option.some.injEq] at hc'
  simp [← hc', hcl] at hcl'

theorem Complete.not_quiet (h : net.Complete c) : ¬ (net.channel? c = none ∨ net.Quiet c) := by
  obtain ⟨ch, hc, -⟩ := h.1
  rintro (hnone | hquiet)
  · simp [hc] at hnone
  · exact hquiet.not_closed h.1

theorem Complete.touched (h : net.Complete c) (ht : net.Touched t net') (mild : t.Mild) :
    net'.Complete c :=
  ⟨ht.closed h.1, fun ha => (ht.aborted_inv ha).elim h.2 (mild.2 c).2⟩

end Net

def Onward.progress {κ ρ : Type} (p : Border) (net : Net) : Onward κ ρ → Progress κ ρ
  | .goes call => .continues call p net
  | .replies r => .replies r p net

theorem Progress.Obeys.onward {κ ρ : Type} {step : Touch → Border → Onward κ ρ → Prop} {net : Net}
    {progress : Progress κ ρ} (h : progress.Obeys step net) (hb : progress ≠ .blocked) :
    ∃ t p' net' onward, progress = onward.progress p' net' ∧ step t p' onward ∧
      net.Touched t net' := by
  cases progress with
  | blocked => exact absurd rfl hb
  | continues call p' net' =>
    obtain ⟨t, hs, ht⟩ := h
    exact ⟨t, p', net', .goes call, rfl, hs, ht⟩
  | replies r p' net' =>
    obtain ⟨t, hs, ht⟩ := h
    exact ⟨t, p', net', .replies r, rfl, hs, ht⟩

/-- For a hop that there is, and in safe mode of the one layout that all rows have. -/
structure Emission.Sendable (e : Emission) (p : Border) (layout : Schema) : Prop where
  aimed : ∀ hop row, e = .row (some hop) row → hop < p.outputs.length
  uniform : p.safeMode = true → ∀ row ∈ e.row?, row.schema.bare = layout

theorem Emission.sendable_row {p : Border} {layout : Schema} {hop : Option Nat} {row : Row}
    (aimed : ∀ k ∈ hop, k < p.outputs.length)
    (uniform : p.safeMode = true → row.schema.bare = layout) :
    (Emission.row hop row).Sendable p layout := by
  refine ⟨fun k r he => ?_, fun hs r hr => ?_⟩
  · obtain ⟨rfl, -⟩ := Emission.row.inj he
    exact aimed k rfl
  · obtain rfl := Option.some.inj hr
    exact uniform hs

theorem Emission.sendable_fault {p : Border} {layout : Schema} (message : String) :
    (Emission.fault message).Sendable p layout :=
  ⟨fun _ _ he => (by cases he), fun _ _ hr => (by cases hr)⟩

theorem Emission.Sendable.congr {e e' : Emission} {p : Border} {layout : Schema}
    (h : e.Sendable p layout) (he : e'.bare = e.bare) : e'.Sendable p layout := by
  refine ⟨fun hop row hrow => ?_, fun hsafe row hrow => ?_⟩
  · subst hrow
    cases e with
    | row hop' r =>
      obtain ⟨rfl, -⟩ := Emission.row.inj he
      exact h.aimed hop r rfl
    | fault => cases he
  · have hbare := congrArg Emission.row? he
    rw [Emission.row?_bare, Emission.row?_bare, Option.mem_def.mp hrow] at hbare
    obtain ⟨r, hr, hrr⟩ := Option.map_eq_some_iff.mp hbare.symm
    rw [← h.uniform hsafe r hr]
    exact (congrArg Row.schema hrr).symm

namespace Border

/-- What of a border its reads and writes leave as it is. -/
def frame (p : Border) : Place × Bool × Nat :=
  (p.place, p.safeMode, p.batchRows)

variable {p p' : Border} {net net' : Net} {t : Touch}

theorem frame_place (h : p'.frame = p.frame) : p'.place = p.place :=
  congrArg Prod.fst h

theorem frame_unit (h : p'.frame = p.frame) : p'.unit = p.unit :=
  congrArg Place.unit (frame_place h)

theorem frame_safeMode (h : p'.frame = p.frame) : p'.safeMode = p.safeMode :=
  congrArg (fun f => f.2.1) h

theorem WriteStep.frame {call : Writing} {onward : Onward Writing (Except StepError Unit)}
    (h : p.WriteStep net t call p' onward) : p'.frame = p.frame := by
  have hplace := h.place
  refine Prod.ext hplace ?_
  cases h with
  | choose turn =>
    obtain ⟨o, -, -, rfl⟩ := takeTurn_some turn
    rfl
  | _ => rfl

/-- A border as it was at home, with everything that it needs to work through these streams. -/
structure Solo (home : Border) (streams : List (List Row)) (layout : Schema) (p : Border)
    (net : Net) (l : Ledger) (j : Journal) : Prop where
  frame : p.frame = home.frame
  journal : p.Journaled j l
  fits : l.Fits net
  going : net.stopping = false
  apart : (p.inputChannels ++ p.outputChannels).Nodup
  supplied : p.inputChannels.map l.put = streams
  complete : ∀ c ∈ p.inputChannels, net.Complete c
  ended : ∀ (k : Nat) (inlet : Inlet), p.inputs[k]? = some inlet → inlet.finished = true →
    net.Drained inlet.channel
  roomy : ∀ c ∈ p.outputChannels, net.Roomy streams.flatten.length c
  layout : p.safeMode = true → ∀ first ∈ p.layout, first.bare = layout

namespace Solo

variable {home : Border} {streams : List (List Row)} {layout : Schema} {l : Ledger} {j j' : Journal}

theorem inputs_nodup (h : Solo home streams layout p net l j) : p.inputChannels.Nodup :=
  (List.nodup_append.mp h.apart).1

theorem outputs_nodup (h : Solo home streams layout p net l j) : p.outputChannels.Nodup :=
  (List.nodup_append.mp h.apart).2.1

theorem touched (h : Solo home streams layout p net l j) (ht : net.Touched t net') (mild : t.Mild)
    (own : ∀ c row, t = .put c row → c ∉ p.inputChannels) (hframe : p'.frame = p.frame)
    (hj : p'.Journaled j' (l.after t))
    (hended : ∀ (k : Nat) (inlet : Inlet), p'.inputs[k]? = some inlet → inlet.finished = true →
      net.Drained inlet.channel)
    (hlayout : p'.safeMode = true → ∀ first ∈ p'.layout, first.bare = layout) :
    Solo home streams layout p' net' (l.after t) j' := by
  have hplace : p'.place = p.place := frame_place hframe
  have hin := place_inputs hplace
  have hout := place_outputs hplace
  refine ⟨hframe.trans h.frame, hj, h.fits.touched ht, ?_, by rw [hin, hout]; exact h.apart, ?_, ?_,
    fun k inlet hk hf => ht.drained (hended k inlet hk hf), ?_, hlayout⟩
  · rw [ht.stopping_of_ne mild.1]
    exact h.going
  · rw [hin, ← h.supplied]
    refine List.map_congr_left fun c hc => Ledger.put_after_of_ne fun row hput => ?_
    exact own c row hput hc
  · rw [hin]
    exact fun c hc => (h.complete c hc).touched ht mild
  · rw [hout]
    exact fun c hc => (h.roomy c hc).touched ht mild

end Solo

/-- A read from any input; all that it has looked at in this round has ended. -/
def Looking (p : Border) : Reading → Prop
  | .any => True
  | .scan _ done => ∀ n < done, p.inputFinished (p.slot n) = true
  | .receive i => p.liveInputs = [i]
  | _ => False

/-- How many more steps a read can take, at most. -/
def readingLeft (p : Border) : Reading → Nat
  | .any => p.inputs.length + 2
  | .scan _ done => p.inputs.length + 1 - done
  | _ => 0

theorem mem_inputs {k : Nat} {inlet : Inlet} (hk : p.inputs[k]? = some inlet) :
    inlet.channel ∈ p.inputChannels :=
  List.mem_map_of_mem (List.mem_of_getElem? hk)

theorem getElem?_of_finishInput {k i : Nat} {inlet : Inlet}
    (h : (p.finishInput k).inputs[i]? = some inlet) :
    ∃ old, p.inputs[i]? = some old ∧ old.channel = inlet.channel ∧
      (inlet.finished = true → k = i ∨ old.finished = true) := by
  rw [getElem?_finishInput, Option.map_eq_some_iff] at h
  obtain ⟨old, hold, rfl⟩ := h
  by_cases hki : k = i
  · exact ⟨old, hold, by simp [hki], fun _ => .inl hki⟩
  · exact ⟨old, hold, by simp [hki], by simp [hki]⟩

/-- What a read comes to: one more row was read, or all streams have ended. -/
def Received (p : Border) (j j' : Journal) : Except StepError (Option Row) → Prop
  | .ok (some row) => ∃ k, j'.got = j.got ++ [(k, row)]
  | .ok none => j'.got = j.got ∧ p.liveInputs = []
  | .error _ => False

namespace Solo

variable {home : Border} {streams : List (List Row)} {layout : Schema} {l : Ledger} {j j' : Journal}

theorem not_in_both (h : Solo home streams layout p net l j) {c : Nat} (hc : c ∈ p.outputChannels) :
    c ∉ p.inputChannels :=
  fun hin => (List.nodup_append.mp h.apart).2.2 c hin c hc rfl

theorem take (h : Solo home streams layout p net l j) {k : Nat} {inlet : Inlet} {row : Row}
    (hk : p.inputs[k]? = some inlet) (ht : net.Touched (.take inlet.channel row) net')
    (turn : Nat) :
    Solo home streams layout ({ p with nextInput := turn }.onRead row) net'
      (l.after (.take inlet.channel row)) (j.take k row) := by
  refine h.touched ht ⟨by simp, by simp⟩ (by simp) rfl ?_ h.ended h.layout
  have hj := h.journal.take h.inputs_nodup hk row
  exact ⟨hj.ended, hj.tags, hj.taken, hj.linesRead, hj.linesWritten, hj.errors, hj.messages,
    hj.heard⟩

theorem finish (h : Solo home streams layout p net l j) {k : Nat} {inlet : Inlet}
    (hk : p.inputs[k]? = some inlet) (hd : net.Drained inlet.channel) :
    Solo home streams layout (p.finishInput k) net l
      { j with ended := fun i => k = i ∨ j.ended i } := by
  have hframe : (p.finishInput k).frame = p.frame := Prod.ext (place_finishInput p k) rfl
  refine h.touched .nothing ⟨by simp, by simp⟩ (by simp) hframe (h.journal.finish k)
    (fun i inlet' hi hf => ?_) h.layout
  obtain ⟨old, hold, hchannel, hfinished⟩ := getElem?_of_finishInput hi
  rw [← hchannel]
  obtain rfl | hf := hfinished hf
  · obtain rfl := Option.some.inj (hk.symm.trans hold)
    exact hd
  · exact h.ended i old hold hf

end Solo

theorem liveInputs_eq_nil_iff : p.liveInputs = [] ↔ ∀ k < p.inputs.length, p.inputFinished k = true := by
  simp only [List.eq_nil_iff_forall_not_mem, mem_liveInputs, not_and, Bool.not_eq_false]

theorem liveInputs_eq_nil_of_round (h : ∀ n < p.inputs.length, p.inputFinished (p.slot n) = true) :
    p.liveInputs = [] := by
  refine liveInputs_eq_nil_iff.mpr fun k hlt => ?_
  obtain ⟨n, hn, hslot⟩ := slot_surjective (List.getElem_mem hlt)
  rw [inputFinished_iff (List.getElem?_eq_getElem hlt), ← inputFinished_iff hslot]
  exact h n hn

theorem liveInputs_finishInput {i : Nat} (h : p.liveInputs = [i]) :
    (p.finishInput i).liveInputs = [] := by
  refine liveInputs_eq_nil_iff.mpr fun k hk => ?_
  rw [length_finishInput] at hk
  refine (inputFinished_finishInput hk).mpr ?_
  by_contra hne
  obtain ⟨hik, hf⟩ := not_or.mp hne
  have hmem : k ∈ p.liveInputs := mem_liveInputs.mpr ⟨hk, by simpa using hf⟩
  rw [h, List.mem_singleton] at hmem
  exact hik hmem.symm

theorem round_finishInput {done : Nat} (more : done < p.inputs.length)
    (h : ∀ n < done, p.inputFinished (p.slot n) = true) :
    ∀ n < done + 1, (p.finishInput (p.slot done)).inputFinished ((p.finishInput (p.slot done)).slot n) =
      true := by
  intro n hn
  have hslot : (p.finishInput (p.slot done)).slot n = p.slot n := by simp [slot, finishInput]
  have hlt : p.slot n < p.inputs.length := Nat.mod_lt _ (by omega)
  rw [hslot, inputFinished_finishInput hlt]
  obtain hn | rfl := Nat.lt_succ_iff_lt_or_eq.mp hn
  · exact .inr (h n hn)
  · exact .inl rfl

theorem not_blocked_of_complete {call : Reading} (complete : ∀ c ∈ p.inputChannels, net.Complete c)
    (awake : ∀ seen, call ≠ .sleep seen) : p.advanceRead net call ≠ .blocked := by
  intro hb
  obtain ⟨seen, rfl, -⟩ | ⟨i, inlet, rfl, hi, hquiet⟩ := advanceRead_blocked hb
  · exact awake seen rfl
  · exact (complete _ (mem_inputs hi)).not_quiet hquiet

namespace Solo

variable {home : Border} {streams : List (List Row)} {layout : Schema} {l : Ledger} {j j' : Journal}

/-- A read that is not over goes on without waiting. -/
theorem read_step (h : Solo home streams layout p net l j) (hrest : p.AtRest j.out l.put)
    {call : Reading} (hlook : p.Looking call) :
    ∃ p' net' l' j', ∃ onward : Onward Reading (Except StepError (Option Row)),
      p.advanceRead net call = onward.progress p' net' ∧ Solo home streams layout p' net' l' j' ∧
      p'.AtRest j'.out l'.put ∧ j'.out = j.out ∧
      match onward with
      | .goes call' => j'.got = j.got ∧ p'.Looking call' ∧
          p'.readingLeft call' < p.readingLeft call
      | .replies r => p'.Received j j' r := by
  have hunblocked : p.advanceRead net call ≠ .blocked :=
    not_blocked_of_complete h.complete fun seen hc => by
      subst hc
      exact hlook
  obtain ⟨t, p', net', onward, heq, hs, ht⟩ := (p.advanceRead_obeys net call).onward hunblocked
  cases hs with
  | none_live live =>
    cases ht
    exact ⟨p, net, l, j, _, heq, h, hrest, rfl, rfl, live⟩
  | one_live live =>
    cases ht
    exact ⟨p, net, l, j, _, heq, h, hrest, rfl, rfl, live, by simp [readingLeft]⟩
  | many_live =>
    cases ht
    exact ⟨p, net, l, j, _, heq, h, hrest, rfl, rfl, by simp [Looking], by simp [readingLeft]⟩
  | no_input | past_end | turn_to | wake => exact hlook.elim
  | @skip seen done inlet more at_i finished =>
    cases ht
    have hround := Nat.forall_lt_succ_right.mpr ⟨hlook, (inputFinished_iff at_i).trans finished⟩
    exact ⟨p, net, l, j, _, heq, h, hrest, rfl, rfl, hround, by simp [readingLeft]; omega⟩
  | scan_refused _ at_i _ aborted => exact absurd aborted (h.complete _ (mem_inputs at_i)).2
  | @scan_found seen done inlet row more at_i live =>
    exact ⟨_, net', _, _, _, heq, h.take at_i ht _, ⟨hrest.turn, hrest.hops⟩, rfl, _, rfl⟩
  | @scan_ended seen done inlet more at_i live drained =>
    cases ht
    exact ⟨_, net, l, _, _, heq, h.finish at_i drained, ⟨hrest.turn, hrest.hops⟩, rfl, rfl,
      round_finishInput more hlook, by simp [readingLeft]; omega⟩
  | scan_empty _ at_i _ quiet => exact absurd quiet (h.complete _ (mem_inputs at_i)).not_quiet
  | round_over _ live =>
    cases ht
    exact ⟨p, net, l, j, _, heq, h, hrest, rfl, rfl, live⟩
  | round_stopped _ _ stopping => exact absurd stopping (by simp [h.going])
  | fall_asleep all live =>
    exact absurd (liveInputs_eq_nil_of_round fun n hn => hlook n (Nat.lt_of_lt_of_le hn all)) live
  | @receive_nowhere i missing =>
    have hmem : i ∈ p.liveInputs := by simp [show p.liveInputs = [i] from hlook]
    simp [(mem_liveInputs.mp hmem).1] at missing
  | receive_refused at_i aborted => exact absurd aborted (h.complete _ (mem_inputs at_i)).2
  | @received i inlet row at_i =>
    exact ⟨_, net', _, _, _, heq, h.take at_i ht p.nextInput, ⟨hrest.turn, hrest.hops⟩, rfl, _, rfl⟩
  | @received_end i inlet at_i drained =>
    cases ht
    exact ⟨_, net, l, _, _, heq, h.finish at_i drained, ⟨hrest.turn, hrest.hops⟩, rfl, rfl,
      liveInputs_finishInput hlook⟩

end Solo

/-- How many more steps a write can take, at most. -/
def writingLeft (p : Border) : Writing → Nat
  | .every _ => 3 * p.outputs.length + 1
  | .only _ _ => 4
  | .send hops _ => 3 * hops.length
  | .deliver _ hops _ => 3 * hops.length + 2
  | .signal _ hops _ => 3 * hops.length + 1

theorem Delivering.next {out : List Emission} {e : Emission} {put : Nat → List Row} {channel : Nat}
    {hops : List Nat} {row : Row} (h : p.Delivering out e put channel hops row) :
    channel ∈ p.outputChannels ∧ (put channel).length ≤ (out.filterMap (·.row?)).length := by
  obtain ⟨g, o, -, ho, -, hc, -, hput, -⟩ := h.current
  refine ⟨mem_outputChannels ho (List.mem_of_getElem? hc), ?_⟩
  rw [hput _ _ hc]
  exact ((deal_sublist _ _ _ _).trans (hopRows_sublist _ _ _ _ _)).length_le

namespace Solo

variable {home : Border} {streams : List (List Row)} {layout : Schema} {l : Ledger} {j j' : Journal}
  {e : Emission}

theorem outputs_length (h : Solo home streams layout p net l j) :
    p.outputs.length = home.outputs.length :=
  place_outputs_length (frame_place h.frame)

theorem safeMode (h : Solo home streams layout p net l j) : p.safeMode = home.safeMode :=
  frame_safeMode h.frame

theorem checkLayout (h : Solo home streams layout p net l j) {row : Row}
    (huniform : home.safeMode = true → row.schema.bare = layout) :
    ∃ q, p.checkLayout row = .ok q ∧
      (q.safeMode = true → ∀ first ∈ q.layout, first.bare = layout) := by
  unfold Border.checkLayout
  cases hs : p.safeMode with
  | false => exact ⟨p, by simp, by simp [hs]⟩
  | true =>
    have hrow := huniform (h.safeMode ▸ hs)
    cases hl : p.layout with
    | none => exact ⟨{ p with layout := some row.schema }, by simp [hs], by simp [hrow]⟩
    | some first =>
      have hfirst := h.layout hs first hl
      have hsame : first.sameLayout row.schema = true :=
        Schema.sameLayout_iff.mpr (hfirst.trans hrow.symm)
      exact ⟨p, by simp [hsame], by simp [hl, hfirst]⟩

theorem rearranged (h : Solo home streams layout p net l j) (ht : net.Touched t net')
    (mild : t.Mild) (own : ∀ c row, t = .put c row → c ∉ p.inputChannels)
    (htaken : (l.after t).taken = l.taken) (hframe : p'.frame = p.frame)
    (hin : p'.inputs = p.inputs) (hc : p'.counters = p.counters) (hlog : p'.listeners = p.listeners)
    (hlayout : p'.safeMode = true → ∀ first ∈ p'.layout, first.bare = layout) :
    Solo home streams layout p' net' (l.after t) j :=
  h.touched ht mild own hframe (h.journal.congr hin hc hlog fun c _ => by rw [htaken])
    (by rw [hin]; exact h.ended) hlayout

/-- No write waits: a channel never holds more than was sent out before, and it has room for all that
may come. -/
theorem write_unblocked (h : Solo home streams layout p net l j) {call : Writing}
    (hw : p.Writes j.out e l.put call)
    (hroom : (j.out.filterMap (·.row?)).length < streams.flatten.length) :
    p.advanceWrite net call ≠ .blocked := by
  intro hb
  obtain ⟨channel, hops, row, rfl, hfull⟩ := advanceWrite_blocked hb
  obtain ⟨hmem, hle⟩ := hw.2.next
  obtain ⟨ch, hc, -, -, hcap⟩ := h.roomy channel hmem
  obtain hnone | ⟨ch', hc', -, -, hfull⟩ := hfull
  · simp [hc] at hnone
  · rw [hc, Option.some.injEq] at hc'
    subst hc'
    have hqueue := congrArg List.length (h.fits channel ch hc).queue
    rw [List.length_append] at hqueue
    omega

theorem write_step (h : Solo home streams layout p net l j) {call : Writing}
    (hw : p.Writes j.out e l.put call) (hsend : e.Sendable home layout)
    (hroom : (j.out.filterMap (·.row?)).length < streams.flatten.length) :
    ∃ p' net' l', ∃ onward : Onward Writing (Except StepError Unit),
      p.advanceWrite net call = onward.progress p' net' ∧
      match onward with
      | .goes call' => Solo home streams layout p' net' l' j ∧ p'.Writes j.out e l'.put call' ∧
          p'.writingLeft call' < p.writingLeft call
      | .replies r => r = .ok () ∧ Solo home streams layout p' net' l' (j.emit e) ∧
          p'.AtRest (j.emit e).out l'.put := by
  obtain ⟨t, p', net', onward, heq, hs, ht⟩ :=
    (p.advanceWrite_obeys net call).onward (h.write_unblocked hw hroom)
  have hstep := hw.step h.outputs_nodup hs
  have hframe := hs.frame
  have hfits {row : Row} (he : e.row? = some row) {q : Border} (hq : p.checkLayout row = .ok q) :
      q.safeMode = true → ∀ first ∈ q.layout, first.bare = layout := by
    obtain ⟨q', hok, hlayout⟩ := h.checkLayout fun hsafe => hsend.uniform hsafe row he
    obtain rfl := Except.ok.inj (hok.symm.trans hq)
    exact hlayout
  have hmisfit {row : Row} (he : e.row? = some row) {err : StepError} :
      p.checkLayout row ≠ .error err := by
    obtain ⟨q', hok, -⟩ := h.checkLayout fun hsafe => hsend.uniform hsafe row he
    simp [hok]
  cases hs with
  | every_misfit misfit => exact absurd misfit (hmisfit (by rw [hw.1]; rfl))
  | only_misfit misfit => exact absurd misfit (hmisfit (by rw [hw.1]; rfl))
  | @share row first fits shared =>
    refine ⟨_, _, _, _, heq, ?_, hstep, ?_⟩
    · exact h.rearranged ht ⟨by simp, by simp⟩ (by simp) rfl hframe rfl rfl rfl
        (hfits (q := { p with layout := first }) (by rw [hw.1]; rfl) fits)
    · simp only [Bool.and_eq_true, decide_eq_true_eq] at shared
      simp [writingLeft]
      omega
  | @spread row first fits =>
    refine ⟨_, _, _, _, heq, ?_, hstep, by simp [writingLeft]⟩
    exact h.rearranged ht ⟨by simp, by simp⟩ (by simp) rfl hframe rfl rfl rfl
      (hfits (by rw [hw.1]; rfl) fits)
  | @only_to hop row first fits =>
    refine ⟨_, _, _, _, heq, ?_, hstep, by simp [writingLeft]⟩
    exact h.rearranged ht ⟨by simp, by simp⟩ (by simp) rfl hframe rfl rfl rfl
      (hfits (by rw [hw.1]; rfl) fits)
  | @no_output hop row first fits unknown =>
    have := hsend.aimed hop row hw.1
    rw [← h.outputs_length] at this
    omega
  | @sent row =>
    refine ⟨_, _, l, _, heq, rfl, ?_, hstep⟩
    obtain ⟨hop, rfl⟩ : ∃ hop, e = .row hop row := by
      cases e with
      | row hop r => exact ⟨hop, by rw [Option.some.inj hw.1]⟩
      | fault => cases hw.1
    exact h.touched ht ⟨by simp, by simp⟩ (by simp) hframe (h.journal.emit_row hop row) h.ended
      h.layout
  | pass =>
    cases ht
    exact ⟨_, _, l, _, heq, h, hstep, by simp [writingLeft]⟩
  | choose turn =>
    obtain ⟨o, -, -, rfl⟩ := takeTurn_some turn
    refine ⟨_, _, _, _, heq, ?_, hstep, by simp only [writingLeft, List.length_cons]; omega⟩
    exact h.rearranged ht ⟨by simp, by simp⟩ (by simp) rfl hframe rfl rfl rfl h.layout
  | put_refused aborted => exact absurd aborted (h.roomy _ hw.2.next.1).not_aborted
  | put_late closed => exact absurd closed (h.roomy _ hw.2.next.1).not_closed
  | @put channel hops row =>
    refine ⟨_, _, _, _, heq, ?_, hstep, by simp [writingLeft]⟩
    refine h.rearranged ht ⟨by simp, by simp⟩ (fun c row' hput => ?_) rfl hframe rfl rfl rfl
      h.layout
    obtain ⟨rfl, -⟩ := Touch.put.inj hput
    exact h.not_in_both hw.2.next.1
  | tell =>
    have hsame := h.rearranged ht ⟨by simp, by simp⟩ (by simp) rfl rfl rfl rfl rfl h.layout
    exact ⟨_, _, _, _, heq, hsame, hstep, by simp [writingLeft]⟩
  | tell_nobody =>
    have hsame := h.rearranged ht ⟨by simp, by simp⟩ (by simp) rfl rfl rfl rfl rfl h.layout
    exact ⟨_, _, _, _, heq, hsame, hstep, by simp [writingLeft]⟩

theorem emit_fault (h : Solo home streams layout p net l j) (message : String) :
    Solo home streams layout (p.recordError message) net l (j.emit (.fault message)) :=
  h.touched .nothing ⟨by simp, by simp⟩ (by simp) rfl (h.journal.emit_fault message) h.ended
    h.layout

/-- A stream is what was read of it, and what is still queued. -/
theorem stream_eq (h : Solo home streams layout p net l j) {k : Nat} {stream : List Row}
    (hk : streams[k]? = some stream) : ∃ inlet ch, p.inputs[k]? = some inlet ∧
      net.channel? inlet.channel = some ch ∧ stream = j.from k ++ ch.queue := by
  rw [← h.supplied, List.getElem?_map, Option.map_eq_some_iff] at hk
  obtain ⟨c, hc, rfl⟩ := hk
  rw [inputChannels, List.getElem?_map, Option.map_eq_some_iff] at hc
  obtain ⟨inlet, hinlet, rfl⟩ := hc
  obtain ⟨ch, hch, -⟩ := (h.complete _ (mem_inputs hinlet)).1
  exact ⟨inlet, ch, hinlet, hch, by rw [(h.fits _ ch hch).queue, h.journal.taken k inlet hinlet]⟩

theorem from_prefix (h : Solo home streams layout p net l j) {k : Nat} {stream : List Row}
    (hk : streams[k]? = some stream) : j.from k <+: stream := by
  obtain ⟨-, ch, -, -, rfl⟩ := h.stream_eq hk
  exact List.prefix_append _ _

theorem from_ended (h : Solo home streams layout p net l j) (hlive : p.liveInputs = []) {k : Nat}
    {stream : List Row} (hk : streams[k]? = some stream) : j.from k = stream := by
  obtain ⟨inlet, ch, hinlet, hch, rfl⟩ := h.stream_eq hk
  have hfinished : inlet.finished = true := by
    rw [← inputFinished_iff hinlet]
    by_contra hf
    have hmem := mem_liveInputs.mpr ⟨(List.getElem?_eq_some_iff.mp hinlet).1, by simpa using hf⟩
    simp [hlive] at hmem
  obtain ⟨ch', hch', -, hqueue⟩ := h.ended k inlet hinlet hfinished
  rw [hch, Option.some.injEq] at hch'
  rw [hch', hqueue, List.append_nil]

theorem got_length (h : Solo home streams layout p net l j) :
    j.got.length ≤ streams.flatten.length := by
  have hlength : streams.length = p.inputs.length := by simp [← h.supplied, inputChannels]
  have hstreams : streams = (List.range p.inputs.length).map fun k => (streams[k]?).getD [] := by
    refine List.ext_getElem (by simp [hlength]) fun k hk _ => ?_
    simp [List.getElem?_eq_getElem hk]
  rw [← j.length_from h.journal.tags, hstreams, List.length_flatten, List.length_flatten,
    List.map_map, List.map_map]
  refine List.sum_le_sum fun k hk => ?_
  have hlt : k < streams.length := hlength ▸ List.mem_range.mp hk
  have hk := List.getElem?_eq_getElem hlt
  simpa [hk] using (h.from_prefix hk).length_le

theorem mem_streams (h : Solo home streams layout p net l j) {q : Nat × Row} (hq : q ∈ j.got) :
    q.2 ∈ streams.flatten := by
  have hlt : q.1 < streams.length := by
    simpa [← h.supplied, inputChannels] using h.journal.tags q hq
  have hk := List.getElem?_eq_getElem hlt
  have hmem : q.2 ∈ j.from q.1 :=
    List.mem_map.mpr ⟨q, List.mem_filter.mpr ⟨hq, by simp⟩, rfl⟩
  exact List.mem_flatten.mpr ⟨_, List.mem_of_getElem? hk, (h.from_prefix hk).subset hmem⟩

theorem policy (h : Solo home streams layout p net l j) : p.policy = home.policy :=
  congrArg (fun f => f.1.policy) h.frame

theorem batchRows (h : Solo home streams layout p net l j) : p.batchRows = home.batchRows :=
  congrArg (fun f => f.2.2) h.frame

end Solo

end Border

end Sluice
