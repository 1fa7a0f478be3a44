import Sluice.Border.Reading
import Sluice.Border.Writing
import Sluice.Proofs.Net.Touch

/-!
All that one step of a read or of a write can do. Later arguments go through these cases and do not
look into the steps again.
-/

namespace Sluice

/-- How a call goes on: as another call, or with a reply. -/
inductive Onward (κ ρ : Type) where
  | goes (call : κ)
  | replies (reply : ρ)

namespace Border

def inputChannels (p : Border) : List Nat :=
  p.inputs.map (·.channel)

/-- The input that comes up so many places after the first one of a round. -/
def slot (p : Border) (done : Nat) : Nat :=
  (p.nextInput + done) % p.inputs.length

inductive ReadStep (p : Border) (net : Net) :
    Touch → Reading → Border → Onward Reading (Except StepError (Option Row)) → Prop
  | none_live (live : p.liveInputs = []) :
      ReadStep p net .nothing .any p (.replies (.ok none))
  | one_live {i : Nat} (live : p.liveInputs = [i]) :
      ReadStep p net .nothing .any p (.goes (.receive i))
  | many_live (live : 2 ≤ p.liveInputs.length) :
      ReadStep p net .nothing .any p (.goes (.scan (net.generation p.wakeup) 0))
  | no_input {i : Nat} (missing : p.inputs[i]? = none) :
      ReadStep p net .nothing (.only i) p (.replies (.error (.fatal (.noInput i))))
  | past_end {i : Nat} {inlet : Inlet} (at_i : p.inputs[i]? = some inlet)
      (finished : inlet.finished = true) :
      ReadStep p net .nothing (.only i) p (.replies (.ok none))
  | turn_to {i : Nat} {inlet : Inlet} (at_i : p.inputs[i]? = some inlet)
      (live : inlet.finished = false) :
      ReadStep p net .nothing (.only i) p (.goes (.receive i))
  | skip {seen : UInt64} {done : Nat} {inlet : Inlet} (more : done < p.inputs.length)
      (at_i : p.inputs[p.slot done]? = some inlet) (finished : inlet.finished = true) :
      ReadStep p net .nothing (.scan seen done) p (.goes (.scan seen (done + 1)))
  | scan_refused {seen : UInt64} {done : Nat} {inlet : Inlet} (more : done < p.inputs.length)
      (at_i : p.inputs[p.slot done]? = some inlet) (live : inlet.finished = false)
      (aborted : net.Aborted inlet.channel) :
      ReadStep p net .nothing (.scan seen done) p (.replies (.error .aborted))
  | scan_found {seen : UInt64} {done : Nat} {inlet : Inlet} {row : Row}
      (more : done < p.inputs.length) (at_i : p.inputs[p.slot done]? = some inlet)
      (live : inlet.finished = false) :
      ReadStep p net (.take inlet.channel row) (.scan seen done)
        ({ p with nextInput := (p.slot done + 1) % p.inputs.length }.onRead row)
        (.replies (.ok (some row)))
  | scan_ended {seen : UInt64} {done : Nat} {inlet : Inlet} (more : done < p.inputs.length)
      (at_i : p.inputs[p.slot done]? = some inlet) (live : inlet.finished = false)
      (drained : net.Drained inlet.channel) (unaborted : ¬ net.Aborted inlet.channel) :
      ReadStep p net .nothing (.scan seen done) (p.finishInput (p.slot done))
        (.goes (.scan seen (done + 1)))
  | scan_empty {seen : UInt64} {done : Nat} {inlet : Inlet} (more : done < p.inputs.length)
      (at_i : p.inputs[p.slot done]? = some inlet) (live : inlet.finished = false)
      (quiet : net.channel? inlet.channel = none ∨ net.Quiet inlet.channel) :
      ReadStep p net .nothing (.scan seen done) p (.goes (.scan seen (done + 1)))
  | round_over {seen : UInt64} {done : Nat} (all : p.inputs.length ≤ done)
      (live : p.liveInputs = []) :
      ReadStep p net .nothing (.scan seen done) p (.replies (.ok none))
  | round_stopped {seen : UInt64} {done : Nat} (all : p.inputs.length ≤ done)
      (live : p.liveInputs ≠ []) (stopping : net.stopping = true) :
      ReadStep p net .nothing (.scan seen done) p (.replies (.error .aborted))
  | fall_asleep {seen : UInt64} {done : Nat} (all : p.inputs.length ≤ done)
      (live : p.liveInputs ≠ []) (stopping : net.stopping = false) :
      ReadStep p net .nothing (.scan seen done) p (.goes (.sleep seen))
  | wake {seen : UInt64} (moved : net.generation p.wakeup ≠ seen) :
      ReadStep p net .nothing (.sleep seen) p (.goes .any)
  | receive_nowhere {i : Nat} (missing : p.inputs[i]? = none) :
      ReadStep p net .nothing (.receive i) p (.replies (.error (.fatal (.noInput i))))
  | receive_refused {i : Nat} {inlet : Inlet} (at_i : p.inputs[i]? = some inlet)
      (aborted : net.Aborted inlet.channel) :
      ReadStep p net .nothing (.receive i) p (.replies (.error .aborted))
  | received {i : Nat} {inlet : Inlet} {row : Row} (at_i : p.inputs[i]? = some inlet) :
      ReadStep p net (.take inlet.channel row) (.receive i) (p.onRead row)
        (.replies (.ok (some row)))
  | received_end {i : Nat} {inlet : Inlet} (at_i : p.inputs[i]? = some inlet)
      (drained : net.Drained inlet.channel) (unaborted : ¬ net.Aborted inlet.channel) :
      ReadStep p net .nothing (.receive i) (p.finishInput i) (.replies (.ok none))

inductive WriteStep (p : Border) (net : Net) :
    Touch → Writing → Border → Onward Writing (Except StepError Unit) → Prop
  | every_misfit {row : Row} {fault : FatalFault}
      (misfit : p.checkLayout row = .error (.fatal fault)) :
      WriteStep p net .nothing (.every row) p (.replies (.error (.fatal fault)))
  | share {row : Row} {l : Option Schema} (fits : p.checkLayout row = .ok { p with layout := l })
      (shared : (p.distribute && decide (1 < p.outputs.length)) = true) :
      WriteStep p net .nothing (.every row)
        { p with
          layout := l
          nextOutput := (p.nextOutput % p.outputs.length + 1) % p.outputs.length }
        (.goes (.send [p.nextOutput % p.outputs.length] row))
  | spread {row : Row} {l : Option Schema} (fits : p.checkLayout row = .ok { p with layout := l })
      (unshared : (p.distribute && decide (1 < p.outputs.length)) = false) :
      WriteStep p net .nothing (.every row) { p with layout := l }
        (.goes (.send (List.range p.outputs.length) row))
  | only_misfit {hop : Nat} {row : Row} {fault : FatalFault}
      (misfit : p.checkLayout row = .error (.fatal fault)) :
      WriteStep p net .nothing (.only hop row) p (.replies (.error (.fatal fault)))
  | only_to {hop : Nat} {row : Row} {l : Option Schema}
      (fits : p.checkLayout row = .ok { p with layout := l }) (known : hop < p.outputs.length) :
      WriteStep p net .nothing (.only hop row) { p with layout := l } (.goes (.send [hop] row))
  | no_output {hop : Nat} {row : Row} {l : Option Schema}
      (fits : p.checkLayout row = .ok { p with layout := l }) (unknown : p.outputs.length ≤ hop) :
      WriteStep p net .nothing (.only hop row) { p with layout := l }
        (.replies (.error (.fatal (.noOutput hop))))
  | sent {row : Row} :
      WriteStep p net .nothing (.send [] row) (p.onWritten row) (.replies (.ok ()))
  | pass {hop : Nat} {hops : List Nat} {row : Row} (turn : p.takeTurn hop = none) :
      WriteStep p net .nothing (.send (hop :: hops) row) p (.goes (.send hops row))
  | choose {hop channel : Nat} {hops : List Nat} {row : Row} {q : Border}
      (turn : p.takeTurn hop = some (channel, q)) :
      WriteStep p net .nothing (.send (hop :: hops) row) q (.goes (.deliver channel hops row))
  | put_refused {channel : Nat} {hops : List Nat} {row : Row} (aborted : net.Aborted channel) :
      WriteStep p net .nothing (.deliver channel hops row) p (.replies (.error .aborted))
  | put_late {channel : Nat} {hops : List Nat} {row : Row} (closed : net.Closed channel) :
      WriteStep p net .nothing (.deliver channel hops row) p
        (.replies (.error (.fatal .channelClosed)))
  | put {channel : Nat} {hops : List Nat} {row : Row} :
      WriteStep p net (.put channel row) (.deliver channel hops row) p
        (.goes (.signal channel hops row))
  | tell {channel w : Nat} {hops : List Nat} {row : Row} (reader : net.reader? channel = some w) :
      WriteStep p net (.notify w) (.signal channel hops row) p (.goes (.send hops row))
  | tell_nobody {channel : Nat} {hops : List Nat} {row : Row}
      (reader : net.reader? channel = none) :
      WriteStep p net .nothing (.signal channel hops row) p (.goes (.send hops row))

end Border

/-- A step that was not blocked is one of these. -/
def Progress.Obeys {κ ρ : Type} (step : Touch → Border → Onward κ ρ → Prop) (net : Net) :
    Progress κ ρ → Prop
  | .blocked => True
  | .continues call p' net' => ∃ t, step t p' (.goes call) ∧ net.Touched t net'
  | .replies r p' net' => ∃ t, step t p' (.replies r) ∧ net.Touched t net'

namespace Border

theorem readAny_obeys (p : Border) (net : Net) :
    (p.readAny net).Obeys (ReadStep p net · .any) net := by
  unfold readAny
  rcases hlive : p.liveInputs with _ | ⟨i, _ | ⟨j, rest⟩⟩
  · exact ⟨_, .none_live hlive, .nothing⟩
  · exact ⟨_, .one_live hlive, .nothing⟩
  · exact ⟨_, .many_live (by simp [hlive]), .nothing⟩

theorem readOnly_obeys (p : Border) (net : Net) (i : Nat) :
    (p.readOnly net i).Obeys (ReadStep p net · (.only i)) net := by
  unfold readOnly
  cases hi : p.inputs[i]? with
  | none => exact ⟨_, .no_input hi, .nothing⟩
  | some inlet =>
    cases hf : inlet.finished with
    | true => simpa [hf] using ⟨_, .past_end hi hf, .nothing⟩
    | false => simpa [hf] using ⟨_, .turn_to hi hf, .nothing⟩

theorem scanInput_obeys (p : Border) (net : Net) (seen : UInt64) {done : Nat}
    (more : done < p.inputs.length) :
    (p.scanInput net seen done).Obeys (ReadStep p net · (.scan seen done)) net := by
  have hslot : p.slot done < p.inputs.length := Nat.mod_lt _ (by omega)
  have hi : p.inputs[p.slot done]? = some p.inputs[p.slot done] := List.getElem?_eq_getElem hslot
  generalize p.inputs[p.slot done] = inlet at hi
  unfold scanInput
  simp only [show (p.nextInput + done) % p.inputs.length = p.slot done from rfl, hi]
  cases hf : inlet.finished with
  | true => simpa using ⟨_, .skip more hi hf, .nothing⟩
  | false =>
    simp only [Bool.false_eq_true, if_false]
    rcases hg : net.tryGet inlet.channel with ⟨r, net'⟩
    obtain ⟨row, rfl, ht⟩ | ⟨rfl, ⟨rfl, ha⟩ | ⟨rfl, hd, ha⟩ | ⟨rfl, hq⟩⟩ := Net.tryGet_touched hg
    · exact ⟨_, .scan_found more hi hf, ht⟩
    · exact ⟨_, .scan_refused more hi hf ha, .nothing⟩
    · exact ⟨_, .scan_ended more hi hf hd ha, .nothing⟩
    · exact ⟨_, .scan_empty more hi hf hq, .nothing⟩

theorem endRound_obeys (p : Border) (net : Net) (seen : UInt64) {done : Nat}
    (all : p.inputs.length ≤ done) :
    (p.endRound net seen).Obeys (ReadStep p net · (.scan seen done)) net := by
  unfold endRound
  by_cases hlive : p.liveInputs = []
  · simpa [hlive] using ⟨_, .round_over all hlive, .nothing⟩
  · cases hs : net.stopping with
    | true => simpa [hlive] using ⟨_, .round_stopped all hlive hs, .nothing⟩
    | false => simpa [hlive] using ⟨_, .fall_asleep all hlive hs, .nothing⟩

theorem receive_obeys (p : Border) (net : Net) (i : Nat) :
    (p.receive net i).Obeys (ReadStep p net · (.receive i)) net := by
  unfold receive
  cases hi : p.inputs[i]? with
  | none => exact ⟨_, .receive_nowhere hi, .nothing⟩
  | some inlet =>
    rcases hg : net.get inlet.channel with _ | ⟨r, net'⟩
    · simp only [hg]
      trivial
    · simp only [hg]
      obtain ⟨row, rfl, ht⟩ | ⟨rfl, ⟨rfl, ha⟩ | ⟨rfl, hd, ha⟩⟩ := Net.get_touched hg
      · exact ⟨_, .received hi, ht⟩
      · exact ⟨_, .receive_refused hi ha, .nothing⟩
      · exact ⟨_, .received_end hi hd ha, .nothing⟩

theorem advanceRead_obeys (p : Border) (net : Net) (call : Reading) :
    (p.advanceRead net call).Obeys (ReadStep p net · call) net := by
  cases call with
  | any => exact readAny_obeys p net
  | only i => exact readOnly_obeys p net i
  | scan seen done =>
    unfold advanceRead
    by_cases more : done < p.inputs.length
    · simpa [more] using scanInput_obeys p net seen more
    · simpa [more] using endRound_obeys p net seen (by omega : p.inputs.length ≤ done)
  | sleep seen =>
    unfold advanceRead
    by_cases hg : net.generation p.wakeup = seen
    · simp only [hg, if_true]
      trivial
    · simpa [hg] using ⟨_, .wake hg, .nothing⟩
  | receive i => exact receive_obeys p net i

theorem advanceRead_blocked {p : Border} {net : Net} {call : Reading}
    (h : p.advanceRead net call = .blocked) :
    (∃ seen, call = .sleep seen ∧ net.generation p.wakeup = seen) ∨
      ∃ i inlet, call = .receive i ∧ p.inputs[i]? = some inlet ∧
        (net.channel? inlet.channel = none ∨ net.Quiet inlet.channel) := by
  cases call with
  | any =>
    simp only [advanceRead, readAny] at h
    split at h <;> cases h
  | only i =>
    simp only [advanceRead, readOnly] at h
    split at h
    · cases h
    · split at h <;> cases h
  | scan seen done =>
    simp only [advanceRead, scanInput, endRound] at h
    repeat' split at h
    all_goals cases h
  | sleep seen =>
    simp only [advanceRead] at h
    split at h
    · exact .inl ⟨seen, rfl, ‹_›⟩
    · cases h
  | receive i =>
    simp only [advanceRead, receive] at h
    cases hi : p.inputs[i]? with
    | none => simp [hi] at h
    | some inlet =>
      rcases hg : net.get inlet.channel with _ | ⟨r, net'⟩
      · exact .inr ⟨i, inlet, rfl, hi, Net.get_blocked hg⟩
      · rcases r with e | _ | row <;> simp [hi, hg] at h

theorem checkLayout_cases (p : Border) (row : Row) :
    (∃ fault, p.checkLayout row = .error (.fatal fault)) ∨
      ∃ l, p.checkLayout row = .ok { p with layout := l } := by
  unfold checkLayout
  split
  · exact .inr ⟨p.layout, rfl⟩
  · split
    · exact .inr ⟨_, rfl⟩
    · split
      · exact .inr ⟨p.layout, rfl⟩
      · exact .inl ⟨_, rfl⟩

theorem takeTurn_some {p q : Border} {hop channel : Nat} (h : p.takeTurn hop = some (channel, q)) :
    ∃ o, p.outputs[hop]? = some o ∧ o.channels[o.next % o.channels.length]? = some channel ∧
      q = { p with
        outputs := p.outputs.set hop
          { o with next := (o.next % o.channels.length + 1) % o.channels.length } } := by
  unfold takeTurn at h
  cases ho : p.outputs[hop]? with
  | none => simp [ho] at h
  | some o =>
    cases hc : o.channels[o.next % o.channels.length]? with
    | none => simp [ho, hc] at h
    | some c =>
      simp only [ho, hc, Option.bind_eq_bind, Option.bind_some, Option.pure_def,
        Option.some.injEq, Prod.mk.injEq] at h
      obtain ⟨rfl, rfl⟩ := h
      exact ⟨o, rfl, hc, rfl⟩

theorem takeTurn_none {p : Border} {hop : Nat} (h : p.takeTurn hop = none) :
    p.outputs[hop]? = none ∨ ∃ o, p.outputs[hop]? = some o ∧ o.channels = [] := by
  unfold takeTurn at h
  cases ho : p.outputs[hop]? with
  | none => exact .inl rfl
  | some o =>
    refine .inr ⟨o, rfl, ?_⟩
    by_contra hne
    have hlt : o.next % o.channels.length < o.channels.length :=
      Nat.mod_lt _ (List.length_pos_iff.mpr hne)
    simp [ho, List.getElem?_eq_getElem hlt] at h

theorem advanceWrite_obeys (p : Border) (net : Net) (call : Writing) :
    (p.advanceWrite net call).Obeys (WriteStep p net · call) net := by
  cases call with
  | every row =>
    obtain ⟨fault, hl⟩ | ⟨l, hl⟩ := p.checkLayout_cases row
    · simpa [advanceWrite, writeEvery, hl] using ⟨_, .every_misfit hl, .nothing⟩
    · cases hd : p.distribute && decide (1 < p.outputs.length) with
      | true =>
        simp only [advanceWrite, writeEvery, hl, hd, if_true]
        exact ⟨_, .share hl hd, .nothing⟩
      | false =>
        simp only [advanceWrite, writeEvery, hl, hd, Bool.false_eq_true, if_false]
        exact ⟨_, .spread hl hd, .nothing⟩
  | only hop row =>
    obtain ⟨fault, hl⟩ | ⟨l, hl⟩ := p.checkLayout_cases row
    · simpa [advanceWrite, writeOnly, hl] using ⟨_, .only_misfit hl, .nothing⟩
    · by_cases hk : hop < p.outputs.length
      · simpa [advanceWrite, writeOnly, hl, hk] using ⟨_, .only_to hl hk, .nothing⟩
      · simpa [advanceWrite, writeOnly, hl, hk] using ⟨_, .no_output hl (by omega), .nothing⟩
  | send hops row =>
    rcases hops with _ | ⟨hop, hops⟩
    · exact ⟨_, .sent, .nothing⟩
    · rcases ht : p.takeTurn hop with _ | ⟨channel, q⟩
      · simpa [advanceWrite, ht] using ⟨_, .pass ht, .nothing⟩
      · simpa [advanceWrite, ht] using ⟨_, .choose ht, .nothing⟩
  | deliver channel hops row =>
    rcases hp : net.put channel row with _ | ⟨r, net'⟩
    · simp only [advanceWrite, hp]
      trivial
    · obtain ⟨rfl, ht⟩ | ⟨rfl, ⟨rfl, ha⟩ | ⟨rfl, hcl⟩⟩ := Net.put_touched hp
      · simpa [advanceWrite, hp] using ⟨_, .put, ht⟩
      · simpa [advanceWrite, hp] using ⟨_, .put_refused ha, .nothing⟩
      · simpa [advanceWrite, hp] using ⟨_, .put_late hcl, .nothing⟩
  | signal channel hops row =>
    obtain ⟨w, hw, ht⟩ | ⟨hw, ht⟩ := net.signal_touched channel
    · exact ⟨_, .tell hw, ht⟩
    · exact ⟨_, .tell_nobody hw, ht⟩

theorem advanceWrite_blocked {p : Border} {net : Net} {call : Writing}
    (h : p.advanceWrite net call = .blocked) :
    ∃ channel hops row, call = .deliver channel hops row ∧
      (net.channel? channel = none ∨ net.Full channel) := by
  cases call with
  | every row =>
    simp only [advanceWrite, writeEvery] at h
    repeat' split at h
    all_goals cases h
  | only hop row =>
    simp only [advanceWrite, writeOnly] at h
    repeat' split at h
    all_goals cases h
  | send hops row =>
    rcases hops with _ | ⟨hop, hops⟩
    · cases h
    · rcases ht : p.takeTurn hop with _ | ⟨channel, q⟩ <;> simp [advanceWrite, ht] at h
  | deliver channel hops row =>
    rcases hp : net.put channel row with _ | ⟨r, net'⟩
    · exact ⟨channel, hops, row, rfl, Net.put_blocked hp⟩
    · rcases r with e | _ <;> simp [advanceWrite, hp] at h
  | signal channel hops row => cases h

end Border

end Sluice
