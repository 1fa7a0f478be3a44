import Sluice.Proofs.Border.Solo
import Sluice.Proofs.Run.Steps
import Sluice.Proofs.Step.Answers

/-!
A unit left to itself: its streams are complete, there is room for what it writes, and nobody else
moves. The steps of its thread then take it through all of its rows, batch after batch, and it
comes to an end as its step answers them one by one.
-/

namespace Sluice

/-- A channel whose writer is done, with all of its items still queued. -/
def Channel.filled {α : Type} (items : List α) : Channel α :=
  { (Channel.new items.length : Channel α) with
    queue := items
    closed := true
    rowsPut := items.length }

/-- A complete stream of rows, and some hops with room for as many rows on each. -/
def Net.laid (rows : List Row) (hops : Nat) : Net where
  links := ⟨.filled rows, some 0⟩ :: List.replicate hops ⟨.new rows.length, none⟩
  wakeups := [{}]

theorem Net.laid_succ (rows : List Row) (hops c : Nat) :
    (Net.laid rows hops).channel? (c + 1) = if c < hops then some (.new rows.length) else none := by
  simp only [channel?, laid, List.getElem?_cons_succ, List.getElem?_replicate]
  split <;> rfl

namespace RunUnit

variable {σ α : Type}

/-- Steps of a unit's thread while nobody else moves. -/
def Alone (armed : List String) : RunUnit σ × Net → RunUnit σ × Net → Prop :=
  Relation.ReflTransGen fun a b => ∃ event, a.1.move a.2 armed = some ⟨b.1, b.2, event⟩

variable (armed : List String) {u : RunUnit σ} {net : Net} {home : Border}
  {streams : List (List Row)} {layout : Schema} {l : Ledger} {j : Journal}

variable {armed} in
theorem Alone.of_move {v : RunUnit σ} {net' : Net} (event : Option Event)
    (h : u.move net armed = some ⟨v, net', event⟩) : Alone armed (u, net) (v, net') :=
  .single ⟨event, h⟩

theorem Alone.read {call : Reading} {next : Except StepError (Option Row) → BatchTask σ}
    (h : home.Solo streams layout u.border net l j) (hrest : u.border.AtRest j.out l.put)
    (stage : u.stage = .reading call next) (hlook : u.border.Looking call) :
    ∃ p' net' l' j' r,
      Alone armed (u, net) ({ u with border := p', stage := .working (next r) }, net') ∧
      home.Solo streams layout p' net' l' j' ∧ p'.AtRest j'.out l'.put ∧ j'.out = j.out ∧
      p'.Received j j' r := by
  -- on the number of steps left: as nothing that it looks at is open and empty, no round starts over
  obtain ⟨n, hn⟩ : ∃ n, n = u.border.readingLeft call := ⟨_, rfl⟩
  induction n using Nat.strong_induction_on generalizing u net l j call with
  | _ n ih =>
    obtain ⟨p', net', l', j', onward, heq, hsolo, hrest', hout, honward⟩ := h.read_step hrest hlook
    cases onward with
    | replies r =>
      refine ⟨p', net', l', j', r, .of_move none ?_, hsolo, hrest', hout, honward⟩
      simp [move, stage, heq, Onward.progress]
    | goes call' =>
      obtain ⟨hgot, hlook', hless⟩ := honward
      have hmove : Alone armed (u, net)
          ({ u with border := p', stage := .reading call' next }, net') := by
        refine .of_move none ?_
        simp [move, stage, heq, Onward.progress]
      obtain ⟨p'', net'', l'', j'', r, hmoves, hsolo', hrest'', hout', hreceived⟩ :=
        ih _ (hn ▸ hless) (u := { u with border := p', stage := .reading call' next }) hsolo hrest'
          rfl hlook' rfl
      refine ⟨p'', net'', l'', j'', r, hmove.trans hmoves, hsolo', hrest'', hout'.trans hout, ?_⟩
      cases r with
      | error e => exact hreceived
      | ok found => cases found <;> simpa only [Border.Received, hgot] using hreceived

theorem Alone.write {call : Writing} {next : Except StepError Unit → BatchTask σ} {e : Emission}
    (h : home.Solo streams layout u.border net l j) (hw : u.border.Writes j.out e l.put call)
    (stage : u.stage = .writing call next) (hsend : e.Sendable home layout)
    (hroom : (j.out.filterMap (·.row?)).length < streams.flatten.length) :
    ∃ p' net' l',
      Alone armed (u, net) ({ u with border := p', stage := .working (next (.ok ())) }, net') ∧
      home.Solo streams layout p' net' l' (j.emit e) ∧ p'.AtRest (j.emit e).out l'.put := by
  obtain ⟨n, hn⟩ : ∃ n, n = u.border.writingLeft call := ⟨_, rfl⟩
  induction n using Nat.strong_induction_on generalizing u net l call with
  | _ n ih =>
    obtain ⟨p', net', l', onward, heq, honward⟩ := h.write_step hw hsend hroom
    cases onward with
    | replies r =>
      obtain ⟨rfl, hsolo, hrest⟩ := honward
      refine ⟨p', net', l', .of_move none ?_, hsolo, hrest⟩
      simp [move, stage, heq, Onward.progress]
    | goes call' =>
      obtain ⟨hsolo, hw', hless⟩ := honward
      have hmove : Alone armed (u, net)
          ({ u with border := p', stage := .writing call' next }, net') := by
        refine .of_move none ?_
        simp [move, stage, heq, Onward.progress]
      obtain ⟨p'', net'', l'', hmoves, hsolo', hrest⟩ :=
        ih _ (hn ▸ hless) (u := { u with border := p', stage := .writing call' next }) hsolo hw'
          rfl rfl
      exact ⟨p'', net'', l'', hmove.trans hmoves, hsolo', hrest⟩

theorem send_emit (j : Journal) (e : Emission) (es : List Emission) :
    (j.emit e).send es = j.send (e :: es) := by
  simp [Journal.emit, Journal.send]

/-- The unit does what a task answers that asks for no rows. -/
theorem Alone.answer {t : Task α} {k : α → BatchTask σ} {a : α} {es : List Emission}
    (ht : t.answer home.policy = some (a, es)) (h : home.Solo streams layout u.border net l j)
    (hrest : u.border.AtRest j.out l.put) (stage : u.stage = .working (t.bind k))
    (hsend : ∀ e ∈ es, e.Sendable home layout)
    (hroom : ((j.out ++ es).filterMap (·.row?)).length ≤ streams.flatten.length) :
    ∃ p' net' l',
      Alone armed (u, net) ({ u with border := p', stage := .working (k a) }, net') ∧
      home.Solo streams layout p' net' l' (j.send es) ∧ p'.AtRest (j.send es).out l'.put := by
  induction t generalizing u net l j es with
  | done b =>
    simp only [Task.answer, Option.some.injEq, Prod.mk.injEq] at ht
    obtain ⟨rfl, rfl⟩ := ht
    obtain ⟨setup, border, life, step, _⟩ := u
    obtain rfl : _ = Stage.working (k b) := stage
    exact ⟨border, net, l, .refl, by simpa using h, by simpa using hrest⟩
  | read input next => cases ht
  | write hop row next ih =>
    obtain ⟨⟨b, es'⟩, hnext, heq⟩ := Option.map_eq_some_iff.mp ht
    obtain ⟨rfl, rfl⟩ := Prod.mk.inj heq
    obtain ⟨hfirst, hlater⟩ := List.forall_mem_cons.mp hsend
    have hbegin : Alone armed (u, net)
        ({ u with stage := .writing (Border.writingOf row hop) fun r => (next r).bind k }, net) :=
      .of_move none (by rw [move, stage]; rfl)
    have hw : u.border.Writes j.out (.row hop row) l.put (Border.writingOf row hop) := by
      cases hop with
      | none => exact ⟨rfl, hrest⟩
      | some hop => exact ⟨rfl, hrest⟩
    have hless : (j.out.filterMap (·.row?)).length < streams.flatten.length := by
      simp only [List.filterMap_append, List.length_append, List.filterMap_cons,
        Emission.row?_row, List.length_cons] at hroom
      omega
    obtain ⟨p', net', l', hwrite, hsolo, hrest'⟩ := Alone.write armed
      (u := { u with stage := .writing (Border.writingOf row hop) fun r => (next r).bind k })
      h hw rfl hfirst hless
    obtain ⟨p'', net'', l'', hmoves, hsolo', hrest''⟩ := ih (.ok ()) hnext
      (u := { u with border := p', stage := .working ((next (.ok ())).bind k) }) hsolo hrest' rfl
      hlater (by simpa [Journal.emit] using hroom)
    rw [send_emit] at hsolo' hrest''
    exact ⟨p'', net'', l'', (hbegin.trans hwrite).trans hmoves, hsolo', hrest''⟩
  | report fault next ih =>
    have hpolicy := h.policy
    cases hp : home.policy with
    | skip =>
      simp only [Task.answer, hp] at ht
      obtain ⟨⟨b, es'⟩, hnext, heq⟩ := Option.map_eq_some_iff.mp ht
      obtain ⟨rfl, rfl⟩ := Prod.mk.inj heq
      obtain ⟨-, hlater⟩ := List.forall_mem_cons.mp hsend
      have hcount : Alone armed (u, net) ({ u with
          border := u.border.recordError fault.message
          stage := .working ((next (.ok ())).bind k) }, net) := by
        refine .of_move none ?_
        simp [move, stage, work, Task.bind, Border.reportData, hpolicy, hp]
      obtain ⟨p', net', l', hmoves, hsolo, hrest'⟩ := ih (.ok ()) (by rw [hp]; exact hnext)
        (u := { u with
          border := u.border.recordError fault.message
          stage := .working ((next (.ok ())).bind k) })
        (h.emit_fault fault.message) (hrest.emit_fault fault.message) rfl hlater
        (by simpa [Journal.emit] using hroom)
      rw [send_emit] at hsolo hrest'
      exact ⟨p', net', l', hcount.trans hmoves, hsolo, hrest'⟩
    | abort =>
      simp only [Task.answer, hp] at ht
      have hpass : Alone armed (u, net)
          ({ u with stage := .working ((next (.error (.data fault))).bind k) }, net) := by
        refine .of_move none ?_
        simp [move, stage, work, Task.bind, Border.reportData, hpolicy, hp]
      obtain ⟨p', net', l', hmoves, hsolo, hrest'⟩ := ih (.error (.data fault))
        (by rw [hp]; exact ht)
        (u := { u with stage := .working ((next (.error (.data fault))).bind k) }) h hrest rfl
        hsend hroom
      exact ⟨p', net', l', hpass.trans hmoves, hsolo, hrest'⟩
  | stopping next ih =>
    have hask : Alone armed (u, net)
        ({ u with stage := .working ((next false).bind k) }, net) := by
      refine .of_move none ?_
      simp [move, stage, work, Task.bind, h.going]
    obtain ⟨p', net', l', hmoves, hsolo, hrest'⟩ := ih false ht
      (u := { u with stage := .working ((next false).bind k) }) h hrest rfl hsend hroom
    exact ⟨p', net', l', hask.trans hmoves, hsolo, hrest'⟩

section

variable {τ : Type} {handle : Row → Work τ Unit} {good : τ → Prop} {view : Emission → Emission}
  {respond : Row → Except StepError (List Emission)} {m m' : τ}

/-- What a batch of so many rows comes to: its rows were answered and more may follow, all streams
have ended, or the last row that was read broke it off. -/
inductive Came (good : τ → Prop) (view : Emission → Emission)
    (respond : Row → Except StepError (List Emission)) (n : Nat) (p : Border) (j j' : Journal)
    (m : τ) : Except Halt BatchOutcome → Prop
  | more (remembers : good m) (heeded : Heeded view respond (j'.got.map (·.2)) j'.out)
      (few : (j'.out.filterMap (·.row?)).length ≤ j'.got.length)
      (read : j'.got.length = j.got.length + n) : Came good view respond n p j j' m (.ok .more)
  | finished (ended : p.liveInputs = []) (heeded : Heeded view respond (j'.got.map (·.2)) j'.out) :
      Came good view respond n p j j' m (.ok .finished)
  | broken {front : List Row} {bad : Row} {e : StepError} (rows : j'.got.map (·.2) = front ++ [bad])
      (heeded : Heeded view respond front j'.out) (fault : respond bad = .error e) :
      Came good view respond n p j j' m (.error (.error e))

theorem Alone.batch (ha : Answers home.policy handle good view respond)
    (hsend : ∀ row ∈ streams.flatten, ∀ es, respond row = .ok es → ∀ e ∈ es, e.Sendable home layout)
    {n : Nat} {k : Except Halt BatchOutcome × τ → BatchTask σ}
    (h : home.Solo streams layout u.border net l j) (hrest : u.border.AtRest j.out l.put)
    (stage : u.stage = .working (((Work.forRows handle n).start m).bind k)) (hm : good m)
    (heeded : Heeded view respond (j.got.map (·.2)) j.out)
    (few : (j.out.filterMap (·.row?)).length ≤ j.got.length) :
    ∃ p' net' l' j' r m',
      Alone armed (u, net) ({ u with border := p', stage := .working (k (r, m')) }, net') ∧
      home.Solo streams layout p' net' l' j' ∧ p'.AtRest j'.out l'.put ∧
      Came good view respond n p' j j' m' r := by
  induction n generalizing u net l j m with
  | zero =>
    obtain ⟨setup, border, life, step, _⟩ := u
    obtain rfl : _ = Stage.working (k (.ok .more, m)) := stage
    exact ⟨border, net, l, j, .ok .more, m, .refl, h, hrest, .more hm heeded few rfl⟩
  | succ n ih =>
    rw [Work.forRows_start_succ] at stage
    let asking : Stage σ := .reading .any fun r => (Work.served handle n m r).bind k
    have hbegin : Alone armed (u, net) ({ u with stage := asking }, net) :=
      .of_move none (by rw [move, stage]; rfl)
    obtain ⟨p₁, net₁, l₁, j₁, r, hread, h₁, hrest₁, hout, hreceived⟩ :=
      Alone.read armed (u := { u with stage := asking }) h hrest rfl trivial
    have hread := hbegin.trans hread
    rcases r with e | _ | row
    · exact hreceived.elim
    · obtain ⟨hgot, hlive⟩ := hreceived
      exact ⟨p₁, net₁, l₁, j₁, .ok .finished, m, hread, h₁, hrest₁,
        .finished hlive (by rw [hgot, hout]; exact heeded)⟩
    · obtain ⟨i, hgot⟩ := hreceived
      have hrows : j₁.got.map (·.2) = j.got.map (·.2) ++ [row] := by simp [hgot]
      have hmem : row ∈ streams.flatten := h₁.mem_streams (q := (i, row)) (by simp [hgot])
      have hroom : j.got.length + 1 ≤ streams.flatten.length := by
        simpa [hgot] using h₁.got_length
      let v : RunUnit σ := { u with
        border := p₁
        stage := .working (((handle row).start m).bind fun r => (Work.onwards handle n r).bind k) }
      have hread : Alone armed (u, net) (v, net₁) := by
        rw [Work.served, Task.bind_assoc] at hread
        exact hread
      rcases hrespond : respond row with e | es
      · obtain ⟨m', hanswer⟩ := ha.breaks hm hrespond
        obtain ⟨p₂, net₂, l₂, hmoves, h₂, hrest₂⟩ := Alone.answer armed (u := v) hanswer
          h₁ hrest₁ rfl (by simp) (by simp only [hout, List.append_nil]; omega)
        refine ⟨p₂, net₂, l₂, _, .error (.error e), m', hread.trans hmoves, h₂, hrest₂,
          .broken hrows ?_ hrespond⟩
        simpa [Journal.send, hout] using heeded
      · obtain ⟨m', sent, hm', hanswer, hsent⟩ := ha.sends hm hrespond
        have hone := ha.length_sent hrespond hsent
        have hsendable : ∀ e ∈ sent, e.Sendable home layout := by
          intro e he
          have hbare : e.bare ∈ es.map Emission.bare :=
            ha.bare hsent ▸ List.mem_map_of_mem he
          obtain ⟨e', he', hee'⟩ := List.mem_map.mp hbare
          exact (hsend row hmem es hrespond e' he').congr hee'.symm
        obtain ⟨p₂, net₂, l₂, hmoves, h₂, hrest₂⟩ := Alone.answer armed (u := v) hanswer
          h₁ hrest₁ rfl hsendable (by
            rw [hout, List.filterMap_append, List.length_append]
            omega)
        obtain ⟨p₃, net₃, l₃, j₃, r, m'', hrun, h₃, hrest₃, hcame⟩ := ih
          (u := { v with
            border := p₂
            stage := .working (((Work.forRows handle n).start m').bind k) })
          h₂ hrest₂ rfl hm'
          (by simpa [Journal.send, hrows, hout] using heeded.concat hrespond hsent)
          (by
            simp only [Journal.send, hout, hgot, List.filterMap_append, List.length_append,
              List.length_singleton]
            omega)
        refine ⟨p₃, net₃, l₃, j₃, r, m'', (hread.trans hmoves).trans hrun, h₃, hrest₃, ?_⟩
        cases hcame with
        | more remembers heeded few read =>
          exact .more remembers heeded few (by simp [read, Journal.send, hgot]; omega)
        | finished ended heeded => exact .finished ended heeded
        | broken rows heeded fault => exact .broken rows heeded fault

/-- How a step that answers row by row ends: all streams have ended and every row was answered, or
every row before the last one that was read. -/
inductive Ended (view : Emission → Emission) (respond : Row → Except StepError (List Emission))
    (streams : List (List Row)) (j : Journal) : Except Halt BatchOutcome → Prop
  | finished (all : ∀ (k : Nat) (stream : List Row), streams[k]? = some stream → j.from k = stream)
      (heeded : Heeded view respond (j.got.map (·.2)) j.out) :
      Ended view respond streams j (.ok .finished)
  | broken {front : List Row} {bad : Row} {e : StepError}
      (read : ∀ (k : Nat) (stream : List Row), streams[k]? = some stream → j.from k <+: stream)
      (rows : j.got.map (·.2) = front ++ [bad]) (heeded : Heeded view respond front j.out)
      (fault : respond bad = .error e) : Ended view respond streams j (.error (.error e))

/-- How a unit ends that goes on from fine rows and is broken off by others: all streams have ended
and these rows, which are all that were read, were fine; or the row that was read after these was
not. -/
inductive Concludes (fine : Row → Prop) (breaks : Row → StepError → Prop)
    (streams : List (List Row)) (j : Journal) : List Row → Except Halt BatchOutcome → Prop
  | finished (all : ∀ (k : Nat) (stream : List Row), streams[k]? = some stream → j.from k = stream)
      (clean : ∀ row ∈ j.got.map (·.2), fine row) :
      Concludes fine breaks streams j (j.got.map (·.2)) (.ok .finished)
  | broken {front : List Row} {bad : Row} {e : StepError}
      (read : ∀ (k : Nat) (stream : List Row), streams[k]? = some stream → j.from k <+: stream)
      (rows : j.got.map (·.2) = front ++ [bad]) (clean : ∀ row ∈ front, fine row)
      (fault : breaks bad e) : Concludes fine breaks streams j front (.error (.error e))

theorem Ended.concludes {fine : Row → Prop} {breaks : Row → StepError → Prop}
    {sent : Row → List Emission} {j : Journal} {verdict : Except Halt BatchOutcome}
    (hok : ∀ {row es}, respond row = .ok es → fine row ∧ sent row = es)
    (herror : ∀ row ∈ j.got.map (·.2), ∀ e, respond row = .error e → breaks row e)
    (h : Ended view respond streams j verdict) :
    ∃ rows, Concludes fine breaks streams j rows verdict ∧
      j.out.map view = (rows.flatMap sent).map view := by
  have hclean {rows : List Row} (h : Heeded view respond rows j.out) : ∀ row ∈ rows, fine row :=
    fun row hrow => (h.fine row hrow).elim fun _ hes => (hok hes).1
  have hsent {rows : List Row} (h : Heeded view respond rows j.out) :
      j.out.map view = (rows.flatMap sent).map view := by
    rw [h.sent]
    congr 1
    refine List.flatMap_congr fun row hrow => ?_
    obtain ⟨es, hes⟩ := h.fine row hrow
    rw [hes, (hok hes).2]
    rfl
  cases h with
  | finished all heeded => exact ⟨_, .finished all (hclean heeded), hsent heeded⟩
  | @broken front bad e read rows heeded fault =>
    exact ⟨front, .broken read rows (hclean heeded) (herror bad (by simp [rows]) e fault),
      hsent heeded⟩

/-- From the top of its loop a unit goes on to the end of its streams, or to a row that breaks it
off. -/
theorem Alone.through {b : Behaviour τ} {wrap : τ → σ} {unwrap : σ → τ} {m₀ : σ}
    (step : u.step = some (b.within wrap unwrap, m₀))
    (hb : b.process = fun around => Work.forRows handle around.batchRows)
    (hwrap : ∀ m, unwrap (wrap m) = m) (ha : Answers home.policy handle good view respond)
    (hsend : ∀ row ∈ streams.flatten, ∀ es, respond row = .ok es → ∀ e ∈ es, e.Sendable home layout)
    (hbatch : 1 ≤ home.batchRows) (hunarmed : "process_batch." ++ home.unit.step ∉ armed)
    (h : home.Solo streams layout u.border net l j) (hrest : u.border.AtRest j.out l.put)
    (stage : u.stage = .checking) (hm : good (unwrap m₀))
    (heeded : Heeded view respond (j.got.map (·.2)) j.out)
    (few : (j.out.filterMap (·.row?)).length ≤ j.got.length) :
    ∃ (v : RunUnit σ) (net' : Net) (l' : Ledger) (j' : Journal)
        (verdict : Except Halt BatchOutcome),
      Alone armed (u, net) (v.afterBatch verdict, net') ∧
      home.Solo streams layout v.border net' l' j' ∧ v.border.AtRest j'.out l'.put ∧
      Ended view respond streams j' verdict := by
  -- on the number of rows left: a batch that does not end the unit has read at least one
  obtain ⟨left, hleft⟩ : ∃ n, n = streams.flatten.length - j.got.length := ⟨_, rfl⟩
  induction left using Nat.strong_induction_on generalizing u net l j m₀ with
  | _ left ih =>
    let k : Except Halt BatchOutcome × τ → BatchTask σ := fun r => .done (r.1, wrap r.2)
    have hname : u.failPoint ∉ armed := by
      have hunit : u.border.unit = home.unit := Border.frame_unit h.frame
      simpa [failPoint, id, hunit] using hunarmed
    have htask : ((b.within wrap unwrap).process u.surroundings).start m₀ =
        ((Work.forRows handle home.batchRows).start (unwrap m₀)).bind k := by
      rw [← h.batchRows]
      show Task.bind ((b.process u.surroundings).start (unwrap m₀)) _ = _
      rw [hb]
      rfl
    let v : RunUnit σ := { u with
      stage := .working (((Work.forRows handle home.batchRows).start (unwrap m₀)).bind k) }
    have hcheck : Alone armed (u, net) (v, net) := by
      refine .of_move (some (.batch u.id)) ?_
      simp only [move, stage, check, h.going, Bool.false_eq_true, if_false, List.contains_iff_mem,
        hname, step, htask, v]
    obtain ⟨p', net', l', j', r, m', hmoves, h', hrest', hcame⟩ := Alone.batch armed
      (u := v) ha hsend h hrest rfl hm heeded few
    let w : RunUnit σ := { v with border := p', step := v.step.map fun s => (s.1, wrap m') }
    have hover : Alone armed (u, net) (w.afterBatch r, net') :=
      (hcheck.trans hmoves).trans (Alone.of_move none rfl)
    cases hcame with
    | more remembers heeded' few' read =>
      have hstep : (w.afterBatch (.ok .more)).step = some (b.within wrap unwrap, wrap m') := by
        show v.step.map _ = _
        rw [show v.step = _ from step]
        rfl
      have hgot := h'.got_length
      obtain ⟨x, net'', l'', j'', verdict, hrun, hx, hxrest, hended⟩ := ih _ (by omega)
        (u := w.afterBatch (.ok .more)) hstep h' hrest' rfl ((hwrap m').symm ▸ remembers) heeded'
        few' rfl
      exact ⟨x, net'', l'', j'', verdict, hover.trans hrun, hx, hxrest, hended⟩
    | finished ended heeded' =>
      exact ⟨w, net', l', j', _, hover, h', hrest',
        .finished (fun k stream hk => h'.from_ended ended hk) heeded'⟩
    | broken rows heeded' fault =>
      exact ⟨w, net', l', j', _, hover, h', hrest',
        .broken (fun k stream hk => h'.from_prefix hk) rows heeded' fault⟩

/-- A unit at the top of its loop that has read and written nothing yet, with complete streams
before it. In safe mode all rows that it is going to write have the same layout. -/
structure Provided (u : RunUnit σ) (net : Net) (armed : List String) (streams : List (List Row))
    (layout : Schema) (l : Ledger) : Prop where
  stage : u.stage = .checking
  solo : u.border.Solo streams layout u.border net l {}
  rest : u.border.AtRest [] l.put
  targets : u.setup.outputSteps = u.border.outputs.map (·.target)
  unarmed : u.failPoint ∉ armed
  batchRows : 1 ≤ u.border.batchRows

variable {armed} in
theorem Provided.through {b : Behaviour τ} {wrap : τ → σ} {unwrap : σ → τ} {m₀ : σ}
    (hfed : u.Provided net armed streams layout l) (step : u.step = some (b.within wrap unwrap, m₀))
    (hb : b.process = fun around => Work.forRows handle around.batchRows)
    (hwrap : ∀ m, unwrap (wrap m) = m) (ha : Answers u.border.policy handle good view respond)
    (hsend : ∀ row ∈ streams.flatten, ∀ es, respond row = .ok es →
      ∀ e ∈ es, e.Sendable u.border layout)
    (hm : good (unwrap m₀)) :
    ∃ (v : RunUnit σ) (net' : Net) (l' : Ledger) (j : Journal)
        (verdict : Except Halt BatchOutcome),
      Alone armed (u, net) (v.afterBatch verdict, net') ∧
      u.border.Solo streams layout v.border net' l' j ∧ v.border.AtRest j.out l'.put ∧
      Ended view respond streams j verdict :=
  Alone.through armed step hb hwrap ha hsend hfed.batchRows hfed.unarmed hfed.solo hfed.rest
    hfed.stage hm .nil (Nat.zero_le _)

end

/-- A unit that has been set up, with one input and one channel for each output hop. -/
def lone (setup : Setup) (policy : DataErrorPolicy) (batchRows : Nat) (step : Behaviour σ × σ) :
    RunUnit σ where
  setup
  border := {
    unit := ⟨setup.spec.name, setup.copy⟩
    inputs := [{ source := ⟨"source", 0⟩, channel := 0 }]
    outputs := (setup.outputSteps.zipIdx 1).map fun (target, c) => { target, channels := [c] }
    policy, batchRows }
  step := some step
  stage := .checking

variable {setup : Setup} {policy : DataErrorPolicy} {batchRows : Nat} {step : Behaviour σ × σ}

theorem lone_outputChannels : (lone setup policy batchRows step).border.outputChannels =
    List.range' 1 setup.outputSteps.length := by
  rw [← List.zipIdx_map_snd, Border.outputChannels, lone, List.flatMap_map]
  exact List.flatMap_pure_eq_map _ _

theorem lone_fed (layout : Schema) (rows : List Row) (h : 1 ≤ batchRows) :
    (lone setup policy batchRows step).Provided (.laid rows setup.outputSteps.length) [] [rows] layout
      ⟨fun c => if c = 0 then rows else [], fun _ => []⟩ where
  stage := rfl
  solo := {
    frame := rfl
    journal := {
      ended := fun k hk => by
        obtain rfl : k = 0 := Nat.lt_one_iff.mp hk
        simp [lone, Border.inputFinished]
      tags := by simp
      taken := fun _ _ _ => rfl
      linesRead := rfl
      linesWritten := rfl
      errors := rfl
      messages := rfl
      heard := by simp [lone] }
    fits := fun c ch hc => by
      cases c with
      | zero =>
        obtain rfl := Option.some.inj hc
        exact ⟨rfl, rfl, rfl⟩
      | succ c =>
        rw [Net.laid_succ] at hc
        split at hc
        · obtain rfl := Option.some.inj hc
          exact ⟨rfl, rfl, rfl⟩
        · cases hc
    going := rfl
    apart := by
      rw [lone_outputChannels]
      exact List.nodup_cons.mpr ⟨by simp, List.nodup_range'⟩
    supplied := rfl
    complete := fun c hc => by
      obtain rfl : c = 0 := List.mem_singleton.mp hc
      refine ⟨⟨_, rfl, rfl⟩, ?_⟩
      rintro ⟨ch, hch, ha⟩
      obtain rfl := Option.some.inj hch
      cases ha
    ended := fun k inlet hk hf => by
      obtain rfl : inlet = _ := List.mem_singleton.mp (List.mem_of_getElem? hk)
      cases hf
    roomy := fun c hc => by
      rw [lone_outputChannels, List.mem_range'_1] at hc
      obtain ⟨c, rfl⟩ := Nat.exists_eq_add_of_le' hc.1
      refine ⟨_, (Net.laid_succ ..).trans (if_pos (by omega)), rfl, rfl, ?_⟩
      simp [Channel.new]
    layout := by simp [lone] }
  rest := {
    turn := by simp [lone]
    hops := fun hop o ho => by
      obtain ⟨⟨target, c⟩, htarget, rfl⟩ := List.mem_map.mp (List.mem_of_getElem? ho)
      have hc : c ≠ 0 := by
        have := List.le_snd_of_mem_zipIdx htarget
        omega
      refine ⟨fun _ => rfl, fun i c' hi => ?_⟩
      obtain rfl : c' = c := List.mem_singleton.mp (List.mem_of_getElem? hi)
      exact if_neg hc }
  targets := by
    simp only [lone, List.map_map]
    exact (List.zipIdx_map_fst ..).symm
  unarmed := by simp
  batchRows := h

variable {p : Border} (hframe : p.frame = (lone setup policy batchRows step).border.frame)

include hframe

theorem lone_read (hj : p.Journaled j l) : j.from 0 = j.got.map (·.2) := by
  have hinputs : p.inputs.length = 1 := Border.place_inputs_length (congrArg Prod.fst hframe)
  have hall : j.got.filter (·.1 = 0) = j.got := by
    refine List.filter_eq_self.mpr fun q hq => ?_
    have := hj.tags q hq
    simp only [decide_eq_true_eq]
    omega
  rw [Journal.from, hall]

theorem lone_unshared : p.shares = false := by
  have hdistribute : p.distribute = false := congrArg (fun f => f.1.distribute) hframe
  simp [Border.shares, hdistribute]

theorem lone_sent {put : Nat → List Row} {sent : Nat → List Row}
    (h : ∀ (hop : Nat) (o : Outlet), p.outputs[hop]? = some o → o.Sent put (sent hop))
    (hop : Nat) (hhop : hop < setup.outputSteps.length) : put (hop + 1) = sent hop := by
  have houts : p.outputs.map (·.channels) = (lone setup policy batchRows step).border.outputs.map
    (·.channels) := congrArg (fun f => f.1.outs) hframe
  have hchannels : (p.outputs.map (·.channels))[hop]? = some [hop + 1] := by
    rw [houts]
    simp [lone, hhop, Nat.add_comm]
  obtain ⟨o, ho, hc⟩ := Option.map_eq_some_iff.mp (List.getElem?_map ▸ hchannels)
  have hput := (h hop o ho).put 0 (hop + 1) (by rw [hc]; rfl)
  rwa [hc, List.length_singleton, deal_one] at hput

end RunUnit

end Sluice
