import Sluice.Proofs.Border.Split
import Sluice.Proofs.Step.Rowwise

/-!
What a step makes of a single row, worked out without a border: a task that asks for no rows comes
to a result and sends something out on the way, whoever runs it, as long as nothing is refused.
-/

namespace Sluice

variable {σ τ α β : Type} {policy : DataErrorPolicy}

namespace Task

/-- The result of a task that asks for no rows, and all that it sends out on the way to it. -/
def answer (policy : DataErrorPolicy) : Task α → Option (α × List Emission)
  | .done a => some (a, [])
  | .read _ _ => none
  | .write hop row next =>
    ((next (.ok ())).answer policy).map fun (a, es) => (a, .row hop row :: es)
  | .report fault next =>
    match policy with
    | .skip => ((next (.ok ())).answer policy).map fun (a, es) => (a, .fault fault.message :: es)
    | .abort => (next (.error (.data fault))).answer policy
  | .stopping next => (next false).answer policy

theorem answer_bind (t : Task α) (f : α → Task β) :
    (t.bind f).answer policy = (t.answer policy).bind fun (a, es) =>
      ((f a).answer policy).map fun (b, es') => (b, es ++ es') := by
  induction t with
  | done a => simp [bind, answer]
  | read input next => rfl
  | write hop row next ih =>
    simp only [bind, answer, ih, Option.map_bind, Option.bind_map, Function.comp_def,
      Option.map_map, List.cons_append]
  | report fault next ih =>
    cases policy with
    | skip =>
      simp only [bind, answer, ih, Option.map_bind, Option.bind_map, Function.comp_def,
        Option.map_map, List.cons_append]
    | abort => simp only [bind, answer, ih]
  | stopping next ih => simp only [bind, answer, ih]

end Task

namespace Work

/-- How the work ends from a memory, the memory it leaves, and what it sends out. -/
def answer (policy : DataErrorPolicy) (w : Work σ α) (m : σ) :
    Option ((Except Halt α × σ) × List Emission) :=
  (w.start m).answer policy

variable {m m' : σ}

theorem answer_bind_ok {w : Work σ α} {a : α} (h : w.answer policy m = some ((.ok a, m'), []))
    (f : α → Work σ β) : (w >>= f).answer policy m = (f a).answer policy m' := by
  unfold answer at h ⊢
  rw [start_bind, Task.answer_bind, h]
  simp

theorem answer_bind_error {w : Work σ α} {halt : Halt} {es : List Emission}
    (h : w.answer policy m = some ((.error halt, m'), es)) (f : α → Work σ β) :
    (w >>= f).answer policy m = some ((.error halt, m'), es) := by
  unfold answer at h ⊢
  rw [start_bind, Task.answer_bind, h]
  simp [Task.answer]

@[simp] theorem answer_pure (a : α) :
    (pure a : Work σ α).answer policy m = some ((.ok a, m), []) := rfl

@[simp] theorem answer_get_bind (f : σ → Work σ β) :
    (get >>= f : Work σ β).answer policy m = (f m).answer policy m := rfl

@[simp] theorem answer_set_bind (f : PUnit → Work σ β) :
    (set m' >>= f : Work σ β).answer policy m = (f ⟨⟩).answer policy m' := rfl

@[simp] theorem answer_modify_bind (g : σ → σ) (f : PUnit → Work σ β) :
    (modify g >>= f : Work σ β).answer policy m = (f ⟨⟩).answer policy (g m) := rfl

@[simp] theorem answer_fatal (fault : FatalFault) :
    (fatal fault : Work σ α).answer policy m = some ((.error (.error (.fatal fault)), m), []) := rfl

@[simp] theorem answer_putRow (row : Row) :
    (putRow row : Work σ Unit).answer policy m = some ((.ok (), m), [.row none row]) := rfl

@[simp] theorem answer_putRow_bind (row : Row) (f : Unit → Work σ β) :
    (putRow row >>= f).answer policy m =
      ((f ()).answer policy m).map fun (r, es) => (r, .row none row :: es) := rfl

@[simp] theorem answer_isStopping_bind (f : Bool → Work σ β) :
    (isStopping >>= f).answer policy m = (f false).answer policy m := rfl

@[simp] theorem answer_putRowTo (hop : Nat) (row : Row) :
    (putRowTo hop row : Work σ Unit).answer policy m =
      some ((.ok (), m), [.row (some hop) row]) := rfl

end Work

/-- How the work on a row ends that comes to this, and what it sends out. -/
def Work.settled (m : σ) : Except StepError (List Emission) →
    (Except Halt Unit × σ) × List Emission
  | .ok es => ((.ok (), m), es)
  | .error e => ((.error (.error e), m), [])

/-- A step answers every row as it is answered by itself, whatever it remembers of other rows. What
it sends out is compared through a view, which leaves alone everything but what is for display. -/
structure Answers (policy : DataErrorPolicy) (handle : Row → Work σ Unit) (good : σ → Prop)
    (view : Emission → Emission) (respond : Row → Except StepError (List Emission)) : Prop where
  settles : ∀ {m} row, good m → ∃ m' result, good m' ∧
    (handle row).answer policy m = some (Work.settled m' result) ∧
    result.map (List.map view) = (respond row).map (List.map view)
  /-- At most one row comes out for each that goes in. -/
  single : ∀ {row es}, respond row = .ok es → (es.filterMap (·.row?)).length ≤ 1
  faithful : ∀ e, (view e).bare = e.bare

section

variable {handle : Row → Work σ Unit} {good : σ → Prop} {view : Emission → Emission}
  {respond : Row → Except StepError (List Emission)} {es sent : List Emission} {m : σ} {row : Row}

theorem Answers.sends (h : Answers policy handle good view respond) (hm : good m)
    (hes : respond row = .ok es) : ∃ m' sent, good m' ∧
      (handle row).answer policy m = some ((.ok (), m'), sent) ∧ sent.map view = es.map view := by
  obtain ⟨m', result, hm', hanswer, hsame⟩ := h.settles row hm
  rw [hes] at hsame
  cases result with
  | error e => cases hsame
  | ok sent => exact ⟨m', sent, hm', hanswer, Except.ok.inj hsame⟩

theorem Answers.breaks (h : Answers policy handle good view respond) (hm : good m) {e : StepError}
    (he : respond row = .error e) :
    ∃ m', (handle row).answer policy m = some ((.error (.error e), m'), []) := by
  obtain ⟨m', result, -, hanswer, hsame⟩ := h.settles row hm
  rw [he] at hsame
  cases result with
  | ok sent => cases hsame
  | error e' =>
    obtain rfl : e' = e := Except.error.inj hsame
    exact ⟨m', hanswer⟩

theorem Answers.bare (h : Answers policy handle good view respond)
    (hsent : sent.map view = es.map view) : sent.map Emission.bare = es.map Emission.bare := by
  have hview (out : List Emission) : out.map Emission.bare = (out.map view).map Emission.bare := by
    simp [h.faithful]
  rw [hview, hsent, ← hview]

theorem Answers.length_sent (h : Answers policy handle good view respond)
    (hes : respond row = .ok es) (hsent : sent.map view = es.map view) :
    (sent.filterMap (·.row?)).length ≤ 1 := by
  have hlength (out : List Emission) : (out.filterMap (·.row?)).length =
      ((out.map Emission.bare).filterMap (·.row?)).length := by
    rw [Emission.filterMap_row?_bare, List.length_map]
  rw [hlength, h.bare hsent, ← hlength]
  exact h.single hes

/-- The memories that a step comes to as it answers rows, one after another. -/
def Work.Later (policy : DataErrorPolicy) (handle : Row → Work σ Unit) : σ → σ → Prop :=
  Relation.ReflTransGen fun m m' => ∃ row es, (handle row).answer policy m = some ((.ok (), m'), es)

theorem Answers.later (h : Answers policy handle good view respond) {m' : σ} (hm : good m)
    (hlater : Work.Later policy handle m m') : good m' := by
  induction hlater with
  | refl => exact hm
  | tail _ hrow ih =>
    obtain ⟨row, sent, hanswer⟩ := hrow
    cases hes : respond row with
    | error e =>
      obtain ⟨_, hbreaks⟩ := h.breaks ih hes
      simp [hanswer] at hbreaks
    | ok es =>
      obtain ⟨_, _, hgood, hsends, -⟩ := h.sends ih hes
      simp only [hanswer, Option.some.injEq, Prod.mk.injEq, true_and] at hsends
      exact hsends.1 ▸ hgood

end

/-- All these rows were answered, and this was sent out for them. -/
structure Heeded (view : Emission → Emission) (respond : Row → Except StepError (List Emission))
    (rows : List Row) (out : List Emission) : Prop where
  fine : ∀ row ∈ rows, ∃ es, respond row = .ok es
  sent : out.map view = (rows.flatMap fun row => (respond row).toOption.getD []).map view

variable {view : Emission → Emission} {respond : Row → Except StepError (List Emission)}
  {rows : List Row} {out : List Emission}

theorem Heeded.nil : Heeded view respond [] [] :=
  ⟨by simp, rfl⟩

theorem Heeded.concat (h : Heeded view respond rows out) {row : Row} {es sent : List Emission}
    (hes : respond row = .ok es) (hsent : sent.map view = es.map view) :
    Heeded view respond (rows ++ [row]) (out ++ sent) := by
  refine ⟨fun r hr => ?_, ?_⟩
  · obtain hr | hr := List.mem_append.mp hr
    · exact h.fine r hr
    · exact ⟨es, List.mem_singleton.mp hr ▸ hes⟩
  · simp [h.sent, hsent, hes, Except.toOption]

namespace Work

/-- A batch of so many more rows, unless the last one broke it off. -/
def onwards (handle : Row → Work σ Unit) (n : Nat) :
    Except Halt Unit × σ → Task (Except Halt BatchOutcome × σ)
  | (.ok _, m) => (forRows handle n).start m
  | (.error h, m) => .done (.error h, m)

/-- A batch that has asked for a row, with so many more to follow. -/
def served (handle : Row → Work σ Unit) (n : Nat) (m : σ) :
    Except StepError (Option Row) → Task (Except Halt BatchOutcome × σ)
  | .ok (some row) => ((handle row).start m).bind (onwards handle n)
  | .ok none => .done (.ok .finished, m)
  | .error e => .done (.error (.error e), m)

theorem forRows_start_succ (handle : Row → Work σ Unit) (n : Nat) (m : σ) :
    (forRows handle (n + 1)).start m = .read none (served handle n m) := by
  rw [forRows, start_bind]
  show Task.read none _ = _
  congr 1
  funext r
  rcases r with e | _ | row
  · rfl
  · rfl
  · show (handle row >>= fun _ => forRows handle n).start m = _
    rw [start_bind]
    show Task.bind _ _ = Task.bind _ _
    congr 1
    funext r
    rcases r with ⟨_ | _, m'⟩ <;> rfl

end Work

end Sluice
