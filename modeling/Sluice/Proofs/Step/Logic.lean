import Mathlib.Tactic
import Sluice.Step.Type

/-!
What the work of a step is sure to do, whatever answers it gets. A journal tells what has crossed
the border of its unit: the rows read, the rows written and the faults reported, which inputs have
ended, and whether the unit has been told that the run stops. A work meets a condition when every
course that its questions can take leads there.
-/

namespace Sluice

/-- What a step sends out: a row, to one hop or to all, or the report of a bad row. -/
inductive Emission where
  | row (hop : Option Nat) (row : Row)
  | fault (message : String)

structure Journal where
  /-- Each row read, with the number of its input. -/
  got : List (Nat × Row) := []
  out : List Emission := []
  ended : Nat → Prop := fun _ => False
  /-- The unit knows that the run is being stopped. -/
  stopped : Prop := False

/-- What of a unit its step depends on. -/
structure Site where
  inputs : Nat
  policy : DataErrorPolicy
  /-- What the step may ask for a row: which input, if any in particular, after such a course. -/
  asks : Option Nat → Journal → Prop

namespace Journal

def take (j : Journal) (input : Nat) (row : Row) : Journal :=
  { j with got := j.got ++ [(input, row)] }

def emit (j : Journal) (e : Emission) : Journal :=
  { j with out := j.out ++ [e] }

/-- Nothing was read or sent out in between. -/
structure Grows (j j' : Journal) : Prop where
  got : j'.got = j.got
  out : j'.out = j.out
  ended : ∀ k, j.ended k → j'.ended k
  stopped : j.stopped → j'.stopped

theorem Grows.refl (j : Journal) : j.Grows j :=
  ⟨rfl, rfl, fun _ => id, id⟩

theorem Grows.trans {a b c : Journal} (h₁ : a.Grows b) (h₂ : b.Grows c) : a.Grows c :=
  ⟨h₂.got.trans h₁.got, h₂.out.trans h₁.out, fun k h => h₂.ended k (h₁.ended k h),
    fun h => h₂.stopped (h₁.stopped h)⟩

def AllEnded (j : Journal) (site : Site) : Prop :=
  ∀ k < site.inputs, j.ended k

end Journal

def Journal.from (j : Journal) (k : Nat) : List Row :=
  (j.got.filter (·.1 = k)).map (·.2)

theorem Journal.from_take (j : Journal) (i k : Nat) (row : Row) :
    (j.take i row).from k = j.from k ++ if i = k then [row] else [] := by
  by_cases h : i = k <;> simp [Journal.from, Journal.take, h]

theorem Journal.Grows.from {j j' : Journal} (h : j.Grows j') (k : Nat) : j'.from k = j.from k := by
  simp [Journal.from, h.got]

theorem Journal.length_from (j : Journal) {inputs : Nat} (h : ∀ q ∈ j.got, q.1 < inputs) :
    ((List.range inputs).map j.from).flatten.length = j.got.length := by
  have hcount (k : Nat) : (j.from k).length = (j.got.map (·.1)).count k := by
    simp [Journal.from, List.count, List.countP_map, ← List.countP_eq_length_filter,
      Function.comp_def, beq_eq_decide]
  calc ((List.range inputs).map j.from).flatten.length
      = ∑ k ∈ Finset.range inputs, (Multiset.ofList (j.got.map (·.1))).count k := by
        simp [List.length_flatten, Function.comp_def, hcount, Finset.sum_eq_multiset_sum,
          ← Multiset.coe_range]
    _ = (Multiset.ofList (j.got.map (·.1))).card := by
        refine Multiset.sum_count_eq_card fun k hk => ?_
        obtain ⟨q, hq, rfl⟩ := List.mem_map.mp hk
        exact Finset.mem_range.mpr (h q hq)
    _ = j.got.length := by simp

/-- The errors that a refused read or write answers with. -/
def StepError.Refused (e : StepError) (j : Journal) : Prop :=
  (e = .aborted → j.stopped) ∧ ∀ fault, e ≠ .data fault

/-- How a batch may break off. -/
def Halt.Justified (h : Halt) (site : Site) (j : Journal) : Prop :=
  match h with
  | .error .aborted => j.stopped
  | .error (.data _) => site.policy = .abort
  | _ => True

theorem StepError.Refused.justified {e : StepError} {j : Journal} (h : e.Refused j) (site : Site) :
    (Halt.error e).Justified site j := by
  cases e with
  | aborted => exact h.1 rfl
  | data fault => exact absurd rfl (h.2 fault)
  | _ => trivial

variable {σ τ α β : Type} {site : Site}

/-- Whatever is answered, the task comes to `Q` or breaks off with reason. A refused read or write
breaks it off at once. -/
def Task.Meets (site : Site) (Q : α → σ → Journal → Prop) :
    Task (Except Halt α × σ) → Journal → Prop
  | .done (.ok a, m), j => Q a m j
  | .done (.error h, _), j => h.Justified site j
  | .read input next, j =>
    ∀ j', j.Grows j' → site.asks input j' ∧
      (∀ k row, k < site.inputs → ¬ j'.ended k → (∀ i ∈ input, i = k) →
        (next (.ok (some row))).Meets site Q (j'.take k row)) ∧
      ((∀ k < site.inputs, (∀ i ∈ input, i = k) → j'.ended k) →
        (next (.ok none)).Meets site Q j') ∧
      ∀ e, e.Refused j' → ∃ h m, next (.error e) = .done (.error h, m) ∧ h.Justified site j'
  | .write hop row next, j =>
    (next (.ok ())).Meets site Q (j.emit (.row hop row)) ∧ ∀ j', j.Grows j' → ∀ e, e.Refused j' →
      ∃ h m, next (.error e) = .done (.error h, m) ∧ h.Justified site j'
  | .report fault next, j =>
    match site.policy with
    | .skip => (next (.ok ())).Meets site Q (j.emit (.fault fault.message))
    | .abort => (next (.error (.data fault))).Meets site Q j
  | .stopping next, j =>
    (next false).Meets site Q j ∧ ∀ j', j.Grows j' → j'.stopped → (next true).Meets site Q j'

theorem Task.Meets.mono {t : Task (Except Halt α × σ)} {P Q : α → σ → Journal → Prop} {j : Journal}
    (h : t.Meets site P j) (hPQ : ∀ a m j, P a m j → Q a m j) : t.Meets site Q j := by
  induction t generalizing j with
  | done r =>
    rcases r with ⟨_ | a, m⟩
    · exact h
    · exact hPQ a m j h
  | read input next ih =>
    intro j' hj
    obtain ⟨hasks, hrow, hend, herr⟩ := h j' hj
    exact ⟨hasks, fun k row hk hlive hi => ih _ (hrow k row hk hlive hi),
      fun hall => ih _ (hend hall), herr⟩
  | write hop row next ih => exact ⟨ih _ h.1, h.2⟩
  | report fault next ih =>
    unfold Task.Meets at h ⊢
    cases hp : site.policy with
    | skip =>
      simp only [hp] at h ⊢
      exact ih _ h
    | abort =>
      simp only [hp] at h ⊢
      exact ih _ h
  | stopping next ih => exact ⟨ih _ h.1, fun j' hj hs => ih _ (h.2 j' hj hs)⟩

/-- Going on after a task, except that what breaks off stays broken off. -/
theorem Task.Meets.bind {t : Task (Except Halt α × σ)}
    {f : Except Halt α × σ → Task (Except Halt β × τ)} {P : α → σ → Journal → Prop}
    {Q : β → τ → Journal → Prop} {j : Journal} (h : t.Meets site P j)
    (hok : ∀ a m j, P a m j → (f (.ok a, m)).Meets site Q j)
    (herr : ∀ e m, ∃ m', f (.error e, m) = .done (.error e, m')) : (t.bind f).Meets site Q j := by
  have hbroken {r : Task (Except Halt α × σ)} {j : Journal}
      (hr : ∃ e m, r = .done (.error e, m) ∧ e.Justified site j) :
      ∃ e m, r.bind f = .done (.error e, m) ∧ e.Justified site j := by
    obtain ⟨e, m, rfl, he⟩ := hr
    obtain ⟨m', hm'⟩ := herr e m
    exact ⟨e, m', hm', he⟩
  induction t generalizing j with
  | done r =>
    rcases r with ⟨e | a, m⟩
    · obtain ⟨m', hm'⟩ := herr e m
      show (f (.error e, m)).Meets site Q j
      rw [hm']
      exact h
    · exact hok a m j h
  | read input next ih =>
    intro j' hj
    obtain ⟨hasks, hrow, hend, hfail⟩ := h j' hj
    exact ⟨hasks, fun k row hk hlive hi => ih _ (hrow k row hk hlive hi),
      fun hall => ih _ (hend hall), fun e he => hbroken (hfail e he)⟩
  | write hop row next ih => exact ⟨ih _ h.1, fun j' hj e he => hbroken (h.2 j' hj e he)⟩
  | report fault next ih =>
    unfold Task.Meets at h
    simp only [Task.bind]
    unfold Task.Meets
    cases hp : site.policy with
    | skip =>
      simp only [hp] at h ⊢
      exact ih _ h
    | abort =>
      simp only [hp] at h ⊢
      exact ih _ h
  | stopping next ih => exact ⟨ih _ h.1, fun j' hj hs => ih _ (h.2 j' hj hs)⟩

namespace Work

/-- From this memory and journal, the work comes to `Q` or breaks off with reason. -/
def Meets (site : Site) (w : Work σ α) (m : σ) (j : Journal) (Q : α → σ → Journal → Prop) : Prop :=
  (w.start m).Meets site Q j

variable {m : σ} {j : Journal}

theorem Meets.mono {w : Work σ α} {P Q : α → σ → Journal → Prop} (h : w.Meets site m j P)
    (hPQ : ∀ a m j, P a m j → Q a m j) : w.Meets site m j Q :=
  Task.Meets.mono h hPQ

theorem meets_pure {a : α} {Q : α → σ → Journal → Prop} (h : Q a m j) :
    (pure a : Work σ α).Meets site m j Q := h

theorem start_bind (w : Work σ α) (f : α → Work σ β) (m : σ) :
    (w >>= f).start m = (w.start m).bind fun r =>
      match r with
      | (.ok a, m') => (f a).start m'
      | (.error h, m') => .done (.error h, m') := by
  show Task.bind (w.start m) _ = Task.bind (w.start m) _
  congr 1
  funext r
  rcases r with ⟨_ | a, m'⟩ <;> rfl

theorem meets_bind {w : Work σ α} {f : α → Work σ β} {Q : β → σ → Journal → Prop}
    (h : w.Meets site m j fun a m j => (f a).Meets site m j Q) :
    (w >>= f).Meets site m j Q := by
  unfold Meets
  rw [start_bind]
  exact Task.Meets.bind h (fun _ _ _ ha => ha) fun e m => ⟨m, rfl⟩

theorem meets_get {Q : σ → σ → Journal → Prop} (h : Q m m j) :
    (get : Work σ σ).Meets site m j Q := h

theorem meets_set {m' : σ} {Q : PUnit → σ → Journal → Prop} (h : Q ⟨⟩ m' j) :
    (set m' : Work σ PUnit).Meets site m j Q := h

theorem meets_modify {f : σ → σ} {Q : PUnit → σ → Journal → Prop} (h : Q ⟨⟩ (f m) j) :
    (modify f : Work σ PUnit).Meets site m j Q := h

theorem meets_fail {e : StepError} {Q : α → σ → Journal → Prop}
    (h : (Halt.error e).Justified site j) : (fail e : Work σ α).Meets site m j Q := h

theorem meets_fatal {fault : FatalFault} {Q : α → σ → Journal → Prop} :
    (fatal fault : Work σ α).Meets site m j Q := trivial

theorem meets_getRow {Q : Option Row → σ → Journal → Prop}
    (hasks : ∀ j', j.Grows j' → site.asks none j')
    (hrow : ∀ j' k row, j.Grows j' → k < site.inputs → ¬ j'.ended k → Q (some row) m (j'.take k row))
    (hend : ∀ j', j.Grows j' → j'.AllEnded site → Q none m j') :
    (getRow : Work σ (Option Row)).Meets site m j Q :=
  fun j' hj => ⟨hasks j' hj, fun k row hk hlive _ => hrow j' k row hj hk hlive,
    fun hall => hend j' hj fun k hk => hall k hk (by simp),
    fun _ he => ⟨_, _, rfl, he.justified site⟩⟩

theorem meets_getRowFrom {i : Nat} {Q : Option Row → σ → Journal → Prop}
    (hasks : ∀ j', j.Grows j' → site.asks (some i) j')
    (hrow : ∀ j' row, j.Grows j' → i < site.inputs → ¬ j'.ended i → Q (some row) m (j'.take i row))
    (hend : ∀ j', j.Grows j' → (i < site.inputs → j'.ended i) → Q none m j') :
    (getRowFrom i : Work σ (Option Row)).Meets site m j Q := by
  refine fun j' hj => ⟨hasks j' hj, fun k row hk hlive hi => ?_,
    fun hall => hend j' hj fun hi => hall i hi (by simp),
    fun _ he => ⟨_, _, rfl, he.justified site⟩⟩
  obtain rfl : i = k := hi i rfl
  exact hrow j' row hj hk hlive

theorem meets_putRow {row : Row} {Q : Unit → σ → Journal → Prop}
    (h : Q () m (j.emit (.row none row))) : (putRow row : Work σ Unit).Meets site m j Q :=
  ⟨h, fun _ _ _ he => ⟨_, _, rfl, he.justified site⟩⟩

theorem meets_putRowTo {hop : Nat} {row : Row} {Q : Unit → σ → Journal → Prop}
    (h : Q () m (j.emit (.row (some hop) row))) :
    (putRowTo hop row : Work σ Unit).Meets site m j Q :=
  ⟨h, fun _ _ _ he => ⟨_, _, rfl, he.justified site⟩⟩

theorem meets_reportData {fault : DataFault} {Q : Unit → σ → Journal → Prop}
    (h : site.policy = .skip → Q () m (j.emit (.fault fault.message))) :
    (reportData fault : Work σ Unit).Meets site m j Q := by
  show (Task.report fault _).Meets site _ j
  unfold Task.Meets
  cases hp : site.policy with
  | skip => exact h hp
  | abort => exact hp

theorem meets_isStopping {Q : Bool → σ → Journal → Prop} (hgo : Q false m j)
    (hstop : ∀ j', j.Grows j' → j'.stopped → Q true m j') :
    (isStopping : Work σ Bool).Meets site m j Q :=
  ⟨hgo, hstop⟩

theorem meets_within {wrap : σ → τ} {unwrap : τ → σ} {w : Work σ α} {m : τ}
    {Q : α → τ → Journal → Prop} (h : w.Meets site (unwrap m) j fun a m' => Q a (wrap m')) :
    (w.within wrap unwrap).Meets site m j Q := by
  have hstart : (w.within wrap unwrap).start m = (w.start (unwrap m)).bind fun r =>
      .done (r.1, wrap r.2) := rfl
  unfold Meets
  rw [hstart]
  exact Task.Meets.bind h (fun _ _ _ ha => ha) fun e m => ⟨wrap m, rfl⟩

end Work

/-- What a step keeps between its batches, and what it has done once it is finished. -/
structure Contract (σ : Type) where
  loop : σ → Journal → Prop
  finished : Journal → Prop

/-- A batch leads back to the loop condition, or finishes with every input at its end. -/
def Contract.After {σ : Type} (c : Contract σ) (site : Site) : BatchOutcome → σ → Journal → Prop
  | .more, m, j => c.loop m j
  | .finished, _, j => j.AllEnded site ∧ c.finished j

structure Behaviour.Keeps {σ : Type} (b : Behaviour σ) (site : Site) (c : Contract σ) : Prop where
  grows : ∀ m j j', j.Grows j' → c.loop m j → c.loop m j'
  batch : ∀ batchRows m j, c.loop m j →
    (b.process ⟨batchRows, site.inputs⟩).Meets site m j (c.After site)

theorem Behaviour.Keeps.within {σ τ : Type} {b : Behaviour σ} {site : Site} {c : Contract σ}
    (h : b.Keeps site c) {wrap : σ → τ} {unwrap : τ → σ} (hwrap : ∀ m, unwrap (wrap m) = m) :
    (b.within wrap unwrap).Keeps site ⟨fun m => c.loop (unwrap m), c.finished⟩ := by
  refine ⟨fun m => h.grows (unwrap m), fun batchRows m j hl => Work.meets_within ?_⟩
  refine (h.batch batchRows (unwrap m) j hl).mono fun r m' j' hr => ?_
  cases r with
  | more => simpa only [Contract.After, hwrap] using hr
  | finished => exact hr

end Sluice
