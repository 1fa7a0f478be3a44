import Sluice.Proofs.Prelude
import Sluice.Step.Append

/-!
The order in which a concatenation takes its inputs. The names are resolved one after another, and
each adds the inputs that no name before it has added.
-/

namespace Sluice

namespace Append

/-- The inputs of each named step, at its first mention, and then all inputs that are not named. -/
def inOrder (inputSteps named : List String) : List Nat :=
  named.eraseDups.flatMap (inputsOf inputSteps) ++
    (List.range inputSteps.length).filter fun i => (inputSteps[i]?).all fun name => !named.contains name

variable {inputSteps named done : List String} {name : String} {order new : List Nat} {i : Nat}

@[simp] theorem mem_inputsOf : i ∈ inputsOf inputSteps name ↔ inputSteps[i]? = some name := by
  simp only [inputsOf, List.mem_filter, List.mem_range, beq_iff_eq, and_iff_right_iff_imp]
  exact fun h => (List.getElem?_eq_some_iff.mp h).1

theorem inputsOf_nodup (inputSteps : List String) (name : String) :
    (inputsOf inputSteps name).Nodup :=
  List.nodup_range.filter _

theorem inputsOf_eq_nil : inputsOf inputSteps name = [] ↔ name ∉ inputSteps := by
  rw [List.eq_nil_iff_forall_not_mem, List.mem_iff_getElem?, not_exists]
  exact forall_congr' fun i => not_congr mem_inputsOf

theorem addNew_eq (order : List Nat) (h : new.Nodup) :
    addNew order new = order ++ new.filter fun i => !order.contains i := by
  unfold addNew
  induction new generalizing order with
  | nil => simp
  | cons x new ih =>
    obtain ⟨hx, hnew⟩ := List.nodup_cons.mp h
    rw [List.foldl_cons, ih _ hnew]
    by_cases hmem : x ∈ order
    · simp [hmem]
    · have hrest : (new.filter fun i => !(order ++ [x]).contains i) =
          new.filter fun i => !order.contains i := by
        refine List.filter_congr fun i hi => ?_
        have hne : i ≠ x := fun he => hx (he ▸ hi)
        simp [hne]
      have hnone : order.contains x = false := by simpa using hmem
      rw [hnone, if_neg Bool.false_ne_true, hrest, List.filter_cons_of_pos (by rw [hnone]; rfl),
        List.append_assoc]
      rfl

theorem mem_flatMap_inputsOf :
    i ∈ named.eraseDups.flatMap (inputsOf inputSteps) ↔ ∃ name ∈ named, inputSteps[i]? = some name := by
  simp

theorem addNew_inputsOf (inputSteps done : List String) (name : String) :
    addNew (done.eraseDups.flatMap (inputsOf inputSteps)) (inputsOf inputSteps name) =
      (done ++ [name]).eraseDups.flatMap (inputsOf inputSteps) := by
  rw [addNew_eq _ (inputsOf_nodup _ _), List.eraseDups_concat]
  by_cases hmem : name ∈ done
  · rw [if_pos (List.contains_iff_mem.mpr hmem), List.filter_eq_nil_iff.mpr, List.append_nil]
    intro i hi
    have hdone := mem_flatMap_inputsOf.mpr ⟨name, hmem, mem_inputsOf.mp hi⟩
    rw [List.contains_iff_mem.mpr hdone]
    exact Bool.false_ne_true
  · rw [if_neg (mt List.contains_iff_mem.mp hmem), List.flatMap_append, List.flatMap_singleton,
      List.filter_eq_self.mpr]
    intro i hi
    have hdone : i ∉ done.eraseDups.flatMap (inputsOf inputSteps) := by
      rw [mem_flatMap_inputsOf]
      rintro ⟨other, hother, hi'⟩
      obtain rfl := Option.some.inj ((mem_inputsOf.mp hi).symm.trans hi')
      exact hmem hother
    rw [Bool.eq_false_iff.mpr (mt List.contains_iff_mem.mp hdone)]
    rfl

theorem foldlM_named (inputSteps named done : List String) :
    (named.foldlM (fun order name =>
        match inputsOf inputSteps name with
        | [] => .error (.config (.appendOrder name))
        | inputs => .ok (addNew order inputs))
      (done.eraseDups.flatMap (inputsOf inputSteps)) : Except StepError (List Nat)) =
    match named.find? (fun name => !inputSteps.contains name) with
    | some name => .error (.config (.appendOrder name))
    | none => .ok ((done ++ named).eraseDups.flatMap (inputsOf inputSteps)) := by
  induction named generalizing done with
  | nil => rw [List.append_nil]; rfl
  | cons name named ih =>
    rw [List.foldlM_cons]
    by_cases hname : name ∈ inputSteps
    · obtain ⟨i, is, hinputs⟩ := List.exists_cons_of_ne_nil (mt inputsOf_eq_nil.mp (not_not.mpr hname))
      have hfind : (name :: named).find? (fun name => !inputSteps.contains name) =
          named.find? fun name => !inputSteps.contains name := by
        simp [hname]
      rw [hfind, List.append_cons, ← ih, ← addNew_inputsOf, hinputs]
      rfl
    · simp [inputsOf_eq_nil.mpr hname, hname, bind, Except.bind]

theorem resolve_eq (inputSteps named : List String) :
    resolve inputSteps named =
      match named.find? (fun name => !inputSteps.contains name) with
      | some name => .error (.config (.appendOrder name))
      | none => .ok (inOrder inputSteps named) := by
  have hfold := foldlM_named inputSteps named []
  refine (congrArg (· >>= fun order => pure (addNew order (List.range inputSteps.length))) hfold).trans ?_
  cases named.find? fun name => !inputSteps.contains name with
  | some name => rfl
  | none =>
    refine congrArg Except.ok ((addNew_eq _ List.nodup_range).trans (congrArg _ ?_))
    refine List.filter_congr fun i hi => ?_
    have hi := List.mem_range.mp hi
    rw [Bool.eq_iff_iff]
    simp [hi]

theorem perm_range {n : Nat} (hn : order.Nodup) (h : ∀ k, k ∈ order ↔ k < n) :
    order.Perm (List.range n) :=
  (List.perm_ext_iff_of_nodup hn List.nodup_range).mpr fun k => by rw [h, List.mem_range]

theorem inOrder_perm (inputSteps named : List String) :
    (inOrder inputSteps named).Perm (List.range inputSteps.length) := by
  have hnamed : (named.eraseDups.flatMap (inputsOf inputSteps)).Nodup := by
    refine List.nodup_flatMap.mpr ⟨fun name _ => inputsOf_nodup _ name, ?_⟩
    refine (List.nodup_eraseDups named).imp fun {a b} hab i hi hi' => hab ?_
    exact Option.some.inj ((mem_inputsOf.mp hi).symm.trans (mem_inputsOf.mp hi'))
  refine perm_range (hnamed.append (List.nodup_range.filter _) fun i hi hi' => ?_) fun i => ?_
  · obtain ⟨name, hname, hi⟩ := mem_flatMap_inputsOf.mp hi
    simpa [hi, hname] using (List.mem_filter.mp hi').2
  · simp only [inOrder, List.mem_append, mem_flatMap_inputsOf, List.mem_filter, List.mem_range]
    constructor
    · rintro (⟨name, -, hi⟩ | ⟨hi, -⟩)
      · exact (List.getElem?_eq_some_iff.mp hi).1
      · exact hi
    · intro hi
      by_cases hmem : inputSteps[i] ∈ named
      · exact .inl ⟨_, hmem, List.getElem?_eq_getElem hi⟩
      · exact .inr ⟨hi, by simpa [List.getElem?_eq_getElem hi] using hmem⟩

theorem lt_of_mem_cover {n : Nat} (h : i ∈ cover n order) : i < n := by
  simpa using (List.mem_filter.mp h).2

theorem cover_perm {k : Nat} (n : Nat) (h : order.Perm (List.range k)) :
    (cover n order).Perm (List.range n) := by
  obtain rfl : order.length = k := h.length_eq.trans List.length_range
  have hnodup : order.Nodup := h.nodup_iff.mpr List.nodup_range
  have hmem (k : Nat) : k ∈ order ↔ k < order.length := h.mem_iff.trans List.mem_range
  have hdrop (k : Nat) : k ∈ (List.range n).drop order.length ↔ order.length ≤ k ∧ k < n := by
    rw [List.mem_drop_iff_getElem]
    simp only [List.getElem_range, List.length_range]
    constructor
    · rintro ⟨i, hi, rfl⟩
      omega
    · rintro ⟨h1, h2⟩
      exact ⟨k - order.length, by omega, by omega⟩
  refine perm_range ?_ fun k => ?_
  · refine List.Nodup.filter _ (List.nodup_append.mpr
      ⟨hnodup, List.nodup_range.sublist (List.drop_sublist _ _), ?_⟩)
    rintro a ha b hb rfl
    have := (hmem a).mp ha
    have := (hdrop a).mp hb
    omega
  · simp only [cover, List.mem_filter, List.mem_append, hmem, hdrop, decide_eq_true_eq]
    omega

theorem cover_self {n : Nat} (h : order.Perm (List.range n)) : cover n order = order := by
  have hlen : order.length = n := h.length_eq.trans List.length_range
  have hdrop : (List.range n).drop order.length = [] :=
    List.drop_eq_nil_of_le (by simp [hlen])
  rw [cover, hdrop, List.append_nil]
  exact List.filter_eq_self.mpr fun k hk => by simpa using h.mem_iff.mp hk

variable {setup : Setup} {config : Config} {m : Memory}

theorem init_eq_ok : init setup = .ok m ↔
    ∃ config, setup.config (record.decode true) {} = .ok config ∧
      (∀ name ∈ config.order, name ∈ setup.inputSteps) ∧
      m = { order := inOrder setup.inputSteps config.order } := by
  unfold init
  rw [Except.bind_eq_ok]
  refine exists_congr fun config => and_congr_right fun _ => ?_
  rw [Except.bind_eq_ok, resolve_eq]
  cases hfind : config.order.find? fun name => !setup.inputSteps.contains name with
  | some name =>
    have hname : name ∉ setup.inputSteps := by simpa using List.find?_some hfind
    simpa using fun hall => absurd (hall name (List.mem_of_find?_eq_some hfind)) hname
  | none =>
    have hall : ∀ name ∈ config.order, name ∈ setup.inputSteps := by
      simpa using List.find?_eq_none.mp hfind
    simp [pure, Except.pure, and_iff_right hall, eq_comm (a := m)]

theorem init_perm (h : init setup = .ok m) : m.order.Perm (List.range setup.inputSteps.length) := by
  obtain ⟨config, -, -, rfl⟩ := init_eq_ok.mp h
  exact inOrder_perm _ _

/-- A configuration is refused when it names a step that is not an input, and only then. -/
theorem init_refused_iff (h : setup.config (record.decode true) {} = .ok config) :
    (∃ fault, init setup = .error (.config fault)) ↔ ∃ name ∈ config.order, name ∉ setup.inputSteps := by
  unfold init
  rw [h]
  simp only [bind, Except.bind, resolve_eq]
  cases hfind : config.order.find? fun name => !setup.inputSteps.contains name with
  | some name =>
    have hname : name ∉ setup.inputSteps := by simpa using List.find?_some hfind
    simpa using ⟨name, List.mem_of_find?_eq_some hfind, hname⟩
  | none => simpa [pure, Except.pure] using List.find?_eq_none.mp hfind

end Append

end Sluice
