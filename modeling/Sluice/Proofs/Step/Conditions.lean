import Mathlib.Data.List.DropRight
import Mathlib.Tactic
import Sluice.Step.Condition

/-!
Reading back a condition that was written out. The operators are looked for one after another, each
in the whole text, so the first of them that occurs anywhere decides: a literal may hide the
operator of the condition behind one that is looked for earlier.
-/

namespace Sluice

namespace Text

variable {cs xs ys : List Char} {x : Char}

theorem trimChars_eq (cs : List Char) :
    trimChars cs = (cs.dropWhile isBlank).rdropWhile isBlank := rfl

theorem trimChars_cons_blank (h : isBlank x = true) (cs : List Char) :
    trimChars (x :: cs) = trimChars cs := by
  rw [trimChars_eq, trimChars_eq, List.dropWhile_cons_of_pos h]

theorem trimChars_concat_blank (h : isBlank x = true) (cs : List Char) :
    trimChars (cs ++ [x]) = trimChars cs := by
  rw [trimChars_eq, trimChars_eq, List.dropWhile_append]
  split
  · rename_i hall
    rw [List.isEmpty_iff.mp hall, List.dropWhile_cons_of_pos h, List.dropWhile_nil]
  · exact List.rdropWhile_concat_pos _ _ _ h

theorem prefix_rdropWhile (h : isBlank x = false) (xs ys : List Char) :
    xs ++ [x] <+: (xs ++ [x] ++ ys).rdropWhile isBlank := by
  induction ys using List.reverseRecOn with
  | nil =>
    rw [List.append_nil, List.rdropWhile_concat_neg _ _ _ (by simp [h])]
  | append_singleton ys y ih =>
    rw [← List.append_assoc]
    by_cases hy : isBlank y = true
    · rwa [List.rdropWhile_concat_pos _ _ _ hy]
    · rw [List.rdropWhile_concat_neg _ _ _ hy]
      exact (List.prefix_append _ ys).trans (List.prefix_append _ [y])

theorem dropWhile_of_trimmed (h : trimChars xs = xs) (hne : xs ≠ []) (ys : List Char) :
    (xs ++ ys).dropWhile isBlank = xs ++ ys := by
  obtain ⟨y, xs, rfl⟩ := List.exists_cons_of_ne_nil hne
  have hy : ¬ isBlank y = true := by
    intro hblank
    have hlength := congrArg List.length h
    rw [trimChars_cons_blank hblank, trimChars_eq] at hlength
    have hle := ((List.rdropWhile_prefix isBlank (xs.dropWhile isBlank)).length_le).trans
      (List.dropWhile_sublist isBlank).length_le
    simp at hlength
    omega
  rw [List.cons_append, List.dropWhile_cons_of_neg hy]

end Text

namespace Comparison

/-- The operators that are looked for before this one. -/
def before (op : Comparison) : List Comparison :=
  all.takeWhile fun other => other != op

theorem all_eq (op : Comparison) : ∃ after, all = op.before ++ op :: after := by
  cases op <;> exact ⟨_, rfl⟩

theorem not_mem_before (op : Comparison) : op ∉ op.before := by
  cases op <;> decide

def marks : List Char := ['<', '>', '=', '!']

theorem text_eq_cons (op : Comparison) : ∃ x ∈ marks, ∃ xs, op.text.toList = x :: xs := by
  cases op <;> simp [text, marks]

theorem text_eq_concat (op : Comparison) :
    ∃ xs x, op.text.toList = xs ++ [x] ∧ Text.isBlank x = false := by
  cases op
  case lt => exact ⟨[], '<', by simp [text], rfl⟩
  case gt => exact ⟨[], '>', by simp [text], rfl⟩
  case ne => exact ⟨['!'], '=', by simp [text], rfl⟩
  case eq => exact ⟨['='], '=', by simp [text], rfl⟩
  case le => exact ⟨['<'], '=', by simp [text], rfl⟩
  case ge => exact ⟨['>'], '=', by simp [text], rfl⟩

end Comparison

namespace Condition

/-- The text of a condition, with a blank on either side of the operator. -/
def written (c : Condition) : String :=
  c.field ++ " " ++ c.op.text ++ " " ++ c.literal

/-- A condition that can be written out: its field is there and has no character of an operator in
it, and neither the field nor the literal has blanks around it. -/
structure Writable (c : Condition) : Prop where
  named : c.field ≠ ""
  plain : ∀ x ∈ c.field.toList, x ∉ Comparison.marks
  field_trimmed : Text.trim c.field = c.field
  literal_trimmed : Text.trim c.literal = c.literal

instance (c : Condition) : Decidable c.Writable :=
  decidable_of_iff (c.field ≠ "" ∧ (c.field.toList.all fun x => decide (x ∉ Comparison.marks)) ∧
      Text.trim c.field = c.field ∧ Text.trim c.literal = c.literal)
    ⟨fun ⟨hn, hp, hf, hl⟩ => ⟨hn, by simpa using hp, hf, hl⟩,
      fun ⟨hn, hp, hf, hl⟩ => ⟨hn, by simpa using hp, hf, hl⟩⟩

/-- The literal holds no operator that is looked for before the one of the condition. -/
def Unambiguous (c : Condition) : Prop :=
  ∀ op ∈ c.op.before, ¬ op.text.toList <:+: c.literal.toList

instance (c : Condition) : Decidable c.Unambiguous :=
  inferInstanceAs (Decidable (∀ op ∈ c.op.before, ¬ op.text.toList <:+: c.literal.toList))

variable {word cs front rest : List Char}

theorem dropWord_eq_some : dropWord word cs = some rest ↔ cs = word ++ rest := by
  induction word generalizing cs with
  | nil => simp [dropWord]
  | cons w ws ih =>
    cases cs with
    | nil => simp [dropWord]
    | cons c cs =>
      by_cases h : w = c
      · simp [dropWord, h, ih]
      · simp [dropWord, h, Ne.symm h]

theorem cutAt_eq_none : cutAt word cs = none ↔ ¬ word <:+: cs := by
  induction cs with
  | nil => simp [cutAt]
  | cons c cs ih =>
    unfold cutAt
    rw [List.infix_cons_iff]
    cases h : dropWord word (c :: cs) with
    | some rest =>
      have : word <+: c :: cs := ⟨rest, (dropWord_eq_some.mp h).symm⟩
      simp [this]
    | none =>
      have : ¬ word <+: c :: cs := by
        rintro ⟨rest, hrest⟩
        simp [dropWord_eq_some.mpr hrest.symm] at h
      simp [this, ih]

/-- A word begins nowhere in a text that does not have its first character. -/
theorem cutAt_append (h : ∀ x ∈ front, x ∉ word.head?) (hne : word ≠ []) (cs : List Char) :
    cutAt word (front ++ cs) = (cutAt word cs).map fun (b, r) => (front ++ b, r) := by
  induction front with
  | nil => simp
  | cons x front ih =>
    obtain ⟨hx, hfront⟩ := List.forall_mem_cons.mp h
    obtain ⟨w, ws, rfl⟩ := List.exists_cons_of_ne_nil hne
    have hwx : w ≠ x := fun he => hx (by simp [he])
    simp [cutAt, dropWord, hwx, ih hfront, Function.comp_def]

theorem parseWith_append {ops : List Comparison} (h : ∀ op ∈ ops, cutAt op.text.toList cs = none)
    (later : List Comparison) : parseWith cs (ops ++ later) = parseWith cs later := by
  induction ops with
  | nil => rfl
  | cons op ops ih =>
    obtain ⟨hop, hops⟩ := List.forall_mem_cons.mp h
    rw [List.cons_append, parseWith, hop]
    exact ih hops

theorem parseWith_of_occurs {ops : List Comparison}
    (h : ∃ op ∈ ops, cutAt op.text.toList cs ≠ none) (later : List Comparison) :
    ∃ op ∈ ops, ∃ before rest, cutAt op.text.toList cs = some (before, rest) ∧
      parseWith cs (ops ++ later) = parseWith cs (op :: later) := by
  induction ops with
  | nil => simp at h
  | cons op ops ih =>
    cases hop : cutAt op.text.toList cs with
    | some parts =>
      refine ⟨op, by simp, parts.1, parts.2, hop, ?_⟩
      rw [List.cons_append, parseWith, hop, parseWith, hop]
    | none =>
      obtain ⟨other, hmem, before, rest, hcut, hparse⟩ := ih (by simpa [hop] using h)
      refine ⟨other, List.mem_cons_of_mem op hmem, before, rest, hcut, ?_⟩
      rw [List.cons_append, parseWith, hop]
      exact hparse

theorem parseWith_of_cutAt {op : Comparison}
    (hcut : cutAt op.text.toList cs = some (front, rest)) (hfield : Text.trimChars front ≠ [])
    (later : List Comparison) : parseWith cs (op :: later) =
      some ⟨String.ofList (Text.trimChars front), op, String.ofList (Text.trimChars rest)⟩ := by
  simp [parseWith, hcut, hfield]

variable {c : Condition} {op : Comparison}

/-- What a written condition has in front of its literal. -/
def lead (c : Condition) : List Char :=
  c.field.toList ++ ' ' :: c.op.text.toList ++ [' ']

theorem toList_written (c : Condition) : c.written.toList = c.lead ++ c.literal.toList := by
  simp [written, lead]

theorem cutAt_field (h : c.Writable) (op : Comparison) (cs : List Char) :
    cutAt op.text.toList (c.field.toList ++ ' ' :: cs) =
      (cutAt op.text.toList cs).map fun (b, r) => (c.field.toList ++ ' ' :: b, r) := by
  obtain ⟨w, hw, ws, htext⟩ := op.text_eq_cons
  have hfront : ∀ x ∈ c.field.toList ++ [' '], x ∉ op.text.toList.head? := by
    intro x hx hhead
    obtain rfl : w = x := by simpa [htext] using hhead
    obtain hx | hx := List.mem_append.mp hx
    · exact h.plain w hx hw
    · revert hw
      simp [List.mem_singleton.mp hx, Comparison.marks]
  simpa using cutAt_append hfront (by simp [htext]) cs

/-- An operator that is looked for earlier is found in a written condition where it is found in the
literal, and nowhere before. -/
theorem cutAt_before (h : c.Writable) (hop : op ∈ c.op.before) :
    cutAt op.text.toList c.written.toList =
      (cutAt op.text.toList c.literal.toList).map fun (b, r) => (c.lead ++ b, r) := by
  have hown : cutAt op.text.toList (c.op.text.toList ++ ' ' :: c.literal.toList) =
      (cutAt op.text.toList c.literal.toList).map fun (b, r) =>
        (c.op.text.toList ++ ' ' :: b, r) := by
    revert hop
    cases c.op <;> cases op <;>
      simp [Comparison.before, Comparison.all, Comparison.text, cutAt, dropWord,
        Function.comp_def]
  have hsplit : c.written.toList =
      c.field.toList ++ ' ' :: (c.op.text.toList ++ ' ' :: c.literal.toList) := by
    simp [toList_written, lead]
  rw [hsplit, cutAt_field h, hown, Option.map_map]
  simp [Function.comp_def, lead]

theorem cutAt_self (h : c.Writable) :
    cutAt c.op.text.toList c.written.toList =
      some (c.field.toList ++ [' '], ' ' :: c.literal.toList) := by
  have hown : cutAt c.op.text.toList (c.op.text.toList ++ ' ' :: c.literal.toList) =
      some ([], ' ' :: c.literal.toList) := by
    obtain ⟨w, -, ws, htext⟩ := c.op.text_eq_cons
    have hdrop : dropWord c.op.text.toList (c.op.text.toList ++ ' ' :: c.literal.toList) =
        some (' ' :: c.literal.toList) := dropWord_eq_some.mpr rfl
    rw [htext] at hdrop ⊢
    rw [List.cons_append] at hdrop ⊢
    rw [cutAt, hdrop]
  have hsplit : c.written.toList =
      c.field.toList ++ ' ' :: (c.op.text.toList ++ ' ' :: c.literal.toList) := by
    simp [toList_written, lead]
  rw [hsplit, cutAt_field h, hown]
  rfl

/-- Trimming leaves the field and the operator in front of a text that goes on behind them. -/
theorem prefix_trimChars_lead (h : c.Writable) (cs : List Char) :
    (c.field ++ " " ++ c.op.text).toList <+: Text.trimChars (c.lead ++ cs) := by
  obtain ⟨xs, x, htext, hx⟩ := c.op.text_eq_concat
  have hfield : Text.trimChars c.field.toList = c.field.toList := by
    simpa [Text.trim] using congrArg String.toList h.field_trimmed
  have hne : c.field.toList ≠ [] := by simpa using h.named
  have hdrop : (c.lead ++ cs).dropWhile Text.isBlank = c.lead ++ cs := by
    simpa [lead] using Text.dropWhile_of_trimmed hfield hne (' ' :: c.op.text.toList ++ ' ' :: cs)
  rw [Text.trimChars_eq, hdrop]
  simpa [lead, htext] using Text.prefix_rdropWhile hx (c.field.toList ++ ' ' :: xs) (' ' :: cs)

/-- A condition that is written out is read back exactly when its literal holds no operator that is
looked for before its own. Otherwise the text is split at such an operator, and everything in front
of it, the operator that was meant among it, becomes the name of the field. -/
theorem parse_written_iff (h : c.Writable) :
    (parse c.written = some c ↔ c.Unambiguous) ∧
    (¬ c.Unambiguous → ∃ misread, parse c.written = some misread ∧
      misread.op ∈ c.op.before ∧
      (c.field ++ " " ++ c.op.text).toList <+: misread.field.toList) := by
  obtain ⟨later, hall⟩ := c.op.all_eq
  have hread : c.Unambiguous → parse c.written = some c := by
    intro hclear
    have hnone : ∀ op ∈ c.op.before, cutAt op.text.toList c.written.toList = none := by
      intro op hop
      rw [cutAt_before h hop, cutAt_eq_none.mpr (hclear op hop)]
      rfl
    have hfield : Text.trimChars (c.field.toList ++ [' ']) = c.field.toList := by
      rw [Text.trimChars_concat_blank rfl]
      simpa [Text.trim] using congrArg String.toList h.field_trimmed
    have hliteral : Text.trimChars (' ' :: c.literal.toList) = c.literal.toList := by
      rw [Text.trimChars_cons_blank rfl]
      simpa [Text.trim] using congrArg String.toList h.literal_trimmed
    have hne : c.field.toList ≠ [] := by simpa using h.named
    rw [parse, hall, parseWith_append hnone,
      parseWith_of_cutAt (cutAt_self h) (by rwa [hfield]), hfield, hliteral]
    simp
  have hmisread : ¬ c.Unambiguous → ∃ misread, parse c.written = some misread ∧
      misread.op ∈ c.op.before ∧
      (c.field ++ " " ++ c.op.text).toList <+: misread.field.toList := by
    intro hhidden
    have hoccurs : ∃ op ∈ c.op.before, cutAt op.text.toList c.written.toList ≠ none := by
      simp only [Unambiguous, not_forall, not_not] at hhidden
      obtain ⟨op, hop, hinfix⟩ := hhidden
      refine ⟨op, hop, ?_⟩
      rw [cutAt_before h hop]
      simpa [cutAt_eq_none] using hinfix
    obtain ⟨op, hop, front, rest, hcut, hparse⟩ :=
      parseWith_of_occurs hoccurs (c.op :: later)
    have hlead : (c.field ++ " " ++ c.op.text).toList <+: Text.trimChars front := by
      rw [cutAt_before h hop, Option.map_eq_some_iff] at hcut
      obtain ⟨⟨front, rest⟩, -, rfl, rfl⟩ := hcut
      exact prefix_trimChars_lead h front
    have hne : Text.trimChars front ≠ [] := by
      intro hnil
      rw [hnil] at hlead
      simpa using congrArg List.length (List.prefix_nil.mp hlead)
    refine ⟨_, by rw [parse, hall, hparse, parseWith_of_cutAt hcut hne], hop, ?_⟩
    simpa using hlead
  refine ⟨⟨fun hsame => ?_, hread⟩, hmisread⟩
  by_contra hhidden
  obtain ⟨misread, hparse, hop, -⟩ := hmisread hhidden
  obtain rfl : c = misread := Option.some_injective _ (hsame.symm.trans hparse)
  exact c.op.not_mem_before hop

theorem parse_written_not_equal :
    parse "level != x <= y" = some ⟨"level", .ne, "x <= y"⟩ ∧
      ∃ misread, parse "level <= x != y" = some misread ∧ misread.op ∈ Comparison.before .le ∧
        "level <=".toList <+: misread.field.toList :=
  ⟨(parse_written_iff (c := ⟨"level", .ne, "x <= y"⟩) (by decide)).1.mpr (by decide),
    (parse_written_iff (c := ⟨"level", .le, "x != y"⟩) (by decide)).2 (by decide)⟩

/-- Not every condition that can be written out is read back. -/
theorem parse_splits_in_literal :
    (⟨"a", .ne, "x==y"⟩ : Condition).Writable ∧
      parse "a != x==y" = some ⟨"a != x", .eq, "y"⟩ :=
  ⟨by decide, by decide⟩

end Condition

end Sluice
