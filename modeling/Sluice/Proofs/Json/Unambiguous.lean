import Mathlib.Tactic
import Sluice.Proofs.Json.Integers
import Sluice.Proofs.Number.Numerals

/-!
Compact text is unambiguous. The text of a value shows by its first character of what kind the value is and,
whatever follows it, where the value ends; so no text is that of two values. Fractional numbers have to be
finite for it: one that is not is written as if there were no value.
-/

namespace Sluice.Json

open Numeral (isPart isPart_of_isDigit)

mutual

def allFinite : Json → Bool
  | .float x => x.isFinite
  | .arr items => itemsFinite items
  | .obj entries => entriesFinite entries
  | .null | .bool _ | .int _ | .str _ => true

def itemsFinite : List Json → Bool
  | [] => true
  | item :: rest => item.allFinite && itemsFinite rest

def entriesFinite : List (String × Json) → Bool
  | [] => true
  | (_, item) :: rest => item.allFinite && entriesFinite rest

end

theorem itemsFinite_iff {items : List Json} :
    itemsFinite items = true ↔ ∀ item ∈ items, item.allFinite = true := by
  induction items with
  | nil => simp [itemsFinite]
  | cons item rest ih => rw [itemsFinite, Bool.and_eq_true, ih, List.forall_mem_cons]

theorem entriesFinite_iff {entries : List (String × Json)} :
    entriesFinite entries = true ↔ ∀ entry ∈ entries, entry.2.allFinite = true := by
  induction entries with
  | nil => simp [entriesFinite]
  | cons entry rest ih => rw [entriesFinite, Bool.and_eq_true, ih, List.forall_mem_cons]

variable {a b j : Json} {c : Char} {cs ds r s : List Char}

theorem escapeChar_cases (c : Char) :
    (escapeChar c = [c] ∧ c ≠ '"' ∧ c ≠ '\\' ∧ ¬ c.toNat < 0x20) ∨
      ∃ mark, escapeChar c = '\\' :: mark ∧ ∀ rest, readEscape (mark ++ rest) = some (c, rest) := by
  unfold escapeChar
  split
  case h_8 hquote hback _ _ _ _ _ =>
    split
    · rename_i hlow
      have hunit : ∀ n < 0x20, Text.natOfHex? ['0', '0', Text.hexDigit (n / 16), Text.hexDigit n] =
          some n ∧ isLowSurrogate n = false ∧ isHighSurrogate n = false := by decide
      obtain ⟨hread, hnotLow, hnotHigh⟩ := hunit c.toNat hlow
      refine .inr ⟨_, rfl, fun rest => ?_⟩
      change readUnicode _ = _
      simp [readUnicode, readUnit, hread, hnotLow, hnotHigh]
    · rename_i hhigh
      exact .inl ⟨rfl, hquote, hback, hhigh⟩
  all_goals exact .inr ⟨_, rfl, fun _ => rfl⟩

theorem readQuoted_escaped {fuel : Nat} (hfuel : cs.length < fuel) (acc : List Char) :
    readQuoted fuel acc (cs.flatMap escapeChar ++ '"' :: r) =
      some (String.ofList (acc.reverse ++ cs), r) := by
  induction cs generalizing fuel acc with
  | nil =>
    obtain ⟨fuel, rfl⟩ := Nat.exists_eq_succ_of_ne_zero (Nat.ne_zero_of_lt hfuel)
    simp [readQuoted]
  | cons c cs ih =>
    obtain ⟨fuel, rfl⟩ := Nat.exists_eq_succ_of_ne_zero (Nat.ne_zero_of_lt hfuel)
    have hrest := ih (Nat.lt_of_succ_lt_succ hfuel) (c :: acc)
    rw [List.reverse_cons, List.append_assoc, List.singleton_append] at hrest
    rw [List.flatMap_cons, List.append_assoc]
    obtain ⟨hplain, hquote, hback, hhigh⟩ | ⟨mark, hescaped, hread⟩ := escapeChar_cases c
    · rw [hplain, List.singleton_append, readQuoted, if_neg hquote, if_neg hback, if_neg hhigh]
      exact hrest
    · rw [hescaped, List.cons_append, readQuoted, if_neg (by decide), if_pos rfl, hread]
      exact hrest

theorem toList_quote (t : String) :
    (quote t).toList = '"' :: (t.toList.flatMap escapeChar ++ ['"']) :=
  String.toList_ofList

theorem quote_unique {name other : String}
    (h : (quote name).toList ++ r = (quote other).toList ++ s) : name = other ∧ r = s := by
  have hread (t : String) (rest : List Char) (fuel : Nat) (hfuel : t.toList.length < fuel) :
      readQuoted fuel [] (((quote t).toList ++ rest).drop 1) = some (t, rest) := by
    rw [toList_quote, List.cons_append, List.drop_one, List.tail_cons, List.append_assoc]
    have hescaped := readQuoted_escaped (r := rest) hfuel []
    rwa [List.reverse_nil, List.nil_append, String.ofList_toList] at hescaped
  have hname := hread name r (name.toList.length + other.toList.length + 1) (by omega)
  have hother := hread other s (name.toList.length + other.toList.length + 1) (by omega)
  rw [h, hother] at hname
  obtain ⟨rfl, rfl⟩ := Prod.mk.inj (Option.some.inj hname)
  exact ⟨rfl, rfl⟩

/-- No number goes on here. -/
def Ends (cs : List Char) : Prop :=
  ∀ c ∈ cs.head?, isPart c = false

theorem ends_cons (h : isPart c = false) : Ends (c :: cs) := by
  intro d hd
  obtain rfl := Option.some.inj hd
  exact h

theorem takeWhile_isPart (hcs : ∀ c ∈ cs, isPart c = true) (hr : Ends r) :
    (cs ++ r).takeWhile isPart = cs := by
  rw [List.takeWhile_append_of_pos hcs]
  cases r with
  | nil => rw [List.takeWhile_nil, List.append_nil]
  | cons c r => rw [List.takeWhile_cons_of_neg (by simp [hr c rfl]), List.append_nil]

theorem part_unique (hcs : ∀ c ∈ cs, isPart c = true) (hds : ∀ c ∈ ds, isPart c = true) (hr : Ends r)
    (hs : Ends s) (h : cs ++ r = ds ++ s) : cs = ds ∧ r = s := by
  have hsame : cs = ds := by rw [← takeWhile_isPart hcs hr, h, takeWhile_isPart hds hs]
  rw [hsame] at h
  exact ⟨hsame, List.append_cancel_left h⟩

theorem floatText_spec {x : Binary64} (hx : x.isFinite = true) :
    (∀ c ∈ (floatText x).toList, isPart c = true) ∧
      ∃ c ∈ (floatText x).toList, c.isDigit = false ∧ c ≠ '-' := by
  obtain ⟨n, hn, hchars, -⟩ := NumberFormat.exists_numeral hx
  rw [floatText, if_pos hx, hchars]
  constructor
  · intro c hc
    obtain hc | hc := List.mem_append.mp hc
    · split at hc
      · rw [List.mem_singleton.mp hc]
        decide
      · cases hc
    · exact hn.isPart_chars hc
  · obtain ⟨c, hc, hmark⟩ := hn.exists_mark
    exact ⟨c, List.mem_append_right _ hc, hmark⟩

section Parts

variable {α : Type} {part : α → List Char} {good : α → Bool} {x : α} {xs ys : List α} {close : Char}

/-- Whatever the text of the part stands in front of, that of no other part can stand there. -/
def PartSelfDelimiting (part : α → List Char) (good : α → Bool) (x : α) : Prop :=
  ∀ {y : α} {r s : List Char}, good y = true → Ends r → Ends s → part x ++ r = part y ++ s →
    x = y ∧ r = s

/-- Parts with a comma in front of each. -/
def tailText (part : α → List Char) (xs : List α) : List Char :=
  xs.flatMap fun x => ',' :: part x

theorem ends_tail (hclose : isPart close = false) (xs : List α) (r : List Char) :
    Ends (tailText part xs ++ close :: r) := by
  cases xs with
  | nil => exact ends_cons hclose
  | cons x xs => exact ends_cons (by decide)

theorem tail_unique (hclose : isPart close = false) (hcomma : close ≠ ',')
    (hxs : ∀ x ∈ xs, PartSelfDelimiting part good x) (hys : ∀ y ∈ ys, good y = true)
    (h : tailText part xs ++ close :: r = tailText part ys ++ close :: s) : xs = ys ∧ r = s := by
  induction xs generalizing ys with
  | nil => cases ys with
    | nil => exact ⟨rfl, (List.cons.inj h).2⟩
    | cons y ys => exact absurd (List.cons.inj h).1 hcomma
  | cons x xs ih => cases ys with
    | nil => exact absurd (List.cons.inj h).1.symm hcomma
    | cons y ys =>
      obtain ⟨hx, hrest⟩ := List.forall_mem_cons.mp hxs
      obtain ⟨hy, hgood⟩ := List.forall_mem_cons.mp hys
      rw [tailText, tailText, List.flatMap_cons, List.flatMap_cons, List.cons_append, List.cons_append,
        List.cons_append, List.cons_append, List.append_assoc, List.append_assoc] at h
      obtain ⟨rfl, htail⟩ := hx hy (ends_tail hclose xs r) (ends_tail hclose ys s) (List.cons.inj h).2
      obtain ⟨rfl, hends⟩ := ih hrest hgood htail
      exact ⟨rfl, hends⟩

/-- Between two parts there is a comma, and after the last one what closes the list. -/
theorem joined_unique (hclose : isPart close = false) (hcomma : close ≠ ',')
    (hopen : ∀ x, good x = true → ∀ r s, part x ++ r ≠ close :: s)
    (hxs : ∀ x ∈ xs, PartSelfDelimiting part good x ∧ good x = true) (hys : ∀ y ∈ ys, good y = true)
    (h : (tailText part xs).tail ++ close :: r = (tailText part ys).tail ++ close :: s) :
    xs = ys ∧ r = s := by
  cases xs with
  | nil => cases ys with
    | nil => exact ⟨rfl, (List.cons.inj h).2⟩
    | cons y ys =>
      refine absurd ?_ (hopen y (hys y List.mem_cons_self) (tailText part ys ++ close :: s) r)
      rw [← List.append_assoc]
      exact h.symm
  | cons x xs => cases ys with
    | nil =>
      refine absurd ?_ (hopen x (hxs x List.mem_cons_self).2 (tailText part xs ++ close :: r) s)
      rw [← List.append_assoc]
      exact h
    | cons y ys =>
      exact tail_unique hclose hcomma (fun x hx => (hxs x hx).1) hys (congrArg (',' :: ·) h)

end Parts

def text (j : Json) : List Char :=
  j.compact.toList

def entryText (entry : String × Json) : List Char :=
  (quote entry.1).toList ++ ':' :: entry.2.text

theorem compactItems_eq (items : List Json) : (compactItems items).toList = tailText text items := by
  induction items with
  | nil => simp [compactItems, tailText]
  | cons item rest ih =>
    rw [compactItems, String.toList_append, String.toList_append, ih]
    rfl

theorem compactEntries_eq (entries : List (String × Json)) :
    (compactEntries entries).toList = tailText entryText entries := by
  induction entries with
  | nil => simp [compactEntries, tailText]
  | cons entry rest ih =>
    rw [compactEntries, String.toList_append, ih]
    simp [tailText, entryText, text]

theorem text_arr (items : List Json) : (arr items).text = '[' :: ((tailText text items).tail ++ [']']) := by
  cases items with
  | nil => simp [text, compact, tailText]
  | cons item rest => simp [text, compact, compactItems_eq, tailText]

theorem text_obj (entries : List (String × Json)) :
    (obj entries).text = '\x7b' :: ((tailText entryText entries).tail ++ ['\x7d']) := by
  cases entries with
  | nil => simp [text, compact, tailText]
  | cons entry rest => simp [text, compact, compactEntries_eq, tailText, entryText]

inductive Kind where
  | null
  | truth
  | number
  | text
  | list
  | record

def kind : Json → Kind
  | .null => .null
  | .bool _ => .truth
  | .int _ | .float _ => .number
  | .str _ => .text
  | .arr _ => .list
  | .obj _ => .record

/-- The kind of the values that begin with a character. -/
def Kind.ofLead (c : Char) : Option Kind :=
  match c with
  | 'n' => some .null
  | 't' | 'f' => some .truth
  | '"' => some .text
  | '[' => some .list
  | '\x7b' => some .record
  | c => if isPart c then some .number else none

theorem Kind.ofLead_digit (h : c.isDigit = true ∨ c = '-') : ofLead c = some .number := by
  have hpart : isPart c = true := by
    obtain h | rfl := h
    · exact isPart_of_isDigit h
    · decide
  have hne {d : Char} (hd : d.isDigit = false) (hd' : d ≠ '-') : c ≠ d := by
    rintro rfl
    simp [hd, hd'] at h
  unfold ofLead
  split <;> first
    | exact absurd rfl (hne (by decide) (by decide))
    | exact if_pos hpart

theorem floatText_lead {x : Binary64} (hx : x.isFinite = true) :
    ∃ c cs, (floatText x).toList = c :: cs ∧ (c.isDigit = true ∨ c = '-') := by
  obtain ⟨n, hn, hchars, -⟩ := NumberFormat.exists_numeral hx
  obtain ⟨c, cs, hhead, hdigit⟩ := hn.head_isDigit
  rw [floatText, if_pos hx, hchars, hhead]
  split
  · exact ⟨'-', _, rfl, .inr rfl⟩
  · exact ⟨c, _, rfl, .inl hdigit⟩

theorem text_lead (h : j.allFinite = true) :
    ∃ c cs, j.text = c :: cs ∧ Kind.ofLead c = some j.kind := by
  cases j with
  | null => exact ⟨'n', ['u', 'l', 'l'], by simp [text, compact], rfl⟩
  | bool b => cases b with
    | true => exact ⟨'t', ['r', 'u', 'e'], by simp [text, compact], rfl⟩
    | false => exact ⟨'f', ['a', 'l', 's', 'e'], by simp [text, compact], rfl⟩
  | int n =>
    obtain ⟨c, cs, hcs, hc⟩ := format_lead n
    exact ⟨c, cs, by rw [text, compact, hcs], Kind.ofLead_digit hc⟩
  | float x =>
    obtain ⟨c, cs, hcs, hc⟩ := floatText_lead h
    exact ⟨c, cs, by rw [text, compact, hcs], Kind.ofLead_digit hc⟩
  | str t => exact ⟨'"', _, toList_quote t, rfl⟩
  | arr items => exact ⟨'[', _, text_arr items, rfl⟩
  | obj entries => exact ⟨'\x7b', _, text_obj entries, rfl⟩

theorem kind_eq (ha : a.allFinite = true) (hb : b.allFinite = true)
    (h : a.text ++ r = b.text ++ s) : a.kind = b.kind := by
  obtain ⟨c, cs, hcs, hc⟩ := text_lead ha
  obtain ⟨d, ds, hds, hd⟩ := text_lead hb
  rw [hcs, hds] at h
  obtain rfl : c = d := (List.cons.inj h).1
  exact Option.some.inj (hc.symm.trans hd)

theorem text_ne_bracket (h : j.allFinite = true) (r s : List Char) : j.text ++ r ≠ ']' :: s := by
  intro heq
  obtain ⟨c, cs, hcs, hc⟩ := text_lead h
  rw [hcs] at heq
  obtain rfl : c = ']' := (List.cons.inj heq).1
  cases hc

/-- Whatever the text of the value stands in front of, that of no other value can stand there. -/
def SelfDelimiting (j : Json) : Prop :=
  PartSelfDelimiting text allFinite j

theorem selfDelimiting_null : SelfDelimiting .null := by
  intro b r s hb _ _ h
  have hkind := kind_eq rfl hb h
  cases b with
  | null => exact ⟨rfl, List.append_cancel_left h⟩
  | _ => cases hkind

theorem selfDelimiting_bool (p : Bool) : SelfDelimiting (.bool p) := by
  intro b r s hb _ _ h
  have hkind := kind_eq rfl hb h
  cases b with
  | bool q => cases p <;> cases q <;> simp_all [text, compact]
  | _ => cases hkind

theorem selfDelimiting_str (t : String) : SelfDelimiting (.str t) := by
  intro b r s hb _ _ h
  have hkind := kind_eq rfl hb h
  cases b with
  | str u =>
    obtain ⟨rfl, hrest⟩ := quote_unique h
    exact ⟨rfl, hrest⟩
  | _ => cases hkind

theorem number_chars (hkind : j.kind = .number) (hj : j.allFinite = true) :
    ∀ c ∈ j.text, isPart c = true := by
  intro c hc
  cases j with
  | int n =>
    rw [text, compact] at hc
    obtain hdigit | rfl := format_chars n c hc
    · exact isPart_of_isDigit hdigit
    · decide
  | float x =>
    rw [text, compact] at hc
    exact (floatText_spec hj).1 c hc
  | _ => cases hkind

theorem format_ne_floatText (n : Int) {x : Binary64} (hx : x.isFinite = true) :
    (Integer.format n).toList ≠ (floatText x).toList := by
  intro heq
  obtain ⟨c, hc, hdigit, hminus⟩ := (floatText_spec hx).2
  obtain hd | hd := format_chars n c (heq ▸ hc)
  · exact absurd (hdigit.symm.trans hd) (by decide)
  · exact hminus hd

theorem number_injective (hkind : a.kind = .number) (hsame : a.kind = b.kind) (ha : a.allFinite = true)
    (hb : b.allFinite = true) (h : a.text = b.text) : a = b := by
  cases a with
  | int n => cases b with
    | int m =>
      rw [text, text, compact, compact, String.toList_inj] at h
      rw [Integer.format_injective h]
    | float y =>
      rw [text, text, compact, compact] at h
      exact absurd h (format_ne_floatText n hb)
    | _ => cases hsame
  | float x => cases b with
    | int m =>
      rw [text, text, compact, compact] at h
      exact absurd h.symm (format_ne_floatText m ha)
    | float y =>
      have hx : x.isFinite = true := ha
      have hy : y.isFinite = true := hb
      rw [text, text, compact, compact, floatText, floatText, if_pos hx, if_pos hy,
        String.toList_inj] at h
      rw [NumberFormat.write_injective hx hy h]
    | _ => cases hsame
  | _ => cases hkind

theorem selfDelimiting_number (hkind : a.kind = .number) (ha : a.allFinite = true) :
    SelfDelimiting a := by
  intro b r s hb hr hs h
  have hsame := kind_eq ha hb h
  obtain ⟨htext, hrest⟩ :=
    part_unique (number_chars hkind ha) (number_chars (hsame ▸ hkind) hb) hr hs h
  exact ⟨number_injective hkind hsame ha hb htext, hrest⟩

theorem selfDelimiting_arr {items : List Json} (hfinite : itemsFinite items = true)
    (hitems : ∀ item ∈ items, item.SelfDelimiting) : SelfDelimiting (.arr items) := by
  intro b r s hb _ _ h
  have hkind := kind_eq (a := .arr items) hfinite hb h
  cases b with
  | arr others =>
    rw [text_arr, text_arr, List.cons_append, List.cons_append, List.append_assoc,
      List.append_assoc] at h
    obtain ⟨rfl, hrest⟩ := joined_unique (by decide) (by decide)
      (fun j hj r s => text_ne_bracket hj r s)
      (fun item hitem => ⟨hitems item hitem, itemsFinite_iff.mp hfinite item hitem⟩)
      (itemsFinite_iff.mp hb) (List.cons.inj h).2
    exact ⟨rfl, hrest⟩
  | _ => cases hkind

theorem selfDelimiting_entry {entry : String × Json} (h : entry.2.SelfDelimiting) :
    PartSelfDelimiting entryText (fun entry => entry.2.allFinite) entry := by
  intro other r s hother hr hs hsame
  rw [entryText, entryText, List.append_assoc, List.append_assoc] at hsame
  obtain ⟨hname, hafter⟩ := quote_unique hsame
  obtain ⟨hvalue, hrest⟩ := h hother hr hs (List.cons.inj hafter).2
  exact ⟨Prod.ext hname hvalue, hrest⟩

theorem selfDelimiting_obj {entries : List (String × Json)} (hfinite : entriesFinite entries = true)
    (hentries : ∀ entry ∈ entries, entry.2.SelfDelimiting) : SelfDelimiting (.obj entries) := by
  intro b r s hb _ _ h
  have hkind := kind_eq (a := .obj entries) hfinite hb h
  cases b with
  | obj others =>
    rw [text_obj, text_obj, List.cons_append, List.cons_append, List.append_assoc,
      List.append_assoc] at h
    have hopen (entry : String × Json) (r s : List Char) : entryText entry ++ r ≠ '\x7d' :: s := by
      rw [entryText, toList_quote]
      exact fun h => absurd (List.cons.inj h).1 (by decide)
    obtain ⟨rfl, hrest⟩ := joined_unique (by decide) (by decide) (fun entry _ => hopen entry)
      (fun entry hentry =>
        ⟨selfDelimiting_entry (hentries entry hentry), entriesFinite_iff.mp hfinite entry hentry⟩)
      (entriesFinite_iff.mp hb) (List.cons.inj h).2
    exact ⟨rfl, hrest⟩
  | _ => cases hkind

mutual

theorem selfDelimiting : ∀ j : Json, j.allFinite = true → j.SelfDelimiting
  | .null, _ => selfDelimiting_null
  | .bool p, _ => selfDelimiting_bool p
  | .int _, h => selfDelimiting_number rfl h
  | .float _, h => selfDelimiting_number rfl h
  | .str t, _ => selfDelimiting_str t
  | .arr items, h => selfDelimiting_arr h (items_selfDelimiting items h)
  | .obj entries, h => selfDelimiting_obj h (entries_selfDelimiting entries h)

theorem items_selfDelimiting : ∀ items : List Json, itemsFinite items = true →
    ∀ item ∈ items, item.SelfDelimiting
  | [], _ => fun _ hitem => absurd hitem List.not_mem_nil
  | item :: rest, h =>
    have hparts := Bool.and_eq_true_iff.mp h
    List.forall_mem_cons.mpr ⟨selfDelimiting item hparts.1, items_selfDelimiting rest hparts.2⟩

theorem entries_selfDelimiting : ∀ entries : List (String × Json), entriesFinite entries = true →
    ∀ entry ∈ entries, entry.2.SelfDelimiting
  | [], _ => fun _ hentry => absurd hentry List.not_mem_nil
  | (_, item) :: rest, h =>
    have hparts := Bool.and_eq_true_iff.mp h
    List.forall_mem_cons.mpr ⟨selfDelimiting item hparts.1, entries_selfDelimiting rest hparts.2⟩

end

/-- No text is that of two values. -/
theorem compact_injective (ha : a.allFinite = true) (hb : b.allFinite = true)
    (h : a.compact = b.compact) : a = b := by
  have hend : Ends [] := fun c hc => by cases hc
  have htext : a.text ++ [] = b.text ++ [] := by rw [text, text, h]
  exact (a.selfDelimiting ha hb hend hend htext).1

end Sluice.Json
