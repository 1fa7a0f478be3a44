import Mathlib.Tactic

/-!
Folds that can fail, lists with one place changed, lists without repetitions, and rings of places.
-/

namespace Sluice

theorem Except.bind_eq_ok {ε α β : Type} {x : Except ε α} {f : α → Except ε β} {b : β} :
    x >>= f = .ok b ↔ ∃ a, x = .ok a ∧ f a = .ok b := by
  cases x <;> simp [bind, Except.bind]

theorem Except.andThen_eq_ok {ε α : Type} {x : Except ε Unit} {y : Except ε α} {a : α} :
    (x >>= fun _ => y) = .ok a ↔ x = .ok () ∧ y = .ok a := by
  cases x <;> simp [bind, Except.bind]

theorem Except.bind_eq_error {ε α β : Type} {x : Except ε α} {f : α → Except ε β} {e : ε} :
    x >>= f = .error e ↔ x = .error e ∨ ∃ a, x = .ok a ∧ f a = .error e := by
  cases x <;> simp [bind, Except.bind]

theorem Except.mapError_eq_ok {ε ε' α : Type} {x : Except ε α} {f : ε → ε'} {a : α} :
    x.mapError f = .ok a ↔ x = .ok a := by
  cases x <;> simp [Except.mapError]

theorem Except.mapError_eq_error {ε ε' α : Type} {x : Except ε α} {f : ε → ε'} {e : ε'} :
    x.mapError f = .error e ↔ ∃ e', x = .error e' ∧ f e' = e := by
  cases x <;> simp [Except.mapError]

theorem Except.map_eq_ok {ε α β : Type} {x : Except ε α} {f : α → β} {b : β} :
    x.map f = .ok b ↔ ∃ a, x = .ok a ∧ f a = b := by
  cases x <;> simp [Except.map]

theorem Except.mapM_eq_ok {ε α β : Type} {f : α → Except ε β} {l : List α} {bs : List β}
    (h : l.mapM f = .ok bs) : List.Forall₂ (fun a b => f a = .ok b) l bs := by
  induction l generalizing bs with
  | nil =>
    obtain rfl : [] = bs := Except.ok.inj h
    exact .nil
  | cons a l ih =>
    rw [List.mapM_cons] at h
    obtain ⟨b, hb, h⟩ := Except.bind_eq_ok.mp h
    obtain ⟨rest, hrest, h⟩ := Except.bind_eq_ok.mp h
    obtain rfl := Except.ok.inj h
    exact .cons hb (ih hrest)

theorem Except.exists_of_mem_mapM {ε α β : Type} {f : α → Except ε β} {l : List α} {bs : List β} {b : β}
    (h : l.mapM f = .ok bs) (hb : b ∈ bs) : ∃ a ∈ l, f a = .ok b := by
  obtain ⟨i, hi, rfl⟩ := List.getElem_of_mem hb
  have hall := Except.mapM_eq_ok h
  have hlength : i < l.length := hall.length_eq ▸ hi
  exact ⟨l[i], List.getElem_mem hlength, hall.get hlength hi⟩

theorem Except.mapM_eq_error {ε α β : Type} {f : α → Except ε β} {l : List α} {e : ε}
    (h : l.mapM f = .error e) : ∃ a ∈ l, f a = .error e := by
  induction l with
  | nil => cases h
  | cons a l ih =>
    rw [List.mapM_cons] at h
    obtain ha | ⟨b, -, h⟩ := Except.bind_eq_error.mp h
    · exact ⟨a, List.mem_cons_self, ha⟩
    · obtain hl | ⟨rest, -, h⟩ := Except.bind_eq_error.mp h
      · obtain ⟨a', ha', he⟩ := ih hl
        exact ⟨a', List.mem_cons_of_mem _ ha', he⟩
      · cases h

theorem Except.mapM_find {α β : Type} (find : α → Option β) {g : α → Except α β}
    (hfound : ∀ a b, find a = some b → g a = .ok b) (hmissing : ∀ a, find a = none → g a = .error a)
    (l : List α) :
    l.mapM g = match l.find? fun a => (find a).isNone with
      | some a => .error a
      | none => .ok (l.filterMap find) := by
  induction l with
  | nil => rfl
  | cons a l ih =>
    rw [List.mapM_cons, ih]
    cases ha : find a with
    | none => simp [hmissing a ha, ha, bind, Except.bind]
    | some b =>
      simp only [List.find?_cons, ha, hfound a b ha, Option.isNone_some, List.filterMap_cons, bind,
        Except.bind]
      cases l.find? fun a => (find a).isNone <;> rfl

theorem Except.forM_eq_ok {ε α : Type} {f : α → Except ε Unit} {l : List α} :
    l.forM f = .ok () ↔ ∀ a ∈ l, f a = .ok () := by
  induction l with
  | nil => simp [pure, Except.pure]
  | cons a l ih =>
    change (f a >>= fun _ => l.forM f) = .ok () ↔ _
    rw [Except.andThen_eq_ok, List.forall_mem_cons, ih]

theorem Except.forM_eq_error {ε α : Type} {f : α → Except ε Unit} {l : List α} {e : ε}
    (h : l.forM f = .error e) : ∃ a ∈ l, f a = .error e := by
  induction l with
  | nil => cases h
  | cons a l ih =>
    obtain ha | ⟨-, -, hl⟩ := Except.bind_eq_error.mp h
    · exact ⟨a, List.mem_cons_self, ha⟩
    · obtain ⟨b, hb, hbe⟩ := ih hl
      exact ⟨b, List.mem_cons_of_mem _ hb, hbe⟩

theorem Except.foldlM_induction {ε α β : Type} {f : β → α → Except ε β} (P : β → Prop)
    {l : List α} {b b' : β} (hstep : ∀ a ∈ l, ∀ b b', P b → f b a = .ok b' → P b')
    (hb : P b) (h : l.foldlM f b = .ok b') : P b' := by
  induction l generalizing b with
  | nil =>
    simp only [List.foldlM_nil, pure, Except.pure, Except.ok.injEq] at h
    exact h ▸ hb
  | cons a l ih =>
    rw [List.foldlM_cons, Except.bind_eq_ok] at h
    obtain ⟨c, hc, h⟩ := h
    exact ih (fun a ha => hstep a (List.mem_cons_of_mem _ ha))
      (hstep a List.mem_cons_self b c hb hc) h

theorem Except.foldlM_total {ε α β : Type} {f : β → α → Except ε β} (P : List α → β → Prop)
    {l : List α} {b : β} (hb : P [] b)
    (hstep : ∀ done a, (done ++ [a]) <+: l → ∀ b, P done b →
      ∃ b', f b a = .ok b' ∧ P (done ++ [a]) b') :
    ∃ b', l.foldlM f b = .ok b' ∧ P l b' := by
  induction l using List.reverseRecOn with
  | nil => exact ⟨b, rfl, hb⟩
  | append_singleton l a ih =>
    obtain ⟨c, hc, hP⟩ := ih fun done x hx => hstep done x (hx.trans (List.prefix_append l [a]))
    obtain ⟨d, hd, hP'⟩ := hstep l a List.prefix_rfl c hP
    refine ⟨d, ?_, hP'⟩
    rw [List.foldlM_append, hc]
    simp [bind, Except.bind, pure, Except.pure, hd]

theorem Except.map_bind_congr {ε α β γ δ κ : Type} {x : Except ε α} {y : Except ε β}
    {f : α → Except ε γ} {g : β → Except ε δ} {s : α → κ} {t : β → κ} {κ' : Type} {s' : γ → κ'}
    {t' : δ → κ'} (hx : x.map s = y.map t) (hf : ∀ a b, s a = t b → (f a).map s' = (g b).map t') :
    (x >>= f).map s' = (y >>= g).map t' := by
  cases x with
  | error e =>
    cases y with
    | error e' => simpa [Except.map, bind, Except.bind] using hx
    | ok b => cases hx
  | ok a =>
    cases y with
    | error e' => cases hx
    | ok b => exact hf a b (Except.ok.inj hx)

theorem Except.map_foldlM_congr {ε α β γ κ : Type} {f : β → α → Except ε β}
    {g : γ → α → Except ε γ} {s : β → κ} {t : γ → κ} {l : List α}
    (hstep : ∀ a ∈ l, ∀ b c, s b = t c → (f b a).map s = (g c a).map t) {b : β} {c : γ}
    (h : s b = t c) : (l.foldlM f b).map s = (l.foldlM g c).map t := by
  induction l generalizing b c with
  | nil => exact congrArg Except.ok h
  | cons a l ih =>
    rw [List.foldlM_cons, List.foldlM_cons]
    exact Except.map_bind_congr (hstep a List.mem_cons_self b c h) fun b c h =>
      ih (fun a ha => hstep a (List.mem_cons_of_mem _ ha)) h

theorem List.mem_modify {α : Type} {l : List α} {i : Nat} {f : α → α} {b : α}
    (h : b ∈ l.modify i f) : b ∈ l ∨ ∃ a, l[i]? = some a ∧ b = f a := by
  obtain ⟨j, hj⟩ := List.getElem?_of_mem h
  rw [List.getElem?_modify] at hj
  cases ha : l[j]? with
  | none => simp [ha] at hj
  | some a =>
    by_cases hij : i = j
    · subst hij
      exact .inr ⟨a, ha, by simpa [ha] using hj.symm⟩
    · have hab : a = b := by simpa [ha, hij] using hj
      exact .inl (hab ▸ List.mem_of_getElem? ha)

theorem List.map_set_of_eq {α β : Type} {f : α → β} {l : List α} {i : Nat} {a b : α}
    (h : l[i]? = some a) (hf : f b = f a) : (l.set i b).map f = l.map f := by
  obtain ⟨hi, rfl⟩ := List.getElem?_eq_some_iff.mp h
  have hi' : i < (l.map f).length := by simpa using hi
  rw [List.map_set, hf, ← List.getElem_map f (h := hi'), List.set_getElem_self]

theorem List.map_modify_comm {α β : Type} {f : α → β} {g : α → α} {k : β → β}
    (h : ∀ a, f (g a) = k (f a)) (l : List α) (i : Nat) :
    (l.modify i g).map f = (l.map f).modify i k := by
  refine List.ext_getElem? fun j => ?_
  simp only [List.getElem?_map, List.getElem?_modify]
  cases l[j]? with
  | none => rfl
  | some a => by_cases hij : i = j <;> simp [hij, h]

theorem List.map_modify_of_eq {α β : Type} {f : α → β} {g : α → α} (h : ∀ a, f (g a) = f a)
    (l : List α) (i : Nat) : (l.modify i g).map f = l.map f :=
  (List.map_modify_comm (k := id) h l i).trans (List.modify_id i (l.map f))

theorem List.getElem?_modify_cases {α : Type} {l : List α} {i k : Nat} {f : α → α} {b : α}
    (h : (l.modify i f)[k]? = some b) :
    ∃ a, l[k]? = some a ∧ (b = a ∨ k = i ∧ b = f a) := by
  rw [List.getElem?_modify] at h
  obtain ⟨a, ha, rfl⟩ := Option.map_eq_some_iff.mp h
  refine ⟨a, ha, ?_⟩
  by_cases hik : i = k
  · exact .inr ⟨hik.symm, by simp [hik]⟩
  · exact .inl (by simp [hik])

theorem List.getElem?_set_cases {α : Type} {l : List α} {i k : Nat} {a b : α}
    (h : (l.set i a)[k]? = some b) : k = i ∧ b = a ∨ k ≠ i ∧ l[k]? = some b := by
  rw [List.getElem?_set] at h
  split at h
  · split at h
    · exact .inl ⟨Eq.symm ‹_›, by simpa using h.symm⟩
    · cases h
  · exact .inr ⟨Ne.symm ‹_›, h⟩

theorem List.mem_set_cases {α : Type} {l : List α} {i : Nat} {a b : α} (h : b ∈ l.set i a) :
    b = a ∨ ∃ k, k ≠ i ∧ l[k]? = some b := by
  obtain ⟨k, hk⟩ := List.getElem?_of_mem h
  exact (List.getElem?_set_cases hk).imp And.right fun hk => ⟨k, hk⟩

theorem List.eq_or_mem_set {α : Type} {l : List α} {i : Nat} {a b : α} (ha : l[i]? = some a)
    (hb : b ∈ l) (a' : α) : b = a ∨ b ∈ l.set i a' := by
  obtain ⟨k, hk⟩ := List.getElem?_of_mem hb
  by_cases hki : i = k
  · subst hki
    rw [ha, Option.some.injEq] at hk
    exact .inl hk.symm
  · exact .inr (List.mem_of_getElem? (i := k) (by rw [List.getElem?_set_ne hki, hk]))

theorem List.eq_of_key_eq {α β : Type} {key : α → β} {l : List α} (hn : (l.map key).Nodup)
    {i j : Nat} {a b : α} (ha : l[i]? = some a) (hb : l[j]? = some b) (h : key a = key b) :
    i = j := by
  have hi : i < (l.map key).length := by simpa using (List.getElem?_eq_some_iff.mp ha).1
  refine (List.getElem?_inj hi hn).mp ?_
  rw [List.getElem?_map, List.getElem?_map, ha, hb, Option.map_some, Option.map_some, h]

theorem List.mem_modify_of_nodup {α β : Type} {key : α → β} {l : List α}
    (hn : (l.map key).Nodup) {i : Nat} {a b : α} (ha : l[i]? = some a) {f : α → α}
    (hb : b ∈ l.modify i f) : b = f a ∨ b ∈ l ∧ key b ≠ key a := by
  obtain ⟨j, hj⟩ := List.getElem?_of_mem hb
  rw [List.getElem?_modify] at hj
  obtain ⟨c, hc, rfl⟩ := Option.map_eq_some_iff.mp hj
  by_cases hij : i = j
  · subst hij
    rw [ha, Option.some.injEq] at hc
    exact .inl (by simp [hc])
  · refine .inr ⟨by simpa [hij] using List.mem_of_getElem? hc, fun heq => hij ?_⟩
    exact (List.eq_of_key_eq hn hc ha (by simpa [hij] using heq)).symm

theorem List.flatMap_filter {α β : Type} (l : List α) (p : α → Bool) (f : α → List β) :
    (l.filter p).flatMap f = l.flatMap fun a => if p a then f a else [] := by
  induction l with
  | nil => rfl
  | cons a l ih => by_cases h : p a <;> simp [h, ih]

theorem List.filterMap_flatMap_of_toList {α β γ : Type} {f : α → List β} {g : β → Option γ}
    {k : α → Option γ} (h : ∀ a, (f a).filterMap g = (k a).toList) (l : List α) :
    (l.flatMap f).filterMap g = l.filterMap k := by
  rw [List.filterMap_flatMap, List.filterMap_eq_flatMap_toList]
  exact List.flatMap_congr fun a _ => h a

theorem List.filter_eq_of_nodup {α : Type} [DecidableEq α] {l : List α} (hn : l.Nodup) (a : α) :
    (l.filter fun b => decide (b = a)) = if a ∈ l then [a] else [] := by
  rw [List.filter_eq]
  split
  · rw [List.count_eq_one_of_mem hn ‹_›]
    rfl
  · rw [List.count_eq_zero.mpr ‹_›]
    rfl

theorem List.flatMap_perm_range {α : Type} {l : List α} {f : α → List Nat} {n : Nat}
    (hnodup : ∀ a ∈ l, (f a).Nodup)
    (hplace : ∀ (i j : Nat) a b c, l[i]? = some a → l[j]? = some b → c ∈ f a → c ∈ f b → i = j)
    (hmem : ∀ c, (∃ a ∈ l, c ∈ f a) ↔ c < n) : (l.flatMap f).Perm (List.range n) := by
  refine (List.perm_ext_iff_of_nodup ?_ List.nodup_range).mpr fun c => ?_
  · refine List.nodup_flatMap.mpr ⟨hnodup, List.pairwise_iff_getElem.mpr ?_⟩
    intro i j hi hj hij c hc hc'
    refine absurd (hplace i j _ _ c ?_ ?_ hc hc') hij.ne
    · exact List.getElem?_eq_getElem hi
    · exact List.getElem?_eq_getElem hj
  · rw [List.mem_flatMap, hmem, List.mem_range]

theorem List.flatMap_perm_flatMap_range {α β : Type} {l : List α} {f : α → List β}
    {g : Nat → List β} (h : ∀ i a, l[i]? = some a → (f a).Perm (g i)) :
    (l.flatMap f).Perm ((List.range l.length).flatMap g) := by
  induction l using List.reverseRecOn with
  | nil => simp
  | append_singleton l a ih =>
    have hinit : (l.flatMap f).Perm ((List.range l.length).flatMap g) := by
      refine ih fun i b hb => h i b ?_
      rw [List.getElem?_append_left (List.getElem?_eq_some_iff.mp hb).1, hb]
    have hlast : (f a).Perm (g l.length) := h l.length a (by simp)
    simpa [List.range_succ] using hinit.append hlast

theorem List.eraseDups_concat {α : Type} [BEq α] [LawfulBEq α] (l : List α) (a : α) :
    (l ++ [a]).eraseDups = if l.contains a then l.eraseDups else l.eraseDups ++ [a] := by
  rw [List.eraseDups_append]
  by_cases h : a ∈ l <;> simp [List.removeAll, List.eraseDups_cons, h]

theorem List.nodup_eraseDups {α : Type} [BEq α] [LawfulBEq α] (l : List α) : l.eraseDups.Nodup := by
  induction l using List.reverseRecOn with
  | nil => simp
  | append_singleton l a ih =>
    rw [List.eraseDups_concat]
    split
    · exact ih
    · rename_i ha
      refine List.nodup_append.mpr ⟨ih, List.nodup_singleton a, ?_⟩
      rintro b hb c hc rfl
      rw [List.mem_singleton] at hc
      simp [← hc, List.mem_eraseDups.mp hb] at ha

theorem List.forall₂_getElem? {α β : Type} {R : α → β → Prop} {l : List α} {l' : List β}
    (h : List.Forall₂ R l l') {i : Nat} {b : β} (hb : l'[i]? = some b) :
    ∃ a, l[i]? = some a ∧ R a b := by
  obtain ⟨hi, rfl⟩ := List.getElem?_eq_some_iff.mp hb
  have hi' : i < l.length := h.length_eq ▸ hi
  exact ⟨l[i], List.getElem?_eq_getElem hi', h.get hi' hi⟩

theorem List.forall₂_mem {α β : Type} {R : α → β → Prop} {l : List α} {l' : List β}
    (h : List.Forall₂ R l l') {b : β} (hb : b ∈ l') : ∃ a ∈ l, R a b := by
  obtain ⟨i, hi⟩ := List.getElem?_of_mem hb
  obtain ⟨a, ha, hab⟩ := List.forall₂_getElem? h hi
  exact ⟨a, List.mem_of_getElem? ha, hab⟩

theorem List.forall₂_append_cons {α β : Type} {R : α → β → Prop} {l : List α} {front back : List β}
    {b : β} (h : List.Forall₂ R l (front ++ b :: back)) : ∃ front' a back', l = front' ++ a :: back' ∧
      List.Forall₂ R front' front ∧ R a b ∧ List.Forall₂ R back' back := by
  have hfront := List.forall₂_take_append l front (b :: back) h
  have hback := List.forall₂_drop_append l front (b :: back) h
  obtain ⟨a, back', hab, hrest, hdrop⟩ := List.forall₂_cons_right_iff.mp hback
  exact ⟨_, a, back', by rw [← hdrop, List.take_append_drop], hfront, hab, hrest⟩

theorem List.forall₂_modify {α : Type} {R : α → α → Prop} {l : List α} {f : α → α}
    (hself : ∀ a ∈ l, R a a) (hf : ∀ a ∈ l, R a (f a)) (i : Nat) :
    List.Forall₂ R l (l.modify i f) := by
  refine List.forall₂_iff_get.mpr ⟨by simp, fun k hk hk' => ?_⟩
  simp only [List.get_eq_getElem, List.getElem_modify]
  split
  · exact hf _ (List.getElem_mem hk)
  · exact hself _ (List.getElem_mem hk)

theorem List.forall₂_set {α : Type} {R : α → α → Prop} {l : List α} (hself : ∀ a ∈ l, R a a)
    {i : Nat} {a b : α} (ha : l[i]? = some a) (hab : R a b) : List.Forall₂ R l (l.set i b) := by
  refine List.forall₂_iff_get.mpr ⟨by simp, fun k hk hk' => ?_⟩
  obtain ⟨hi, rfl⟩ := List.getElem?_eq_some_iff.mp ha
  simp only [List.get_eq_getElem, List.getElem_set]
  split
  · subst i
    exact hab
  · exact hself _ (List.getElem_mem hk)

theorem List.sum_map_set {α : Type} {l : List α} {i : Nat} {a : α} (f : α → Nat)
    (ha : l[i]? = some a) (b : α) : ((l.set i b).map f).sum + f a = (l.map f).sum + f b := by
  induction l generalizing i with
  | nil => simp at ha
  | cons c l ih =>
    cases i with
    | zero =>
      obtain rfl : c = a := by simpa using ha
      simp only [List.set_cons_zero, List.map_cons, List.sum_cons]
      omega
    | succ i =>
      have := ih (i := i) (by simpa using ha)
      simp only [List.set_cons_succ, List.map_cons, List.sum_cons]
      omega

/-- How many places it is from `a` on to `k`, round a ring of `n` places. -/
def ringDistance (n a k : Nat) : Nat :=
  (k + (n - a % n)) % n

section Ring

variable {n a k m : Nat}

theorem ringDistance_lt (hk : k < n) : ringDistance n a k < n :=
  Nat.mod_lt _ (by omega)

theorem ringDistance_of_le (hk : k < n) (h : a % n ≤ k) : ringDistance n a k = k - a % n := by
  have hsum : k + (n - a % n) = k - a % n + n := by omega
  rw [ringDistance, hsum, Nat.add_mod_right, Nat.mod_eq_of_lt (by omega)]

theorem ringDistance_of_lt (hk : k < n) (h : k < a % n) :
    ringDistance n a k = k + n - a % n := by
  have hlt : a % n < n := Nat.mod_lt a (by omega)
  rw [ringDistance, Nat.mod_eq_of_lt (by omega)]
  omega

theorem add_ringDistance_mod (hk : k < n) : (a + ringDistance n a k) % n = k := by
  rw [← Nat.mod_add_mod]
  rcases Nat.lt_or_ge k (a % n) with h | h
  · have hlt : a % n < n := Nat.mod_lt a (by omega)
    rw [ringDistance_of_lt hk h, show a % n + (k + n - a % n) = k + n by omega, Nat.add_mod_right,
      Nat.mod_eq_of_lt hk]
  · rw [ringDistance_of_le hk h, Nat.add_sub_of_le h, Nat.mod_eq_of_lt hk]

/-- Who goes on towards a place, and not past it, comes nearer. -/
theorem ringDistance_add (hk : k < n) (hm : m ≤ ringDistance n a k) :
    ringDistance n ((a + m) % n) k = ringDistance n a k - m := by
  have hlt : a % n < n := Nat.mod_lt a (by omega)
  rw [← Nat.mod_add_mod]
  rcases Nat.lt_or_ge k (a % n) with h | h
  · rw [ringDistance_of_lt hk h] at hm ⊢
    rcases Nat.lt_or_ge (a % n + m) n with hround | hround
    · rw [Nat.mod_eq_of_lt hround, ringDistance_of_lt hk (by rw [Nat.mod_eq_of_lt hround]; omega),
        Nat.mod_eq_of_lt hround]
      omega
    · have hback : (a % n + m) % n = a % n + m - n := by
        rw [Nat.mod_eq_sub_mod hround, Nat.mod_eq_of_lt (by omega)]
      rw [ringDistance_of_le hk (by rw [Nat.mod_mod, hback]; omega), Nat.mod_mod, hback]
      omega
  · rw [ringDistance_of_le hk h] at hm ⊢
    have hround : (a % n + m) % n = a % n + m := Nat.mod_eq_of_lt (by omega)
    rw [ringDistance_of_le hk (by rw [Nat.mod_mod, hround]; omega), Nat.mod_mod, hround]
    omega

end Ring

end Sluice
