import Sluice.Proofs.Step.Order
import Sluice.Proofs.Step.Rows

/-!
The steps that do not handle rows one after another: emitting a constant row, and concatenating
streams. A concatenation reads each of its inputs to the end before it touches the next one.
-/

namespace Sluice

variable {site : Site}

namespace Generate

/-- As many copies of the row as were emitted, and no more than the limit. -/
def contract (row : Row) (limit : Option Nat) : Contract Memory where
  loop m j :=
    m.row = some row ∧ m.limit = limit ∧ j.got = [] ∧
      j.out = List.replicate m.emitted (.row none row) ∧ ∀ l ∈ limit, m.emitted ≤ l
  finished j := ∃ l, limit = some l ∧ j.got = [] ∧ j.out = List.replicate l (.row none row)

theorem emit_meets {row : Row} {limit : Option Nat} (hsite : site.inputs = 0) (n : Nat) {m : Memory}
    {j : Journal} (h : (contract row limit).loop m j) :
    (emit row n).Meets site m j ((contract row limit).After site) := by
  induction n generalizing m j with
  | zero =>
    unfold emit
    refine Work.meets_bind (Work.meets_isStopping ?_ fun j' hj hs => ?_)
    · exact Work.meets_pure h
    · exact Work.meets_fail hs
  | succ n ih =>
    obtain ⟨hrow, rfl, hgot, hout, hle⟩ := h
    unfold emit
    refine Work.meets_bind (Work.meets_get ?_)
    by_cases hl : m.limit.any (· ≤ m.emitted) = true
    · simp only [hl, if_true]
      refine Work.meets_pure ⟨fun k hk => by omega, ?_⟩
      rcases hlim : m.limit with _ | l
      · simp [hlim] at hl
      · have := hle l hlim
        have hlt : l ≤ m.emitted := by simpa [hlim] using hl
        exact ⟨l, rfl, hgot, by rw [hout, show m.emitted = l by omega]⟩
    · simp only [hl]
      refine Work.meets_bind (Work.meets_putRow (Work.meets_bind (Work.meets_modify
        (ih ⟨hrow, rfl, hgot, ?_, fun l hlim => ?_⟩))))
      · simp [Journal.emit, hout, List.replicate_succ']
      · have hlt : ¬ l ≤ m.emitted := fun hlt => hl (by
          rw [Option.mem_def] at hlim
          simpa [hlim] using hlt)
        dsimp only
        omega

theorem behaviour_keeps (hsite : site.inputs = 0) (row : Row) (limit : Option Nat) :
    behaviour.Keeps site (contract row limit) := by
  refine ⟨fun m j j' hj ⟨h1, h2, h3, h4, h5⟩ => ⟨h1, h2, by rw [hj.got, h3], by rw [hj.out, h4], h5⟩,
    fun batchRows m j hl => ?_⟩
  show (process ⟨batchRows, site.inputs⟩).Meets site m j _
  unfold process
  refine Work.meets_bind (Work.meets_get ?_)
  simp only [hl.1]
  exact emit_meets hsite batchRows hl

end Generate

namespace Append

/-- The turn of an input comes when all inputs before it have ended. -/
def Turn (order : List Nat) (i : Nat) (j : Journal) : Prop :=
  order.Pairwise fun k i' => i' = i → j.ended k

/-- The inputs before the current one have ended, and nothing of those behind it was read. -/
structure Reading (order : List Nat) (current : Nat) (j : Journal) : Prop where
  within : current ≤ order.length
  ended : ∀ k ∈ order.take current, j.ended k
  read : j.got.map (·.2) = (order.take (current + 1)).flatMap j.from
  unread : ∀ k, k ∉ order.take (current + 1) → j.from k = []
  out : j.out = (j.got.map (·.2)).map (.row none)

/-- Between batches: the order resolved for the inputs there are, and how far it has been read. -/
def contract (n : Nat) (order : List Nat) : Contract Memory where
  loop m j :=
    (if m.resolved then m.order = cover n order else m.order = order) ∧
      Reading (cover n order) m.current j
  finished j := j.out = ((cover n order).flatMap j.from).map (.row none)

variable {order : List Nat} {current : Nat} {j j' : Journal}

theorem Reading.grows (h : Reading order current j) (hj : j.Grows j') :
    Reading order current j' := by
  refine ⟨h.within, fun k hk => hj.ended k (h.ended k hk), ?_, fun k hk => ?_, ?_⟩
  · rw [hj.got, h.read]
    exact List.flatMap_congr fun k _ => (hj.from k).symm
  · rw [hj.from, h.unread k hk]
  · rw [hj.out, hj.got, h.out]

theorem Reading.turn (h : Reading order current j) (hn : order.Nodup) {i : Nat} {rest : List Nat}
    (hi : order.drop current = i :: rest) : Turn order i j := by
  refine List.pairwise_iff_getElem.mpr fun a b ha hb hab he => h.ended _ ?_
  have hcur : order[current]? = some order[b] := by
    rw [← List.head?_drop, hi, List.head?_cons, he]
  obtain ⟨hlt, hcur⟩ := List.getElem?_eq_some_iff.mp hcur
  have hb : current = b := (hn.getElem_inj_iff).mp hcur
  exact List.mem_take_iff_getElem.mpr ⟨a, by omega, rfl⟩

theorem Reading.row (h : Reading order current j) (hn : order.Nodup) {i : Nat} {rest : List Nat}
    (hi : order.drop current = i :: rest) (row : Row) :
    Reading order current ((j.take i row).emit (.row none row)) := by
  have hcur : order[current]? = some i := by
    rw [← List.head?_drop, hi, List.head?_cons]
  have htake : order.take (current + 1) = order.take current ++ [i] := by
    rw [List.take_add_one, hcur, Option.toList_some]
  have hnot : i ∉ order.take current := by
    intro hm
    have := (List.nodup_append.mp (htake ▸ (List.take_sublist _ _).nodup hn)).2.2
    exact this i hm i (List.mem_singleton_self i) rfl
  have hfrom (k : Nat) : ((j.take i row).emit (.row none row)).from k =
      j.from k ++ if i = k then [row] else [] := j.from_take i k row
  refine ⟨h.within, h.ended, ?_, fun k hk => ?_, ?_⟩
  · have hold : (order.take current).flatMap ((j.take i row).emit (.row none row)).from =
        (order.take current).flatMap j.from := by
      refine List.flatMap_congr fun k hk => ?_
      have hik : i ≠ k := fun he => hnot (he ▸ hk)
      simp [hfrom, hik]
    have hread := h.read
    rw [htake, List.flatMap_append, List.flatMap_singleton] at hread ⊢
    rw [hold, hfrom, if_pos rfl, ← List.append_assoc, ← hread]
    simp [Journal.take, Journal.emit]
  · have hik : i ≠ k := by
      rintro rfl
      exact hk (htake ▸ List.mem_append_right _ (List.mem_singleton_self i))
    simp [hfrom, hik, h.unread k hk]
  · simp [Journal.take, Journal.emit, h.out]

theorem Reading.next (h : Reading order current j) (hn : order.Nodup) {i : Nat} {rest : List Nat}
    (hi : order.drop current = i :: rest) (hend : j.ended i) : Reading order (current + 1) j := by
  have hlt : current < order.length := by
    by_contra hge
    rw [List.drop_eq_nil_of_le (by omega)] at hi
    cases hi
  have hcur : order[current]? = some i := by
    rw [← List.head?_drop, hi, List.head?_cons]
  refine ⟨by omega, fun k hk => ?_, ?_, fun k hk => h.unread k fun hm => ?_, h.out⟩
  · rw [List.take_add_one, hcur, Option.toList_some] at hk
    rcases List.mem_append.mp hk with hk | hk
    · exact h.ended k hk
    · exact List.mem_singleton.mp hk ▸ hend
  · rw [List.take_add_one (i := current + 1), List.flatMap_append, ← h.read]
    rcases hnext : order[current + 1]? with _ | k
    · simp
    · have hk : k ∉ order.take (current + 1) := by
        intro hm
        have hnd := (List.take_sublist (current + 2) order).nodup hn
        rw [List.take_add_one (i := current + 1), hnext, Option.toList_some] at hnd
        exact (List.nodup_append.mp hnd).2.2 k hm k (List.mem_singleton_self k) rfl
      simp [h.unread k hk]
  · exact hk (List.take_subset_take_left order (by omega) hm)

theorem moveFrom_meets (hasks : ∀ i j, Turn order i j → site.asks (some i) j) (hn : order.Nodup)
    (hin : ∀ k ∈ order, k < site.inputs)
    {m : Memory} {i : Nat} {rest : List Nat} (hi : order.drop current = i :: rest) (n : Nat)
    (h : Reading order current j) :
    (moveFrom i n).Meets site m j fun r m' j' =>
      m' = m ∧ Reading order current j' ∧ ∀ left ∈ r, j'.ended i := by
  induction n generalizing j with
  | zero => exact Work.meets_pure ⟨rfl, h, by simp⟩
  | succ n ih =>
    have hlt : i < site.inputs := hin i (List.mem_of_mem_drop (hi ▸ List.mem_cons_self))
    unfold moveFrom
    refine Work.meets_bind (Work.meets_getRowFrom (fun j' hj => hasks i j' ((h.grows hj).turn hn hi))
      (fun j' row hj _ _ => ?_) fun j' hj hend => ?_)
    · exact Work.meets_bind (Work.meets_putRow (ih ((h.grows hj).row hn hi row)))
    · exact Work.meets_pure ⟨rfl, h.grows hj, fun _ _ => hend hlt⟩

theorem moveInOrder_meets (hasks : ∀ i j, Turn order i j → site.asks (some i) j)
    (hn : order.Nodup) (hin : ∀ k, k ∈ order ↔ k < site.inputs) {m : Memory} {rest : List Nat} (n : Nat)
    (hrest : order.drop m.current = rest) (h : Reading order m.current j) :
    (moveInOrder rest n).Meets site m j fun r m' j' =>
      match r with
      | .more => m'.order = m.order ∧ m'.resolved = m.resolved ∧ Reading order m'.current j'
      | .finished => j'.AllEnded site ∧ j'.out = (order.flatMap j'.from).map (.row none) := by
  induction rest generalizing m j n with
  | nil =>
    unfold moveInOrder
    by_cases hzero : n = 0
    · simp only [hzero, if_true]
      exact Work.meets_pure ⟨rfl, rfl, h⟩
    · simp only [hzero, if_false]
      have hle : order.length ≤ m.current := List.drop_eq_nil_iff.mp hrest
      refine Work.meets_pure ⟨fun k hk => h.ended k ?_, ?_⟩
      · rw [List.take_of_length_le hle]
        exact (hin k).mpr hk
      · rw [h.out, h.read, List.take_of_length_le (by omega)]
  | cons i rest ih =>
    unfold moveInOrder
    refine Work.meets_bind ((moveFrom_meets hasks hn (fun k => (hin k).mp) hrest n h).mono ?_)
    rintro (_ | left) m' j' ⟨rfl, hread, hend⟩
    · exact Work.meets_pure ⟨rfl, rfl, hread⟩
    · refine Work.meets_bind (Work.meets_modify ?_)
      refine (ih left ?_ (hread.next hn hrest (hend left rfl))).mono fun r m'' j'' hr => ?_
      · rw [← List.tail_drop, hrest, List.tail_cons]
      · cases r with
        | more => exact hr
        | finished => exact hr

theorem behaviour_keeps {k : Nat}
    (hasks : ∀ i j, Turn (cover site.inputs order) i j → site.asks (some i) j)
    (h : order.Perm (List.range k)) :
    behaviour.Keeps site (contract site.inputs order) := by
  have hperm := cover_perm site.inputs h
  have hn : (cover site.inputs order).Nodup := hperm.nodup_iff.mpr List.nodup_range
  have hin (k : Nat) : k ∈ cover site.inputs order ↔ k < site.inputs :=
    hperm.mem_iff.trans List.mem_range
  refine ⟨fun m j j' hj ⟨h1, h2⟩ => ⟨h1, h2.grows hj⟩, fun batchRows m j hl => ?_⟩
  show (process ⟨batchRows, site.inputs⟩).Meets site m j _
  unfold process
  refine Work.meets_bind (Work.meets_modify (Work.meets_bind (Work.meets_get ?_)))
  obtain ⟨horder, hread⟩ := hl
  obtain ⟨m', hm', hres, hord, hcur⟩ : ∃ m' : Memory, m' = (if m.resolved = true then m else
      { m with order := cover site.inputs m.order, resolved := true }) ∧ m'.resolved = true ∧
      m'.order = cover site.inputs order ∧ m'.current = m.current := by
    by_cases hr : m.resolved = true
    · refine ⟨m, by simp [hr], hr, ?_, rfl⟩
      simpa [hr] using horder
    · refine ⟨_, rfl, by simp [hr], ?_, by simp [hr]⟩
      have : m.order = order := by simpa [hr] using horder
      simp [hr, this]
  rw [← hm']
  rw [← hcur] at hread
  rw [hord]
  refine (moveInOrder_meets hasks hn hin batchRows rfl hread).mono fun r m'' j' hr => ?_
  cases r with
  | more =>
    obtain ⟨h1, h2, h3⟩ := hr
    refine ⟨?_, h3⟩
    rw [h2, hres, if_pos rfl, h1, hord]
  | finished => exact hr

end Append

end Sluice
