import Mathlib.Data.Int.CardIntervalMod
import Sluice.Proofs.Border.Split
import Sluice.Proofs.Prelude

/-!
Which rows go where, and how many. Rows that are dealt go by the remainders of their places, so the
shares differ by one row at most. The shares of the channels of a hop add up to the rows of the hop, and
the rows of all hops add up to the rows sent out if each of these is for one hop only.
-/

namespace Sluice

namespace Emission

/-- No row for one hop alone. -/
def Unaimed (e : Emission) : Prop :=
  e.isSpread = true ∨ e.row? = none

/-- A row for one of so many hops alone, if it is a row. -/
def Aimed (hops : Nat) : Emission → Prop
  | .row none _ => False
  | .row (some h) _ => h < hops
  | .fault _ => True

theorem length_rows_faults (out : List Emission) :
    (out.filterMap (·.row?)).length + (out.filterMap (·.fault?)).length = out.length := by
  induction out with
  | nil => rfl
  | cons e out ih =>
    rw [List.length_cons, ← ih]
    cases e <;> simp [row?, fault?] <;> omega

theorem length_rows {out : List Emission} (h : ∀ e ∈ out, e.isSpread = true) :
    (out.filterMap (·.row?)).length = out.length := by
  have hnone : out.filterMap (·.fault?) = [] := List.filterMap_eq_nil_iff.mpr fun e he => by
    have := h e he
    cases e <;> simp_all [isSpread, fault?]
  rw [← length_rows_faults, hnone, List.length_nil, Nat.add_zero]

end Emission

theorem deal_one (turn : Nat) (rows : List Row) : deal 1 0 turn rows = rows := by
  induction rows generalizing turn with
  | nil => rfl
  | cons row rows ih => simp [deal, ih, Nat.mod_one]

theorem deal_sublist (channels i turn : Nat) (rows : List Row) :
    (deal channels i turn rows).Sublist rows := by
  induction rows generalizing turn with
  | nil => exact .slnil
  | cons row rows ih =>
    rw [deal]
    split
    · exact (ih (turn + 1)).cons_cons row
    · exact (ih (turn + 1)).cons row

theorem hopRows_sublist (shared : Bool) (hops hop turn : Nat) (out : List Emission) :
    (hopRows shared hops hop turn out).Sublist (out.filterMap (·.row?)) := by
  induction out generalizing turn with
  | nil => exact .slnil
  | cons e out ih =>
    rw [hopRows]
    cases e with
    | row target row =>
      simp only [Emission.row?_row, List.filterMap_cons, Option.toList_some]
      split
      · exact (ih _).cons_cons row
      · exact (ih _).cons row
    | fault message => simpa [Emission.isFor, Emission.isSpread, List.filterMap_cons] using ih turn

theorem deal_concat (channels i turn : Nat) (rows : List Row) (row : Row) :
    deal channels i turn (rows ++ [row]) =
      deal channels i turn rows ++ if (turn + rows.length) % channels = i then [row] else [] := by
  simp [deal_append, deal]

def rowsAt (at_place : Nat → Bool) (rows : List Row) : List Row :=
  (rows.zipIdx.filter fun q => at_place q.2).map (·.1)

theorem rowsAt_concat (at_place : Nat → Bool) (rows : List Row) (row : Row) :
    rowsAt at_place (rows ++ [row]) =
      rowsAt at_place rows ++ if at_place rows.length then [row] else [] := by
  cases h : at_place rows.length <;> simp [rowsAt, List.zipIdx_append, h]

/-- A channel gets the rows whose places leave its number as the remainder. -/
theorem deal_eq_rowsAt (channels i : Nat) (rows : List Row) :
    deal channels i 0 rows = rowsAt (fun k => k % channels = i) rows := by
  induction rows using List.reverseRecOn with
  | nil => rfl
  | append_singleton rows row ih => simp [deal_concat, rowsAt_concat, ih]

theorem length_deal (channels i : Nat) (rows : List Row) :
    (deal channels i 0 rows).length = Nat.count (fun k => k % channels = i) rows.length := by
  induction rows using List.reverseRecOn with
  | nil => rfl
  | append_singleton rows row ih =>
    rw [deal_concat, List.length_append, ih, List.length_append, List.length_singleton,
      Nat.count_succ, Nat.zero_add]
    split <;> rfl

/-- How many of the first places leave this remainder: one for every full round, and one more if it has
come up in the last round. -/
theorem count_mod {n i : Nat} (h : i < n) (k : Nat) :
    Nat.count (fun j => j % n = i) k = k / n + if i < k % n then 1 else 0 := by
  have hmod : Nat.count (fun j => j % n = i) k = Nat.count (· ≡ i [MOD n]) k := by
    simp only [Nat.ModEq, Nat.mod_eq_of_lt h]
  rw [hmod, Nat.count_modEq_card _ (by omega), Nat.mod_eq_of_lt h]

theorem deal_deal {hops hop : Nat} (h : hop < hops) (channels i : Nat) (rows : List Row) :
    deal channels i 0 (deal hops hop 0 rows) =
      rowsAt (fun k => k % hops = hop ∧ k / hops % channels = i) rows := by
  induction rows using List.reverseRecOn with
  | nil => rfl
  | append_singleton rows row ih =>
    rw [deal_concat, rowsAt_concat, ← ih, Nat.zero_add]
    by_cases hturn : rows.length % hops = hop
    · have hbefore : (deal hops hop 0 rows).length = rows.length / hops := by
        simp [length_deal, count_mod h, hturn]
      simp [hturn, deal_concat, hbefore]
    · simp [hturn]

theorem length_deal_near {channels i j : Nat} (hi : i < channels) (hj : j < channels)
    (rows : List Row) :
    (deal channels i 0 rows).length ≤ (deal channels j 0 rows).length + 1 := by
  rw [length_deal, length_deal, count_mod hi, count_mod hj]
  split <;> omega

theorem flatMap_deal_perm {channels : Nat} (h : 0 < channels) (rows : List Row) :
    ((List.range channels).flatMap fun i => deal channels i 0 rows).Perm rows := by
  induction rows using List.reverseRecOn with
  | nil => simp [deal]
  | append_singleton rows row ih =>
    have hone : ((List.range channels).flatMap fun i =>
        if rows.length % channels = i then [row] else []) = [row] := by
      have := List.flatMap_filter (List.range channels) (fun i => decide (i = rows.length % channels))
        fun _ => [row]
      rw [List.filter_eq_of_nodup List.nodup_range,
        if_pos (List.mem_range.mpr (Nat.mod_lt _ h))] at this
      simpa [eq_comm] using this.symm
    simp only [deal_concat, Nat.zero_add]
    refine (List.flatMap_append_perm _ _ _).symm.trans ?_
    rw [hone]
    exact ih.append_right _

theorem hopRows_unaimed {out : List Emission} (h : ∀ e ∈ out, e.Unaimed)
    (shared : Bool) (hops hop turn : Nat) :
    hopRows shared hops hop turn out =
      if shared then deal hops hop turn (out.filterMap (·.row?)) else out.filterMap (·.row?) := by
  induction out generalizing turn with
  | nil => cases shared <;> rfl
  | cons e out ih =>
    obtain ⟨he, hout⟩ := List.forall_mem_cons.mp h
    rw [hopRows, ih hout]
    rcases e with ⟨_ | target, row⟩ | message
    · cases shared <;> simp [Emission.isFor, Emission.isSpread, deal]
    · simp [Emission.Unaimed, Emission.isSpread] at he
    · rfl

theorem hopRows_spread (shared : Bool) (hops hop turn : Nat) (rows : List Row) :
    hopRows shared hops hop turn (rows.map (.row none)) =
      if shared then deal hops hop turn rows else rows := by
  have hrows : (rows.map (Emission.row none)).filterMap (·.row?) = rows := by
    simp [List.filterMap_map, Function.comp_def]
  rw [hopRows_unaimed (by simp [Emission.Unaimed, Emission.isSpread]), hrows]

theorem hopRows_unshared (hops hop turn : Nat) (out : List Emission) :
    hopRows false hops hop turn out =
      out.filterMap fun e => if e.isFor false hops 0 hop then e.row? else none := by
  induction out generalizing turn with
  | nil => rfl
  | cons e out ih =>
    have hturn : e.isFor false hops turn hop = e.isFor false hops 0 hop := by
      rcases e with ⟨_ | target, row⟩ | message <;> rfl
    rw [hopRows, ih, hturn, List.filterMap_cons]
    cases e.isFor false hops 0 hop with
    | false => rfl
    | true => cases e <;> rfl

theorem sum_hopRows {shared : Bool} {hops : Nat} {out : List Emission}
    (h : ∀ e ∈ out, e.Aimed hops ∨ shared = true ∧ 0 < hops ∧ e.Unaimed) (turn : Nat) :
    ∑ hop ∈ Finset.range hops, (hopRows shared hops hop turn out).length =
      (out.filterMap (·.row?)).length := by
  induction out generalizing turn with
  | nil => simp [hopRows]
  | cons e out ih =>
    obtain ⟨he, hout⟩ := List.forall_mem_cons.mp h
    have hone (target : Nat) (row : Row) (hlt : target < hops) :
        ∑ hop ∈ Finset.range hops, (if target = hop then [row] else []).length = 1 := by
      have hlen (hop : Nat) :
          (if target = hop then [row] else []).length = if target = hop then 1 else 0 := by
        split <;> rfl
      simp [hlen, hlt]
    simp only [hopRows, List.length_append, Finset.sum_add_distrib, ih hout]
    cases e with
    | row target row =>
      cases target with
      | none =>
        obtain ⟨rfl, hpos, -⟩ := he.resolve_left id
        have := hone (turn % hops) row (Nat.mod_lt turn hpos)
        simp only [Emission.isFor, Emission.row?, List.filterMap_cons, Option.toList_some,
          Bool.not_true, Bool.false_or, beq_iff_eq, List.length_cons]
        omega
      | some target =>
        have hlt : target < hops := he.elim id fun hs => by
          simp [Emission.Unaimed, Emission.isSpread, Emission.row?] at hs
        have := hone target row hlt
        simp only [Emission.isFor, Emission.row?, List.filterMap_cons, Option.toList_some,
          beq_iff_eq, List.length_cons]
        omega
    | fault => simp [Emission.isFor, Emission.row?]

theorem Outlet.Sent.perm {o : Outlet} {put : Nat → List Row} {rows : List Row}
    (h : o.Sent put rows) (hne : o.channels ≠ []) : (o.channels.flatMap put).Perm rows :=
  (List.flatMap_perm_flatMap_range fun i c hc => .of_eq (h.put i c hc)).trans
    (flatMap_deal_perm (List.length_pos_iff.mpr hne) rows)

theorem Outlet.Sent.total {o : Outlet} {put : Nat → List Row} {rows : List Row}
    (h : o.Sent put rows) (hne : o.channels ≠ []) :
    (o.channels.map fun c => (put c).length).sum = rows.length := by
  simpa [List.length_flatMap] using (h.perm hne).length_eq

namespace Border

variable {p : Border} {out : List Emission} {put : Nat → List Row}

theorem AtRest.total_spread (h : p.AtRest out put) (unshared : p.shares = false)
    (unaimed : ∀ e ∈ out, e.Unaimed) {o : Outlet} (ho : o ∈ p.outputs) (hne : o.channels ≠ []) :
    (o.channels.map fun c => (put c).length).sum = (out.filterMap (·.row?)).length := by
  obtain ⟨hop, hhop⟩ := List.getElem?_of_mem ho
  rw [(h.hops hop o hhop).total hne, rowsTo, unshared, hopRows_unaimed unaimed,
    if_neg Bool.false_ne_true]

theorem AtRest.total_single (h : p.AtRest out put) (hne : ∀ o ∈ p.outputs, o.channels ≠ [])
    (single : ∀ e ∈ out, e.Aimed p.outputs.length ∨ p.shares = true ∧ e.Unaimed) :
    (p.outputChannels.map fun c => (put c).length).sum = (out.filterMap (·.row?)).length := by
  have hhops : (p.outputs.map fun o => (o.channels.map fun c => (put c).length).sum) =
      (List.range p.outputs.length).map fun hop => (p.rowsTo out hop).length := by
    refine List.ext_getElem (by simp) fun hop hi _ => ?_
    have hlt : hop < p.outputs.length := by simpa using hi
    have ho := List.getElem?_eq_getElem hlt
    simpa using (h.hops hop _ ho).total (hne _ (List.mem_of_getElem? ho))
  have hpos (hs : p.shares = true) : 0 < p.outputs.length := by
    simp only [shares, Bool.and_eq_true, decide_eq_true_eq] at hs
    omega
  calc (p.outputChannels.map fun c => (put c).length).sum
      = (p.outputs.map fun o => (o.channels.map fun c => (put c).length).sum).sum := by
        simp [outputChannels, List.flatMap_def, List.sum_flatten,
          Function.comp_def]
    _ = ∑ hop ∈ Finset.range p.outputs.length, (p.rowsTo out hop).length := by
        rw [hhops]
        rfl
    _ = (out.filterMap (·.row?)).length :=
        sum_hopRows (fun e he => (single e he).imp_right fun hs => ⟨hs.1, hpos hs.1, hs.2⟩) 0

end Border

end Sluice
