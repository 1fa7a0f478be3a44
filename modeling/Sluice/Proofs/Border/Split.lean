import Sluice.Proofs.Border.Steps
import Sluice.Proofs.Net.Ledger
import Sluice.Proofs.Step.Logic

/-!
How the rows that a step sends out are divided among its output hops, and the rows of a hop among
its channels. What a unit does row by row, with the turns it keeps, comes to the same.
-/

namespace Sluice

namespace Emission

def isSpread : Emission → Bool
  | .row none _ => true
  | _ => false

def row? : Emission → Option Row
  | .row _ r => some r
  | .fault _ => none

def fault? : Emission → Option String
  | .row _ _ => none
  | .fault message => some message

@[simp] theorem row?_row (hop : Option Nat) (r : Row) : (Emission.row hop r).row? = some r := rfl

@[simp] theorem row?_fault (message : String) : (Emission.fault message).row? = none := rfl

/-- Whether a hop has a share in it, when its turn is this one of so many hops. -/
def isFor (shared : Bool) (hops : Nat) (turn hop : Nat) : Emission → Bool
  | .row none _ => !shared || turn % hops == hop
  | .row (some h) _ => h == hop
  | .fault _ => false

end Emission

/-- The rows for one hop; rows for no hop in particular are shared out in turn, or go to all. -/
def hopRows (shared : Bool) (hops hop : Nat) : Nat → List Emission → List Row
  | _, [] => []
  | turn, e :: rest =>
    (if e.isFor shared hops turn hop then e.row?.toList else []) ++
      hopRows shared hops hop (if e.isSpread then turn + 1 else turn) rest

/-- The rows for one of so many channels, dealt in turn. -/
def deal (channels i : Nat) : Nat → List Row → List Row
  | _, [] => []
  | turn, row :: rest =>
    (if turn % channels = i then [row] else []) ++ deal channels i (turn + 1) rest

theorem hopRows_append (shared : Bool) (hops hop turn : Nat) (xs ys : List Emission) :
    hopRows shared hops hop turn (xs ++ ys) =
      hopRows shared hops hop turn xs ++
        hopRows shared hops hop (turn + xs.countP (·.isSpread)) ys := by
  induction xs generalizing turn with
  | nil => rfl
  | cons e xs ih =>
    have hturn : (if e.isSpread = true then turn + 1 else turn) + xs.countP (·.isSpread) =
        turn + (xs.countP (·.isSpread) + if e.isSpread = true then 1 else 0) := by
      split <;> omega
    simp only [List.cons_append, hopRows, ih, List.append_assoc, List.countP_cons, hturn]

theorem deal_append (channels i turn : Nat) (xs ys : List Row) :
    deal channels i turn (xs ++ ys) =
      deal channels i turn xs ++ deal channels i (turn + xs.length) ys := by
  induction xs generalizing turn with
  | nil => rfl
  | cons row xs ih =>
    simp only [List.cons_append, deal, ih, List.append_assoc, List.length_cons]
    rw [Nat.add_assoc, Nat.add_comm 1]

/-- A hop to which these rows have gone so far. -/
structure Outlet.Sent (o : Outlet) (put : Nat → List Row) (rows : List Row) : Prop where
  next : o.channels ≠ [] → o.next = rows.length % o.channels.length
  put : ∀ i c, o.channels[i]? = some c → put c = deal o.channels.length i 0 rows

namespace Border

/-- Rows for no hop in particular are shared out among the hops. -/
def shares (p : Border) : Bool :=
  p.distribute && decide (1 < p.outputs.length)

def rowsTo (p : Border) (out : List Emission) (hop : Nat) : List Row :=
  hopRows p.shares p.outputs.length hop 0 out

/-- Everything sent out has gone where it belongs. -/
structure AtRest (p : Border) (out : List Emission) (put : Nat → List Row) : Prop where
  turn : p.shares = true → p.nextOutput = out.countP (·.isSpread) % p.outputs.length
  hops : ∀ (h : Nat) (o : Outlet), p.outputs[h]? = some o → o.Sent put (p.rowsTo out h)

/-- A row under way: it is still to go to these hops, and has gone to the others that it is for. -/
structure Sending (p : Border) (out : List Emission) (e : Emission) (put : Nat → List Row)
    (hops : List Nat) (row : Row) : Prop where
  turn : p.shares = true → p.nextOutput = (out ++ [e]).countP (·.isSpread) % p.outputs.length
  nodup : hops.Nodup
  ahead : ∀ h ∈ hops, p.rowsTo (out ++ [e]) h = p.rowsTo out h ++ [row]
  waiting : ∀ (h : Nat) (o : Outlet), h ∈ hops → p.outputs[h]? = some o → o.Sent put (p.rowsTo out h)
  gone : ∀ (h : Nat) (o : Outlet), h ∉ hops → p.outputs[h]? = some o → o.Sent put (p.rowsTo (out ++ [e]) h)

/-- A row under way that is to go into this channel next; the turn of the hop has moved on. -/
structure Delivering (p : Border) (out : List Emission) (e : Emission) (put : Nat → List Row)
    (channel : Nat) (hops : List Nat) (row : Row) : Prop where
  turn : p.shares = true → p.nextOutput = (out ++ [e]).countP (·.isSpread) % p.outputs.length
  nodup : hops.Nodup
  ahead : ∀ h ∈ hops, p.rowsTo (out ++ [e]) h = p.rowsTo out h ++ [row]
  waiting : ∀ (h : Nat) (o : Outlet), h ∈ hops → p.outputs[h]? = some o → o.Sent put (p.rowsTo out h)
  current : ∃ (g : Nat) (o : Outlet), g ∉ hops ∧ p.outputs[g]? = some o ∧ o.channels ≠ [] ∧
    o.channels[(p.rowsTo out g).length % o.channels.length]? = some channel ∧
    o.next = ((p.rowsTo out g).length + 1) % o.channels.length ∧
    (∀ i c, o.channels[i]? = some c → put c = deal o.channels.length i 0 (p.rowsTo out g)) ∧
    p.rowsTo (out ++ [e]) g = p.rowsTo out g ++ [row] ∧
    ∀ (h : Nat) (o : Outlet), h ∉ hops → h ≠ g → p.outputs[h]? = some o → o.Sent put (p.rowsTo (out ++ [e]) h)

def Writes (p : Border) (out : List Emission) (e : Emission) (put : Nat → List Row) :
    Writing → Prop
  | .every row => e = .row none row ∧ p.AtRest out put
  | .only hop row => e = .row (some hop) row ∧ p.AtRest out put
  | .send hops row => e.row? = some row ∧ p.Sending out e put hops row
  | .deliver channel hops row => e.row? = some row ∧ p.Delivering out e put channel hops row
  | .signal _ hops row => e.row? = some row ∧ p.Sending out e put hops row

variable {p p' : Border} {net : Net} {t : Touch} {out : List Emission} {e : Emission}
  {put : Nat → List Row} {row : Row}

theorem rowsTo_append (p : Border) (out : List Emission) (e : Emission) (h : Nat) :
    p.rowsTo (out ++ [e]) h = p.rowsTo out h ++
      if e.isFor p.shares p.outputs.length (out.countP (·.isSpread)) h then e.row?.toList else [] := by
  simp [rowsTo, hopRows_append, hopRows]

theorem nodup_channels (hn : p.outputChannels.Nodup) {g : Nat} {o : Outlet}
    (ho : p.outputs[g]? = some o) :
    o.channels.Nodup ∧ ∀ (h : Nat) (o' : Outlet), h ≠ g → p.outputs[h]? = some o' →
      ∀ c ∈ o.channels, c ∉ o'.channels := by
  obtain ⟨hall, hpair⟩ := List.nodup_flatMap.mp hn
  obtain ⟨hg, rfl⟩ := List.getElem?_eq_some_iff.mp ho
  refine ⟨hall _ (List.getElem_mem hg), ?_⟩
  rintro h o' hne ho' c hc hc'
  obtain ⟨hh, rfl⟩ := List.getElem?_eq_some_iff.mp ho'
  rw [List.pairwise_iff_getElem] at hpair
  rcases Nat.lt_or_gt_of_ne hne with hlt | hgt
  · exact hpair h g hh hg hlt hc' hc
  · exact hpair g h hg hh hgt hc hc'

theorem AtRest.emit_fault (h : p.AtRest out put) (message : String) :
    (p.recordError message).AtRest (out ++ [.fault message]) put := by
  have hrows (g : Nat) : p.rowsTo (out ++ [.fault message]) g = p.rowsTo out g := by
    rw [rowsTo_append]
    simp [Emission.isFor]
  refine ⟨fun hs => ?_, fun g o ho => ?_⟩
  · rw [List.countP_append]
    exact h.turn hs
  · have := h.hops g o ho
    rw [← hrows g] at this
    exact this

theorem AtRest.start_sharing (h : p.AtRest out put) (hs : p.shares = true) (row : Row)
    (l : Option Schema) :
    Sending { p with layout := l, nextOutput := (p.nextOutput % p.outputs.length + 1) % p.outputs.length }
      out (.row none row) put [p.nextOutput % p.outputs.length] row := by
  have hturn : p.nextOutput % p.outputs.length =
      out.countP (·.isSpread) % p.outputs.length := by
    rw [h.turn hs, Nat.mod_mod]
  have hrows (g : Nat) : p.rowsTo (out ++ [.row none row]) g = p.rowsTo out g ++
      if p.nextOutput % p.outputs.length = g then [row] else [] := by
    rw [rowsTo_append, hturn]
    simp [Emission.isFor, Emission.row?, hs]
  refine ⟨fun _ => ?_, List.nodup_singleton _, fun g hg => ?_, fun g o hg ho => h.hops g o ho,
    fun g o hg ho => ?_⟩
  · rw [hturn]
    simp [List.countP_append, Emission.isSpread]
  · refine (hrows g).trans ?_
    rw [if_pos (List.mem_singleton.mp hg).symm]
    rfl
  · have := h.hops g o ho
    have hne : p.nextOutput % p.outputs.length ≠ g := fun he =>
      hg (List.mem_singleton.mpr he.symm)
    have heq := hrows g
    rw [if_neg hne, List.append_nil] at heq
    rw [← heq] at this
    exact this

theorem AtRest.start_spreading (h : p.AtRest out put) (hs : p.shares = false) (row : Row)
    (l : Option Schema) :
    Sending { p with layout := l } out (.row none row) put (List.range p.outputs.length) row := by
  refine ⟨fun hs' => absurd (hs.symm.trans hs') (by simp), List.nodup_range, fun g _ => ?_,
    fun g o _ ho => h.hops g o ho, fun g o hg ho => ?_⟩
  · refine (p.rowsTo_append out (.row none row) g).trans ?_
    simp [Emission.isFor, Emission.row?, hs]
    rfl
  · exact absurd (List.mem_range.mpr (List.getElem?_eq_some_iff.mp ho).1) hg

theorem AtRest.start_only (h : p.AtRest out put) (row : Row) (hop : Nat) (l : Option Schema) :
    Sending { p with layout := l } out (.row (some hop) row) put [hop] row := by
  have hrows (g : Nat) : p.rowsTo (out ++ [.row (some hop) row]) g = p.rowsTo out g ++
      if hop = g then [row] else [] := by
    rw [rowsTo_append]
    simp [Emission.isFor, Emission.row?]
  refine ⟨fun hs => ?_, List.nodup_singleton _, fun g hg => ?_, fun g o hg ho => h.hops g o ho,
    fun g o hg ho => ?_⟩
  · rw [List.countP_append]
    exact h.turn hs
  · refine (hrows g).trans ?_
    rw [if_pos (List.mem_singleton.mp hg).symm]
    rfl
  · have := h.hops g o ho
    have hne : hop ≠ g := fun he => hg (List.mem_singleton.mpr he.symm)
    have heq := hrows g
    rw [if_neg hne, List.append_nil] at heq
    rw [← heq] at this
    exact this

theorem Sending.sent (h : p.Sending out e put [] row) : (p.onWritten row).AtRest (out ++ [e]) put := by
  exact ⟨h.turn, fun g o ho => h.gone g o List.not_mem_nil ho⟩

theorem Sending.pass {hop : Nat} {hops : List Nat} (h : p.Sending out e put (hop :: hops) row)
    (turn : p.takeTurn hop = none) : p.Sending out e put hops row := by
  obtain ⟨-, hn⟩ := List.nodup_cons.mp h.nodup
  refine ⟨h.turn, hn, fun g hg => h.ahead g (List.mem_cons_of_mem _ hg),
    fun g o hg => h.waiting g o (List.mem_cons_of_mem _ hg), fun g o hg ho => ?_⟩
  by_cases hgh : g = hop
  · subst hgh
    obtain hnone | ⟨o', ho', hempty⟩ := takeTurn_none turn
    · simp [hnone] at ho
    · rw [ho, Option.some.injEq] at ho'
      subst ho'
      exact ⟨fun hne => absurd hempty hne, fun i c hc => by simp [hempty] at hc⟩
  · exact h.gone g o (by simp [hgh, hg]) ho

theorem Sending.choose {hop channel : Nat} {hops : List Nat} {q : Border}
    (h : p.Sending out e put (hop :: hops) row) (turn : p.takeTurn hop = some (channel, q)) :
    q.Delivering out e put channel hops row := by
  obtain ⟨hnot, hn⟩ := List.nodup_cons.mp h.nodup
  obtain ⟨o, ho, hc, rfl⟩ := takeTurn_some turn
  have hlt : hop < p.outputs.length := (List.getElem?_eq_some_iff.mp ho).1
  have hne : o.channels ≠ [] := by
    rintro hnil
    simp [hnil] at hc
  have hsent := h.waiting hop o List.mem_cons_self ho
  have hrows (xs : List Emission) (g : Nat) : Border.rowsTo { p with
      outputs := p.outputs.set hop
        { o with next := (o.next % o.channels.length + 1) % o.channels.length } } xs g =
      p.rowsTo xs g := by
    simp [rowsTo, shares]
  have hnext : o.next % o.channels.length = (p.rowsTo out hop).length % o.channels.length := by
    rw [hsent.next hne, Nat.mod_mod]
  refine ⟨fun hs => ?_, hn, fun g hg => ?_, fun g o' hg ho' => ?_, hop, _, hnot,
    List.getElem?_set_self hlt, hne, ?_, ?_, ?_, ?_, fun g o' hg hgh ho' => ?_⟩
  · simpa using h.turn (by simpa [shares] using hs)
  · rw [hrows, hrows]
    exact h.ahead g (List.mem_cons_of_mem _ hg)
  · have hgh : hop ≠ g := fun he => hnot (he ▸ hg)
    rw [List.getElem?_set_ne hgh] at ho'
    rw [hrows]
    exact h.waiting g o' (List.mem_cons_of_mem _ hg) ho'
  · rw [hrows, ← hnext]
    exact hc
  · rw [hrows, hnext, Nat.mod_add_mod]
  · rw [hrows]
    exact hsent.put
  · rw [hrows, hrows]
    exact h.ahead hop List.mem_cons_self
  · rw [List.getElem?_set_ne (Ne.symm hgh)] at ho'
    rw [hrows]
    exact h.gone g o' (by simp [hgh, hg]) ho'

theorem Delivering.delivered {channel : Nat} {hops : List Nat} (hn : p.outputChannels.Nodup)
    (h : p.Delivering out e put channel hops row) :
    p.Sending out e (Function.update put channel (put channel ++ [row])) hops row := by
  obtain ⟨g, o, hg, ho, hne, hc, hnext, hput, hahead, hgone⟩ := h.current
  obtain ⟨hnodup, hapart⟩ := nodup_channels hn ho
  have hin : channel ∈ o.channels := List.mem_of_getElem? hc
  have hkeep (k : Nat) (o' : Outlet) (rows : List Row) (hk : k ≠ g) (ho' : p.outputs[k]? = some o')
      (hs : o'.Sent put rows) :
      o'.Sent (Function.update put channel (put channel ++ [row])) rows := by
    refine ⟨hs.next, fun i c hi => ?_⟩
    have hcc : c ≠ channel := fun he =>
      hapart k o' hk ho' channel hin (he ▸ List.mem_of_getElem? hi)
    rw [Function.update_of_ne hcc]
    exact hs.put i c hi
  refine ⟨h.turn, h.nodup, h.ahead, fun k o' hk ho' =>
    hkeep k o' _ (fun he => hg (he ▸ hk)) ho' (h.waiting k o' hk ho'), fun k o' hk ho' => ?_⟩
  by_cases hkg : k = g
  · subst hkg
    rw [ho, Option.some.injEq] at ho'
    subst ho'
    rw [hahead]
    refine ⟨fun _ => by simpa using hnext, fun i c hi => ?_⟩
    rw [deal_append]
    simp only [deal, Nat.zero_add, List.append_nil]
    by_cases hcc : c = channel
    · subst hcc
      have hi' : (p.rowsTo out k).length % o.channels.length = i := by
        obtain ⟨h1, h1'⟩ := List.getElem?_eq_some_iff.mp hc
        obtain ⟨h2, h2'⟩ := List.getElem?_eq_some_iff.mp hi
        exact (List.Nodup.getElem_inj_iff hnodup).mp (h1'.trans h2'.symm)
      rw [Function.update_self, hput i c hi, if_pos hi']
    · have hi' : (p.rowsTo out k).length % o.channels.length ≠ i := by
        rintro rfl
        rw [hc, Option.some.injEq] at hi
        exact hcc hi.symm
      rw [Function.update_of_ne hcc, hput i c hi, if_neg hi', List.append_nil]
  · exact hkeep k o' _ hkg ho' (hgone k o' hk hkg ho')

/-- One step of a write, seen from the rows in the channels. -/
theorem Writes.step {call : Writing} {onward : Onward Writing (Except StepError Unit)} {l : Ledger}
    (h : p.Writes out e l.put call) (hn : p.outputChannels.Nodup)
    (hs : p.WriteStep net t call p' onward) :
    match onward with
    | .goes call' => p'.Writes out e (l.after t).put call'
    | .replies (.ok ()) => p'.AtRest (out ++ [e]) (l.after t).put
    | .replies (.error _) => True := by
  cases hs with
  | every_misfit => trivial
  | share fits shared =>
    obtain ⟨rfl, hrest⟩ := h
    exact ⟨rfl, hrest.start_sharing shared _ _⟩
  | spread fits unshared =>
    obtain ⟨rfl, hrest⟩ := h
    exact ⟨rfl, hrest.start_spreading unshared _ _⟩
  | only_misfit => trivial
  | only_to fits known =>
    obtain ⟨rfl, hrest⟩ := h
    exact ⟨rfl, hrest.start_only _ _ _⟩
  | no_output => trivial
  | sent => exact h.2.sent
  | pass turn => exact ⟨h.1, h.2.pass turn⟩
  | choose turn => exact ⟨h.1, h.2.choose turn⟩
  | put_refused => trivial
  | put_late => trivial
  | put => exact ⟨h.1, h.2.delivered hn⟩
  | tell => exact h
  | tell_nobody => exact h

end Border

end Sluice
