import Sluice.Proofs.Graph.Order

/-!
Which graphs can be ordered. A walk ends by itself once nothing is ready, and what it has not
visited then waits for a step that was not visited either. Going back from one such step to the next
comes round in the end: what cannot be ordered is on a cycle of hops or behind one.
-/

namespace Sluice

open Relation

namespace Graph

/-- An enabled hop leads from one step of the graph straight to another. -/
def Feeds (g : Graph) (u v : String) : Prop :=
  u ∈ g.stepNames ∧ v ∈ g.stepNames ∧ (⟨u, v, true⟩ : Hop) ∈ g.hops

def Acyclic (g : Graph) : Prop :=
  ∀ v, ¬ TransGen g.Feeds v v

/-- On a cycle of hops, or reached from one. -/
def Blocked (g : Graph) (v : String) : Prop :=
  ∃ u, TransGen g.Feeds u u ∧ ReflTransGen g.Feeds u v

end Graph

/-- Where everything comes from something else there is a cycle to come from. -/
theorem exists_cycle {α : Type} {R : α → α → Prop} {s : List α} (h : ∀ v ∈ s, ∃ u ∈ s, R u v)
    {v : α} (hv : v ∈ s) : ∃ u ∈ s, TransGen R u u ∧ ReflTransGen R u v := by
  by_contra hno
  let Behind := { u // u ∈ s ∧ ReflTransGen R u v }
  let before (a b : Behind) : Prop := TransGen R a b
  have hfinite : Finite Behind :=
    ((List.finite_toSet s).subset fun u (hu : u ∈ s ∧ ReflTransGen R u v) => hu.1).to_subtype
  have htrans : IsTrans Behind before := ⟨fun a b c hab hbc => TransGen.trans hab hbc⟩
  have hirrefl : Std.Irrefl before := ⟨fun a ha => hno ⟨a, a.2.1, ha, a.2.2⟩⟩
  obtain ⟨⟨m, hm, hmv⟩, -, hmin⟩ :=
    (Finite.wellFounded_of_trans_of_irrefl before).has_min Set.univ ⟨⟨v, hv, .refl⟩, trivial⟩
  obtain ⟨u, hu, hum⟩ := h m hm
  exact hmin ⟨u, hu, .head hum hmv⟩ trivial (.single hum)

namespace Topology

variable {edges : List (String × String)}

theorem mem_edges {g : Graph} {u v : String} : (u, v) ∈ Topology.edges g ↔ g.Feeds u v := by
  simp only [Topology.edges, List.mem_map, List.mem_filter, Graph.enabledHops, Graph.Feeds,
    Bool.and_eq_true, List.contains_iff_mem, Prod.mk.injEq]
  constructor
  · rintro ⟨⟨source, target, enabled⟩, ⟨⟨hm, rfl⟩, hs, ht⟩, rfl, rfl⟩
    exact ⟨hs, ht, hm⟩
  · rintro ⟨hu, hv, hm⟩
    exact ⟨⟨u, v, true⟩, ⟨⟨hm, rfl⟩, hu, hv⟩, rfl, rfl⟩

theorem edges_feed (g : Graph) : (fun u v => (u, v) ∈ Topology.edges g) = g.Feeds := by
  funext u v
  exact propext mem_edges

theorem Legal.closed {visited : List String} (h : Legal edges visited) {u v : String}
    (huv : ReflTransGen (fun a b => (a, b) ∈ edges) u v) (hv : v ∈ visited) : u ∈ visited := by
  induction huv with
  | refl => exact hv
  | tail _ hbc ih => exact ih (h.follows hv hbc)

theorem Legal.acyclic {visited : List String} (hn : visited.Nodup) (h : Legal edges visited)
    {v : String} (hv : v ∈ visited) : ¬ TransGen (fun a b => (a, b) ∈ edges) v v := by
  intro hcycle
  induction visited with
  | nil => cases hv
  | cons w older ih =>
    obtain ⟨hw, hn⟩ := List.nodup_cons.mp hn
    rcases List.mem_cons.mp hv with rfl | hv
    · obtain ⟨u, hvu, huv⟩ := TransGen.tail'_iff.mp hcycle
      exact hw (h.2.closed hvu (h.1 u huv))
    · exact ih hn h.2 hv

theorem Legal.sublist {visited : List String} (h : Legal edges visited) {u v : String}
    (huv : TransGen (fun a b => (a, b) ∈ edges) u v) (hv : v ∈ visited) :
    [v, u].Sublist visited := by
  induction visited with
  | nil => cases hv
  | cons w older ih =>
    rcases List.mem_cons.mp hv with rfl | hv
    · obtain ⟨x, hux, hxv⟩ := TransGen.tail'_iff.mp huv
      exact (List.singleton_sublist.mpr (h.2.closed hux (h.1 x hxv))).cons_cons v
    · exact (ih h.2 hv).cons w

namespace Walk

/-- Each of these edges, followed one after another, leads to a step that still waits for one. -/
def Awaited (level : Nat) : Walk → List String → Prop
  | _, [] => True
  | w, v :: ts =>
    (∃ left, w.waiting.get? v = some left ∧ 0 < left) ∧ Awaited level (w.follow level v) ts

theorem Sound.awaited {w : Walk} {ts : List String} (h : w.Sound edges ts) (level : Nat) :
    w.Awaited level ts := by
  induction ts generalizing w with
  | nil => trivial
  | cons v ts ih =>
    refine ⟨?_, ih (h.follow level)⟩
    have hcount := h.counts v
    rw [List.count_cons_self] at hcount
    cases hw : w.waiting.get? v with
    | none =>
      rw [hw, Option.getD_none] at hcount
      omega
    | some left =>
      rw [hw, Option.getD_some] at hcount
      exact ⟨left, rfl, by omega⟩

/-- Every step that waits for nothing has been visited or is about to be. -/
def Thorough (edges : List (String × String)) (names ts : List String) (w : Walk) : Prop :=
  ∀ v ∈ names, unfollowed edges w.visited v = 0 → v ∉ ts → v ∈ w.visited ++ w.ready

theorem Thorough.follow {names ts : List String} {w : Walk} {v : String}
    (h : w.Thorough edges names (v :: ts)) (hs : w.Sound edges (v :: ts)) (level : Nat) :
    (w.follow level v).Thorough edges names ts := by
  intro x hx hzero hts
  have hcount := hs.counts v
  simp only [Walk.follow] at hzero ⊢
  by_cases hxv : x = v
  · subst hxv
    rw [List.count_cons_self, List.count_eq_zero.mpr hts, hzero] at hcount
    rw [if_pos (by omega)]
    simp
  · have hmem := h x hx hzero (by simp [hxv, hts])
    split
    · rw [← List.append_assoc]
      exact List.mem_append_left _ hmem
    · exact hmem

theorem Thorough.follow_all {names ts : List String} {w : Walk} (h : w.Thorough edges names ts)
    (hs : w.Sound edges ts) (level : Nat) :
    (ts.foldl (Walk.follow level) w).Thorough edges names [] := by
  induction ts generalizing w with
  | nil => exact h
  | cons v ts ih => exact ih (h.follow hs level) (hs.follow level)

theorem Thorough.visit {names : List String} {w : Walk} {name : String} {rest : List String}
    (h : w.Thorough edges names []) (hs : w.Sound edges []) (hready : w.ready = name :: rest) :
    (w.visit edges name rest).Thorough edges names [] := by
  have hname : name ∉ w.visited := fun hm =>
    (List.nodup_append.mp hs.nodup).2.2 name hm name (hready ▸ List.mem_cons_self) rfl
  have harrive : (w.arrive name rest).Thorough edges names (targets edges name) := by
    intro x hx hzero hts
    have hbefore : unfollowed edges w.visited x =
        unfollowed edges (name :: w.visited) x + (targets edges name).count x :=
      unfollowed_cons hname x
    rw [List.count_eq_zero.mpr hts] at hbefore
    have hmem := h x hx (hbefore.trans hzero) List.not_mem_nil
    rw [hready] at hmem
    exact List.perm_middle.mem_iff.mp hmem
  exact harrive.follow_all (hs.arrive hready) _

theorem visited_follow_all (level : Nat) (w : Walk) (ts : List String) :
    (ts.foldl (Walk.follow level) w).visited = w.visited := by
  induction ts generalizing w with
  | nil => rfl
  | cons v ts ih => exact ih _

theorem run_visits (fuel : Nat) (w : Walk) : (Walk.run edges fuel w).ready = [] ∨
    (Walk.run edges fuel w).visited.length = w.visited.length + fuel := by
  induction fuel generalizing w with
  | zero => exact .inr rfl
  | succ fuel ih =>
    unfold Walk.run
    rcases hr : w.ready with _ | ⟨name, rest⟩
    · exact .inl hr
    · refine (ih _).imp_right fun hlength => ?_
      rw [hlength, visit_eq, visited_follow_all]
      simp only [arrive, List.length_cons]
      omega

theorem Thorough.run {names : List String} {w : Walk} (h : w.Thorough edges names [])
    (hs : w.Sound edges []) (fuel : Nat) : (Walk.run edges fuel w).Thorough edges names [] := by
  have hboth := run_keeps (P := fun w => w.Sound edges [] ∧ w.Thorough edges names [])
    (fun ⟨hs, h⟩ hr => ⟨hs.visit hr, h.visit hs hr⟩) fuel ⟨hs, h⟩
  exact hboth.2

theorem start_known {g : Graph} {v : String} (hv : v ∈ g.stepNames) :
    (Walk.start g).waiting.get? v ≠ none := by
  have hset (t : Table Int) (name : String) (n : Int) (h : name = v ∨ t.get? v ≠ none) :
      (t.set name n).get? v ≠ none := by
    by_cases hname : name = v
    · simp [hname, Table.get?_set_self]
    · rw [Table.get?_set_of_ne _ _ hname]
      exact h.resolve_left hname
  have hzeroed (steps : List StepSpec) (t : Table Int)
      (h : v ∈ steps.map (·.name) ∨ t.get? v ≠ none) :
      (steps.foldl (fun t s => t.set s.name 0) t).get? v ≠ none := by
    induction steps generalizing t with
    | nil => simpa using h
    | cons s steps ih =>
      refine ih _ ?_
      rcases h with hm | ht
      · exact (List.mem_cons.mp hm).symm.imp_right fun hs => hset t _ _ (.inl hs.symm)
      · exact .inr (hset t _ _ (.inr ht))
  have hcounted (es : List (String × String)) (t : Table Int) (h : t.get? v ≠ none) :
      (es.foldl (fun t e => t.set e.2 ((t.get? e.2).getD 0 + 1)) t).get? v ≠ none := by
    induction es generalizing t with
    | nil => exact h
    | cons e es ih => exact ih _ (hset t _ _ (.inr h))
  exact hcounted _ _ (hzeroed _ _ (.inl hv))

theorem start_thorough (g : Graph) :
    (Walk.start g).Thorough (Topology.edges g) g.stepNames [] := by
  intro v hv hzero _
  have hwaiting := start_waiting g v
  cases hw : (Walk.start g).waiting.get? v with
  | none => exact absurd hw (start_known hv)
  | some n =>
    replace hzero : unfollowed (Topology.edges g) [] v = 0 := hzero
    have hcount : ((Topology.edges g).countP fun e => decide (e.2 = v)) = 0 := by
      simpa [unfollowed] using hzero
    rw [hw, Option.getD_some, hcount, Nat.cast_zero] at hwaiting
    refine List.mem_filter.mpr ⟨hv, ?_⟩
    change ((Walk.start g).waiting.get? v == some 0) = true
    rw [hw, hwaiting, beq_self_eq_true]

end Walk

section

variable {g : Graph}

def walk (g : Graph) (visits : Nat) : Walk :=
  Walk.run (Topology.edges g) visits (.start g)

def walked (g : Graph) : Walk :=
  walk g (visitBound g)

theorem ofGraph_eq (g : Graph) : ofGraph g =
    if (walked g).visited.length < g.steps.length then
      .error (g.stepNames.filter fun name => ((walked g).waiting.get? name).any (· ≠ 0))
    else .ok { order := (walked g).visited.reverse, levels := (walked g).levels } :=
  rfl

theorem walked_sound (hn : g.stepNames.Nodup) : (walked g).Sound (Topology.edges g) [] :=
  (Walk.start_sound hn).run _

theorem walked_within (g : Graph) : (walked g).Within g.stepNames :=
  Walk.Within.run (fun _ hv => (List.mem_filter.mp hv).1) (fun _ he => (edges_known he).2) _

/-- A walk has no more steps to visit than there are, so it is not cut short. -/
theorem walked_ready (hn : g.stepNames.Nodup) : (walked g).ready = [] := by
  have hle : (walked g).visited.length + (walked g).ready.length ≤ g.steps.length := by
    simpa [Graph.stepNames] using
      (List.subperm_of_subset (walked_sound hn).nodup (walked_within g)).length_le
  rcases Walk.run_visits (visitBound g) (.start g) with hready | hvisits
  · exact hready
  · replace hvisits : (walked g).visited.length = 0 + 2 * g.steps.length := hvisits
    exact List.eq_nil_of_length_eq_zero (by omega)

theorem exists_left (hn : g.stepNames.Nodup) {v : String} (hv : v ∈ g.stepNames)
    (hleft : v ∉ (walked g).visited) : ∃ u, g.Feeds u v ∧ u ∉ (walked g).visited := by
  by_contra hnone
  have hzero : unfollowed (Topology.edges g) (walked g).visited v = 0 :=
    unfollowed_eq_zero.mpr fun u hu => by
      by_contra hout
      exact hnone ⟨u, mem_edges.mp hu, hout⟩
  have hthorough : (walked g).Thorough (Topology.edges g) g.stepNames [] :=
    (Walk.start_thorough g).run (Walk.start_sound hn) _
  have hmem := hthorough v hv hzero List.not_mem_nil
  rw [walked_ready hn, List.append_nil] at hmem
  exact hleft hmem

/-- What the walk does not visit is on a cycle or behind one. -/
theorem mem_visited_iff (hn : g.stepNames.Nodup) {v : String} (hv : v ∈ g.stepNames) :
    v ∈ (walked g).visited ↔ ¬ g.Blocked v := by
  have hs := walked_sound hn
  constructor
  · rintro hvisited ⟨u, hcycle, huv⟩
    rw [← edges_feed] at hcycle huv
    exact hs.legal.acyclic hs.nodup.of_append_left (hs.legal.closed huv hvisited) hcycle
  · intro hfree
    by_contra hleft
    have hwaits : ∀ x ∈ g.stepNames.filter (· ∉ (walked g).visited),
        ∃ u ∈ g.stepNames.filter (· ∉ (walked g).visited), g.Feeds u x := by
      intro x hx
      obtain ⟨hx, hout⟩ := List.mem_filter.mp hx
      obtain ⟨u, hux, hout⟩ := exists_left hn hx (of_decide_eq_true hout)
      exact ⟨u, List.mem_filter.mpr ⟨hux.1, decide_eq_true hout⟩, hux⟩
    obtain ⟨u, -, hcycle, huv⟩ :=
      exists_cycle hwaits (List.mem_filter.mpr ⟨hv, decide_eq_true hleft⟩)
    exact hfree ⟨u, hcycle, huv⟩

theorem waited_iff (hn : g.stepNames.Nodup) {v : String} (hv : v ∈ g.stepNames) :
    ((walked g).waiting.get? v).any (· ≠ 0) = true ↔ v ∉ (walked g).visited := by
  have hs := walked_sound hn
  have hcount := hs.counts v
  rw [List.count_nil, Nat.cast_zero, add_zero] at hcount
  have hany : ((walked g).waiting.get? v).any (· ≠ 0) = true ↔
      unfollowed (Topology.edges g) (walked g).visited v ≠ 0 := by
    cases hw : (walked g).waiting.get? v <;> rw [hw] at hcount <;> simp at hcount ⊢ <;> omega
  rw [hany]
  constructor
  · intro hne hvisited
    exact hne (unfollowed_eq_zero.mpr fun u hu => hs.legal.follows hvisited hu)
  · intro hleft hzero
    obtain ⟨u, huv, hout⟩ := exists_left hn hv hleft
    exact hout (unfollowed_eq_zero.mp hzero u (mem_edges.mpr huv))

theorem visited_all_iff (hn : g.stepNames.Nodup) :
    g.steps.length ≤ (walked g).visited.length ↔ g.Acyclic := by
  have hnodup := (walked_sound hn).nodup.of_append_left
  have hsub : (walked g).visited ⊆ g.stepNames := fun v hv =>
    walked_within g v (List.mem_append_left _ hv)
  have hperm : g.steps.length ≤ (walked g).visited.length ↔
      ∀ v ∈ g.stepNames, v ∈ (walked g).visited := by
    constructor
    · intro hle v hv
      have hperm := (List.subperm_of_subset hnodup hsub).perm_of_length_le
        (by simpa [Graph.stepNames] using hle)
      exact hperm.mem_iff.mpr hv
    · intro hall
      simpa [Graph.stepNames] using (List.subperm_of_subset hn hall).length_le
  rw [hperm]
  constructor
  · intro hall v hcycle
    obtain ⟨u, hvu, -⟩ := TransGen.head'_iff.mp hcycle
    exact (mem_visited_iff hn hvu.1).mp (hall v hvu.1) ⟨v, hcycle, .refl⟩
  · intro hacyclic v hv
    refine (mem_visited_iff hn hv).mpr ?_
    rintro ⟨u, hcycle, -⟩
    exact hacyclic u hcycle

theorem acyclic_of_ordered {t : Topology} (hn : g.stepNames.Nodup) (ht : ofGraph g = .ok t) :
    g.Acyclic := by
  refine (visited_all_iff hn).mp ?_
  by_contra hlt
  rw [ofGraph_eq, if_pos (by omega)] at ht
  cases ht

theorem cyclic_of_stuck {stuck : List String} (hn : g.stepNames.Nodup)
    (ht : ofGraph g = .error stuck) : ¬ g.Acyclic := by
  intro hacyclic
  have := (visited_all_iff hn).mpr hacyclic
  rw [ofGraph_eq, if_neg (by omega)] at ht
  cases ht

theorem stuck_eq {stuck : List String} (ht : ofGraph g = .error stuck) :
    stuck = g.stepNames.filter fun name => ((walked g).waiting.get? name).any (· ≠ 0) := by
  rw [ofGraph_eq] at ht
  split at ht
  · exact (Except.error.inj ht).symm
  · cases ht

theorem mem_stuck_iff {stuck : List String} (hn : g.stepNames.Nodup)
    (ht : ofGraph g = .error stuck) (v : String) : v ∈ stuck ↔ v ∈ g.stepNames ∧ g.Blocked v := by
  rw [stuck_eq ht, List.mem_filter]
  refine and_congr_right fun hv => ?_
  rw [waited_iff hn hv, mem_visited_iff hn hv, not_not]

/-- Ordering the steps of a graph comes to an end by itself, and lowers no count that is not positive
on the way. It succeeds exactly on graphs without a cycle of hops, and then every step comes after
those that feed it; otherwise it names the steps on cycles and behind them, as declared. -/
theorem ofGraph_exact {g : Graph} (distinct : g.stepNames.Nodup) :
    (∀ visits name rest, (walk g visits).ready = name :: rest →
      ((walk g visits).arrive name rest).Awaited (((walk g visits).levels.get? name).getD 0)
        (targets (Topology.edges g) name)) ∧
    (walk g (visitBound g)).ready = [] ∧
    match ofGraph g with
    | .ok t => g.Acyclic ∧ t.order.Perm g.stepNames ∧
        ∀ u v, g.Feeds u v → [u, v].Sublist t.order
    | .error stuck => ¬ g.Acyclic ∧ stuck.Sublist g.stepNames ∧
        ∀ v, v ∈ stuck ↔ v ∈ g.stepNames ∧ g.Blocked v := by
  refine ⟨fun visits name rest hready => ?_, walked_ready distinct, ?_⟩
  · exact (((Walk.start_sound distinct).run visits).arrive hready).awaited _
  cases ht : ofGraph g with
  | ok t =>
    have hperm := ofGraph_perm distinct ht
    refine ⟨acyclic_of_ordered distinct ht, hperm, fun u v huv => ?_⟩
    rw [← List.reverse_sublist]
    exact (ofGraph_legal distinct ht).2.sublist (.single (mem_edges.mpr huv))
      (List.mem_reverse.mpr (hperm.mem_iff.mpr huv.2.1))
  | error stuck =>
    exact ⟨cyclic_of_stuck distinct ht, stuck_eq ht ▸ List.filter_sublist,
      mem_stuck_iff distinct ht⟩

/-- A loop with a step before it, one behind it, and one that only switched-off hops join to it. -/
def looped : Graph where
  steps := [{ name := "out", type := "dummy" }, { name := "in", type := "dummy" },
    { name := "a", type := "dummy" }, { name := "b", type := "dummy" },
    { name := "free", type := "dummy" }]
  hops := [⟨"in", "a", true⟩, ⟨"a", "b", true⟩, ⟨"a", "b", true⟩, ⟨"b", "a", true⟩,
    ⟨"b", "out", true⟩, ⟨"b", "free", false⟩, ⟨"b", "ghost", true⟩, ⟨"ghost", "free", true⟩]

theorem looped_exact : looped.stepNames.Nodup ∧ ofGraph looped = .error ["out", "a", "b"] ∧
    ¬ looped.Acyclic ∧ looped.Blocked "out" ∧ ¬ looped.Blocked "in" := by
  have distinct : looped.stepNames.Nodup := by decide
  have hstuck : ofGraph looped = .error ["out", "a", "b"] := by decide
  obtain ⟨-, -, hexact⟩ := ofGraph_exact distinct
  rw [hstuck] at hexact
  obtain ⟨hcyclic, -, hmem⟩ := hexact
  exact ⟨distinct, hstuck, hcyclic, ((hmem "out").mp (by decide)).2,
    fun hblocked => absurd ((hmem "in").mpr ⟨by decide, hblocked⟩) (by decide)⟩

end

end Topology

end Sluice
