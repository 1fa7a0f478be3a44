import Mathlib.Tactic
import Sluice.Graph.Topology

/-!
The order of a topology is legal: each step comes after every step that feeds it. A walk keeps, for
each step, the number of its incoming hops that were not followed yet; a step is visited once that
number is zero, so nothing that feeds it is left to visit.
-/

namespace Sluice.Topology

/-- A list of steps, the last visited first, in which all that feeds a step was visited earlier. -/
def Legal (edges : List (String × String)) : List String → Prop
  | [] => True
  | v :: older => (∀ u, (u, v) ∈ edges → u ∈ older) ∧ Legal edges older

/-- How many edges into `v` come from steps not visited yet. -/
def unfollowed (edges : List (String × String)) (visited : List String) (v : String) : Nat :=
  edges.countP fun e => decide (e.2 = v ∧ e.1 ∉ visited)

def targets (edges : List (String × String)) (name : String) : List String :=
  (edges.filter (·.1 == name)).map (·.2)

variable {edges : List (String × String)}

theorem unfollowed_eq_zero {visited : List String} {v : String} :
    unfollowed edges visited v = 0 ↔ ∀ u, (u, v) ∈ edges → u ∈ visited := by
  simp only [unfollowed, List.countP_eq_zero, decide_eq_true_eq, not_and, not_not]
  constructor
  · intro h u hu
    exact h (u, v) hu rfl
  · rintro h ⟨u, w⟩ hu rfl
    exact h u hu

theorem Legal.follows {visited : List String} (h : Legal edges visited) {u v : String}
    (hv : v ∈ visited) (hu : (u, v) ∈ edges) : u ∈ visited := by
  induction visited with
  | nil => cases hv
  | cons w older ih =>
    rcases List.mem_cons.mp hv with rfl | hv
    · exact List.mem_cons_of_mem _ (h.1 u hu)
    · exact List.mem_cons_of_mem _ (ih h.2 hv)

theorem unfollowed_cons {visited : List String} {name : String} (hn : name ∉ visited) (v : String) :
    unfollowed edges visited v =
      unfollowed edges (name :: visited) v + (targets edges name).count v := by
  induction edges with
  | nil => rfl
  | cons e edges ih =>
    obtain ⟨a, b⟩ := e
    simp only [unfollowed, targets, List.countP_cons, List.filter_cons, decide_eq_true_eq,
      List.mem_cons, not_or] at ih ⊢
    rw [ih]
    by_cases ha : a = name
    · subst ha
      by_cases hb : b = v <;> simp [hb, hn, Nat.add_assoc]
    · by_cases hb : b = v <;> by_cases hm : a ∈ visited <;> (simp [ha, hb, hm]; try omega)

namespace Walk

/-- What a walk keeps, with these edge targets of the last visited step still to follow. -/
structure Sound (edges : List (String × String)) (ts : List String) (w : Walk) : Prop where
  counts : ∀ v, (w.waiting.get? v).getD 0 = (unfollowed edges w.visited v : Int) + ts.count v
  nodup : (w.visited ++ w.ready).Nodup
  due : ∀ v ∈ w.ready, unfollowed edges w.visited v = 0 ∧ v ∉ ts
  ahead : ∀ v ∈ ts, v ∉ w.visited
  legal : Legal edges w.visited

theorem Sound.follow {w : Walk} {v : String} {ts : List String} (h : w.Sound edges (v :: ts))
    (level : Nat) : (w.follow level v).Sound edges ts := by
  have hleft : (w.waiting.get? v).getD 0 - 1 = (unfollowed edges w.visited v : Int) + ts.count v := by
    rw [h.counts v, List.count_cons_self]
    push_cast
    ring
  have hready : v ∉ w.ready := fun hv => (h.due v hv).2 List.mem_cons_self
  have hvisited : v ∉ w.visited := h.ahead v List.mem_cons_self
  refine ⟨fun x => ?_, ?_, fun x hx => ?_, fun x hx => h.ahead x (List.mem_cons_of_mem _ hx), h.legal⟩
  · by_cases hx : v = x
    · subst hx
      simp only [Walk.follow, Table.get?_set_self, Option.getD_some, hleft]
    · simp only [Walk.follow, Table.get?_set_of_ne _ _ hx, h.counts x]
      rw [List.count_cons_of_ne hx]
  · simp only [Walk.follow]
    split
    · rw [← List.append_assoc]
      refine List.nodup_append.mpr ⟨h.nodup, List.nodup_singleton v, ?_⟩
      rintro a ha b hb rfl
      rw [List.mem_singleton] at hb
      subst hb
      rcases List.mem_append.mp ha with ha | ha
      · exact hvisited ha
      · exact hready ha
    · exact h.nodup
  · have hold : x ∈ w.ready → unfollowed edges w.visited x = 0 ∧ x ∉ ts := fun hx =>
      ⟨(h.due x hx).1, fun hm => (h.due x hx).2 (List.mem_cons_of_mem _ hm)⟩
    simp only [Walk.follow] at hx
    split at hx
    · rename_i hzero
      rcases List.mem_append.mp hx with hx | hx
      · exact hold hx
      · rw [List.mem_singleton] at hx
        subst hx
        rw [hleft] at hzero
        exact ⟨by simp only [Walk.follow]; omega, List.count_eq_zero.mp (by omega)⟩
    · exact hold hx

theorem Sound.follow_all {w : Walk} {ts : List String} (h : w.Sound edges ts) (level : Nat) :
    (ts.foldl (Walk.follow level) w).Sound edges [] := by
  induction ts generalizing w with
  | nil => exact h
  | cons v ts ih => exact ih (h.follow level)

/-- At its next step, before the edges out of it are followed. -/
def arrive (w : Walk) (name : String) (rest : List String) : Walk :=
  { w with
    levels := w.levels.set name ((w.levels.get? name).getD 0)
    ready := rest
    visited := name :: w.visited }

theorem visit_eq (w : Walk) (name : String) (rest : List String) : w.visit edges name rest =
    (targets edges name).foldl (Walk.follow ((w.levels.get? name).getD 0)) (w.arrive name rest) :=
  rfl

theorem Sound.arrive {w : Walk} {name : String} {rest : List String} (h : w.Sound edges [])
    (hready : w.ready = name :: rest) : (w.arrive name rest).Sound edges (targets edges name) := by
  have hnodup : (w.visited ++ name :: rest).Nodup := hready ▸ h.nodup
  have hname : name ∉ w.visited := fun hm =>
    (List.nodup_append.mp hnodup).2.2 name hm name List.mem_cons_self rfl
  have hfed : ∀ u, (u, name) ∈ edges → u ∈ w.visited :=
    unfollowed_eq_zero.mp (h.due name (hready ▸ List.mem_cons_self)).1
  refine ⟨fun v => ?_, ?_, fun v hv => ⟨?_, ?_⟩, fun v hv => ?_, hfed, h.legal⟩
  · have := h.counts v
    rw [unfollowed_cons hname] at this
    simpa [Walk.arrive] using this
  · exact List.perm_middle.nodup_iff.mp hnodup
  · have := (h.due v (hready ▸ List.mem_cons_of_mem _ hv)).1
    rw [unfollowed_cons hname] at this
    simp only [Walk.arrive]
    omega
  · have := (h.due v (hready ▸ List.mem_cons_of_mem _ hv)).1
    rw [unfollowed_cons hname] at this
    exact List.count_eq_zero.mp (by omega)
  · obtain ⟨⟨a, b⟩, hmem, rfl⟩ := List.mem_map.mp hv
    obtain ⟨he, ha⟩ := List.mem_filter.mp hmem
    have ha : a = name := by simpa using ha
    subst ha
    intro hm
    rcases List.mem_cons.mp hm with hb | hm
    · exact hname (hfed a (hb ▸ he))
    · exact hname (h.legal.follows hm he)

theorem Sound.visit {w : Walk} {name : String} {rest : List String} (h : w.Sound edges [])
    (hready : w.ready = name :: rest) : (w.visit edges name rest).Sound edges [] :=
  (h.arrive hready).follow_all _

theorem run_keeps {P : Walk → Prop}
    (hvisit : ∀ {w : Walk} {name : String} {rest : List String}, P w → w.ready = name :: rest →
      P (w.visit edges name rest)) (fuel : Nat) {w : Walk} (h : P w) : P (Walk.run edges fuel w) := by
  induction fuel generalizing w with
  | zero => exact h
  | succ fuel ih =>
    unfold Walk.run
    rcases hr : w.ready with _ | ⟨name, rest⟩
    · exact h
    · exact ih (hvisit h hr)

theorem Sound.run {w : Walk} (h : w.Sound edges []) (fuel : Nat) :
    (Walk.run edges fuel w).Sound edges [] :=
  run_keeps (P := fun w => w.Sound edges []) (fun h hr => h.visit hr) fuel h

/-- A walk that knows only these steps. -/
def Within (names : List String) (w : Walk) : Prop :=
  ∀ v ∈ w.visited ++ w.ready, v ∈ names

theorem Within.follow {names ts : List String} {w : Walk} (h : w.Within names) (level : Nat)
    (hts : ∀ v ∈ ts, v ∈ names) : (ts.foldl (Walk.follow level) w).Within names := by
  induction ts generalizing w with
  | nil => exact h
  | cons v ts ih =>
    obtain ⟨hv, hts⟩ := List.forall_mem_cons.mp hts
    refine ih (fun x hx => ?_) hts
    simp only [Walk.follow] at hx
    split at hx
    · rw [← List.append_assoc] at hx
      rcases List.mem_append.mp hx with hx | hx
      · exact h x hx
      · exact List.mem_singleton.mp hx ▸ hv
    · exact h x hx

theorem Within.run {names : List String} {w : Walk} (h : w.Within names)
    (hes : ∀ e ∈ edges, e.2 ∈ names) (fuel : Nat) : (Walk.run edges fuel w).Within names := by
  refine run_keeps (P := Within names) (fun h hr => ?_) fuel h
  refine Within.follow (fun v hv => h v ?_) _ fun v hv => ?_
  · exact hr ▸ List.perm_middle.symm.mem_iff.mp hv
  · obtain ⟨e, he, rfl⟩ := List.mem_map.mp hv
    exact hes e (List.mem_filter.mp he).1

theorem zeroed (steps : List StepSpec) (t : Table Int) (v : String) (h : (t.get? v).getD 0 = 0) :
    ((steps.foldl (fun t s => t.set s.name 0) t).get? v).getD 0 = 0 := by
  induction steps generalizing t with
  | nil => exact h
  | cons s steps ih =>
    refine ih _ ?_
    by_cases hs : s.name = v
    · subst hs
      rw [Table.get?_set_self]
      rfl
    · rwa [Table.get?_set_of_ne _ _ hs]

theorem counted (es : List (String × String)) (t : Table Int) (v : String) :
    ((es.foldl (fun t (_, v) => t.set v ((t.get? v).getD 0 + 1)) t).get? v).getD 0 =
      (t.get? v).getD 0 + (es.countP fun e => decide (e.2 = v) : Int) := by
  induction es generalizing t with
  | nil => simp
  | cons e es ih =>
    obtain ⟨a, b⟩ := e
    rw [List.foldl_cons, ih, List.countP_cons]
    by_cases hb : b = v
    · subst hb
      simp only [Table.get?_set_self, Option.getD_some, decide_true, if_true]
      push_cast
      ring
    · simp only [Table.get?_set_of_ne _ _ hb, hb, decide_false, Bool.false_eq_true, if_false]
      simp

theorem start_waiting (g : Graph) (v : String) :
    ((Walk.start g).waiting.get? v).getD 0 = ((Topology.edges g).countP fun e => decide (e.2 = v) : Int) :=
  (counted _ _ _).trans (by rw [zeroed g.steps [] v rfl, zero_add])

theorem start_sound {g : Graph} (hn : g.stepNames.Nodup) :
    (Walk.start g).Sound (Topology.edges g) [] := by
  have hcounts (v : String) : ((Walk.start g).waiting.get? v).getD 0 =
      (unfollowed (Topology.edges g) [] v : Int) := by
    rw [start_waiting]
    simp [unfollowed]
  refine ⟨fun v => (hcounts v).trans (by simp [start]), ?_, fun v hv => ⟨?_, List.not_mem_nil⟩,
    fun v hv => absurd hv List.not_mem_nil, trivial⟩
  · exact hn.sublist List.filter_sublist
  · have hzero : (Walk.start g).waiting.get? v = some 0 :=
      eq_of_beq (List.mem_filter.mp hv).2
    have := hcounts v
    rw [hzero, Option.getD_some] at this
    exact (Int.natCast_eq_zero.mp this.symm)

end Walk

theorem ofGraph_legal {g : Graph} {t : Topology} (hn : g.stepNames.Nodup)
    (h : ofGraph g = .ok t) : t.order.Nodup ∧ Legal (Topology.edges g) t.order.reverse := by
  have hs := (Walk.start_sound hn).run (visitBound g)
  unfold ofGraph at h
  dsimp only at h
  split at h
  · cases h
  · simp only [Except.ok.injEq] at h
    subst h
    refine ⟨List.nodup_reverse.mpr (hs.nodup.of_append_left), ?_⟩
    rw [List.reverse_reverse]
    exact hs.legal

theorem edges_known {g : Graph} {e : String × String} (he : e ∈ Topology.edges g) :
    e.1 ∈ g.stepNames ∧ e.2 ∈ g.stepNames := by
  obtain ⟨hop, hhop, rfl⟩ := List.mem_map.mp he
  have hends := (List.mem_filter.mp hhop).2
  simpa only [Bool.and_eq_true, List.contains_iff_mem] using hends

theorem ofGraph_perm {g : Graph} {t : Topology} (hn : g.stepNames.Nodup)
    (h : ofGraph g = .ok t) : t.order.Perm g.stepNames := by
  have hwithin : (Walk.run (Topology.edges g) (visitBound g) (.start g)).Within g.stepNames :=
    Walk.Within.run (fun v hv => (List.mem_filter.mp hv).1) (fun e he => (edges_known he).2) _
  have hnodup := (ofGraph_legal hn h).1
  unfold ofGraph at h
  dsimp only at h
  split at h
  · cases h
  · rename_i hall
    simp only [Except.ok.injEq] at h
    subst h
    have hsub := List.subperm_of_subset hnodup fun v hv =>
      hwithin v (List.mem_append_left _ (List.mem_reverse.mp hv))
    refine hsub.perm_of_length_le ?_
    simpa [Graph.stepNames] using hall

theorem Legal.pairwise {l : List String} (hn : l.Nodup) (h : Legal edges l.reverse) :
    l.Pairwise fun a b => (b, a) ∉ edges := by
  rw [← List.pairwise_reverse]
  generalize hr : l.reverse = r at h
  have hn : r.Nodup := hr ▸ List.nodup_reverse.mpr hn
  clear hr
  induction r with
  | nil => exact .nil
  | cons v older ih =>
    obtain ⟨hv, hn⟩ := List.nodup_cons.mp hn
    exact .cons (fun a ha he => hv (h.2.follows ha he)) (ih h.2 hn)

end Sluice.Topology
