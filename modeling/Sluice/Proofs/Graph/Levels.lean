import Sluice.Proofs.Graph.Cycles

/-!
The level of a step is the length of the longest path of hops that leads to it. A walk writes down a
level for a step each time it follows a hop there, and the step is not visited before the last of
these. The steps to visit stand in the order of their levels, and no two of them are more than one
level apart.
-/

namespace Sluice

/-- Along so many enabled hops, from step to step of the graph, one comes to this step. -/
inductive Graph.PathTo (g : Graph) : Nat → String → Prop
  | start {v : String} (known : v ∈ g.stepNames) : PathTo g 0 v
  | hop {n : Nat} {u v : String} (path : PathTo g n u) (feeds : g.Feeds u v) : PathTo g (n + 1) v

namespace Table

variable {α : Type} {t : Table α} {name : String} {value : α}

theorem mem_names_iff : name ∈ t.map (·.1) ↔ ∃ value, t.get? name = some value := by
  induction t with
  | nil => simp [get?]
  | cons e rest ih =>
    obtain ⟨other, a⟩ := e
    by_cases h : other = name
    · simp [get?, h]
    · simp only [List.map_cons, List.mem_cons, get?, h, if_false, ih, Ne.symm h, false_or]

theorem names_set (t : Table α) (name : String) (value : α) : (t.set name value).map (·.1) =
    if name ∈ t.map (·.1) then t.map (·.1) else t.map (·.1) ++ [name] := by
  induction t with
  | nil => simp [set]
  | cons e rest ih =>
    obtain ⟨other, a⟩ := e
    by_cases h : other = name
    · simp [set, h]
    · simp only [set, h, if_false, List.map_cons, ih, List.mem_cons, Ne.symm h, false_or]
      split <;> rfl

theorem nodup_set (h : (t.map (·.1)).Nodup) (name : String) (value : α) :
    ((t.set name value).map (·.1)).Nodup := by
  rw [names_set]
  split
  · exact h
  · rename_i hname
    exact h.append (List.nodup_singleton name) (List.disjoint_singleton.mpr hname)

theorem mem_iff_get? (h : (t.map (·.1)).Nodup) : (name, value) ∈ t ↔ t.get? name = some value := by
  induction t with
  | nil => simp [get?]
  | cons e rest ih =>
    obtain ⟨other, a⟩ := e
    obtain ⟨hother, hrest⟩ := List.nodup_cons.mp h
    by_cases hname : other = name
    · subst hname
      have habsent : (other, value) ∉ rest := fun hm => hother (List.mem_map.mpr ⟨_, hm, rfl⟩)
      simp [get?, habsent, eq_comm]
    · simp [get?, hname, ih hrest, Ne.symm hname]

end Table

namespace Topology

variable {edges : List (String × String)}

namespace Walk

def levelOf (w : Walk) (name : String) : Nat :=
  (w.levels.get? name).getD 0

/-- What a walk knows of levels, with these edge targets of the last visited step to follow. -/
structure Leveled (edges : List (String × String)) (ts : List String) (w : Walk) : Prop where
  leads : ∀ u ∈ w.visited.head?, ∀ v ∈ ts, (u, v) ∈ edges
  above : ∀ u v, (u, v) ∈ edges → u ∈ w.visited →
    w.levelOf u < w.levelOf v ∨ w.visited.head? = some u ∧ v ∈ ts
  reached : ∀ v, w.levelOf v = 0 ∨ ∃ u ∈ w.visited, (u, v) ∈ edges ∧ w.levelOf v = w.levelOf u + 1
  sorted : (w.visited.reverse ++ w.ready).Pairwise fun a b => w.levelOf a ≤ w.levelOf b
  near : ∀ u ∈ w.visited.head?, ∀ v ∈ w.ready, w.levelOf v ≤ w.levelOf u + 1
  names : (w.levels.map (·.1)).Nodup
  recorded : ∀ v ∈ w.visited, v ∈ w.levels.map (·.1)
  fed : ∀ v ∈ w.levels.map (·.1), v ∈ w.visited ∨ ∃ u, (u, v) ∈ edges

variable {w : Walk} {u v : String} {ts : List String}

/-- Nothing that was visited is above the last step visited. -/
theorem Leveled.top (h : w.Leveled edges ts) (hu : w.visited.head? = some u) :
    ∀ x ∈ w.visited, w.levelOf x ≤ w.levelOf u := by
  obtain ⟨older, hvisited⟩ := List.head?_eq_some_iff.mp hu
  intro x hx
  rw [hvisited] at hx
  rcases List.mem_cons.mp hx with rfl | hx
  · exact le_rfl
  · have hsorted := h.sorted
    rw [hvisited, List.reverse_cons, List.append_assoc] at hsorted
    exact (List.pairwise_append.mp hsorted).2.2 x (List.mem_reverse.mpr hx) u (by simp)

theorem Leveled.bounded (h : w.Leveled edges ts) (hu : w.visited.head? = some u) (x : String) :
    w.levelOf x ≤ w.levelOf u + 1 := by
  obtain hzero | ⟨y, hy, -, hx⟩ := h.reached x
  · omega
  · have := h.top hu y hy
    omega

theorem Leveled.levelOf_follow (h : w.Leveled edges ts) (hu : w.visited.head? = some u) (x : String) :
    (w.follow (w.levelOf u) v).levelOf x = if v = x then w.levelOf u + 1 else w.levelOf x := by
  by_cases hx : v = x
  · subst hx
    have hle : (w.levels.get? v).getD 0 ≤ w.levelOf u + 1 := h.bounded hu v
    simp only [Walk.levelOf, Walk.follow, Table.get?_set_self, Option.getD_some, if_true]
    exact max_eq_right hle
  · simp only [Walk.levelOf, Walk.follow, Table.get?_set_of_ne _ _ hx, hx, if_false]

theorem Leveled.follow (h : w.Leveled edges (v :: ts)) (hs : w.Sound edges (v :: ts))
    (hu : w.visited.head? = some u) : (w.follow (w.levelOf u) v).Leveled edges ts := by
  have hvisited : v ∉ w.visited := hs.ahead v List.mem_cons_self
  have hready : v ∉ w.ready := fun hm => (hs.due v hm).2 List.mem_cons_self
  have hmem : u ∈ w.visited := List.mem_of_mem_head? hu
  have hnew := h.levelOf_follow (v := v) hu
  have hold {x : String} (hx : x ≠ v) : (w.follow (w.levelOf u) v).levelOf x = w.levelOf x := by
    rw [hnew, if_neg (Ne.symm hx)]
  have hkept {x : String} (hx : x ∈ w.visited) :
      (w.follow (w.levelOf u) v).levelOf x = w.levelOf x := hold fun he => hvisited (he ▸ hx)
  have hqueued {x : String} (hx : x ∈ w.visited.reverse ++ w.ready) : x ≠ v := by
    rintro rfl
    exact (List.mem_append.mp hx).elim (fun hm => hvisited (List.mem_reverse.mp hm)) hready
  have hqueue : (w.visited.reverse ++ w.ready).Pairwise fun a b =>
      (w.follow (w.levelOf u) v).levelOf a ≤ (w.follow (w.levelOf u) v).levelOf b := by
    refine h.sorted.imp_of_mem fun ha hb hab => ?_
    rwa [hold (hqueued ha), hold (hqueued hb)]
  have hbelow {x : String} (hx : x ∈ w.visited.reverse ++ w.ready) :
      (w.follow (w.levelOf u) v).levelOf x ≤ w.levelOf u + 1 := by
    rw [hold (hqueued hx)]
    exact h.bounded hu x
  have hedge : (u, v) ∈ edges := h.leads u hu v List.mem_cons_self
  refine ⟨fun y hy x hx => h.leads y hy x (List.mem_cons_of_mem _ hx), fun a b hab ha => ?_,
    fun x => ?_, ?_, fun y hy x hx => ?_, Table.nodup_set h.names _ _, fun x hx => ?_, fun x hx => ?_⟩
  · rw [hkept ha, hnew]
    by_cases hb : v = b
    · rw [if_pos hb]
      exact .inl (Nat.lt_succ_of_le (h.top hu a ha))
    · rw [if_neg hb]
      refine (h.above a b hab ha).imp_right fun ⟨hhead, hm⟩ => ⟨hhead, ?_⟩
      exact (List.mem_cons.mp hm).resolve_left (Ne.symm hb)
  · by_cases hx : v = x
    · subst hx
      exact .inr ⟨u, hmem, hedge, by rw [hnew, if_pos rfl, hkept hmem]⟩
    · rw [hold (Ne.symm hx)]
      refine (h.reached x).imp_right fun ⟨y, hy, he, hl⟩ => ⟨y, hy, he, ?_⟩
      rw [hkept hy, hl]
  · simp only [Walk.follow] at hqueue hbelow hnew ⊢
    split
    · rw [← List.append_assoc]
      refine List.pairwise_append.mpr ⟨hqueue, List.pairwise_singleton _ _, fun a ha b hb => ?_⟩
      rw [List.mem_singleton.mp hb]
      refine (hbelow ha).trans (le_of_eq ?_)
      exact ((hnew v).trans (if_pos rfl)).symm
    · exact hqueue
  · obtain rfl : y = u := Option.some.inj (hy.symm.trans hu)
    rw [hkept hmem]
    have hx : x ∈ w.ready ∨ x = v := by
      simp only [Walk.follow] at hx
      split at hx
      · simpa using hx
      · exact .inl hx
    rcases hx with hx | rfl
    · exact hbelow (List.mem_append_right _ hx)
    · rw [hnew, if_pos rfl]
  · have := h.recorded x hx
    simp only [Walk.follow, Table.names_set]
    split
    · exact this
    · exact List.mem_append_left _ this
  · simp only [Walk.follow, Table.names_set] at hx
    split at hx
    · exact h.fed x hx
    · rcases List.mem_append.mp hx with hx | hx
      · exact h.fed x hx
      · exact .inr ⟨u, List.mem_singleton.mp hx ▸ hedge⟩

theorem Leveled.follow_all (h : w.Leveled edges ts) (hs : w.Sound edges ts)
    (hu : w.visited.head? = some u) {level : Nat} (hlevel : level = w.levelOf u) :
    (ts.foldl (Walk.follow level) w).Leveled edges [] := by
  subst hlevel
  induction ts generalizing w with
  | nil => exact h
  | cons v ts ih =>
    have hne : v ≠ u := fun he => hs.ahead v List.mem_cons_self (he ▸ List.mem_of_mem_head? hu)
    have hsame : (w.follow (w.levelOf u) v).levelOf u = w.levelOf u := by
      rw [h.levelOf_follow hu, if_neg hne]
    have := ih (h.follow hs hu) (hs.follow _) hu
    rw [hsame] at this
    exact this

theorem levelOf_arrive (w : Walk) (name : String) (rest : List String) (x : String) :
    (w.arrive name rest).levelOf x = w.levelOf x := by
  by_cases hx : name = x
  · subst hx
    simp only [Walk.levelOf, Walk.arrive, Table.get?_set_self, Option.getD_some]
  · simp only [Walk.levelOf, Walk.arrive, Table.get?_set_of_ne _ _ hx]

theorem Leveled.arrive {name : String} {rest : List String} (h : w.Leveled edges [])
    (hready : w.ready = name :: rest) :
    (w.arrive name rest).Leveled edges (targets edges name) := by
  have hsorted := h.sorted
  rw [hready] at hsorted
  refine ⟨fun y hy v hv => ?_, fun a b hab ha => ?_, fun x => ?_, ?_, fun y hy x hx => ?_,
    Table.nodup_set h.names _ _, fun x hx => ?_, fun x hx => ?_⟩
  · obtain rfl : name = y := Option.some.inj hy
    obtain ⟨⟨a, b⟩, hmem, rfl⟩ := List.mem_map.mp hv
    obtain ⟨he, ha⟩ := List.mem_filter.mp hmem
    obtain rfl : a = name := eq_of_beq ha
    exact he
  · rw [levelOf_arrive, levelOf_arrive]
    rcases List.mem_cons.mp ha with rfl | ha
    · exact .inr ⟨rfl, List.mem_map.mpr ⟨(a, b), List.mem_filter.mpr ⟨hab, beq_self_eq_true a⟩, rfl⟩⟩
    · exact .inl ((h.above a b hab ha).resolve_right fun hts => List.not_mem_nil hts.2)
  · simp only [levelOf_arrive]
    exact (h.reached x).imp_right fun ⟨y, hy, hxy⟩ => ⟨y, List.mem_cons_of_mem _ hy, hxy⟩
  · simp only [levelOf_arrive]
    simpa [Walk.arrive] using hsorted
  · obtain rfl : name = y := Option.some.inj hy
    rw [levelOf_arrive, levelOf_arrive]
    have hx : x ∈ w.ready := hready ▸ List.mem_cons_of_mem _ hx
    cases hhead : w.visited.head? with
    | none =>
      -- At the start nothing is above the lowest level.
      have hempty : w.visited = [] := List.head?_eq_none_iff.mp hhead
      obtain hzero | ⟨y, hy, -⟩ := h.reached x
      · omega
      · simp [hempty] at hy
    | some u =>
      have hmem : u ∈ w.visited.reverse := List.mem_reverse.mpr (List.mem_of_mem_head? hhead)
      have hle := (List.pairwise_append.mp hsorted).2.2 u hmem name List.mem_cons_self
      have := h.near u hhead x hx
      omega
  · simp only [Walk.arrive, Table.names_set]
    rcases List.mem_cons.mp hx with rfl | hx
    · split
      · assumption
      · simp
    · have := h.recorded x hx
      split
      · exact this
      · exact List.mem_append_left _ this
  · simp only [Walk.arrive, Table.names_set] at hx
    have hold : x ∈ w.levels.map (·.1) → x ∈ name :: w.visited ∨ ∃ u, (u, x) ∈ edges :=
      fun hx => (h.fed x hx).imp_left (List.mem_cons_of_mem _)
    split at hx
    · exact hold hx
    · rcases List.mem_append.mp hx with hx | hx
      · exact hold hx
      · exact .inl (List.mem_singleton.mp hx ▸ List.mem_cons_self)

theorem Leveled.visit {name : String} {rest : List String} (h : w.Leveled edges [])
    (hs : w.Sound edges []) (hready : w.ready = name :: rest) :
    (w.visit edges name rest).Leveled edges [] :=
  (h.arrive hready).follow_all (hs.arrive hready) rfl (levelOf_arrive w name rest name).symm

theorem Leveled.run (h : w.Leveled edges []) (hs : w.Sound edges []) (fuel : Nat) :
    (Walk.run edges fuel w).Leveled edges [] := by
  have hboth := run_keeps (P := fun w => w.Sound edges [] ∧ w.Leveled edges [])
    (fun ⟨hs, h⟩ hr => ⟨hs.visit hr, h.visit hs hr⟩) fuel ⟨hs, h⟩
  exact hboth.2

theorem start_leveled (g : Graph) : (Walk.start g).Leveled (Topology.edges g) [] := by
  refine ⟨by simp, by simp [start], fun _ => .inl rfl, ?_, by simp [start], by simp [start],
    by simp [start], by simp [start]⟩
  exact List.pairwise_of_forall fun _ _ => le_rfl

end Walk

section

variable {g : Graph} {t : Topology}

theorem walked_leveled (distinct : g.stepNames.Nodup) :
    (walked g).Leveled (Topology.edges g) [] :=
  (Walk.start_leveled g).run (Walk.start_sound distinct) _

/-- The levels of an ordered graph, said without the walk that they come from. -/
structure Graded (g : Graph) (t : Topology) : Prop where
  distinct : g.stepNames.Nodup
  names : (t.levels.map (·.1)).Perm g.stepNames
  sorted : t.order.Pairwise fun a b => t.level a ≤ t.level b
  above : ∀ u v, g.Feeds u v → t.level u < t.level v
  reached : ∀ v, t.level v = 0 ∨ ∃ u, g.Feeds u v ∧ t.level v = t.level u + 1

theorem ofGraph_graded (distinct : g.stepNames.Nodup) (ordered : ofGraph g = .ok t) :
    Graded g t := by
  have hperm := ofGraph_perm distinct ordered
  rw [ofGraph_eq] at ordered
  split at ordered
  · cases ordered
  obtain rfl := Except.ok.inj ordered
  have hvisited (v : String) : v ∈ (walked g).visited ↔ v ∈ g.stepNames := by
    rw [← hperm.mem_iff, List.mem_reverse]
  have h := walked_leveled distinct
  refine ⟨distinct, (List.perm_ext_iff_of_nodup h.names distinct).mpr fun v => ⟨fun hv => ?_, fun hv => ?_⟩,
    ?_, fun u v huv => ?_, fun v => ?_⟩
  · obtain hm | ⟨u, hu⟩ := h.fed v hv
    · exact (hvisited v).mp hm
    · exact (edges_known hu).2
  · exact h.recorded v ((hvisited v).mpr hv)
  · have hsorted := h.sorted
    rw [walked_ready distinct, List.append_nil] at hsorted
    exact hsorted
  · have habove := h.above u v (mem_edges.mpr huv) ((hvisited u).mpr huv.1)
    exact habove.resolve_right fun hts => List.not_mem_nil hts.2
  · exact (h.reached v).imp_right fun ⟨u, _, huv, hl⟩ => ⟨u, mem_edges.mp huv, hl⟩

namespace Graded

variable (h : Graded g t)

include h

theorem get?_eq {v : String} (hv : v ∈ g.stepNames) : t.levels.get? v = some (t.level v) := by
  obtain ⟨n, hn⟩ := Table.mem_names_iff.mp (h.names.mem_iff.mpr hv)
  simp [Topology.level, hn]

theorem path_le {n : Nat} {v : String} (path : g.PathTo n v) : n ≤ t.level v := by
  induction path with
  | start => exact Nat.zero_le _
  | hop _ feeds ih => exact Nat.lt_of_le_of_lt ih (h.above _ _ feeds)

/-- Going back from a step to one that is just a level below, and so on to the lowest level. -/
theorem path {v : String} (hv : v ∈ g.stepNames) : g.PathTo (t.level v) v := by
  induction hn : t.level v generalizing v with
  | zero => exact .start hv
  | succ n ih =>
    obtain hzero | ⟨u, huv, hl⟩ := h.reached v
    · omega
    · exact .hop (ih huv.1 (by omega)) huv

theorem longest {v : String} (hv : v ∈ g.stepNames) : IsGreatest {n | g.PathTo n v} (t.level v) :=
  ⟨h.path hv, fun _ path => h.path_le path⟩

theorem mem_levels_iff {v : String} {n : Nat} :
    (v, n) ∈ t.levels ↔ v ∈ g.stepNames ∧ t.level v = n := by
  rw [Table.mem_iff_get? (h.names.nodup_iff.mpr h.distinct)]
  constructor
  · intro hget
    exact ⟨h.names.mem_iff.mp (Table.mem_names_iff.mpr ⟨n, hget⟩), by simp [Topology.level, hget]⟩
  · rintro ⟨hv, rfl⟩
    exact h.get?_eq hv

theorem occurs {v : String} (hv : v ∈ g.stepNames) {n : Nat} (hn : n ≤ t.level v) :
    ∃ u ∈ g.stepNames, t.level u = n := by
  induction hl : t.level v generalizing v with
  | zero => exact ⟨v, hv, by omega⟩
  | succ m ih =>
    by_cases hm : n = m + 1
    · exact ⟨v, hv, by omega⟩
    · obtain hzero | ⟨u, huv, hlu⟩ := h.reached v
      · omega
      · exact ih huv.1 (by omega) (by omega)

end Graded

theorem depth_le_iff (t : Topology) (n : Nat) : t.depth ≤ n ↔ ∀ e ∈ t.levels, e.2 < n := by
  have hfold (l : Table Nat) (a : Nat) :
      l.foldl (fun acc e => max acc (e.2 + 1)) a ≤ n ↔ a ≤ n ∧ ∀ e ∈ l, e.2 < n := by
    induction l generalizing a with
    | nil => simp
    | cons e l ih =>
      rw [List.foldl_cons, ih, List.forall_mem_cons, max_le_iff, and_assoc, Nat.succ_le_iff]
  exact (hfold t.levels 0).trans (by simp)

namespace Graded

variable (h : Graded g t)

include h

theorem depth_le_iff {n : Nat} : t.depth ≤ n ↔ ∀ v ∈ g.stepNames, t.level v < n := by
  rw [Topology.depth_le_iff]
  constructor
  · exact fun hall v hv => hall (v, t.level v) (h.mem_levels_iff.mpr ⟨hv, rfl⟩)
  · rintro hall ⟨v, m⟩ hm
    obtain ⟨hv, rfl⟩ := h.mem_levels_iff.mp hm
    exact hall v hv

theorem lt_depth_iff {n : Nat} : n < t.depth ↔ ∃ v ∈ g.stepNames, t.level v = n := by
  constructor
  · intro hlt
    by_contra hnone
    refine absurd (h.depth_le_iff.mpr fun v hv => ?_) (Nat.not_le.mpr hlt)
    by_contra hge
    exact hnone (h.occurs hv (Nat.not_lt.mp hge))
  · rintro ⟨v, hv, rfl⟩
    exact h.depth_le_iff.mp le_rfl v hv

theorem levels_eq : (t.levels.map (·.2)).toFinset = Finset.range t.depth := by
  ext n
  rw [List.mem_toFinset, Finset.mem_range, h.lt_depth_iff, List.mem_map]
  constructor
  · rintro ⟨⟨v, m⟩, hm, rfl⟩
    exact ⟨v, h.mem_levels_iff.mp hm⟩
  · rintro ⟨v, hv, rfl⟩
    exact ⟨(v, t.level v), h.mem_levels_iff.mpr ⟨hv, rfl⟩, rfl⟩

theorem longest_of_all (steps : g.steps ≠ []) :
    ∃ longest, IsGreatest {n | ∃ v, g.PathTo n v} longest ∧ t.depth = longest + 1 := by
  obtain ⟨s, hs⟩ := List.exists_mem_of_ne_nil _ steps
  have hpos : 0 < t.depth := by
    have := h.depth_le_iff.mp le_rfl s.name (List.mem_map_of_mem hs)
    omega
  obtain ⟨v, hv, htop⟩ := h.lt_depth_iff.mp (show t.depth - 1 < t.depth by omega)
  refine ⟨t.depth - 1, ⟨⟨v, htop ▸ h.path hv⟩, ?_⟩, by omega⟩
  rintro n ⟨u, path⟩
  have hu : u ∈ g.stepNames := by
    cases path with
    | start known => exact known
    | hop _ feeds => exact feeds.2.1
  have hle := h.path_le path
  have := h.depth_le_iff.mp le_rfl u hu
  omega

end Graded

/-- The level of every step is the length of the longest path of hops that ends there, the steps are
ordered by their levels, and there are as many levels as steps on the longest path of all. -/
theorem levels_are_longest_paths (distinct : g.stepNames.Nodup) (ordered : ofGraph g = .ok t) :
    (t.levels.map (·.1)).Perm g.stepNames ∧
    (∀ v ∈ g.stepNames, t.levels.get? v = some (t.level v) ∧
      IsGreatest {n | g.PathTo n v} (t.level v)) ∧
    (t.order.Pairwise fun u v => t.level u ≤ t.level v) ∧
    (g.steps = [] → t.depth = 0) ∧
    (g.steps ≠ [] → ∃ longest, IsGreatest {n | ∃ v, g.PathTo n v} longest ∧ t.depth = longest + 1) ∧
    t.depth = (t.levels.map (·.2)).toFinset.card := by
  have h := ofGraph_graded distinct ordered
  refine ⟨h.names, fun v hv => ⟨h.get?_eq hv, h.longest hv⟩, h.sorted, fun steps => ?_,
    h.longest_of_all, ?_⟩
  · refine Nat.le_zero.mp (h.depth_le_iff.mpr fun v hv => ?_)
    simp [Graph.stepNames, steps] at hv
  · rw [h.levels_eq, Finset.card_range]

/-- A straight way and a longer one to the same step; the hop that would make a longer one still is
switched off. -/
def detour : Graph where
  steps := [{ name := "out", type := "dummy" }, { name := "in", type := "dummy" },
    { name := "a", type := "dummy" }, { name := "b", type := "dummy" }]
  hops := [⟨"in", "out", true⟩, ⟨"in", "a", true⟩, ⟨"a", "b", true⟩, ⟨"b", "out", true⟩,
    ⟨"out", "in", false⟩]

theorem detour_levels : ∃ t, detour.stepNames.Nodup ∧ ofGraph detour = .ok t ∧
    t.order = ["in", "a", "b", "out"] ∧ t.depth = 4 ∧
    IsGreatest {n | detour.PathTo n "out"} 3 ∧ ¬ detour.PathTo 1 "in" := by
  have distinct : detour.stepNames.Nodup := by decide
  let t : Topology :=
    { order := ["in", "a", "b", "out"], levels := [("in", 0), ("out", 3), ("a", 1), ("b", 2)] }
  have ordered : ofGraph detour = .ok t := by decide
  obtain ⟨-, hlongest, -, -, -, hdepth⟩ := levels_are_longest_paths distinct ordered
  refine ⟨t, distinct, ordered, rfl, hdepth.trans (by decide), (hlongest "out" (by decide)).2,
    fun hpath => ?_⟩
  exact absurd ((hlongest "in" (by decide)).2.2 hpath) (by decide)

end

end Topology

end Sluice
