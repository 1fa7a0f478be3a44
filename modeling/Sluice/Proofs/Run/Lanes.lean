import Sluice.Proofs.Run.Wiring

/-!
Lanes: which unit feeds which, read off a graph. Each copy of the source of an enabled hop has a
bundle of lanes to the copies that it feeds; the channels of a run are the lanes of its graph, in
the order of the hops and, within a hop, of the copies of its source.
-/

namespace Sluice

/-- Rows flow from one unit straight to another. -/
structure Lane where
  source : UnitId
  target : UnitId
  deriving DecidableEq, Repr

/-- All lanes of one copy of the source of a hop. -/
structure Bundle where
  source : UnitId
  target : String
  fed : List UnitId

def Bundle.lanes (b : Bundle) : List Lane :=
  b.fed.map (Lane.mk b.source)

namespace Graph

def copyCount (g : Graph) (name : String) : Nat :=
  (g.copies name).length

/-- The units that one copy of the source of a hop feeds: its counterpart where the target has as
many copies, otherwise all copies of the target. -/
def fed (g : Graph) (h : Hop) (source : UnitId) : List UnitId :=
  if g.copyCount h.source = g.copyCount h.target then [⟨h.target, source.copy⟩]
  else g.copies h.target

def bundle (g : Graph) (h : Hop) (source : UnitId) : Bundle :=
  ⟨source, h.target, g.fed h source⟩

def hopBundles (g : Graph) (h : Hop) : List Bundle :=
  (g.copies h.source).map (g.bundle h)

def bundles (g : Graph) : List Bundle :=
  g.enabledHops.flatMap g.hopBundles

def lanes (g : Graph) : List Lane :=
  g.bundles.flatMap Bundle.lanes

def channelOf (g : Graph) (l : Lane) : Nat :=
  g.lanes.idxOf l

def feeders (g : Graph) (u : UnitId) : List UnitId :=
  (g.inputHops u.step).flatMap fun h => (g.copies h.source).filter fun s => u ∈ g.fed h s

/-- An enabled hop leads from one unit to the other, and pairs them if it pairs copies. -/
structure Joins (g : Graph) (l : Lane) : Prop where
  hop : ∃ h ∈ g.enabledHops, h.source = l.source.step ∧ h.target = l.target.step
  source : l.source.copy < g.copyCount l.source.step
  target : l.target.copy < g.copyCount l.target.step
  paired : g.copyCount l.source.step = g.copyCount l.target.step → l.source.copy = l.target.copy

variable {g : Graph} {h : Hop} {s u : UnitId}

theorem mem_copies {name : String} :
    u ∈ g.copies name ↔ u.step = name ∧ u.copy < g.copyCount name := by
  simp only [copyCount, copies, List.length_map, List.length_range, List.mem_map, List.mem_range]
  constructor
  · rintro ⟨k, hk, rfl⟩
    exact ⟨rfl, hk⟩
  · rintro ⟨rfl, hk⟩
    exact ⟨u.copy, hk, rfl⟩

theorem mem_fed (hs : s ∈ g.copies h.source) : u ∈ g.fed h s ↔ u ∈ g.copies h.target ∧
    (g.copyCount h.source = g.copyCount h.target → s.copy = u.copy) := by
  obtain ⟨-, hlt⟩ := mem_copies.mp hs
  unfold fed
  split
  · rename_i heq
    rw [List.mem_singleton, mem_copies, ← heq]
    constructor
    · rintro rfl
      exact ⟨⟨rfl, hlt⟩, fun _ => rfl⟩
    · rintro ⟨⟨hstep, -⟩, hcopy⟩
      rw [UnitId.mk.injEq]
      exact ⟨hstep, (hcopy rfl).symm⟩
  · simp [*]

theorem fed_nodup (h : Hop) (s : UnitId) : (g.fed h s).Nodup := by
  unfold fed
  split
  · exact List.nodup_singleton _
  · exact copies_nodup g _

theorem mem_bundles {b : Bundle} :
    b ∈ g.bundles ↔ ∃ h ∈ g.enabledHops, ∃ s ∈ g.copies h.source, g.bundle h s = b := by
  simp only [bundles, hopBundles, List.mem_flatMap, List.mem_map]

theorem mem_lanes_iff {l : Lane} : l ∈ g.lanes ↔
    ∃ h ∈ g.enabledHops, l.source ∈ g.copies h.source ∧ l.target ∈ g.fed h l.source := by
  rw [lanes, List.mem_flatMap]
  constructor
  · rintro ⟨b, hb, hl⟩
    obtain ⟨h, hh, s, hs, rfl⟩ := mem_bundles.mp hb
    obtain ⟨t, ht, rfl⟩ := List.mem_map.mp hl
    exact ⟨h, hh, hs, ht⟩
  · rintro ⟨h, hh, hs, ht⟩
    exact ⟨_, mem_bundles.mpr ⟨h, hh, _, hs, rfl⟩, List.mem_map.mpr ⟨_, ht, rfl⟩⟩

/-- The lanes of a graph are exactly the pairs of units that its enabled hops join. -/
theorem mem_lanes {l : Lane} : l ∈ g.lanes ↔ g.Joins l := by
  rw [mem_lanes_iff]
  constructor
  · rintro ⟨h, hh, hs, ht⟩
    obtain ⟨htarget, hpaired⟩ := (mem_fed hs).mp ht
    obtain ⟨hsource, hlt⟩ := mem_copies.mp hs
    obtain ⟨htstep, htlt⟩ := mem_copies.mp htarget
    refine ⟨⟨h, hh, hsource.symm, htstep.symm⟩, hsource.symm ▸ hlt, htstep.symm ▸ htlt, ?_⟩
    intro heq
    exact hpaired (by rwa [← hsource, ← htstep])
  · rintro ⟨⟨h, hh, hsource, htarget⟩, hslt, htlt, hpaired⟩
    have hs : l.source ∈ g.copies h.source := mem_copies.mpr ⟨hsource.symm, hsource ▸ hslt⟩
    have ht : l.target ∈ g.copies h.target := mem_copies.mpr ⟨htarget.symm, htarget ▸ htlt⟩
    refine ⟨h, hh, hs, (mem_fed hs).mpr ⟨ht, fun heq => hpaired ?_⟩⟩
    rwa [← hsource, ← htarget]

theorem bundle_lane {l : Lane} (hs : s ∈ g.copies h.source) (hl : l ∈ (g.bundle h s).lanes) :
    l.source = s ∧ l.target.step = h.target := by
  obtain ⟨t, ht, rfl⟩ := List.mem_map.mp hl
  exact ⟨rfl, (mem_copies.mp ((mem_fed hs).mp ht).1).1⟩

theorem nodup_lanes (hn : (g.enabledHops.map fun h => (h.source, h.target)).Nodup) :
    g.lanes.Nodup := by
  have hends : (g.bundles.map fun b => (b.source, b.target)).Nodup := by
    simp only [bundles, List.map_flatMap, hopBundles, List.map_map]
    refine List.nodup_flatMap.mpr ⟨fun h _ => ?_, (List.pairwise_map.mp hn).imp ?_⟩
    · exact (copies_nodup g _).map_on fun a _ b _ hab => (Prod.mk.inj hab).1
    · rintro h h' hne x hx hx'
      obtain ⟨s, hs, rfl⟩ := List.mem_map.mp hx
      obtain ⟨s', hs', heq⟩ := List.mem_map.mp hx'
      obtain ⟨rfl, htarget⟩ := Prod.mk.inj heq
      refine hne (Prod.ext ?_ htarget.symm)
      exact (mem_copies.mp hs).1.symm.trans (mem_copies.mp hs').1
  refine List.nodup_flatMap.mpr ⟨fun b hb => ?_, (List.pairwise_map.mp hends).imp_of_mem ?_⟩
  · obtain ⟨h, -, s, -, rfl⟩ := mem_bundles.mp hb
    exact (fed_nodup h s).map_on fun a _ b _ hab => (Lane.mk.inj hab).2
  · intro b b' hb hb' hne l hl hl'
    obtain ⟨h, -, s, hs, rfl⟩ := mem_bundles.mp hb
    obtain ⟨h', -, s', hs', rfl⟩ := mem_bundles.mp hb'
    obtain ⟨hsource, htarget⟩ := bundle_lane hs hl
    obtain ⟨hsource', htarget'⟩ := bundle_lane hs' hl'
    exact hne (Prod.ext (hsource.symm.trans hsource') (htarget.symm.trans htarget'))

theorem bundles_from (hu : u ∈ g.copies u.step) :
    (g.bundles.filter fun b => b.source = u) = (g.outputHops u.step).map fun h => g.bundle h u := by
  rw [bundles, List.filter_flatMap, outputHops, List.map_eq_flatMap, List.flatMap_filter]
  refine List.flatMap_congr fun h _ => ?_
  have hone : (g.copies h.source).filter ((fun b : Bundle => decide (b.source = u)) ∘ g.bundle h) =
      if u ∈ g.copies h.source then [u] else [] :=
    List.filter_eq_of_nodup (copies_nodup g h.source) u
  rw [hopBundles, List.filter_map, hone]
  by_cases hstep : h.source = u.step
  · simp [hstep, hu]
  · have hout : u ∉ g.copies h.source := fun hm => hstep (mem_copies.mp hm).1.symm
    simp [hstep, hout]

theorem lanes_into (g : Graph) (u : UnitId) :
    (g.lanes.filter fun l => l.target = u) = (g.feeders u).map fun s => ⟨s, u⟩ := by
  rw [lanes, bundles, List.flatMap_assoc, List.filter_flatMap, feeders, inputHops,
    List.flatMap_filter, List.map_flatMap]
  refine List.flatMap_congr fun h _ => ?_
  have hlanes (s : UnitId) : ((g.bundle h s).lanes.filter fun l => l.target = u) =
      if u ∈ g.fed h s then [⟨s, u⟩] else [] := by
    have hone : (g.fed h s).filter ((fun l : Lane => decide (l.target = u)) ∘ Lane.mk s) =
        if u ∈ g.fed h s then [u] else [] :=
      List.filter_eq_of_nodup (fed_nodup h s) u
    rw [Bundle.lanes, List.filter_map]
    refine (congrArg (List.map (Lane.mk s)) hone).trans ?_
    split <;> rfl
  simp only [hopBundles, List.flatMap_map, List.filter_flatMap, hlanes]
  by_cases hstep : h.target = u.step
  · simp [hstep, List.map_eq_flatMap, List.flatMap_filter]
  · have hout (s : UnitId) (hs : s ∈ g.copies h.source) : u ∉ g.fed h s := fun hm =>
      hstep (mem_copies.mp ((mem_fed hs).mp hm).1).1.symm
    simp only [beq_iff_eq, hstep, if_false, List.map_nil, List.flatMap_eq_nil_iff]
    exact fun s hs => if_neg (hout s hs)

theorem channelOf_next {ls : List Lane} {l : Lane} (hn : g.lanes.Nodup)
    (h : ls ++ [l] <+: g.lanes) : g.channelOf l = ls.length := by
  obtain ⟨rest, hrest⟩ := h
  have hnew : l ∉ ls := by
    rw [← hrest, List.append_assoc] at hn
    exact fun hm => (List.nodup_append.mp hn).2.2 l hm l List.mem_cons_self rfl
  rw [channelOf, ← hrest, List.append_assoc, List.idxOf_append_of_notMem hnew]
  simp

theorem channelOf_lt {l : Lane} (hl : l ∈ g.lanes) : g.channelOf l < g.lanes.length :=
  List.idxOf_lt_length_of_mem hl

theorem map_channelOf (hn : g.lanes.Nodup) :
    g.lanes.map g.channelOf = List.range g.lanes.length := by
  refine List.ext_getElem (by simp) fun i hi _ => ?_
  simpa [channelOf] using hn.idxOf_getElem i (by simpa using hi)

end Graph

end Sluice
