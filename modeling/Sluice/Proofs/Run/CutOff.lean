import Sluice.Proofs.Run.Closing

/-!
Streams cut off. A unit that stops closes its outputs as every unit does, and it may be quicker than
the stop, which aborts the channels one after another: then the stream ends without having come to
its end, and nothing tells the reader. Apart from that a reader finds the end of a stream only if
its writer finished.
-/

namespace Sluice

namespace Run

section

variable {σ : Type}

/-- The channel that a stopped unit is closing in this deed although nobody has aborted it. -/
def cutBy (r : Run σ) : Deed → List Nat
  | .move (.unit i) =>
    match (r.units[i]?).map RunUnit.stage with
    | some (.closing (.close c :: _) .stopped) =>
      match r.net.channel? c with
      | some ch => if ch.closed || ch.aborted then [] else [c]
      | none => []
    | _ => []
  | _ => []

/-- The channels whose streams were cut off in the course of some deeds. -/
def cutOff (r : Run σ) : List Deed → List Nat
  | [] => []
  | d :: ds => r.cutBy d ++ (r.act d).cutOff ds

variable {r r' : Run σ}

theorem cutOff_append (r : Run σ) (ds es : List Deed) :
    r.cutOff (ds ++ es) = r.cutOff ds ++ (r.after ds).cutOff es := by
  induction ds generalizing r with
  | nil => rfl
  | cons d ds ih =>
    rw [List.cons_append, cutOff, cutOff, ih, List.append_assoc]
    rfl

theorem mem_cutBy {d : Deed} {c : Nat} :
    c ∈ r.cutBy d ↔ ∃ i u rest ch, d = .move (.unit i) ∧ r.units[i]? = some u ∧
      u.stage = .closing (.close c :: rest) .stopped ∧ r.net.channel? c = some ch ∧
      ch.closed = false ∧ ch.aborted = false := by
  constructor
  · intro h
    unfold cutBy at h
    split at h
    · rename_i i
      split at h
      · rename_i c' rest hstage
        obtain ⟨u, hu, hs⟩ := Option.map_eq_some_iff.mp hstage
        split at h
        · rename_i ch hch
          split at h
          · cases h
          · rename_i hopen
            obtain rfl := List.mem_singleton.mp h
            obtain ⟨hcl, hab⟩ : ch.closed = false ∧ ch.aborted = false := by simpa using hopen
            exact ⟨i, u, rest, ch, rfl, hu, hs, hch, hcl, hab⟩
        · cases h
      · cases h
    · cases h
  · rintro ⟨i, u, rest, ch, rfl, hu, hs, hch, hcl, hab⟩
    simp [cutBy, hu, hs, hch, hcl, hab]

theorem Acted.unstarted {d : Deed} (ha : r.Acted d r') (ho : r.Orderly)
    (h : ∀ u ∈ r'.units, u.stage = .unstarted) : ∀ u ∈ r.units, u.stage = .unstarted := by
  have hnew (hp : r.phase = .new) : ∀ u ∈ r.units, u.stage = .unstarted := by
    simp [(ho.blank hp).units]
  have hmodify {i : Nat} {f : RunUnit σ → RunUnit σ} (hf : ∀ u, (f u).stage = u.stage)
      (h : ∀ u ∈ r.units.modify i f, u.stage = .unstarted) :
      ∀ u ∈ r.units, u.stage = .unstarted := by
    have hmap := List.map_modify_of_eq hf r.units i
    intro u hu
    obtain ⟨v, hv, he⟩ := List.mem_map.mp (hmap ▸ List.mem_map_of_mem hu)
    rw [← he]
    exact h v hv
  cases ha with
  | idle | offered | finishing | stopped | waited => exact h
  | spoiled phase | unwound phase | shelved phase | prepared phase => exact hnew phase
  | fed =>
    refine hmodify ?_ h
    exact fun _ => rfl
  | observed =>
    refine hmodify ?_ h
    exact fun _ => rfl
  | started =>
    intro u hu
    have := h _ (List.mem_map_of_mem hu)
    unfold RunUnit.spawn at this
    split at this
    · cases this
    · exact this
  | moved stepped =>
    cases stepped with
    | unit at_i moved =>
      have hlt := (List.getElem?_eq_some_iff.mp at_i).1
      exact absurd (h _ (List.mem_set hlt _)) moved.step.1
    | producer => exact h
    | stop => exact h

theorem cutBy_unstarted {d : Deed} (h : ∀ u ∈ r.units, u.stage = .unstarted) : r.cutBy d = [] := by
  rw [List.eq_nil_iff_forall_not_mem]
  intro c hc
  obtain ⟨i, u, rest, ch, -, hu, hs, -⟩ := mem_cutBy.mp hc
  simp [h u (List.mem_of_getElem? hu)] at hs

theorem cutOff_unstarted (ho : r.Orderly) (ds : List Deed)
    (h : ∀ u ∈ (r.after ds).units, u.stage = .unstarted) : r.cutOff ds = [] := by
  induction ds using List.reverseRecOn with
  | nil => rfl
  | append_singleton ds d ih =>
    rw [after_append] at h
    have hbefore := (act_acted _ d).unstarted (ho.after ds) h
    simp [cutOff_append, cutOff, ih hbefore, cutBy_unstarted hbefore]

/-- What is known of ended streams when these were cut off. -/
structure Ended (r : Run σ) (cut : List Nat) : Prop where
  closing : r.Closing
  stopped : ∀ c ∈ cut, ∃ u ∈ r.units, c ∈ u.border.outputChannels ∧ u.ending = some .stopped
  closed : ∀ u ∈ r.units, ∀ c ∈ u.border.outputChannels, u.ending = some .stopped →
    r.net.Closed c → r.net.Aborted c ∨ c ∈ cut
  read : ∀ u ∈ r.units, ∀ w ∈ r.units, ∀ inlet ∈ w.border.inputs, inlet.finished = true →
    inlet.channel ∈ u.border.outputChannels →
    u.ending = some .finished ∨ u.ending = some .stopped ∧ inlet.channel ∈ cut

theorem cutBy_stopped (ho : r.Orderly) {d : Deed} {c : Nat} (hc : c ∈ r.cutBy d) :
    ∃ u ∈ r.units, c ∈ u.border.outputChannels ∧ u.ending = some .stopped := by
  obtain ⟨i, u, rest, ch, -, hu, hs, -⟩ := mem_cutBy.mp hc
  have hmem := List.mem_of_getElem? hu
  have howing := ho.units u hmem
  simp only [RunUnit.Owing, hs] at howing
  obtain ⟨c', hc', he | he⟩ := howing _ List.mem_cons_self
  · cases he
    exact ⟨u, hmem, hc', by simp [RunUnit.ending, hs]⟩
  · cases he

/-- The end of a stream is found only if the writer finished, or stopped and cut it off. -/
theorem Ended.found {cut : List Nat} (h : r.Ended cut) (hl : r.Afoot) {u : RunUnit σ}
    (hu : u ∈ r.units) {c : Nat} (hc : c ∈ u.border.outputChannels) (hd : r.net.Drained c)
    (ha : ¬ r.net.Aborted c) :
    u.ending = some .finished ∨ u.ending = some .stopped ∧ c ∈ cut := by
  have hlively := hl.lively u hu
  obtain ⟨e, he⟩ :=
    Option.isSome_iff_exists.mp ((h.closing.closes u hu).settled hlively hc hd.closed)
  cases e with
  | finished => exact .inl he
  | stopped => exact .inr ⟨he, (h.closed u hu c hc he hd.closed).resolve_left ha⟩
  | errored => exact absurd ((h.closing.fails u hu).errored he c (hl.out_lt hu hc)) ha
  | _ =>
    have := hlively.isEnd he
    simp [UnitState.isEnd] at this

theorem Ended.stepped {cut : List Nat} (h : r.Ended cut) (ho : r.Orderly) (hl : r.Afoot)
    {party : Party} {t : Touch} (hs : r.Stepped party t r') :
    r'.Ended (cut ++ r.cutBy (.move party)) := by
  have ht := hs.touched
  have hforth {c : Nat} (hu : ∃ u ∈ r.units, c ∈ u.border.outputChannels ∧ u.ending = some .stopped) :
      ∃ u ∈ r'.units, c ∈ u.border.outputChannels ∧ u.ending = some .stopped := by
    obtain ⟨u, hu, hc, he⟩ := hu
    obtain ⟨i, hi⟩ := List.getElem?_of_mem hu
    obtain ⟨v, hv, rfl | hm⟩ := hs.forth hi
    · exact ⟨v, List.mem_of_getElem? hv, hc, he⟩
    · exact ⟨v, List.mem_of_getElem? hv, hm.outputs ▸ hc, (hl.lively u hu).ending_moved hm he⟩
  refine ⟨h.closing.stepped ho hl hs, fun c hc => ?_, fun v hv c hc he hcl => ?_,
    fun v hv w hw inlet hi hf hc => ?_⟩
  · rcases List.mem_append.mp hc with hc | hc
    · exact hforth (h.stopped c hc)
    · exact hforth (cutBy_stopped ho hc)
  · obtain ⟨i, u, hu, hvu⟩ := hs.back hv
    have hmem := List.mem_of_getElem? hu
    have hcu : c ∈ u.border.outputChannels := by
      rcases hvu with rfl | hm
      · exact hc
      · exact hm.outputs ▸ hc
    have hsame {e : UnitState} (he' : u.ending = some e) : e = .stopped := by
      rcases hvu with rfl | hm
      · simpa [he'] using he
      · simpa [(hl.lively u hmem).ending_moved hm he'] using he
    rcases ht.closed_inv hcl with hcl | rfl
    · obtain ⟨e, he'⟩ := Option.isSome_iff_exists.mp
        ((h.closing.closes u hmem).settled (hl.lively u hmem) hcu hcl)
      obtain rfl := hsame he'
      exact (h.closed u hmem c hcu he' hcl).imp ht.aborted (List.mem_append_left _)
    · obtain ⟨rfl, rest, e, hstage⟩ := hl.closer ho hu hcu hs
      obtain rfl := hsame (e := e) (by simp [RunUnit.ending, hstage])
      by_cases hab : r.net.Aborted c
      · exact .inl (ht.aborted hab)
      · refine .inr (List.mem_append_right _ (mem_cutBy.mpr ?_))
        obtain ⟨ch, hch, hopen⟩ := ht.opened
        refine ⟨i, u, rest, ch, rfl, hu, hstage, hch, hopen, ?_⟩
        by_contra hab'
        exact hab ⟨ch, hch, by simpa using hab'⟩
  · obtain ⟨i, u, hu, hvu⟩ := hs.back hv
    have hmem := List.mem_of_getElem? hu
    have hcu : inlet.channel ∈ u.border.outputChannels := by
      rcases hvu with rfl | hm
      · exact hc
      · exact hm.outputs ▸ hc
    have hlast {e : UnitState} (he : u.ending = some e) : v.ending = some e := by
      rcases hvu with rfl | hm
      · exact he
      · exact (hl.lively u hmem).ending_moved hm he
    obtain ⟨k, x, hx, hwx⟩ := hs.back hw
    have hxmem := List.mem_of_getElem? hx
    have hbefore : u.ending = some .finished ∨ u.ending = some .stopped ∧ inlet.channel ∈ cut := by
      rcases hwx with rfl | hm
      · exact h.read u hmem w hxmem inlet hi hf hcu
      · obtain hi | ⟨hd, ha⟩ := hm.finished hi hf
        · exact h.read u hmem x hxmem inlet hi hf hcu
        · exact h.found hl hmem hcu hd ha
    exact hbefore.imp hlast fun hcut => ⟨hlast hcut.1, List.mem_append_left _ hcut.2⟩

variable {registry : Registry σ} {settings : Settings} {g : Graph} {armed : List String}

theorem ended_conveys (ds : List Deed) (d : Deed) :
    let r := Run.new registry settings g armed
    Conveys (r.after ds) d (Ended · (r.cutOff ds)) (Ended · (r.cutOff (ds ++ [d]))) := by
  intro r
  have ho := orderly_new registry settings g armed
  have hcut : r.cutOff (ds ++ [d]) = r.cutOff ds ++ (r.after ds).cutBy d := by
    simp [cutOff_append, cutOff]
  refine ⟨fun r' hr' _ _ _ hl hp => ?_, fun r' manifest _ _ hl hp _ hr' => ?_,
    fun r' _ ho hl h ha => ?_, fun r' party t _ ho hl hp h hd hs => ?_⟩
  · have hstage (u : RunUnit σ) (hu : u ∈ r'.units) : u.stage = .unstarted :=
      (hl.unstarted u hu).mpr hp
    have hnone : r.cutOff (ds ++ [d]) = [] := cutOff_unstarted ho _ (by
      rw [after_append]
      subst hr'
      exact hstage)
    rw [hnone]
    refine ⟨hl.closing hp, by simp, fun u hu c hc he => ?_, fun u _ w hw inlet hi hf => ?_⟩
    · simp [RunUnit.ending, hstage u hu] at he
    · simp [hl.unread hp w hw inlet hi] at hf
  · have hstage (u : RunUnit σ) (hu : u ∈ (r.after ds).units) : u.stage = .unstarted :=
      (hl.unstarted u hu).mpr hp
    have hnone : r.cutOff (ds ++ [d]) = [] := by
      rw [hcut, cutOff_unstarted ho ds hstage, cutBy_unstarted hstage, List.append_nil]
    rw [hnone]
    subst hr'
    refine ⟨(hl.closing hp).started hl hp, by simp, fun v hv c hc he => ?_,
      fun u _ w hw inlet hi hf => ?_⟩
    · obtain ⟨u, -, -, rfl⟩ := hl.spawned hp hv
      simp [RunUnit.ending] at he
    · obtain ⟨x, hx, -, rfl⟩ := hl.spawned hp hw
      simp [hl.unread hp x hx inlet hi] at hf
  · rw [hcut]
    refine ⟨h.closing.attended ha, ?_, ?_, ?_⟩
    · rw [ha.units]
      intro c hc
      rcases List.mem_append.mp hc with hc | hc
      · exact h.stopped c hc
      · exact cutBy_stopped ho hc
    · rw [ha.units, ha.net]
      exact fun u hu c hc he hcl => (h.closed u hu c hc he hcl).imp_right (List.mem_append_left _)
    · rw [ha.units]
      exact fun u hu w hw inlet hi hf hc =>
        (h.read u hu w hw inlet hi hf hc).imp_right fun h => ⟨h.1, List.mem_append_left _ h.2⟩
  · subst hd
    rw [hcut]
    exact h.stepped ho hl hs

end

end Run

end Sluice
