import Sluice.Proofs.Run.Afoot

/-!
Histories of runs, whatever their steps do. A run is not prepared yet, or never to be started, or
afoot; what a run that is afoot keeps from deed to deed holds of it after any history.
-/

namespace Sluice

variable {σ : Type}

/-- A unit keeps its place and its outputs, and how it is going to end once that is settled. -/
structure RunUnit.Kept (u v : RunUnit σ) : Prop where
  id : v.id = u.id
  outputs : v.border.outputChannels = u.border.outputChannels
  ending : ∀ e, u.ending = some e → v.ending = some e

namespace Run

variable {r r' : Run σ} {P P' : Run σ → Prop} {d : Deed}

/-- Not prepared yet, never to be started, or afoot with a property. -/
inductive Begun (P : Run σ → Prop) (r : Run σ) : Prop
  | blank (phase : r.phase = .new)
  | shelved (phase : r.phase = .finished) (units : ∀ u ∈ r.units, u.Shelved)
      (producers : r.producers = [])
  | afoot (afoot : r.Afoot) (holds : P r)

theorem Begun.of_unit (h : r.Begun P) (ho : r.Orderly) {u : RunUnit σ} (hu : u ∈ r.units)
    (hs : ¬ u.Shelved) : r.Afoot ∧ P r := by
  cases h with
  | blank phase => simp [(ho.blank phase).units] at hu
  | shelved phase units => exact absurd (units u hu) hs
  | afoot afoot holds => exact ⟨afoot, holds⟩

/-- The owner did something that concerns neither the units nor the net. -/
structure Attended (r r' : Run σ) : Prop where
  units : r'.units = r.units
  net : r'.net = r.net
  wires : r'.wires = r.wires
  producers : r'.producers.map (fun p => (p.unit, p.channel, p.todo)) =
    r.producers.map fun p => (p.unit, p.channel, p.todo)
  stops : r'.stops = r.stops ∨ r'.stops = r.stops ++ [NetAction.stopAll]

theorem attended_self (r : Run σ) : r.Attended r :=
  ⟨rfl, rfl, rfl, rfl, .inl rfl⟩

theorem attended_modify (r : Run σ) (k : Nat) {f : Producer → Producer}
    (h : ∀ p, (f p).unit = p.unit ∧ (f p).channel = p.channel ∧ (f p).todo = p.todo) :
    r.Attended { r with producers := r.producers.modify k f } :=
  ⟨rfl, rfl, rfl, List.map_modify_of_eq (fun p => by simp [h p]) r.producers k, .inl rfl⟩

theorem Stepped.idle {party : Party} {t : Touch} (h : r.Stepped party t r') (hp : r.producers = [])
    (hu : ∀ u ∈ r.units, u.stage = .unstarted) : ∃ net stops, r' = { r with net, stops } := by
  cases h with
  | unit at_i moved => exact absurd (hu _ (List.mem_of_getElem? at_i)) moved.started
  | producer at_k => simp [hp] at at_k
  | stop => exact ⟨_, _, rfl⟩

theorem Stepped.phase {party : Party} {t : Touch} (h : r.Stepped party t r') :
    r'.phase = r.phase := by
  cases h <;> rfl

theorem Begun.acted (h : r.Begun P) (ho : r.Orderly) (ha : r.Acted d r')
    (convey : r.phase = .new ∧ r'.phase = .prepared ∨ r.Afoot ∧ P r → r'.Afoot → P' r') :
    r'.Begun P' := by
  have hprepared (hp : r.phase = .prepared) : r.Afoot ∧ P r := by
    cases h with
    | blank phase => simp [hp] at phase
    | shelved phase => simp [hp] at phase
    | afoot afoot holds => exact ⟨afoot, holds⟩
  have hafoot (hb : r.Afoot ∧ P r) (hb' : r'.Afoot) : r'.Begun P' :=
    .afoot hb' (convey (.inr hb) hb')
  cases ha with
  | idle =>
    cases h with
    | blank phase => exact .blank phase
    | shelved phase units producers => exact .shelved phase units producers
    | afoot afoot holds => exact hafoot ⟨afoot, holds⟩ afoot
  | spoiled phase =>
    exact .shelved rfl (by simp [(ho.blank phase).units]) (ho.blank phase).producers
  | unwound phase => exact .blank phase
  | shelved phase wired units_shelved =>
    have hfresh := (ho.wired phase wired).1
    exact .shelved rfl (units_shelved fun u hu => (hfresh u hu).shelved) (ho.blank phase).producers
  | @prepared plan w units calls phase wired initiated =>
    have afoot : Afoot { r with
        phase := .prepared, plan := some plan, units, wires := w.wires, net := w.net, calls } :=
      (ho.blank phase).afoot wired initiated
    exact .afoot afoot (convey (.inl ⟨phase, rfl⟩) afoot)
  | fed phase _ at_i => exact hafoot (hprepared phase) ((hprepared phase).1.fed at_i)
  | @observed i unit phase => exact hafoot (hprepared phase) ((hprepared phase).1.observed i)
  | started phase => exact hafoot (hprepared phase) ((hprepared phase).1.started phase)
  | @offered k rows =>
    cases h with
    | blank phase => exact .blank phase
    | shelved phase units producers => exact .shelved phase units (by simp [offer, producers])
    | afoot afoot holds =>
      refine hafoot ⟨afoot, holds⟩ (afoot.congr afoot.phase Iff.rfl ?_)
      exact List.map_modify_of_eq (f := Producer.channel) (g := (·.offer rows)) (fun _ => rfl)
        r.producers k
  | @finishing k =>
    cases h with
    | blank phase => exact .blank phase
    | shelved phase units producers =>
      exact .shelved phase units (by simp [finishProducer, producers])
    | afoot afoot holds =>
      refine hafoot ⟨afoot, holds⟩ (afoot.congr afoot.phase Iff.rfl ?_)
      exact List.map_modify_of_eq (f := Producer.channel) (g := (·.finish)) (fun _ => rfl)
        r.producers k
  | stopped =>
    cases h with
    | blank phase => exact .blank phase
    | shelved phase units producers => exact .shelved phase units producers
    | afoot afoot holds => exact hafoot ⟨afoot, holds⟩ (afoot.congr afoot.phase Iff.rfl rfl)
  | waited phase =>
    cases h with
    | blank phase' => simp [phase] at phase'
    | shelved phase' => simp [phase] at phase'
    | afoot afoot holds =>
      exact hafoot ⟨afoot, holds⟩ (afoot.congr (by simp) (by simp [phase]) rfl)
  | moved stepped =>
    cases h with
    | blank phase => exact .blank (stepped.phase.trans phase)
    | shelved phase units producers =>
      obtain ⟨net, stops, rfl⟩ := stepped.idle producers fun u hu => (units u hu).stage
      exact .shelved phase units producers
    | afoot afoot holds => exact hafoot ⟨afoot, holds⟩ (afoot.stepped ho stepped)

/-- A run that is over before any unit was started stays as it is, and calls no step. -/
theorem Acted.spent (ha : r.Acted d r') (hp : r.phase = .finished)
    (hu : ∀ u ∈ r.units, u.stage = .unstarted) :
    r'.phase = .finished ∧ (∀ u ∈ r'.units, u.stage = .unstarted) ∧ r'.calls = r.calls := by
  cases ha with
  | idle | offered | finishing | stopped => exact ⟨hp, hu, rfl⟩
  | spoiled phase | unwound phase | shelved phase | prepared phase | fed phase | observed phase
  | started phase | waited phase => simp [phase] at hp
  | moved stepped =>
    cases stepped with
    | unit at_i moved => exact absurd (hu _ (List.mem_of_getElem? at_i)) moved.started
    | producer => exact ⟨hp, hu, rfl⟩
    | stop => exact ⟨hp, hu, rfl⟩

theorem spent_after (hp : r.phase = .finished) (hu : ∀ u ∈ r.units, u.stage = .unstarted)
    (ds : List Deed) : ∀ u ∈ (r.after ds).units, u.stage = .unstarted := by
  induction ds generalizing r with
  | nil => exact hu
  | cons d ds ih =>
    obtain ⟨hp', hu', -⟩ := (r.act_acted d).spent hp hu
    exact ih hp' hu'

theorem Begun.lively (h : r.Begun P) (ho : r.Orderly) : ∀ u ∈ r.units, u.Lively := by
  cases h with
  | blank phase => simp [(ho.blank phase).units]
  | shelved _ units =>
    intro u hu
    simpa only [RunUnit.Lively, (units u hu).stage] using (units u hu).life
  | afoot afoot => exact afoot.lively

theorem Begun.kept (h : r.Begun P) (ho : r.Orderly) (ha : r.Acted d r') {i : Nat} {u : RunUnit σ}
    (hu : r.units[i]? = some u) : ∃ v, r'.units[i]? = some v ∧ RunUnit.Kept u v := by
  have hself : RunUnit.Kept u u := ⟨rfl, rfl, fun _ he => he⟩
  have hmodify {k : Nat} {f : RunUnit σ → RunUnit σ} (hf : RunUnit.Kept u (f u)) :
      ∃ v, (r.units.modify k f)[i]? = some v ∧ RunUnit.Kept u v := by
    rw [List.getElem?_modify, hu]
    by_cases hk : k = i
    · exact ⟨f u, by simp [hk], hf⟩
    · exact ⟨u, by simp [hk], hself⟩
  have hnew (hp : r.phase = .new) : False := by
    simp [(ho.blank hp).units] at hu
  cases ha with
  | idle | offered | finishing | stopped | waited => exact ⟨u, hu, hself⟩
  | spoiled phase | unwound phase | shelved phase | prepared phase => exact (hnew phase).elim
  | fed => exact hmodify ⟨rfl, rfl, fun _ he => he⟩
  | observed => exact hmodify ⟨rfl, rfl, fun _ he => he⟩
  | started phase =>
    refine ⟨u.spawn, by simp [hu], ?_⟩
    have hstage : u.stage = .unstarted := by
      cases h with
      | blank phase' => exact (hnew phase').elim
      | shelved _ units => exact (units u (List.mem_of_getElem? hu)).stage
      | afoot afoot => exact (afoot.unstarted u (List.mem_of_getElem? hu)).mpr phase
    have hnone : ∀ e, u.ending = some e → u.spawn.ending = some e := by
      simp [RunUnit.ending, hstage]
    unfold RunUnit.spawn at hnone ⊢
    split
    · exact ⟨rfl, rfl, by simpa [*] using hnone⟩
    · exact hself
  | moved stepped =>
    obtain ⟨v, hv, rfl | hm⟩ := stepped.forth hu
    · exact ⟨v, hv, hself⟩
    · exact ⟨v, hv, hm.id, hm.outputs,
        fun _ he => (h.lively ho u (List.mem_of_getElem? hu)).ending_moved hm he⟩

/-- What takes a property of a run that is afoot over the next deed to another. -/
structure Conveys (r : Run σ) (d : Deed) (P P' : Run σ → Prop) : Prop where
  prepared : ∀ r', r' = r.act d → r.Orderly → r.phase = .new ∨ P r → r'.Orderly → r'.Afoot →
    r'.phase = .prepared → P' r'
  started : ∀ r' manifest, r' = r.act d → r.Orderly → r.Afoot → r.phase = .prepared → P r →
    r' = { r with phase := .running, manifest, units := r.units.map RunUnit.spawn } → P' r'
  attended : ∀ r', r' = r.act d → r.Orderly → r.Afoot → P r → r.Attended r' → P' r'
  stepped : ∀ r' party t, r' = r.act d → r.Orderly → r.Afoot → r.phase ≠ .prepared → P r →
    d = .move party → r.Stepped party t r' → P' r'

theorem Conveys.and {Q Q' : Run σ → Prop} (hp : Conveys r d P P') (hq : Conveys r d Q Q') :
    Conveys r d (fun r => P r ∧ Q r) (fun r => P' r ∧ Q' r) where
  prepared r' hr ho h ho' hl hph := ⟨hp.prepared r' hr ho (h.imp_right And.left) ho' hl hph,
    hq.prepared r' hr ho (h.imp_right And.right) ho' hl hph⟩
  started r' m hr ho hl hph h he :=
    ⟨hp.started r' m hr ho hl hph h.1 he, hq.started r' m hr ho hl hph h.2 he⟩
  attended r' hr ho hl h ha := ⟨hp.attended r' hr ho hl h.1 ha, hq.attended r' hr ho hl h.2 ha⟩
  stepped r' party t hr ho hl hph h hd hs :=
    ⟨hp.stepped r' party t hr ho hl hph h.1 hd hs, hq.stepped r' party t hr ho hl hph h.2 hd hs⟩

theorem Conveys.acted (h : Conveys r d P P') (ho : r.Orderly) (ha : r.Acted d r')
    (hact : r' = r.act d) (hb : r.phase = .new ∧ r'.phase = .prepared ∨ r.Afoot ∧ P r)
    (hafoot : r'.Afoot) : P' r' := by
  have ho' := ho.acted ha
  have hnew (hp : r.phase = .new) (hp' : r'.phase ≠ .prepared) : P' r' := by
    obtain ⟨-, hprep⟩ | ⟨afoot, -⟩ := hb
    · exact absurd hprep hp'
    · exact absurd hp afoot.phase
  have htended (ht : r.Attended r') (hphase : r'.phase = r.phase ∨ r.phase = .running) : P' r' := by
    obtain ⟨hp, hp'⟩ | ⟨afoot, holds⟩ := hb
    · simp [hp, hp'] at hphase
    · exact h.attended r' hact ho afoot holds ht
  have hprepared (hp : r.phase = .prepared) (hp' : r'.phase = .prepared) : P' r' := by
    obtain ⟨hp, -⟩ | ⟨-, holds⟩ := hb
    · simp_all
    · exact h.prepared r' hact ho (.inr holds) ho' hafoot hp'
  cases ha with
  | idle => exact htended r.attended_self (.inl rfl)
  | spoiled phase => exact hnew phase (by simp)
  | unwound phase => exact hnew phase (by simp [phase])
  | shelved phase => exact hnew phase (by simp)
  | prepared phase => exact h.prepared _ hact ho (.inl phase) ho' hafoot rfl
  | fed phase => exact hprepared phase phase
  | observed phase => exact hprepared phase phase
  | started phase =>
    obtain ⟨hp, -⟩ | ⟨afoot, holds⟩ := hb
    · simp [phase] at hp
    · exact h.started _ _ hact ho afoot phase holds rfl
  | offered => exact htended (r.attended_modify _ fun _ => ⟨rfl, rfl, rfl⟩) (.inl rfl)
  | finishing => exact htended (r.attended_modify _ fun _ => ⟨rfl, rfl, rfl⟩) (.inl rfl)
  | stopped => exact htended ⟨rfl, rfl, rfl, rfl, .inr rfl⟩ (.inl rfl)
  | waited phase => exact htended ⟨rfl, rfl, rfl, rfl, .inl rfl⟩ (.inr phase)
  | moved stepped =>
    obtain ⟨hp, hp'⟩ | ⟨afoot, holds⟩ := hb
    · simp [stepped.phase, hp] at hp'
    · by_cases hp : r.phase = .prepared
      · exact hprepared hp (stepped.phase.trans hp)
      · exact h.stepped _ _ _ hact ho afoot hp holds rfl stepped

/-- Laid out alike: the same units, with the same ends of as many channels, and fed alike. -/
structure Alike (r r' : Run σ) : Prop where
  graph : r'.graph = r.graph
  rigs : r'.units.map RunUnit.rig = r.units.map RunUnit.rig
  links : r'.net.links.length = r.net.links.length
  wires : r'.wires = r.wires
  feeds : r'.feeds = r.feeds

theorem alike_tended (r : Run σ) (k : Nat) {f : Producer → Producer}
    (hf : ∀ p, (f p).unit = p.unit ∧ (f p).channel = p.channel) :
    r.Alike { r with producers := r.producers.modify k f } :=
  ⟨rfl, rfl, rfl, rfl, List.map_modify_of_eq (fun p => by simp [hf p]) r.producers k⟩

theorem Stepped.alike {party : Party} {t : Touch} (h : r.Stepped party t r') : r.Alike r' := by
  cases h with
  | unit at_i moved touched =>
    exact ⟨rfl, List.map_set_of_eq at_i moved.rig, touched.links_length, rfl, rfl⟩
  | producer at_k moved touched =>
    refine ⟨rfl, rfl, touched.links_length, rfl, List.map_set_of_eq at_k ?_⟩
    cases moved <;> rfl
  | stop at_k does touched => exact ⟨rfl, rfl, touched.links_length, rfl, rfl⟩

theorem Attended.alike (h : r.Attended r') (hgraph : r'.graph = r.graph) : r.Alike r' := by
  refine ⟨hgraph, by rw [h.units], by rw [h.net], h.wires, ?_⟩
  simpa [Run.feeds, Function.comp_def] using
    congrArg (List.map fun p : UnitId × Nat × List NetAction => (p.1, p.2.1)) h.producers

/-- What follows from the layout of a run is conveyed by every deed, if it holds of a run just
prepared and of one with one more producer. -/
theorem conveys_layout (hcongr : ∀ {r r' : Run σ}, P r → r.Alike r' → P r')
    (hprepared : ∀ {plan w units calls}, r.Orderly → r.phase = .new → r.wire = .ok (plan, w) →
      List.Forall₂ (RunUnit.Initiated r.registry) w.units units →
      P { r with phase := .prepared, plan := some plan, units, wires := w.wires, net := w.net, calls })
    (hfed : ∀ {i u}, P r → indexOf? r.units u.id = some i → r.units[i]? = some u →
      r.graph.inputHops u.id.step = [] → P (r.attachProducer i u.id)) (d : Deed) :
    Conveys r d P P := by
  refine ⟨fun r' hact ho h _ hl hp => ?_, fun r' manifest _ _ _ _ h hr' => hcongr h ?_,
    fun r' hact _ _ h ha => hcongr h (ha.alike (hact ▸ (r.act_acted d).given.1)),
    fun r' party t _ _ _ _ h _ hs => hcongr h hs.alike⟩
  · have hkept (hphase : r.phase ≠ .new) : P r := h.resolve_left hphase
    have hacted := r.act_acted d
    rw [← hact] at hacted
    clear hact
    cases hacted with
    | idle => exact hkept (by simp [hp])
    | spoiled | shelved | started | waited => simp at hp
    | unwound phase => simp [phase] at hp
    | prepared phase wired initiated => exact hprepared ho phase wired initiated
    | fed phase slot at_i unfed => exact hfed (hkept (by simp [phase])) slot at_i unfed
    | observed phase =>
      refine hcongr (hkept (by simp [phase])) ⟨rfl, ?_, rfl, rfl, rfl⟩
      exact List.map_modify_of_eq (f := RunUnit.rig) (g := RunUnit.listen) (fun _ => rfl) _ _
    | offered | finishing =>
      have h := hkept (by simpa [offer, finishProducer, hp] using congrArg (· ≠ Phase.new) hp)
      exact hcongr h (r.alike_tended _ fun _ => ⟨rfl, rfl⟩)
    | stopped =>
      have h := hkept (by simpa [requestStop] using congrArg (· ≠ Phase.new) hp)
      exact hcongr h ⟨rfl, rfl, rfl, rfl, rfl⟩
    | moved stepped => exact hcongr (hkept (by rw [← stepped.phase, hp]; simp)) stepped.alike
  · subst hr'
    refine ⟨rfl, ?_, rfl, rfl, rfl⟩
    rw [List.map_map]
    refine List.map_congr_left fun u _ => ?_
    simp only [Function.comp_apply, RunUnit.spawn]
    split <;> rfl

variable {registry : Registry σ} {settings : Settings} {g : Graph} {armed : List String}

/-- After any history a run is in order, and what each deed conveys holds of a run that is afoot. -/
theorem begun_after (P : List Deed → Run σ → Prop)
    (convey : ∀ ds d, let r := (Run.new registry settings g armed).after ds
      r.Orderly → r.phase = .new ∧ (r.act d).phase = .prepared ∨ r.Afoot ∧ P ds r →
        (r.act d).Afoot → P (ds ++ [d]) (r.act d)) (ds : List Deed) :
    let r := (Run.new registry settings g armed).after ds
    r.Orderly ∧ r.Begun (P ds) := by
  induction ds using List.reverseRecOn with
  | nil => exact ⟨orderly_new _ _ _ _, .blank rfl⟩
  | append_singleton ds d ih =>
    obtain ⟨ho, hb⟩ := ih
    have ha := ((Run.new registry settings g armed).after ds).act_acted d
    dsimp only
    rw [after_append]
    exact ⟨ho.acted ha, hb.acted ho ha (convey ds d ho)⟩

theorem conveyed_after (P : List Deed → Run σ → Prop)
    (conveys : ∀ ds d, Conveys ((Run.new registry settings g armed).after ds) d (P ds)
      (P (ds ++ [d]))) (ds : List Deed) :
    let r := (Run.new registry settings g armed).after ds
    r.Orderly ∧ r.Begun (P ds) :=
  begun_after P (fun ds d ho => (conveys ds d).acted ho (act_acted _ d) rfl) ds

theorem begun_always (registry : Registry σ) (settings : Settings) (g : Graph)
    (armed : List String) (ds : List Deed) :
    let r := (Run.new registry settings g armed).after ds
    r.Orderly ∧ r.Begun fun _ => True :=
  begun_after (fun _ _ => True) (fun _ _ _ _ _ => trivial) ds

theorem kept_after (ds es : List Deed) {i : Nat} {u : RunUnit σ}
    (hu : ((Run.new registry settings g armed).after ds).units[i]? = some u) :
    ∃ v, ((Run.new registry settings g armed).after (ds ++ es)).units[i]? = some v ∧
      RunUnit.Kept u v := by
  induction es using List.reverseRecOn with
  | nil => exact ⟨u, by simpa using hu, rfl, rfl, fun _ he => he⟩
  | append_singleton es e ih =>
    obtain ⟨v, hv, hkept⟩ := ih
    obtain ⟨ho, hb⟩ := begun_always registry settings g armed (ds ++ es)
    obtain ⟨w, hw, hkept'⟩ := hb.kept ho (act_acted _ e) hv
    rw [← List.append_assoc, after_append]
    exact ⟨w, hw, hkept'.id.trans hkept.id, hkept'.outputs.trans hkept.outputs,
      fun e he => hkept'.ending e (hkept.ending e he)⟩

end Run

end Sluice
