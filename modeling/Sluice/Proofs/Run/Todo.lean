import Sluice.Proofs.Run.Deeds
import Sluice.Proofs.Run.Station

/-!
What is owed to the net. Units on their way out and producers only end streams of their own, and
whoever stops a run raises the flag first. So no channel is aborted before the run is stopping.
-/

namespace Sluice

namespace NetAction

/-- Ends the stream of one of these channels, or tells the reader. -/
def Ends (cs : List Nat) (a : NetAction) : Prop :=
  ∃ c ∈ cs, a = .close c ∨ a = .signal c

/-- What is left of a stop: all of it, or the flag is up. -/
structure Halting (stopping : Prop) (todo : List NetAction) : Prop where
  raised : todo = stopAll ∨ stopping
  closes : ∀ c, .close c ∉ todo

theorem halting_stopAll (stopping : Prop) : Halting stopping stopAll :=
  ⟨.inl rfl, by simp [stopAll]⟩

theorem Halting.mono {P Q : Prop} {todo : List NetAction} (h : Halting P todo) (hpq : P → Q) :
    Halting Q todo :=
  ⟨h.raised.imp_right hpq, h.closes⟩

variable {a : NetAction} {net net' : Net} {t : Touch} {owed rest : List NetAction}

theorem Does.ends {cs : List Nat} (h : a.Does net t owed) (ha : a.Ends cs) :
    (∀ b ∈ owed, b.Ends cs) ∧ ∀ c, t ≠ .abort c := by
  obtain ⟨c, hc, rfl | rfl⟩ := ha
  · cases h with
    | close => exact ⟨by simpa using ⟨c, hc, .inr rfl⟩, by simp⟩
    | close_again => exact ⟨by simp, by simp⟩
  · cases h with
    | signal => exact ⟨by simp, by simp⟩
    | signal_nobody => exact ⟨by simp, by simp⟩

theorem Does.closes {cs : List Nat} {c : Nat} (h : a.Does net (.close c) owed) (ha : a.Ends cs) :
    c ∈ cs := by
  cases h
  obtain ⟨c', hc, he | he⟩ := ha
  · cases he
    exact hc
  · cases he

theorem Does.halting (h : a.Does net t owed) (ht : net.Touched t net')
    (hh : Halting (net.stopping = true) (a :: rest)) :
    Halting (net'.stopping = true) (owed ++ rest) := by
  refine ⟨?_, fun c hc => ?_⟩
  · rcases hh.raised with hall | hs
    · simp only [stopAll, List.cons.injEq] at hall
      obtain ⟨rfl, rfl⟩ := hall
      cases h
      cases ht
      exact .inr rfl
    · exact .inr (ht.stopping hs)
  · rcases List.mem_append.mp hc with hc | hc
    · cases h <;> simp at hc
    · exact hh.closes c (List.mem_cons_of_mem _ hc)

theorem Does.closes_none {P : Prop} {c : Nat} (h : a.Does net (.close c) owed) :
    ¬ Halting P (a :: rest) := by
  cases h
  exact fun hh => hh.closes c List.mem_cons_self

theorem Does.aborts {c : Nat} (h : a.Does net (.abort c) owed)
    (hh : Halting (net.stopping = true) (a :: rest)) : net.stopping = true := by
  cases h
  exact hh.raised.resolve_left (by simp [stopAll])

end NetAction

variable {σ : Type}

/-- What a unit owes fits its stage. -/
def RunUnit.Owing (u : RunUnit σ) (stopping : Prop) : Prop :=
  match u.stage with
  | .failing todo => NetAction.Halting stopping todo
  | .closing todo _ => ∀ a ∈ todo, a.Ends u.border.outputChannels
  | _ => True

namespace RunUnit

variable {u u' : RunUnit σ} {net net' : Net} {armed : List String} {t : Touch}

theorem Owing.mono {P Q : Prop} (h : u.Owing P) (hpq : P → Q) : u.Owing Q := by
  unfold Owing at h ⊢
  split
  · rename_i hs
    simp only [hs] at h
    exact h.mono hpq
  · rename_i hs
    simpa only [hs] using h
  · trivial

theorem owing_leave (u : RunUnit σ) (e : UnitState) (stopping : Prop) :
    (u.leave e).Owing stopping := by
  intro a ha
  obtain ⟨c, hc, rfl⟩ := List.mem_map.mp ha
  exact ⟨c, hc, .inl rfl⟩

theorem owing_fail (u : RunUnit σ) (stopping : Prop) : u.fail.Owing stopping :=
  NetAction.halting_stopAll stopping

theorem Judged.owing {r : Except Halt BatchOutcome} (h : u.Judged r u') (stopping : Prop) :
    u'.Owing stopping := by
  cases h with
  | more => trivial
  | skipped => trivial
  | finished => exact owing_leave _ _ _
  | stopped => exact owing_leave _ _ _
  | bad_row => exact owing_fail _ _
  | broken => exact owing_fail _ _
  | panicked => exact owing_fail _ _

theorem Owing.moved (h : u.Owing (net.stopping = true)) (hm : u.Moved net armed t u')
    (ht : net.Touched t net') : u'.Owing (net'.stopping = true) := by
  unfold Owing at h
  cases hm with
  | misplaced => exact owing_leave _ _ _
  | see_stop => exact owing_leave _ _ _
  | no_step => exact owing_leave _ _ _
  | failed => exact owing_leave _ _ _
  | trip => exact owing_fail _ _
  | batch_over _ judged => exact judged.owing _
  | stop_on stage does =>
    simp only [stage] at h
    exact does.halting ht h
  | close_on stage does =>
    simp only [stage] at h
    intro a ha
    rcases List.mem_append.mp ha with ha | ha
    · exact (does.ends (h _ List.mem_cons_self)).1 a ha
    · exact h a (List.mem_cons_of_mem _ ha)
  | _ => trivial

theorem Owing.aborts {c : Nat} (h : u.Owing (net.stopping = true))
    (hm : u.Moved net armed (.abort c) u') : net.stopping = true := by
  obtain ⟨action, rest, owed, does, ⟨stage, -⟩ | ⟨ending, stage, -⟩⟩ := hm.ends (.inr ⟨c, .inr rfl⟩)
  · simp only [Owing, stage] at h
    exact does.aborts h
  · simp only [Owing, stage] at h
    exact absurd rfl ((does.ends (h _ List.mem_cons_self)).2 c)

theorem Owing.closes {stopping : Prop} {c : Nat} (h : u.Owing stopping)
    (hm : u.Moved net armed (.close c) u') :
    c ∈ u.border.outputChannels ∧ ∃ rest e, u.stage = .closing (.close c :: rest) e := by
  obtain ⟨action, rest, owed, does, ⟨stage, -⟩ | ⟨ending, stage, -⟩⟩ := hm.ends (.inr ⟨c, .inl rfl⟩)
  · simp only [Owing, stage] at h
    exact absurd h does.closes_none
  · simp only [Owing, stage] at h
    refine ⟨does.closes (h _ List.mem_cons_self), ?_⟩
    cases does
    exact ⟨_, _, stage⟩

end RunUnit

namespace Producer

variable {p p' : Producer} {net : Net} {t : Touch}

/-- A producer ends no stream but its own. -/
def Owing (p : Producer) : Prop :=
  ∀ a ∈ p.todo, a.Ends [p.channel]

theorem Owing.moved (h : p.Owing) (hm : p.Moved net t p') : p'.Owing ∧ ∀ c, t ≠ .abort c := by
  cases hm with
  | act todo does =>
    obtain ⟨howed, ht⟩ := does.ends (h _ (todo ▸ List.mem_cons_self))
    refine ⟨fun a ha => ?_, ht⟩
    rcases List.mem_append.mp ha with ha | ha
    · exact howed a ha
    · exact h a (todo ▸ List.mem_cons_of_mem _ ha)
  | give_up => exact ⟨h, by simp⟩
  | put => exact ⟨by simp [Owing, NetAction.Ends], by simp⟩
  | finish => exact ⟨by simp [Owing, NetAction.Ends], by simp⟩

theorem Owing.closes {c : Nat} (h : p.Owing) (hm : p.Moved net (.close c) p') :
    c = p.channel := by
  cases hm with
  | act todo does => simpa using does.closes (h _ (todo ▸ List.mem_cons_self))

end Producer

namespace Run

/-- Everything owed in a run is in order. -/
structure Orderly (r : Run σ) : Prop where
  blank : r.phase = .new → r.Blank
  units : ∀ u ∈ r.units, u.Owing (r.net.stopping = true)
  producers : ∀ p ∈ r.producers, p.Owing
  stops : ∀ todo ∈ r.stops, NetAction.Halting (r.net.stopping = true) todo
  aborts : ∀ c, r.net.Aborted c → r.net.stopping = true

variable {r r' : Run σ}

theorem Orderly.stepped {party : Party} {t : Touch} (h : r.Orderly)
    (hs : r.Stepped party t r') : r'.Orderly := by
  have htouched := hs.touched
  have haborts (hnew : ∀ c, t = .abort c → r.net.stopping = true) (c : Nat)
      (hc : r'.net.Aborted c) : r'.net.stopping = true :=
    htouched.stopping ((htouched.aborted_inv hc).elim (h.aborts c) (hnew c))
  cases hs with
  | @unit i u u' t net calls at_i moved touched =>
    have hu := List.mem_of_getElem? at_i
    refine ⟨fun hp => ?_, fun v hv => ?_, h.producers,
      fun todo htodo => (h.stops todo htodo).mono touched.stopping, haborts ?_⟩
    · simp [(h.blank hp).units] at at_i
    · rcases List.mem_or_eq_of_mem_set hv with hv | rfl
      · exact (h.units v hv).mono touched.stopping
      · exact (h.units u hu).moved moved touched
    · rintro c rfl
      exact (h.units u hu).aborts moved
  | @producer k p p' t net at_k moved touched =>
    have hp := List.mem_of_getElem? at_k
    obtain ⟨howing, ht⟩ := (h.producers p hp).moved moved
    refine ⟨fun hp => ?_, fun u hu => (h.units u hu).mono touched.stopping, fun q hq => ?_,
      fun todo htodo => (h.stops todo htodo).mono touched.stopping,
      haborts fun c hc => absurd hc (ht c)⟩
    · simp [(h.blank hp).producers] at at_k
    · rcases List.mem_or_eq_of_mem_set hq with hq | rfl
      · exact h.producers q hq
      · exact howing
  | @stop k action rest owed t net at_k does touched =>
    have hhalting := h.stops _ (List.mem_of_getElem? at_k)
    refine ⟨fun hp => ?_, fun u hu => (h.units u hu).mono touched.stopping, h.producers,
      fun todo htodo => ?_, haborts ?_⟩
    · obtain ⟨hunits, hproducers, hlinks, hwakeups⟩ := h.blank hp
      refine ⟨hunits, hproducers, ?_, ?_⟩
      · simpa [hlinks] using congrArg List.length touched.readers
      · simpa [hwakeups] using touched.wakeups_length
    · rcases List.mem_or_eq_of_mem_set htodo with htodo | rfl
      · exact (h.stops todo htodo).mono touched.stopping
      · exact does.halting touched hhalting
    · rintro c rfl
      exact does.aborts hhalting

theorem not_aborted_new {net : Net} {c capacity : Nat} {reader : Option Nat}
    (h : (net.addLink capacity reader).2.Aborted c) : net.Aborted c := by
  obtain ⟨ch, hc, ha⟩ := h
  obtain hc | ⟨-, rfl⟩ := Wiring.channel?_addLink hc
  · exact ⟨ch, hc, ha⟩
  · simp [(Channel.new_fresh capacity).aborted] at ha

theorem Orderly.modify (h : r.Orderly) {i : Nat} {f : RunUnit σ → RunUnit σ}
    (hstage : ∀ u, (f u).stage = u.stage)
    (houts : ∀ u, (f u).border.outputChannels = u.border.outputChannels) :
    ∀ u ∈ r.units.modify i f, u.Owing (r.net.stopping = true) := by
  intro v hv
  obtain hv | ⟨u, hu, rfl⟩ := List.mem_modify hv
  · exact h.units v hv
  · have := h.units u (List.mem_of_getElem? hu)
    simpa only [RunUnit.Owing, hstage, houts] using this

theorem Orderly.wired {plan : Plan} {w : Wiring σ} (h : r.Orderly) (hp : r.phase = .new)
    (hw : r.wire = .ok (plan, w)) :
    (∀ u ∈ w.units, u.Fresh) ∧ (∀ c, ¬ w.net.Aborted c) ∧ w.net.stopping = r.net.stopping := by
  obtain ⟨-, hcharted, -, hstopping⟩ := (h.blank hp).wired hw
  refine ⟨hcharted.laid.fresh, ?_, hstopping⟩
  rintro c ⟨ch, hc, hab⟩
  simp [(hcharted.laid.channels c ch hc).aborted] at hab

theorem Orderly.wired_unstarted {plan : Plan} {w : Wiring σ} (h : r.Orderly)
    (hp : r.phase = .new) (hw : r.wire = .ok (plan, w)) :
    (∀ {units : List (RunUnit σ)}, ((∀ u ∈ w.units, u.Shelved) → ∀ u ∈ units, u.Shelved) →
      ∀ u ∈ units, u.stage = .unstarted) ∧
    ∀ {units : List (RunUnit σ)}, List.Forall₂ (RunUnit.Initiated r.registry) w.units units →
      ∀ u ∈ units, u.stage = .unstarted := by
  have hfresh := (h.wired hp hw).1
  refine ⟨fun hshelved u hu => ?_, fun hinit u hu => ?_⟩
  · exact (hshelved (fun u hu => (hfresh u hu).shelved) u hu).stage
  · obtain ⟨i, hi⟩ := List.getElem?_of_mem hu
    obtain ⟨v, hv, t, m, -, -, rfl⟩ := List.forall₂_getElem? hinit hi
    exact (hfresh v (List.mem_of_getElem? hv)).stage

theorem Orderly.acted {d : Deed} (h : r.Orderly) (ha : r.Acted d r') : r'.Orderly := by
  cases ha with
  | idle => exact h
  | spoiled => exact ⟨by simp, h.units, h.producers, h.stops, h.aborts⟩
  | unwound =>
    refine ⟨fun hp => ?_, h.units, h.producers, h.stops, h.aborts⟩
    obtain ⟨hunits, hproducers, hlinks, hwakeups⟩ := h.blank hp
    exact ⟨hunits, hproducers, hlinks, hwakeups⟩
  | shelved phase wired units_shelved =>
    obtain ⟨-, hab, hstopping⟩ := h.wired phase wired
    refine ⟨by simp, fun u hu => ?_, h.producers, hstopping ▸ h.stops,
      fun c hc => absurd hc (hab c)⟩
    simp [RunUnit.Owing, (h.wired_unstarted phase wired).1 units_shelved u hu]
  | prepared phase wired initiated =>
    obtain ⟨-, hab, hstopping⟩ := h.wired phase wired
    refine ⟨by simp, fun u hu => ?_, h.producers, hstopping ▸ h.stops,
      fun c hc => absurd hc (hab c)⟩
    simp [RunUnit.Owing, (h.wired_unstarted phase wired).2 initiated u hu]
  | fed phase _ at_i =>
    refine ⟨fun hp => ?_, h.modify (fun _ => rfl) fun _ => rfl, fun p hp => ?_, h.stops,
      fun c hc => h.aborts c (not_aborted_new hc)⟩
    · simp [attachProducer, phase] at hp
    · rcases List.mem_append.mp hp with hp | hp
      · exact h.producers p hp
      · rw [List.mem_singleton.mp hp]
        simp [Producer.Owing]
  | observed phase =>
    exact ⟨by simp [phase], h.modify (fun _ => rfl) fun _ => rfl, h.producers, h.stops, h.aborts⟩
  | started =>
    refine ⟨by simp, fun u hu => ?_, h.producers, h.stops, h.aborts⟩
    obtain ⟨v, hv, rfl⟩ := List.mem_map.mp hu
    unfold RunUnit.spawn
    split
    · trivial
    · exact h.units v hv
  | offered =>
    refine ⟨fun hp => ?_, h.units, fun p hp => ?_, h.stops, h.aborts⟩
    · obtain ⟨hunits, hproducers, hlinks, hwakeups⟩ := h.blank hp
      exact ⟨hunits, by simp [offer, hproducers], hlinks, hwakeups⟩
    · obtain hp | ⟨q, hq, rfl⟩ := List.mem_modify hp
      · exact h.producers p hp
      · exact h.producers q (List.mem_of_getElem? hq)
  | finishing =>
    refine ⟨fun hp => ?_, h.units, fun p hp => ?_, h.stops, h.aborts⟩
    · obtain ⟨hunits, hproducers, hlinks, hwakeups⟩ := h.blank hp
      exact ⟨hunits, by simp [finishProducer, hproducers], hlinks, hwakeups⟩
    · obtain hp | ⟨q, hq, rfl⟩ := List.mem_modify hp
      · exact h.producers p hp
      · exact h.producers q (List.mem_of_getElem? hq)
  | stopped =>
    refine ⟨fun hp => ?_, h.units, h.producers, fun todo htodo => ?_, h.aborts⟩
    · obtain ⟨hunits, hproducers, hlinks, hwakeups⟩ := h.blank hp
      exact ⟨hunits, hproducers, hlinks, hwakeups⟩
    · rcases List.mem_append.mp htodo with htodo | htodo
      · exact h.stops todo htodo
      · rw [List.mem_singleton.mp htodo]
        exact NetAction.halting_stopAll _
  | waited => exact ⟨by simp, h.units, h.producers, h.stops, h.aborts⟩
  | moved stepped => exact h.stepped stepped

theorem orderly_new (registry : Registry σ) (settings : Settings) (g : Graph)
    (armed : List String) : (Run.new registry settings g armed).Orderly := by
  refine ⟨fun _ => ⟨rfl, rfl, rfl, rfl⟩, ?_, ?_, ?_, ?_⟩
  all_goals simp [Run.new, Net.Aborted, Net.channel?]

/-- What every deed keeps in an orderly run holds after any history. -/
theorem Orderly.after_keeps {P : Run σ → Prop} (h : r.Orderly) (hp : P r)
    (keeps : ∀ r r' d, r.Orderly → P r → r.Acted d r' → P r') (ds : List Deed) :
    (r.after ds).Orderly ∧ P (r.after ds) := by
  induction ds generalizing r with
  | nil => exact ⟨h, hp⟩
  | cons d ds ih => exact ih (h.acted (r.act_acted d)) (keeps _ _ d h hp (r.act_acted d))

theorem Orderly.after (h : r.Orderly) (ds : List Deed) : (r.after ds).Orderly :=
  (h.after_keeps trivial (fun _ _ _ _ _ _ => trivial) ds).1

/-- A channel that is there changes only by a step of a party. -/
theorem Acted.channel {d : Deed} (ha : r.Acted d r') (h : r.Orderly) {c : Nat} {ch : Channel Row}
    (hc : r.net.channel? c = some ch) :
    r'.net.channel? c = some ch ∨ ∃ party t, d = .move party ∧ r.Stepped party t r' := by
  have hblank (hp : r.phase = .new) : r'.net.channel? c = some ch := by
    simp [Net.channel?, (h.blank hp).links] at hc
  cases ha with
  | shelved phase => exact .inl (hblank phase)
  | prepared phase => exact .inl (hblank phase)
  | fed =>
    refine .inl ?_
    have hlt := Net.channel?_lt hc
    simpa [attachProducer, Net.addLink, Net.channel?, List.getElem?_append_left hlt] using hc
  | moved stepped => exact .inr ⟨_, _, rfl, stepped⟩
  | _ => exact .inl hc

end Run

end Sluice
