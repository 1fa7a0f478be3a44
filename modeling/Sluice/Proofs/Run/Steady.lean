import Sluice.Proofs.Run.Begun
import Sluice.Proofs.Run.Live

/-!
Histories of catalog runs. A run is not prepared yet, or never to be started, or live; what a live
run keeps from deed to deed holds of it after any history.
-/

namespace Sluice

namespace Run

variable {r r' : Run StepMemory} {l : Ledger} {P P' : Run StepMemory → Prop} {d : Deed}

/-- Not prepared yet, never to be started, or live with a property. -/
inductive Steady (P : Run StepMemory → Prop) (r : Run StepMemory) (l : Ledger) : Prop
  | blank (phase : r.phase = .new)
  | shelved (phase : r.phase = .finished) (units : ∀ u ∈ r.units, u.Shelved)
      (producers : r.producers = [])
  | live (live : r.Live l) (holds : P r)

theorem Steady.of_unit (h : r.Steady P l) (ho : r.Orderly) {u : RunUnit StepMemory} (hu : u ∈ r.units)
    (hs : ¬ u.Shelved) : r.Live l ∧ P r := by
  cases h with
  | blank phase => simp [(ho.blank phase).units] at hu
  | shelved phase units => exact absurd (units u hu) hs
  | live live holds => exact ⟨live, holds⟩

/-- What takes a property of a live run over the next deed to another. -/
structure Carries (r : Run StepMemory) (d : Deed) (P P' : Run StepMemory → Prop) : Prop where
  prepared : ∀ r' l, r' = r.act d → r.Orderly → r.phase = .new ∨ P r → r'.Orderly → r'.Live l →
    r'.phase = .prepared → P' r'
  started : ∀ r' l manifest, r' = r.act d → r.Orderly → r.Live l → r.phase = .prepared → P r →
    r' = { r with phase := .running, manifest, units := r.units.map RunUnit.spawn } → P' r'
  attended : ∀ r' l, r' = r.act d → r.Orderly → r.Live l → P r → r.Attended r' → P' r'
  stepped : ∀ r' l party t, r' = r.act d → r.Orderly → r.Live l → r.phase ≠ .prepared → P r →
    d = .move party → r.Stepped party t r' → P' r'

theorem Carries.and {Q Q' : Run StepMemory → Prop} (hp : Carries r d P P') (hq : Carries r d Q Q') :
    Carries r d (fun r => P r ∧ Q r) (fun r => P' r ∧ Q' r) where
  prepared r' l hr ho h ho' hl hph := ⟨hp.prepared r' l hr ho (h.imp_right And.left) ho' hl hph,
    hq.prepared r' l hr ho (h.imp_right And.right) ho' hl hph⟩
  started r' l m hr ho hl hph h he :=
    ⟨hp.started r' l m hr ho hl hph h.1 he, hq.started r' l m hr ho hl hph h.2 he⟩
  attended r' l hr ho hl h ha := ⟨hp.attended r' l hr ho hl h.1 ha, hq.attended r' l hr ho hl h.2 ha⟩
  stepped r' l party t hr ho hl hph h hd hs :=
    ⟨hp.stepped r' l party t hr ho hl hph h.1 hd hs, hq.stepped r' l party t hr ho hl hph h.2 hd hs⟩

theorem carries_of_conveys (h : r.registry = Catalog.builtins → Conveys r d P P') :
    Carries r d P P' where
  prepared r' _ hr ho hp ho' hl hph := by
    have hregistry : r'.registry = r.registry := hr ▸ (r.act_acted d).given.2.2.1
    exact (h (hregistry ▸ hl.registry)).prepared r' hr ho hp ho' hl.toAfoot hph
  started r' _ m hr ho hl hph hp he := (h hl.registry).started r' m hr ho hl.toAfoot hph hp he
  attended r' _ hr ho hl hp ha := (h hl.registry).attended r' hr ho hl.toAfoot hp ha
  stepped r' _ party t hr ho hl hph hp hd hs :=
    (h hl.registry).stepped r' party t hr ho hl.toAfoot hph hp hd hs

theorem Conveys.carries (h : Conveys r d P P') : Carries r d P P' :=
  carries_of_conveys fun _ => h

theorem Carries.conveys (h : Carries r d P P') {l' : Ledger} (hl' : (r.act d).Live l') :
    Conveys r d (fun r => (∃ l, r.Live l) ∧ P r) P' where
  prepared _ hr ho hp ho' _ hph := h.prepared _ l' hr ho (hp.imp_right And.right) ho' (hr ▸ hl') hph
  started _ m hr ho _ hph hp he := by
    obtain ⟨⟨l, hl⟩, hp⟩ := hp
    exact h.started _ l m hr ho hl hph hp he
  attended _ hr ho _ hp ha := by
    obtain ⟨⟨l, hl⟩, hp⟩ := hp
    exact h.attended _ l hr ho hl hp ha
  stepped _ party t hr ho _ hph hp hd hs := by
    obtain ⟨⟨l, hl⟩, hp⟩ := hp
    exact h.stepped _ l party t hr ho hl hph hp hd hs

theorem Live.acted (h : r.Live l) (ho : r.Orderly) (ha : r.Acted d r') :
    ∃ l', r'.Live l' ∧ ∀ c, l'.put c = l.put c ++ r.net.entered r'.net c := by
  have hkept {r'' : Run StepMemory} (live : r''.Live l)
      (hnet : ∀ c ch, r.net.channel? c = some ch → r''.net.channel? c = some ch) :
      ∃ l', r''.Live l' ∧ ∀ c, l'.put c = l.put c ++ r.net.entered r''.net c :=
    ⟨l, live, fun c => by rw [Net.entered_of_kept (hnet c), List.append_nil]⟩
  have hfeeds (k : Nat) {f : Producer → Producer} (hf : ∀ p, (f p).channel = p.channel) :=
    List.map_modify_of_eq (f := Producer.channel) (g := f) hf r.producers k
  cases ha with
  | idle => exact hkept h fun _ _ hc => hc
  | spoiled phase | unwound phase | shelved phase | prepared phase => exact absurd phase h.phase
  | fed phase _ at_i unfed known takes =>
    refine hkept (h.fed phase at_i unfed known takes) fun c ch hc => ?_
    have hlt := Net.channel?_lt hc
    simpa [attachProducer, Net.addLink, Net.channel?, List.getElem?_append_left hlt] using hc
  | @observed i unit phase => exact hkept (h.observed i phase) fun _ _ hc => hc
  | started phase => exact hkept (h.started phase) fun _ _ hc => hc
  | @offered k rows =>
    exact hkept (h.congr h.phase Iff.rfl (hfeeds k (f := (·.offer rows)) fun _ => rfl))
      fun _ _ hc => hc
  | @finishing k =>
    exact hkept (h.congr h.phase Iff.rfl (hfeeds k (f := (·.finish)) fun _ => rfl)) fun _ _ hc => hc
  | stopped => exact hkept (h.congr h.phase Iff.rfl rfl) fun _ _ hc => hc
  | waited phase => exact hkept (h.congr (by simp) (by simp [phase]) rfl) fun _ _ hc => hc
  | moved stepped => exact ⟨_, h.stepped ho stepped, Ledger.put_after_entered stepped.touched l⟩

theorem Orderly.live (ho : r.Orderly) (hr : r.registry = Catalog.builtins) (ha : r.Acted d r')
    (hp : r.phase = .new) (hp' : r'.phase = .prepared) : r'.Live {} := by
  cases ha with
  | prepared _ wired initiated => exact (ho.blank hp).live hr wired initiated
  | spoiled | shelved => cases hp'
  | moved stepped => simp [stepped.phase, hp] at hp'
  | fed phase => simp [hp] at phase
  | observed phase => simp [hp] at phase
  | started phase => simp [hp] at phase
  | waited phase => simp [hp] at phase
  | idle | unwound | offered | finishing | stopped =>
    have hp' : r.phase = .prepared := hp'
    simp [hp] at hp'

theorem carried_new {σ : Type} {r : Run σ} (ho : r.Orderly) {ds : List Deed}
    (h : (r.after ds).phase = .new) (c : Nat) : r.carried c ds = [] := by
  induction ds using List.reverseRecOn with
  | nil => rfl
  | append_singleton ds d ih =>
    rw [after_append] at h
    have hnew := (act_acted (r.after ds) d).new h
    have hblank := (ho.after ds).blank hnew
    rw [carried_append, ih hnew]
    simp [carried, Net.entered, Net.channel?, hblank.links]

variable {settings : Settings} {g : Graph} {armed : List String}

/-- After any history a run is in order, what its channels carried is in the ledger, and what was
carried from deed to deed holds. -/
theorem steady_after (P : List Deed → Run StepMemory → Prop)
    (carries : ∀ ds d, Carries ((Run.new Catalog.builtins settings g armed).after ds) d (P ds)
      (P (ds ++ [d]))) (ds : List Deed) :
    let r := Run.new Catalog.builtins settings g armed
    (r.after ds).Orderly ∧ ∃ l, (r.after ds).Steady (P ds) l ∧ ∀ c, l.put c = r.carried c ds := by
  intro start
  have convey (ds : List Deed) (d : Deed) : let r := start.after ds
      r.Orderly → r.phase = .new ∧ (r.act d).phase = .prepared ∨ r.Afoot ∧
        (∃ l, r.Live l ∧ P ds r ∧ ∀ c, l.put c = start.carried c ds) → (r.act d).Afoot →
          ∃ l, (r.act d).Live l ∧ P (ds ++ [d]) (r.act d) ∧
            ∀ c, l.put c = start.carried c (ds ++ [d]) := by
    intro r ho hb hafoot
    have ha := r.act_acted d
    have hon {l' : Ledger} (live : (r.act d).Live l')
        (hb : r.phase = .new ∧ (r.act d).phase = .prepared ∨ r.Afoot ∧ (∃ l, r.Live l) ∧ P ds r)
        (hput : ∀ c, l'.put c = start.carried c ds ++ r.net.entered (r.act d).net c) :
        ∃ l, (r.act d).Live l ∧ P (ds ++ [d]) (r.act d) ∧
          ∀ c, l.put c = start.carried c (ds ++ [d]) := by
      refine ⟨l', live, ((carries ds d).conveys live).acted ho ha rfl hb hafoot, fun c => ?_⟩
      rw [hput, carried_append]
      simp [carried, r]
    obtain ⟨hp, hp'⟩ | ⟨afoot, l, live, holds, hput⟩ := hb
    · have hr : r.registry = Catalog.builtins := (start.given_after ds).2.2.1
      refine hon (ho.live hr ha hp hp') (.inl ⟨hp, hp'⟩) fun c => ?_
      rw [carried_new (orderly_new _ _ _ _) hp]
      simp [Net.entered, Net.channel?, (ho.blank hp).links]
    · obtain ⟨l', live', hput'⟩ := live.acted ho ha
      exact hon live' (.inr ⟨afoot, ⟨l, live⟩, holds⟩) fun c => by rw [hput', hput]
  obtain ⟨ho, hb⟩ := begun_after
    (fun ds r => ∃ l, r.Live l ∧ P ds r ∧ ∀ c, l.put c = start.carried c ds) convey ds
  refine ⟨ho, ?_⟩
  cases hb with
  | blank phase => exact ⟨{ put := fun c => start.carried c ds }, .blank phase, fun _ => rfl⟩
  | shelved phase units producers =>
    exact ⟨{ put := fun c => start.carried c ds }, .shelved phase units producers, fun _ => rfl⟩
  | afoot _ holds =>
    obtain ⟨l, live, holds, hput⟩ := holds
    exact ⟨l, .live live holds, hput⟩

theorem steady_always (settings : Settings) (g : Graph) (armed : List String) (ds : List Deed) :
    ∃ l, ((Run.new Catalog.builtins settings g armed).after ds).Steady (fun _ => True) l := by
  obtain ⟨-, l, hs, -⟩ := steady_after (fun _ _ => True) (fun _ _ => ⟨fun _ _ _ _ _ _ _ _ => trivial,
    fun _ _ _ _ _ _ _ _ _ => trivial, fun _ _ _ _ _ _ _ => trivial,
    fun _ _ _ _ _ _ _ _ _ _ _ => trivial⟩) ds
  exact ⟨l, hs⟩

end Run

end Sluice
