import Sluice.Proofs.Run.Afoot
import Sluice.Proofs.Run.Ages

/-!
Setting the units of a run up and disposing of them again, as the owner of the run does it. A step
that fails ends the first, and one that panics ends either of them there and then.
-/

namespace Sluice

variable {σ : Type}

namespace RunUnit

/-- The step of the unit can be set up. -/
def Able (u : RunUnit σ) (registry : Registry σ) : Prop :=
  ∃ t m, registry.find? u.setup.spec.type = some t ∧ t.behaviour.init u.setup = .ok m

def Unable (u : RunUnit σ) (registry : Registry σ) (halt : Halt) : Prop :=
  ∃ t, registry.find? u.setup.spec.type = some t ∧ t.behaviour.init u.setup = .error halt

/-- The step of the unit panics when it is disposed of as it was set up. -/
def Breaks (u : RunUnit σ) (registry : Registry σ) (payload : Option String) : Prop :=
  ∃ t m, registry.find? u.setup.spec.type = some t ∧ t.behaviour.init u.setup = .ok m ∧
    t.behaviour.dispose m = .error payload

/-- The step of a unit without a thread is disposed of. -/
def shelve (u : RunUnit σ) : RunUnit σ :=
  if u.step.isSome then { u with step := none, life := u.life.advance .disposed } else u

theorem shelve_same (u : RunUnit σ) :
    u.shelve.id = u.id ∧ u.shelve.stage = u.stage ∧ u.shelve.setup = u.setup := by
  unfold shelve
  split <;> exact ⟨rfl, rfl, rfl⟩

def disposal (u : RunUnit σ) : List Event :=
  if u.step.isSome then [.dispose u.id] else []

/-- The step of the unit does not panic when it is disposed of. -/
def Yields (u : RunUnit σ) : Prop :=
  ∀ b m, u.step = some (b, m) → b.dispose m = .ok ()

theorem shelve_step (u : RunUnit σ) : u.shelve.step = none := by
  unfold shelve
  split
  · rfl
  · rename_i hs
    simpa using hs

section

variable {registry : Registry σ} {u v : RunUnit σ} {units units' : List (RunUnit σ)}

theorem Initiated.able (h : u.Initiated registry v) : u.Able registry ∧ v.Able registry := by
  obtain ⟨t, m, ht, hm, rfl⟩ := h
  exact ⟨⟨t, m, ht, hm⟩, t, m, ht, hm⟩

theorem Initiated.breaks (h : u.Initiated registry v) {b : Behaviour σ} {m : σ}
    (hv : v.step = some (b, m)) {payload : Option String} (hpanic : b.dispose m = .error payload) :
    u.Breaks registry payload := by
  obtain ⟨t, m', ht, hm, rfl⟩ := h
  obtain ⟨rfl, rfl⟩ := Prod.mk.inj (Option.some.inj hv)
  exact ⟨t, m', ht, hm, hpanic⟩

theorem Initiated.ids (h : List.Forall₂ (RunUnit.Initiated registry) units units') :
    units'.map (·.id) = units.map (·.id) := by
  simpa [RunUnit.station, Border.place, RunUnit.id, Function.comp_def]
    using congrArg (List.map fun s => s.place.unit) (Initiated.stations h)

theorem Initiated.all_able (h : List.Forall₂ (RunUnit.Initiated registry) units units') :
    ∀ u ∈ units, u.Able registry := by
  induction h with
  | nil => simp
  | cons hu _ ih => exact List.forall_mem_cons.mpr ⟨hu.able.1, ih⟩

theorem Initiated.shelve_ids (h : List.Forall₂ (RunUnit.Initiated registry) units units') :
    (units'.map shelve).map (·.id) = units.map (·.id) := by
  rw [← Initiated.ids h]
  simp [shelve_same]

theorem Initiated.disposals (h : List.Forall₂ (RunUnit.Initiated registry) units units') :
    units'.flatMap disposal = units.map fun u => .dispose u.id := by
  induction h with
  | nil => rfl
  | cons hu _ ih =>
    obtain ⟨t, m, -, -, rfl⟩ := hu
    simp [disposal, RunUnit.id, ih]

end

end RunUnit

namespace Initiation

variable {registry : Registry σ} {units : List (RunUnit σ)}

theorem ofUnits_cases (htypes : ∀ u ∈ units, registry.contains u.setup.spec.type = true) :
    (∃ units', List.Forall₂ (RunUnit.Initiated registry) units units' ∧
      ofUnits registry units = ⟨units', none, units.map fun u => .init u.id⟩) ∨
    ∃ done done' failed rest halt, units = done ++ failed :: rest ∧
      List.Forall₂ (RunUnit.Initiated registry) done done' ∧ failed.Unable registry halt ∧
      ofUnits registry units = match halt with
        | .error e => ⟨done' ++ failed.record e.message :: rest, some (.init failed.id e),
          (done ++ [failed]).map fun u => .init u.id⟩
        | .panic payload => ⟨done' ++ failed :: rest, some (.panicked payload),
          (done ++ [failed]).map fun u => .init u.id⟩ := by
  induction units with
  | nil => exact .inl ⟨[], .nil, rfl⟩
  | cons u rest ih =>
    obtain ⟨htype, htypes⟩ := List.forall_mem_cons.mp htypes
    obtain ⟨t, ht⟩ := Option.isSome_iff_exists.mp htype
    unfold ofUnits
    simp only [ht]
    cases hm : t.behaviour.init u.setup with
    | error halt =>
      refine .inr ⟨[], [], u, rest, halt, rfl, .nil, ⟨t, ht, hm⟩, ?_⟩
      cases halt <;> rfl
    | ok m =>
      rcases ih htypes with ⟨units', hunits, heq⟩ |
        ⟨done, done', failed, rest', halt, rfl, hdone, hunable, heq⟩
      · exact .inl ⟨_, .cons ⟨t, m, ht, hm, rfl⟩ hunits, by simp [heq, RunUnit.id]⟩
      · refine .inr ⟨u :: done, _, failed, rest', halt, rfl, .cons ⟨t, m, ht, hm, rfl⟩ hdone,
          hunable, ?_⟩
        cases halt <;> simp [heq, RunUnit.id]

end Initiation

theorem Disposal.ofUnits_cases (units : List (RunUnit σ)) :
    ofUnits units = ⟨units.map RunUnit.shelve, units.flatMap RunUnit.disposal, none⟩ ∨
    ∃ gone u rest b m payload, units = gone ++ u :: rest ∧ u.step = some (b, m) ∧
      b.dispose m = .error payload ∧ ofUnits units =
        ⟨gone.map RunUnit.shelve ++ { u with step := none } :: rest,
          gone.flatMap RunUnit.disposal ++ [.dispose u.id], some payload⟩ := by
  induction units with
  | nil => exact .inl rfl
  | cons u rest ih =>
    unfold ofUnits
    rcases hs : u.step with _ | ⟨b, m⟩
    · have hshelve : u.shelve = u ∧ u.disposal = [] := by
        simp [RunUnit.shelve, RunUnit.disposal, hs]
      obtain heq | ⟨gone, v, rest', b, m, payload, rfl, hv, hpanic, heq⟩ := ih
      · exact .inl (by simp [heq, hshelve])
      · exact .inr ⟨u :: gone, v, rest', b, m, payload, rfl, hv, hpanic, by simp [heq, hshelve]⟩
    · cases hd : b.dispose m with
      | error payload => exact .inr ⟨[], u, rest, b, m, payload, rfl, hs, hd, by simp [hd, RunUnit.id]⟩
      | ok =>
        have hshelve : u.shelve = { u with step := none, life := u.life.advance .disposed } ∧
            u.disposal = [.dispose u.id] := by simp [RunUnit.shelve, RunUnit.disposal, hs]
        obtain heq | ⟨gone, v, rest', b', m', payload, rfl, hv, hpanic, heq⟩ := ih
        · exact .inl (by simp [heq, hd, hshelve, RunUnit.id])
        · exact .inr ⟨u :: gone, v, rest', b', m', payload, rfl, hv, hpanic,
            by simp [heq, hd, hshelve, RunUnit.id]⟩

theorem Disposal.ofUnits_append {idle : List (RunUnit σ)} (h : ∀ u ∈ idle, u.step = none)
    (units : List (RunUnit σ)) : ofUnits (units ++ idle) =
      ⟨(ofUnits units).units ++ idle, (ofUnits units).calls, (ofUnits units).panic⟩ := by
  induction units with
  | nil =>
    induction idle with
    | nil => rfl
    | cons u rest ih =>
      obtain ⟨hu, hrest⟩ := List.forall_mem_cons.mp h
      replace ih := ih hrest
      rw [List.nil_append] at ih ⊢
      simp [ofUnits, hu, ih]
  | cons u rest ih =>
    rw [List.cons_append, ofUnits, ofUnits, ih]
    split
    · rfl
    · dsimp only
      split <;> rfl

theorem Disposal.ofUnits_yielding {units : List (RunUnit σ)} (h : ∀ u ∈ units, u.Yields) :
    ofUnits units = ⟨units.map RunUnit.shelve, units.flatMap RunUnit.disposal, none⟩ := by
  refine (ofUnits_cases units).resolve_right ?_
  rintro ⟨gone, u, rest, b, m, payload, rfl, hs, hpanic, -⟩
  have hok := h u (by simp) b m hs
  simp [hpanic] at hok

namespace Run

variable {r : Run σ}

/-- How setting up the units of a fresh wiring comes out: all are set up, or one fails and those
before it are disposed of, or one panics, at the one or the other. -/
inductive Installed (r : Run σ) (plan : Plan) (w : Wiring σ) : Except RunError Unit × Run σ → Prop
  | all {units : List (RunUnit σ)}
      (initiated : List.Forall₂ (RunUnit.Initiated r.registry) w.units units) :
      Installed r plan w (.ok (), { r with
        phase := .prepared
        plan := some plan
        units
        wires := w.wires
        net := w.net
        calls := (w.units.map fun u => .init u.id).reverse ++ r.calls })
  | back {done done' rest : List (RunUnit σ)} {failed : RunUnit σ} {e : StepError}
      (split : w.units = done ++ failed :: rest)
      (initiated : List.Forall₂ (RunUnit.Initiated r.registry) done done')
      (unable : failed.Unable r.registry (.error e)) :
      Installed r plan w (.error (.init failed.id e), { r with
        phase := .finished
        units := done'.map RunUnit.shelve ++ failed.record e.message :: rest
        net := w.net
        calls := (done.map fun u => .dispose u.id).reverse ++
          (((done ++ [failed]).map fun u => .init u.id).reverse ++ r.calls) })
  | panicked {done done' rest : List (RunUnit σ)} {failed : RunUnit σ} {payload : Option String}
      (split : w.units = done ++ failed :: rest)
      (initiated : List.Forall₂ (RunUnit.Initiated r.registry) done done')
      (unable : failed.Unable r.registry (.panic payload)) :
      Installed r plan w (.error (.panicked payload),
        { r with calls := ((done ++ [failed]).map fun u => .init u.id).reverse ++ r.calls })
  | unwound {gone others rest : List (RunUnit σ)} {u failed : RunUnit σ} {e : StepError}
      {payload : Option String}
      (split : w.units = (gone ++ u :: others) ++ failed :: rest)
      (able : ∀ v ∈ gone ++ u :: others, v.Able r.registry)
      (unable : failed.Unable r.registry (.error e)) (breaks : u.Breaks r.registry payload) :
      Installed r plan w (.error (.panicked payload), { r with
        calls := ((gone ++ [u]).map fun u => .dispose u.id).reverse ++
          (((gone ++ u :: others ++ [failed]).map fun u => .init u.id).reverse ++ r.calls) })

theorem setUp_installed (plan : Plan) {w : Wiring σ} (hfresh : ∀ u ∈ w.units, u.Fresh)
    (htypes : ∀ u ∈ w.units, r.registry.contains u.setup.spec.type = true) :
    r.Installed plan w (r.setUp plan w) := by
  obtain ⟨units, hunits, hi⟩ | ⟨done, done', failed, rest, halt, hsplit, hdone, hunable, hi⟩ :=
    Initiation.ofUnits_cases htypes
  · simp only [setUp, hi]
    exact .all hunits
  cases halt with
  | panic payload =>
    simp only [setUp, hi]
    exact .panicked hsplit hdone hunable
  | error e =>
    rw [hsplit] at hfresh
    simp only [List.forall_mem_append, List.forall_mem_cons] at hfresh
    have hidle : ∀ u ∈ failed.record e.message :: rest, u.step = none :=
      List.forall_mem_cons.mpr ⟨hfresh.2.1.step, fun u hu => (hfresh.2.2 u hu).step⟩
    have hd := Disposal.ofUnits_append hidle done'
    obtain heq | ⟨gone', u', others', b, m, payload, rfl, hu', hpanic, heq⟩ :=
      Disposal.ofUnits_cases done'
    · simp only [setUp, hi, hd, heq, RunUnit.Initiated.disposals hdone]
      exact .back hsplit hdone hunable
    · obtain ⟨gone, u, others, rfl, hgone, hinit, hothers⟩ := List.forall₂_append_cons hdone
      have hid : u'.id = u.id :=
        (List.cons.inj (RunUnit.Initiated.ids (.cons hinit hothers))).1
      have hgoing : gone'.flatMap RunUnit.disposal ++ [.dispose u'.id] =
          (gone ++ [u]).map fun u => .dispose u.id := by
        simp [RunUnit.Initiated.disposals hgone, hid]
      simp only [setUp, hi, hd, heq, hgoing]
      exact .unwound hsplit (RunUnit.Initiated.all_able hdone) hunable (hinit.breaks hu' hpanic)

end Run

end Sluice
