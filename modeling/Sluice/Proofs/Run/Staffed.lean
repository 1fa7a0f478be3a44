import Sluice.Proofs.Run.Station
import Sluice.Proofs.Run.Tracking
import Sluice.Proofs.Run.Wiring

/-!
Units whose step comes from the catalog and is set up. Whatever they do, they keep the contract of
their step, read from their own inputs and write to their own outputs.
-/

namespace Sluice

/-- A unit whose step is set up, with this memory. -/
structure RunUnit.Staffed (u : RunUnit StepMemory) (g : Graph) (t : StepType StepMemory)
    (m : StepMemory) : Prop where
  spec : u.setup.spec ∈ g.steps
  named : u.id.step = u.setup.spec.name
  found : Catalog.builtins.find? u.setup.spec.type = some t
  init : t.behaviour.init u.setup = .ok m
  inputs : t.maxInputs = some 0 → u.border.inputs = []
  step : ∀ b m', u.step = some (b, m') → b = t.behaviour
  unstarted : u.stage = .unstarted → u.step = some (t.behaviour, m) ∧ u.life = ⟨.initialized, none⟩

namespace RunUnit

variable {u u' : RunUnit StepMemory} {g : Graph} {type : StepType StepMemory} {m : StepMemory}
  {net : Net} {armed : List String} {t : Touch}

theorem Staffed.suits (h : u.Staffed g type m) : type.Suits u.setup u.site :=
  ⟨fun hmax => by simp [site, h.inputs hmax], rfl⟩

theorem Staffed.keeps (h : u.Staffed g type m) (b : Behaviour StepMemory) (m' : StepMemory)
    (hs : u.step = some (b, m')) :
    b.Keeps u.site (m.contract u.site) ∧ ∀ m, b.dispose m = .ok () := by
  obtain rfl := h.step b m' hs
  refine ⟨(Catalog.keeps h.found h.init h.suits).1, fun _ => ?_⟩
  obtain ⟨-, rfl | rfl | rfl | rfl | rfl | rfl | rfl⟩ := Catalog.find?_cases h.found <;> rfl

theorem Staffed.moved (h : u.Staffed g type m) (hm : u.Moved net armed t u') :
    u'.Staffed g type m := by
  have hstation := hm.station
  have hsetup : u'.setup = u.setup := congrArg Station.setup hstation
  have hplace : u'.border.place = u.border.place := congrArg Station.place hstation
  have hid : u'.id = u.id := congrArg Place.unit hplace
  obtain ⟨hstage, hstep⟩ := hm.step
  refine ⟨hsetup ▸ h.spec, by rw [hid, hsetup]; exact h.named, hsetup ▸ h.found, hsetup ▸ h.init,
    fun hmax => ?_, fun b m' hs => ?_, fun hs => absurd hs hstage⟩
  · have := Border.place_inputs_length hplace
    rw [h.inputs hmax] at this
    exact List.length_eq_zero_iff.mp this
  · obtain ⟨m'', hs'⟩ := hstep b m' hs
    exact h.step b m'' hs'

theorem Moved.fitted {σ : Type} {u u' : RunUnit σ} {g : Graph} (h : u.Moved net armed t u')
    (hf : u.Fitted g) : u'.Fitted g := by
  have hsetup : u'.setup = u.setup := congrArg Station.setup h.station
  have houts : u'.border.outputs.map (·.channels) = u.border.outputs.map (·.channels) :=
    congrArg (fun s : Station => s.place.outs) h.station
  obtain ⟨hsources, htargets⟩ := Prod.mk.inj h.hops
  refine ⟨fun o ho => ?_, by rw [hsetup, hf.targets, htargets], fun hop => ?_⟩
  · obtain ⟨o', ho', heq⟩ := List.mem_map.mp (houts ▸ List.mem_map_of_mem ho)
    exact heq ▸ hf.outlets o' ho'
  · have hsources := congrArg (List.map UnitId.step) hsources
    simp only [List.map_map] at hsources
    rw [hsetup] at hop ⊢
    exact (hf.sources hop).trans hsources.symm

theorem Moved.takes_own {σ : Type} {u u' : RunUnit σ} {c : Nat} {row : Row}
    (h : u.Moved net armed (.take c row) u') : c ∈ u.border.inputChannels := by
  have hmem {i : Nat} {inlet : Inlet} (hi : u.border.inputs[i]? = some inlet) :
      inlet.channel ∈ u.border.inputChannels := List.mem_map_of_mem (List.mem_of_getElem? hi)
  obtain ⟨call, next, border, r, -, step, -⟩ := h.takes
  cases step with
  | scan_found _ at_i => exact hmem at_i
  | received at_i => exact hmem at_i

theorem Tracked.puts_own {σ : Type} {u u' : RunUnit σ} {site : Site} {k : Contract σ} {l : Ledger}
    {stopping : Prop} {c : Nat} {row : Row} (ht : u.Tracked site k l stopping)
    (h : u.Moved net armed (.put c row) u') : c ∈ u.border.outputChannels := by
  obtain ⟨hops, next, stage, -⟩ := h.puts
  simp only [Tracked, stage] at ht
  obtain ⟨j, hop, row, -, -, -, -, -, hd⟩ := ht
  obtain ⟨g, o, -, ho, -, hc, -⟩ := hd.current
  exact Border.mem_outputChannels ho (List.mem_of_getElem? hc)

end RunUnit

end Sluice
