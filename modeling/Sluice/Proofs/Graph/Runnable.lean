import Sluice.Graph.Plan
import Sluice.Proofs.Json.Unambiguous
import Sluice.Proofs.Value.Conversions
import Sluice.Run.Wiring

/-!
The runnable part of a graph: its steps and its enabled hops. Checks, order and wiring ask no more of a
graph, and the bytes that its digest is made from tell one runnable part from another.
-/

namespace Sluice

namespace Graph

variable {g h : Graph}

/-- The graph without its name and its disabled hops. -/
def runnable (g : Graph) : Graph :=
  { steps := g.steps, hops := g.enabledHops }

theorem runnable_eq_iff :
    g.runnable = h.runnable ↔ g.steps = h.steps ∧ g.enabledHops = h.enabledHops := by
  simp [runnable]

theorem alike {α : Type} {f : Graph → α} (hf : ∀ g, f g.runnable = f g)
    (hsame : g.runnable = h.runnable) : f g = f h := by
  rw [← hf g, hsame, hf h]

@[simp] theorem steps_runnable (g : Graph) : g.runnable.steps = g.steps := rfl

@[simp] theorem enabledHops_runnable (g : Graph) : g.runnable.enabledHops = g.enabledHops := by
  simp [runnable, enabledHops, List.filter_filter]

@[simp] theorem inputHops_runnable (g : Graph) (name : String) :
    g.runnable.inputHops name = g.inputHops name := by
  rw [inputHops, inputHops, enabledHops_runnable]

@[simp] theorem outputHops_runnable (g : Graph) (name : String) :
    g.runnable.outputHops name = g.outputHops name := by
  rw [outputHops, outputHops, enabledHops_runnable]

@[simp] theorem stepNames_runnable (g : Graph) : g.runnable.stepNames = g.stepNames := rfl

@[simp] theorem step_runnable (g : Graph) (name : String) : g.runnable.step name = g.step name := rfl

end Graph

section Stages

variable {σ : Type}

namespace Topology

@[simp] theorem edges_runnable (g : Graph) : edges g.runnable = edges g := by
  rw [edges, edges, Graph.enabledHops_runnable, Graph.stepNames_runnable]

@[simp] theorem start_runnable (g : Graph) : Walk.start g.runnable = Walk.start g := by
  rw [Walk.start, Walk.start, edges_runnable, Graph.steps_runnable, Graph.stepNames_runnable]

@[simp] theorem ofGraph_runnable (g : Graph) : ofGraph g.runnable = ofGraph g := by
  rw [ofGraph, ofGraph, edges_runnable, start_runnable, Graph.steps_runnable,
    Graph.stepNames_runnable]
  rfl

end Topology

namespace Plan

@[simp] theorem checkInputs_runnable (registry : Registry σ) (g : Graph) :
    checkInputs registry g.runnable = checkInputs registry g := by
  funext s
  rw [checkInputs, checkInputs, Graph.inputHops_runnable]

@[simp] theorem sourcesOf_runnable (g : Graph) : sourcesOf g.runnable = sourcesOf g := by
  simp [sourcesOf]

@[simp] theorem sinksOf_runnable (g : Graph) : sinksOf g.runnable = sinksOf g := by
  simp [sinksOf]

theorem ofGraph_runnable (registry : Registry σ) (g : Graph) :
    ofGraph registry g.runnable = ofGraph registry g := by
  simp [ofGraph]

theorem explain_runnable (plan : Plan) (g : Graph) :
    plan.explain { g.runnable with name := g.name } = plan.explain g := by
  have hhops : ({ g.runnable with name := g.name } : Graph).enabledHops = g.enabledHops :=
    g.enabledHops_runnable
  have hinputs (name : String) :
      ({ g.runnable with name := g.name } : Graph).inputHops name = g.inputHops name :=
    g.inputHops_runnable name
  simp only [explain, explainStep, hhops, hinputs]
  rfl

end Plan

namespace Wiring

theorem addStep_runnable (settings : Settings) (g : Graph) :
    addStep (σ := σ) settings g.runnable = addStep settings g := by
  funext w name
  rw [addStep, addStep, Graph.step_runnable]

theorem connectHop_runnable (capacity : Nat) (g : Graph) :
    connectHop (σ := σ) capacity g.runnable = connectHop capacity g := by
  funext w hop
  rw [connectHop, connectHop, Graph.step_runnable, Graph.step_runnable]

theorem ofPlan_runnable (settings : Settings) (g : Graph) (plan : Plan) (net : Net) :
    ofPlan (σ := σ) settings g.runnable plan net = ofPlan settings g plan net := by
  rw [ofPlan, ofPlan, addStep_runnable, connectHop_runnable, Graph.enabledHops_runnable]

end Wiring

end Stages

theorem DataErrorPolicy.name_injective : Function.Injective DataErrorPolicy.name := by
  intro p q h
  cases p <;> cases q <;> first | rfl | exact absurd h (by decide)

theorem StepSpec.encode_injective : Function.Injective StepSpec.encode := by
  intro s t h
  obtain ⟨name, type, copies, config, distribute, policy⟩ := s
  obtain ⟨name', type', copies', config', distribute', policy'⟩ := t
  simp only [encode, Json.ofNat, Json.obj.injEq, List.cons.injEq, Prod.mk.injEq, Json.str.injEq,
    Json.int.injEq, Json.bool.injEq, true_and, and_true] at h
  obtain ⟨rfl, rfl, hcopies, rfl, rfl, hpolicy⟩ := h
  obtain rfl := Int.ofNat.inj hcopies
  obtain rfl := DataErrorPolicy.name_injective hpolicy
  rfl

theorem Hop.encode_injective : Function.Injective Hop.encode := by
  intro a b h
  obtain ⟨source, target, enabled⟩ := a
  obtain ⟨source', target', enabled'⟩ := b
  simp only [encode, Json.obj.injEq, List.cons.injEq, Prod.mk.injEq, Json.str.injEq, Json.bool.injEq,
    true_and, and_true] at h
  obtain ⟨rfl, rfl, rfl⟩ := h
  rfl

namespace Graph

variable {g h : Graph}

def hashed (g : Graph) : List UInt8 :=
  g.runnableText.toUTF8.toList

theorem digest_hashed (g : Graph) : g.digest = Digest.ofBytes g.hashed := rfl

theorem hashed_runnable (g : Graph) : g.runnable.hashed = g.hashed := by
  rw [hashed, hashed, runnableText, runnableText, enabledHops_runnable, steps_runnable]

theorem digest_runnable (g : Graph) : g.runnable.digest = g.digest := by
  rw [digest_hashed, digest_hashed, hashed_runnable]

theorem runnableText_of_hashed (hsame : g.hashed = h.hashed) : g.runnableText = h.runnableText := by
  have hread := Value.toText_toUTF8 g.runnableText
  change (Value.binary g.hashed).toText = _ at hread
  rw [hsame] at hread
  exact Except.ok.inj (hread.symm.trans (Value.toText_toUTF8 h.runnableText))

def allFinite (g : Graph) : Bool :=
  g.steps.all fun s => s.config.allFinite

theorem encoded_finite (hg : g.allFinite = true) : Json.allFinite
    (.arr [.arr (g.steps.map StepSpec.encode), .arr (g.enabledHops.map Hop.encode)]) = true := by
  have hsteps : Json.itemsFinite (g.steps.map StepSpec.encode) = true := by
    rw [Json.itemsFinite_iff, List.forall_mem_map]
    intro s hs
    have hconfig := List.all_eq_true.mp hg s hs
    simp [StepSpec.encode, Json.allFinite, Json.entriesFinite, Json.ofNat, hconfig]
  have hhops : Json.itemsFinite (g.enabledHops.map Hop.encode) = true := by
    rw [Json.itemsFinite_iff, List.forall_mem_map]
    intro hop _
    rfl
  simp [Json.allFinite, Json.itemsFinite, hsteps, hhops]

theorem runnable_of_hashed (hg : g.allFinite = true) (hh : h.allFinite = true)
    (hsame : g.hashed = h.hashed) : g.runnable = h.runnable := by
  have hparts := Json.compact_injective (encoded_finite hg) (encoded_finite hh)
    (runnableText_of_hashed hsame)
  simp only [Json.arr.injEq, List.cons.injEq, and_true] at hparts
  obtain ⟨hsteps, hhops⟩ := hparts
  exact runnable_eq_iff.mpr ⟨List.map_injective_iff.mpr StepSpec.encode_injective hsteps,
    List.map_injective_iff.mpr Hop.encode_injective hhops⟩

end Graph

end Sluice
