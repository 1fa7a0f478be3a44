import Sluice.Proofs.Graph.Runnable
import Sluice.Proofs.Run.Refusals
import Sluice.Run.Lifetime

/-!
Runs of two graphs with the same runnable part. Each goes through the states of the other and gives the
same answers; only the name of the graph is another, in the manifest and in what is reported. Since the
digest is made from bytes that tell the runnable part, it stands for all that a run makes of a graph.
-/

namespace Sluice

def Manifest.retitled (m : Manifest) (name : String) : Manifest :=
  { m with graphName := name }

def RunReport.retitled (report : RunReport) (name : String) : RunReport :=
  { report with manifest := report.manifest.retitled name }

def Deed.Reply.retitled (reply : Deed.Reply) (name : String) : Deed.Reply :=
  match reply with
  | .waited answer => .waited (answer.map (·.map (·.retitled name)))
  | reply => reply

namespace Run

variable {σ : Type} {r : Run σ} {g h : Graph}

/-- As if the run were one of another graph. -/
def regraphed (r : Run σ) (h : Graph) : Run σ :=
  { r with
    graph := h
    manifest := r.manifest.map (·.retitled h.name)
    report := r.report.map (·.retitled h.name) }

@[simp] theorem phase_regraphed (r : Run σ) (h : Graph) : (r.regraphed h).phase = r.phase := rfl

@[simp] theorem expect_regraphed (r : Run σ) (h : Graph) (op : Operation) (phase : Phase) :
    (r.regraphed h).expect op phase = r.expect op phase := rfl

theorem wire_regraphed (hsame : r.graph.runnable = h.runnable) : (r.regraphed h).wire = r.wire := by
  have hplan := Graph.alike (Plan.ofGraph_runnable r.registry) hsame
  have hwiring (plan : Plan) :
      Wiring.ofPlan (σ := σ) r.settings r.graph plan r.net = Wiring.ofPlan r.settings h plan r.net :=
    Graph.alike (f := (Wiring.ofPlan r.settings · plan r.net))
      (Wiring.ofPlan_runnable r.settings · plan r.net) hsame
  simp only [wire, regraphed, hplan, hwiring]

theorem setUp_regraphed (r : Run σ) (h : Graph) (plan : Plan) (w : Wiring σ) :
    (r.regraphed h).setUp plan w = ((r.setUp plan w).1, (r.setUp plan w).2.regraphed h) := by
  unfold setUp
  dsimp only [regraphed]
  split
  · rfl
  · rfl
  · split <;> rfl

theorem prepare_untold (r : Run σ) :
    r.prepare.2.manifest = r.manifest ∧ r.prepare.2.report = r.report := by
  have hacted := r.prepare_acted
  generalize r.prepare.2 = r' at hacted
  cases hacted <;> exact ⟨rfl, rfl⟩

theorem regraphed_untold (hmanifest : r.manifest = none) (hreport : r.report = none) :
    r.regraphed h = { r with graph := h } := by
  simp [regraphed, hmanifest, hreport]

theorem prepare_regraphed (hsame : r.graph.runnable = h.runnable) :
    (r.regraphed h).prepare = (r.prepare.1, r.prepare.2.regraphed h) := by
  unfold prepare
  rw [wire_regraphed hsame, expect_regraphed]
  cases r.expect .prepare .new with
  | error e => rfl
  | ok =>
    cases r.wire with
    | error e => rfl
    | ok wired => exact setUp_regraphed r h wired.1 wired.2

theorem addProducer_regraphed (hsame : r.graph.runnable = h.runnable) (unit : UnitId) :
    (r.regraphed h).addProducer unit =
      ((r.addProducer unit).1, (r.addProducer unit).2.regraphed h) := by
  have hinputs : r.graph.inputHops unit.step = h.inputHops unit.step :=
    Graph.alike (f := (·.inputHops unit.step)) (·.inputHops_runnable unit.step) hsame
  have hstep : r.graph.step unit.step = h.step unit.step :=
    Graph.alike (f := (·.step unit.step)) (·.step_runnable unit.step) hsame
  have hcheck : (r.regraphed h).checkInjection unit = r.checkInjection unit := by
    simp only [checkInjection, regraphed, expect, hinputs, hstep]
    rfl
  rw [addProducer, addProducer, hcheck]
  split <;> rfl

theorem addObserver_regraphed (r : Run σ) (h : Graph) (unit : UnitId) :
    (r.regraphed h).addObserver unit =
      ((r.addObserver unit).1, (r.addObserver unit).2.regraphed h) := by
  unfold addObserver
  rw [expect_regraphed]
  cases r.expect .addObserver .prepared with
  | error e => rfl
  | ok =>
    dsimp only [regraphed]
    split <;> rfl

theorem start_regraphed (hsame : r.graph.runnable = h.runnable) (id : List UInt8) (now : Nat) :
    (r.regraphed h).start id now = ((r.start id now).1, (r.start id now).2.regraphed h) := by
  have hdigest := Graph.alike Graph.digest_runnable hsame
  rw [start_eq, start_eq, expect_regraphed]
  cases r.expect .start .prepared with
  | error e => rfl
  | ok => simp only [regraphed, hdigest, Option.map_some, Manifest.retitled, Manifest.new]

theorem summarize_regraphed (r : Run σ) (h : Graph) (now : Nat) :
    (r.regraphed h).summarize now = (r.summarize now).retitled h.name := by
  unfold summarize
  dsimp only [regraphed, RunReport.retitled]
  cases r.manifest <;> rfl

theorem wait_regraphed (r : Run σ) (h : Graph) (now : Nat) :
    (r.regraphed h).wait now =
      (r.wait now).map fun told => (told.1.map (·.retitled h.name), told.2.regraphed h) := by
  have hidle : (r.regraphed h).unitsIdle = r.unitsIdle := rfl
  unfold wait
  rw [summarize_regraphed, hidle, phase_regraphed]
  cases hphase : r.phase with
  | running =>
    dsimp only
    split <;> rfl
  | finished => cases hreport : r.report <;> simp [regraphed, hphase, hreport, Except.map]
  | new => rfl
  | prepared => rfl

theorem move_regraphed (r : Run σ) (h : Graph) (party : Party) :
    (r.regraphed h).move party = (r.move party).map (·.regraphed h) := by
  cases party with
  | unit i =>
    change (r.regraphed h).moveUnit i = (r.moveUnit i).map (·.regraphed h)
    unfold moveUnit
    dsimp only [regraphed]
    cases r.units[i]? with
    | none => rfl
    | some u =>
      dsimp only [Option.bind_eq_bind, Option.bind_some]
      cases u.move r.net r.armed with
      | none => rfl
      | some m => cases hevent : m.event <;> simp [addCall, hevent]
  | producer k =>
    change (r.regraphed h).moveProducer k = (r.moveProducer k).map (·.regraphed h)
    unfold moveProducer
    dsimp only [regraphed]
    cases r.producers[k]? with
    | none => rfl
    | some p =>
      dsimp only [Option.bind_eq_bind, Option.bind_some]
      cases p.move r.net <;> rfl
  | stop k =>
    change (r.regraphed h).moveStop k = (r.moveStop k).map (·.regraphed h)
    unfold moveStop
    dsimp only [regraphed]
    split <;> simp

theorem abandon_regraphed (r : Run σ) (h : Graph) :
    (r.regraphed h).abandon = r.abandon.regraphed h := by
  unfold abandon unload
  rw [phase_regraphed]
  by_cases hrunning : r.phase = .running
  · simp only [hrunning, if_true]
    rfl
  · simp only [hrunning, if_false]
    rfl

theorem act_regraphed (hsame : r.graph.runnable = h.runnable) (d : Deed) :
    (r.regraphed h).act d = (r.act d).regraphed h ∧
      (r.regraphed h).reply d = (r.reply d).retitled h.name := by
  cases d with
  | prepare =>
    rw [act, reply, prepare_regraphed hsame]
    exact ⟨rfl, rfl⟩
  | addProducer unit =>
    rw [act, reply, addProducer_regraphed hsame]
    exact ⟨rfl, rfl⟩
  | addObserver unit =>
    rw [act, reply, addObserver_regraphed]
    exact ⟨rfl, rfl⟩
  | start id now =>
    rw [act, reply, start_regraphed hsame]
    exact ⟨rfl, rfl⟩
  | wait now =>
    rw [act, reply, act, reply, wait_regraphed]
    cases r.wait now <;> exact ⟨rfl, rfl⟩
  | move party =>
    rw [act, act, move_regraphed]
    cases r.move party <;> exact ⟨rfl, rfl⟩
  | offer k rows => exact ⟨rfl, rfl⟩
  | finish k => exact ⟨rfl, rfl⟩
  | stop => exact ⟨rfl, rfl⟩

theorem replies_regraphed (hsame : r.graph.runnable = h.runnable) (ds : List Deed) :
    (r.regraphed h).replies ds = (r.replies ds).map (·.retitled h.name) := by
  induction ds generalizing r with
  | nil => rfl
  | cons d ds ih =>
    obtain ⟨hact, hreply⟩ := act_regraphed hsame d
    have hgraph : (r.act d).graph = r.graph := (r.act_acted d).given.1
    rw [replies, replies, List.map_cons, hact, hreply, ih (by rw [hgraph, hsame])]

theorem undergo_regraphed (hsame : r.graph.runnable = h.runnable) (happening : Happening) :
    (r.regraphed h).undergo happening = (r.undergo happening).regraphed h := by
  cases happening with
  | deed d => exact (act_regraphed hsame d).1
  | abandon => exact abandon_regraphed r h

theorem graph_undergo (r : Run σ) (happening : Happening) :
    (r.undergo happening).graph = r.graph := by
  cases happening with
  | deed d => exact (r.act_acted d).given.1
  | abandon =>
    change r.abandon.graph = r.graph
    unfold abandon
    dsimp only
    split <;> rfl

theorem graph_through (r : Run σ) (hs : List Happening) : (r.through hs).graph = r.graph := by
  induction hs generalizing r with
  | nil => rfl
  | cons happening hs ih => exact (ih (r.undergo happening)).trans (r.graph_undergo happening)

theorem through_regraphed (hsame : r.graph.runnable = h.runnable) (hs : List Happening) :
    (r.regraphed h).through hs = (r.through hs).regraphed h := by
  induction hs generalizing r with
  | nil => rfl
  | cons happening hs ih =>
    have hrest := ih (r := r.undergo happening) (by rw [graph_undergo, hsame])
    rw [← undergo_regraphed hsame] at hrest
    exact hrest

/-- A run that goes on has its manifest, and what it tells of the graph is the digest. -/
structure Signed (r : Run σ) : Prop where
  running : r.phase = .running → ∃ m, r.manifest = some m
  manifest : ∀ m, r.manifest = some m → m.graphDigest = r.graph.digest
  report : ∀ report, r.report = some report → report.manifest.graphDigest = r.graph.digest

theorem Signed.new (registry : Registry σ) (settings : Settings) (g : Graph) (armed : List String) :
    (Run.new registry settings g armed).Signed := by
  constructor
  · intro hphase
    cases hphase
  · intro m hm
    cases hm
  · intro report hreport
    cases hreport

theorem Signed.summarize (hsigned : r.Signed) (hphase : r.phase = .running) (now : Nat) :
    (r.summarize now).manifest.graphDigest = r.graph.digest := by
  obtain ⟨m, hm⟩ := hsigned.running hphase
  simp only [Run.summarize, hm, Manifest.finish]
  exact hsigned.manifest m hm

theorem Signed.act (hsigned : r.Signed) (d : Deed) : (r.act d).Signed := by
  have hacted := r.act_acted d
  generalize hr' : r.act d = r' at hacted
  cases hacted with
  | idle => exact hsigned
  | spoiled | shelved | prepared =>
    exact ⟨fun hphase => (by cases hphase), hsigned.manifest, hsigned.report⟩
  | unwound | fed | observed | offered | finishing | stopped =>
    exact ⟨hsigned.running, hsigned.manifest, hsigned.report⟩
  | moved stepped =>
    cases stepped <;> exact ⟨hsigned.running, hsigned.manifest, hsigned.report⟩
  | started phase =>
    rw [← hr']
    simp only [Run.act, start_eq, expect, if_pos phase]
    refine ⟨fun _ => ⟨_, rfl⟩, fun m hm => ?_, hsigned.report⟩
    obtain rfl := Option.some.inj hm
    rfl
  | waited phase =>
    refine ⟨fun hphase => (by cases hphase), fun m hm => (by cases hm), fun report hreport => ?_⟩
    obtain rfl := Option.some.inj hreport
    exact hsigned.summarize phase _

theorem Signed.undergo (hsigned : r.Signed) (happening : Happening) :
    (r.undergo happening).Signed := by
  cases happening with
  | deed d => exact hsigned.act d
  | abandon =>
    change r.abandon.Signed
    unfold abandon
    dsimp only
    split <;> exact ⟨hsigned.running, hsigned.manifest, hsigned.report⟩

theorem Signed.through (hsigned : r.Signed) (hs : List Happening) : (r.through hs).Signed := by
  induction hs generalizing r with
  | nil => exact hsigned
  | cons happening hs ih => exact ih (hsigned.undergo happening)

/-- The digest of a graph stands for its steps and enabled hops: others have other bytes. Graphs
with the same bytes have the same plans or faults, and runs that differ in the name at most. The
fractional numbers in them are finite, as those of every graph file are. -/
theorem digest_identifies_runnable (g h : Graph) :
    (g.steps = h.steps → g.enabledHops = h.enabledHops → g.hashed = h.hashed) ∧
    (g.allFinite = true → h.allFinite = true → g.hashed = h.hashed →
      g.steps = h.steps ∧ g.enabledHops = h.enabledHops ∧
      (∀ plan : Plan, plan.explain { g with name := h.name } = plan.explain h) ∧
      ∀ {σ : Type} (registry : Registry σ), Plan.ofGraph registry g = Plan.ofGraph registry h ∧
        ∀ settings armed,
          let r := Run.new registry settings g armed
          let r' := Run.new registry settings h armed
          r'.prepare = (r.prepare.1, { r.prepare.2 with graph := h }) ∧
          (∀ hs, r'.through hs = (r.through hs).regraphed h) ∧
          ∀ ds, r'.replies ds = (r.replies ds).map (·.retitled h.name)) ∧
    ∀ {σ : Type} (registry : Registry σ) settings armed hs,
      let r := (Run.new registry settings g armed).through hs
      (∀ m, r.manifest = some m → m.graphDigest = Digest.ofBytes g.hashed) ∧
      ∀ report, r.report = some report → report.manifest.graphDigest = Digest.ofBytes g.hashed := by
  refine ⟨fun hsteps hhops => ?_, fun hg hh hbytes => ?_, fun registry settings armed hs => ?_⟩
  · exact Graph.alike Graph.hashed_runnable (Graph.runnable_eq_iff.mpr ⟨hsteps, hhops⟩)
  · have hsame := Graph.runnable_of_hashed hg hh hbytes
    obtain ⟨hsteps, hhops⟩ := Graph.runnable_eq_iff.mp hsame
    refine ⟨hsteps, hhops, fun plan => ?_, fun registry => ⟨?_, fun settings armed => ?_⟩⟩
    · have hrenamed : ({ g with name := h.name } : Graph).runnable = h.runnable := hsame
      rw [← plan.explain_runnable h, ← hrenamed]
      exact (plan.explain_runnable { g with name := h.name }).symm
    · exact Graph.alike (Plan.ofGraph_runnable registry) hsame
    · intro r r'
      obtain ⟨hmanifest, hreport⟩ := r.prepare_untold
      refine ⟨?_, fun hs => ?_, fun ds => ?_⟩
      · rw [← regraphed_untold hmanifest hreport]
        exact prepare_regraphed (r := r) hsame
      · exact through_regraphed (r := r) hsame hs
      · exact replies_regraphed (r := r) hsame ds
  · intro r
    have hsigned := (Signed.new registry settings g armed).through hs
    have hgraph : r.graph = g := graph_through _ hs
    rw [← Graph.digest_hashed, ← hgraph]
    exact ⟨hsigned.manifest, hsigned.report⟩

theorem disabled_loop_is_inert :
    let steps : List StepSpec := [
      { name := "rows", type := "generate_rows",
        config := .obj [("limit", .int 3), ("share", .float .one)] },
      { name := "end", type := "dummy", copies := 2 }]
    let hop : Hop := ⟨"rows", "end", true⟩
    let g : Graph := { name := "one", steps, hops := [hop] }
    let h : Graph :=
      { name := "two", steps, hops := [⟨"end", "rows", false⟩, hop, ⟨"rows", "nowhere", false⟩] }
    g.allFinite = true ∧ h.allFinite = true ∧ g.hashed = h.hashed ∧
      ∀ {σ : Type} (registry : Registry σ), Plan.ofGraph registry g = Plan.ofGraph registry h ∧
        ∀ settings armed ds, (Run.new registry settings h armed).replies ds =
          ((Run.new registry settings g armed).replies ds).map (·.retitled "two") := by
  intro steps hop g h
  have hg : g.allFinite = true := by decide
  have hh : h.allFinite = true := by decide
  obtain ⟨hbytes, htold, -⟩ := digest_identifies_runnable g h
  have hsame := hbytes rfl rfl
  obtain ⟨-, -, -, hruns⟩ := htold hg hh hsame
  refine ⟨hg, hh, hsame, fun registry => ⟨(hruns registry).1, fun settings armed ds => ?_⟩⟩
  obtain ⟨-, -, hreplies⟩ := (hruns registry).2 settings armed
  exact hreplies ds

end Run

end Sluice
