import Sluice.Proofs.Run.Balance

/-!
Concatenations. A unit that concatenates touches an input only after the end of all inputs that come
before it in the order, whoever writes them and whenever; when it has finished it has sent out the
complete streams, one behind the other.
-/

namespace Sluice

theorem Net.Touched.rowsTaken {net net' : Net} {t : Touch} (h : net.Touched t net') {c : Nat}
    (hne : ∀ row, t ≠ .take c row) : net'.rowsTaken c = net.rowsTaken c := by
  unfold Net.rowsTaken
  rw [h.channel]
  cases net.channel? c with
  | none => rfl
  | some ch =>
    cases t with
    | take i row =>
      have hi : i ≠ c := fun hi => hne row (by rw [hi])
      simp [Touch.on, hi]
    | put i row => by_cases hi : i = c <;> simp [Touch.on, hi]
    | close i => by_cases hi : i = c <;> simp [Touch.on, hi]
    | abort i => by_cases hi : i = c <;> simp [Touch.on, hi]
    | _ => rfl

namespace RunUnit

/-- Nothing was taken from an input before the end of every input that comes before it was read. -/
def ReadsInTurn (u : RunUnit StepMemory) (net : Net) (order : List Nat) : Prop :=
  order.Pairwise fun k i => ∀ c ∈ u.border.inputChannels[i]?, net.rowsTaken c ≠ 0 →
    u.border.inputFinished k = true

/-- A unit that concatenates reads its inputs in the order that its step was set up with. -/
def InTurn (u : RunUnit StepMemory) (net : Net) : Prop :=
  u.setup.spec.type = "append" → ∀ m, Append.init u.setup = .ok m →
    u.ReadsInTurn net (Append.cover u.border.inputs.length m.order)

/-- What a finished unit has done that had these rows to send out, when the channels carried these
streams: its inputs hold no more, and every row was counted, was seen by every listener and went to
the channels whose turn it was. -/
structure Concatenated (u : RunUnit StepMemory) (net : Net) (streams : Nat → List Row)
    (rows : List Row) : Prop where
  complete : ∀ c ∈ u.border.inputChannels, net.Drained c
  counted : (Run.unitReport u).linesWritten = rows.length
  heard : ∀ log ∈ u.border.listeners, log.toList.filterMap (·.written?) = rows
  sent : ∀ (hop : Nat) (o : Outlet), u.border.outputs[hop]? = some o →
    ∀ (i c : Nat), o.channels[i]? = some c → streams c = deal o.channels.length i 0
      (if u.border.shares then deal u.border.outputs.length hop 0 rows else rows)

variable {u u' : RunUnit StepMemory} {net net' : Net} {armed : List String} {t : Touch}
  {streams : Nat → List Row} {rows : List Row}

/-- The only channel of a hop carries all rows, unless other hops have a share in them. -/
theorem Concatenated.alone (h : u.Concatenated net streams rows) (unshared : u.border.shares = false)
    {o : Outlet} (ho : o ∈ u.border.outputs) {c : Nat} (alone : o.channels = [c]) :
    streams c = rows := by
  obtain ⟨hop, hhop⟩ := List.getElem?_of_mem ho
  have hsent := h.sent hop o hhop 0 c (by simp [alone])
  simpa [unshared, alone, deal_one] using hsent

theorem InTurn.touched (h : u.InTurn net) (ht : net.Touched t net')
    (hne : ∀ c ∈ u.border.inputChannels, ∀ row, t ≠ .take c row) : u.InTurn net' := by
  intro htype m hinit
  apply (h htype m hinit).imp
  intro k i hki c hc htaken
  apply hki c hc
  rwa [← ht.rowsTaken (hne c (List.mem_of_getElem? hc))]

/-- A unit that concatenates takes a row only from the input whose turn it is. -/
theorem Tracked.takes_in_turn {k : Contract StepMemory} {l : Ledger} {stopping : Prop} {c : Nat}
    {row : Row} (ht : u.Tracked u.site k l stopping) (hm : u.Moved net armed (.take c row) u')
    (htype : u.setup.spec.type = "append") {m : Append.Memory} (hinit : Append.init u.setup = .ok m) :
    ∃ i j, u.border.Journaled j l ∧ u.border.inputChannels[i]? = some c ∧
      Append.Turn (Append.cover u.border.inputs.length m.order) i j := by
  obtain ⟨call, next, border, r, stage, step, -⟩ := hm.takes
  simp only [Tracked, stage] at ht
  obtain ⟨j, input, -, hj, -, -, hmeets, hserves⟩ := ht
  have hasks : u.setup.asks u.border.inputs.length input j := (hmeets j (.refl j)).1
  obtain ⟨i, rfl, hturn⟩ := Setup.asks_turn hasks htype hinit
  cases step with
  | scan_found => cases hserves
  | received at_i =>
    obtain he | ⟨he, -⟩ := hserves.2
    · obtain rfl := Option.some.inj he
      exact ⟨i, j, hj, by simp [Border.inputChannels, at_i], hturn⟩
    · cases he

theorem Tracked.ended_before {k : Contract StepMemory} {l : Ledger} {stopping : Prop}
    (ht : u.Tracked u.site k l stopping) (hm : u.Moved net armed t u')
    (hn : u.border.inputChannels.Nodup) (htype : u.setup.spec.type = "append") {m : Append.Memory}
    (hinit : Append.init u.setup = .ok m) :
    (Append.cover u.border.inputs.length m.order).Pairwise fun k i =>
      ∀ c ∈ u.border.inputChannels[i]?, ∀ row, t = .take c row → u.border.inputFinished k = true := by
  by_cases htake : ∃ c row, t = .take c row
  · obtain ⟨c, row, rfl⟩ := htake
    obtain ⟨i, j, hj, hi, hturn⟩ := ht.takes_in_turn hm htype hinit
    apply hturn.imp_of_mem
    rintro k i' hk - hended c' hc' row' he
    obtain rfl : c = c' := by cases he; rfl
    -- no other input has this channel
    have hsame : i' = i :=
      (List.getElem?_inj (List.getElem?_eq_some_iff.mp hc').1 hn).mp (hc'.trans hi.symm)
    exact (hj.ended k (Append.lt_of_mem_cover hk)).mp (hended hsame)
  · apply List.pairwise_of_forall
    intro k i c hc row he
    exact absurd ⟨c, row, he⟩ htake

theorem InTurn.moved {k : Contract StepMemory} {l : Ledger} {stopping : Prop} (h : u.InTurn net)
    (htracked : u.Tracked u.site k l stopping) (hm : u.Moved net armed t u') (ht : net.Touched t net')
    (hn : u.border.inputChannels.Nodup) : u'.InTurn net' := by
  intro htype m hinit
  have hplace : u'.border.place = u.border.place := congrArg Station.place hm.station
  have hsetup : u'.setup = u.setup := congrArg Station.setup hm.station
  rw [hsetup] at htype hinit
  unfold ReadsInTurn
  rw [Border.place_inputs_length hplace, Border.place_inputs hplace]
  have hnow := htracked.ended_before hm hn htype hinit
  apply ((h htype m hinit).and hnow).imp_of_mem
  intro k i hk _ hki c hc htaken
  apply hm.inputFinished (Append.lt_of_mem_cover hk)
  -- a row was taken from this channel before, or is being taken now
  by_cases htake : ∃ row, t = .take c row
  · obtain ⟨row, htake⟩ := htake
    exact hki.2 c hc row htake
  · rw [ht.rowsTaken fun row he => htake ⟨row, he⟩] at htaken
    exact hki.1 c hc htaken

end RunUnit

namespace Run

variable {r r' : Run StepMemory} {l : Ledger}

def InTurn (r : Run StepMemory) : Prop :=
  ∀ u ∈ r.units, u.InTurn r.net

theorem Live.inTurn (h : r.Live l) (hp : r.phase = .prepared) : r.InTurn := by
  intro u hu htype m hinit
  obtain ⟨type, m', -, ht⟩ := h.staffed u hu
  simp only [RunUnit.Tracked, (h.unstarted u hu).mpr hp] at ht
  apply List.pairwise_of_forall
  intro k i c hc htaken
  obtain ⟨inlet, hi, rfl⟩ : ∃ inlet, u.border.inputs[i]? = some inlet ∧ inlet.channel = c := by
    simpa [Border.inputChannels] using hc
  rw [h.rowsTaken_eq, ht.1.taken i inlet hi] at htaken
  exact absurd rfl htaken

theorem InTurn.started (h : r.InTurn) (hl : r.Live l) (hp : r.phase = .prepared)
    {manifest : Option Manifest} :
    InTurn { r with phase := .running, manifest, units := r.units.map RunUnit.spawn } := by
  intro v hv
  obtain ⟨u, hu, -, rfl⟩ := hl.spawned hp hv
  exact h u hu

theorem InTurn.attended (h : r.InTurn) (ha : r.Attended r') : r'.InTurn := by
  unfold InTurn
  rw [ha.units, ha.net]
  exact h

theorem InTurn.stepped (h : r.InTurn) (hl : r.Live l) {party : Party} {t : Touch}
    (hs : r.Stepped party t r') : r'.InTurn := by
  obtain ⟨writer, hsound⟩ := hl.sound
  cases hs with
  | @unit i u u' t net calls at_i moved touched =>
    intro v hv
    obtain rfl | ⟨k, hk, hv⟩ := List.mem_set_cases hv
    · have hmem := List.mem_of_getElem? at_i
      obtain ⟨type, m, -, ht⟩ := hl.staffed u hmem
      have hn : u.border.inputChannels.Nodup := chart_ins at_i ▸ hsound.reads_once i
      exact (h u hmem).moved ht moved touched hn
    · apply (h v (List.mem_of_getElem? hv)).touched touched
      rintro c hc row rfl
      -- each channel has one reader
      apply hk
      apply hsound.in_unique
      · rw [chart_ins hv]
        exact hc
      · rw [chart_ins at_i]
        exact moved.takes_own
  | producer at_k moved touched =>
    intro u hu
    apply (h u hu).touched touched
    intro c _ row
    exact (Producer.Moved.touches moved).2.1 c row
  | stop at_k does touched =>
    intro u hu
    apply (h u hu).touched touched
    rintro c - row rfl
    cases does

theorem inTurn_carries (r : Run StepMemory) (d : Deed) : Carries r d InTurn InTurn :=
  ⟨fun _ _ _ _ _ _ hl hp => hl.inTurn hp, fun _ _ _ _ _ hl hp h hr => hr ▸ h.started hl hp,
    fun _ _ _ _ _ h ha => h.attended ha, fun _ _ _ _ _ _ hl _ h _ hs => h.stepped hl hs⟩

/-- A step that concatenates was told of the channels that its unit reads, and of no others. -/
theorem Live.append_inputs (h : r.Live l) {u : RunUnit StepMemory} (hu : u ∈ r.units)
    (htype : u.setup.spec.type = "append") :
    u.setup.inputSteps = u.border.inputs.map (·.source.step) := by
  obtain ⟨type, m, hstaffed, -⟩ := h.staffed u hu
  refine (h.fitted u hu).sources fun hnone => ?_
  have hchecked := h.checked u.setup.spec hstaffed.spec
  have hfound : Catalog.builtins.find? "append" = some Catalog.append := rfl
  simp [Plan.checkInputs, h.registry, htype, hfound, hnone, Catalog.append] at hchecked

theorem Live.append_order (h : r.Live l) {u : RunUnit StepMemory} (hu : u ∈ r.units)
    (htype : u.setup.spec.type = "append") :
    ∃ config m, u.setup.config (Append.record.decode true) {} = .ok config ∧
      Append.init u.setup = .ok m ∧ Append.cover u.border.inputs.length m.order =
        Append.inOrder (u.border.inputs.map (·.source.step)) config.order := by
  obtain ⟨type, m, hstaffed, -⟩ := h.staffed u hu
  have hfound := hstaffed.found
  rw [htype] at hfound
  obtain rfl : Catalog.append = type := Option.some.inj hfound
  obtain ⟨m, hinit, -⟩ := Catalog.within_eq_ok hstaffed.init
  obtain ⟨config, hconfig, -, rfl⟩ := Append.init_eq_ok.mp hinit
  refine ⟨config, _, hconfig, hinit, ?_⟩
  have hperm := Append.inOrder_perm (u.border.inputs.map (·.source.step)) config.order
  rw [List.length_map] at hperm
  rw [h.append_inputs hu htype]
  exact Append.cover_self hperm

theorem Live.concatenated (h : r.Live l) (hc : r.Closing) {u : RunUnit StepMemory} (hu : u ∈ r.units)
    (htype : u.setup.spec.type = "append") {m : Append.Memory} (hinit : Append.init u.setup = .ok m)
    (he : u.life.outcome = .finished) :
    u.Concatenated r.net l.put ((Append.cover u.border.inputs.length m.order).flatMap fun i =>
      ((u.border.inputChannels[i]?).map l.put).getD []) := by
  have hending := (h.lively u hu).outcome rfl he
  obtain ⟨type, m', j, hstaffed, hj, hrest, hall, hfin⟩ := h.finished_journal hu hending
  have hout : j.out = ((Append.cover u.border.inputs.length m.order).flatMap j.from).map (.row none) :=
    (Catalog.finished hstaffed.found hstaffed.init hfin).concatenates htype hinit
  have hstreams : (Append.cover u.border.inputs.length m.order).flatMap (fun i =>
      ((u.border.inputChannels[i]?).map l.put).getD []) =
      (Append.cover u.border.inputs.length m.order).flatMap j.from := by
    refine List.flatMap_congr fun i hi => ?_
    rw [← List.getElem?_map, h.inputs_read hc hu hj hall]
    simp [Append.lt_of_mem_cover hi]
  have hrows : j.out.filterMap (·.row?) =
      (Append.cover u.border.inputs.length m.order).flatMap j.from := by
    simp [hout, List.filterMap_map, Function.comp_def]
  rw [hstreams]
  refine ⟨fun c hin => ?_, ?_, fun log hlog => ?_, fun hop o ho i c hi => ?_⟩
  · obtain ⟨inlet, hi, hf, rfl⟩ := h.read_all hu hending hin
    exact hc.drained u hu inlet hi hf
  · rw [← hrows]
    exact hj.linesWritten
  · rw [(hj.heard log hlog).2, hrows]
  · rw [(hrest.hops hop o ho).put i c hi, Border.rowsTo, hout, hopRows_spread]

/-- A concatenation refuses an order that names a step it does not read, and no other; else it reads
its inputs in that order, and when it has finished it has sent out their complete streams in that
order. -/
theorem concatenates_in_order :
    (∀ (setup : Setup) (config : Append.Config),
      setup.config (Append.record.decode true) {} = .ok config →
      ((∃ fault, Append.init setup = .error (.config fault)) ↔
        ∃ name ∈ config.order, name ∉ setup.inputSteps) ∧
      ((∀ name ∈ config.order, name ∈ setup.inputSteps) →
        Append.init setup = .ok { order := Append.inOrder setup.inputSteps config.order }) ∧
      (Append.inOrder setup.inputSteps config.order).Perm (List.range setup.inputSteps.length)) ∧
    ∀ (settings : Settings) (g : Graph) (armed : List String) (ds : List Deed),
      let start := Run.new Catalog.builtins settings g armed
      let r := start.after ds
      ∀ u ∈ r.units, u.setup.spec.type = "append" → u.stage ≠ .unstarted →
        ∃ config, u.setup.config (Append.record.decode true) {} = .ok config ∧
          let order := Append.inOrder (u.border.inputs.map (·.source.step)) config.order
          u.ReadsInTurn r.net order ∧
          (u.life.outcome = .finished →
            u.Concatenated r.net (fun c => start.carried c ds) (order.flatMap fun i =>
              ((u.border.inputChannels[i]?).map fun c => start.carried c ds).getD [])) := by
  refine ⟨fun setup config hconfig => ⟨Append.init_refused_iff hconfig, fun hall =>
    Append.init_eq_ok.mpr ⟨config, hconfig, hall, rfl⟩, Append.inOrder_perm _ _⟩, ?_⟩
  intro settings g armed ds start r u hu htype hstage
  obtain ⟨ho, l, hs, hput⟩ := steady_after (fun _ r => r.Closing ∧ r.InTurn)
    (fun _ d => (closing_conveys _ d).carries.and (inTurn_carries _ d)) ds
  obtain ⟨live, closing, inTurn⟩ := hs.of_unit ho hu fun shelved => hstage shelved.stage
  obtain ⟨config, m, hconfig, hinit, horder⟩ := live.append_order hu htype
  refine ⟨config, hconfig, ?_⟩
  have hcarried : (fun c => start.carried c ds) = l.put := funext fun c => (hput c).symm
  have hread := inTurn u hu htype _ hinit
  have hsent := live.concatenated closing hu htype hinit
  rw [horder] at hread hsent
  rw [hcarried]
  exact ⟨hread, hsent⟩

def crossed : Graph where
  name := "crossed"
  steps := [{ name := "a", type := "injector" }, { name := "b", type := "injector" },
    { name := "t", type := "append", config := .obj [("order", .arr [.str "b"])] },
    { name := "z", type := "dummy" }]
  hops := [{ source := "a", target := "t" }, { source := "b", target := "t" },
    { source := "t", target := "z" }]

/-- The first stream is complete before the second one has a row, and all the while somebody
listens. -/
def wrongWayRound : List Deed :=
  List.flatten [
    [.prepare, .addProducer ⟨"a", 0⟩, .addProducer ⟨"b", 0⟩, .addObserver ⟨"t", 0⟩, .start [] 0,
      .offer 0 [.ok (word "a")], .finish 0],
    .replicate 4 (.move (.producer 0)), .replicate 20 (.move (.unit 0)),
    .replicate 4 (.move (.unit 2)), [.offer 1 [.ok (word "b")], .finish 1],
    .replicate 4 (.move (.producer 1)), .replicate 20 (.move (.unit 1)),
    .replicate 28 (.move (.unit 2))]

theorem wrongWayRound_concatenated :
    let start := Run.new Catalog.builtins {} crossed []
    let r := start.after wrongWayRound
    ∃ u ∈ r.units, u.setup.spec.type = "append" ∧ u.stage ≠ .unstarted ∧
      u.life.outcome = .finished ∧
      (∃ fault, Append.init { u.setup with inputSteps := ["a"] } = .error (.config fault)) ∧
      u.ReadsInTurn r.net [1, 0] ∧
      u.Concatenated r.net (fun c => start.carried c wrongWayRound) [word "b", word "a"] := by
  intro start r
  obtain ⟨hstation, hlife, hx, hy⟩ :
      (r.units[2]?).map (fun u => (u.setup.spec.type, u.border.inputs.map (·.source.step),
        u.border.inputChannels)) = some ("append", ["a", "b"], [0, 1]) ∧
      (r.units[2]?).map (fun u => (u.life.outcome, u.stage matches .unstarted,
          (u.setup.config (Append.record.decode true) {}).toOption.map (·.order))) =
        some (.finished, false, some ["b"]) ∧
      start.carried 0 wrongWayRound = [word "a"] ∧
      start.carried 1 wrongWayRound = [word "b"] := by
    decide +kernel
  obtain ⟨u, hat, hstation⟩ := Option.map_eq_some_iff.mp hstation
  simp only [hat, Option.map_some, Option.some.injEq, Prod.mk.injEq] at hstation hlife
  obtain ⟨htype, hsources, hchannels⟩ := hstation
  obtain ⟨hout, hstarted, hnamed⟩ := hlife
  have hmem := List.mem_of_getElem? hat
  have hstage : u.stage ≠ .unstarted := fun hs => by simp [hs] at hstarted
  obtain ⟨config, hconfig, hread, hsent⟩ :=
    concatenates_in_order.2 {} crossed [] wrongWayRound u hmem htype hstage
  have horder : config.order = ["b"] := by
    simpa [hconfig, Except.toOption] using hnamed
  have hrefused := (concatenates_in_order.1 { u.setup with inputSteps := ["a"] } config hconfig).1.mpr
    ⟨"b", by simp [horder], by simp⟩
  have hin : Append.inOrder ["a", "b"] ["b"] = [1, 0] := by decide
  have hjoin (f : Nat → List Row) :
      ([1, 0].flatMap fun i => (([0, 1][i]?).map f).getD []) = f 1 ++ f 0 := by simp
  rw [hsources, horder, hin] at hread hsent
  rw [hchannels, hjoin, hx, hy] at hsent
  exact ⟨u, hmem, htype, hstage, hout, hrefused, hread, hsent hout⟩

end Run

end Sluice
