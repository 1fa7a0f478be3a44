import Sluice.Proofs.Run.EndOfStream
import Sluice.Proofs.Run.Report
import Sluice.Proofs.Run.Wakeups

/-!
Units that fail, whatever their steps do. A unit records why it fails before it stops the run, and
it closes its outputs only after the flag is up, every channel aborted and every wakeup moved. So
nobody takes what it sent for a whole stream, and nobody waits on.
-/

namespace Sluice

variable {σ : Type}

namespace Border

variable {p p' : Border} {net : Net} {t : Touch}

theorem ReadStep.errors {call : Reading} {onward : Onward Reading (Except StepError (Option Row))}
    (h : p.ReadStep net t call p' onward) : p'.counters.errors = p.counters.errors := by
  cases h <;> rfl

theorem WriteStep.errors {call : Writing} {onward : Onward Writing (Except StepError Unit)}
    (h : p.WriteStep net t call p' onward) : p'.counters.errors = p.counters.errors := by
  cases h with
  | choose turn =>
    obtain ⟨o, -, -, rfl⟩ := takeTurn_some turn
    rfl
  | _ => rfl

end Border

namespace RunUnit

variable {u u' : RunUnit σ} {net net' : Net} {armed : List String} {t : Touch}

theorem Judged.errors_le {r : Except Halt BatchOutcome} (h : u.Judged r u') :
    u.border.counters.errors ≤ u'.border.counters.errors := by
  cases h with
  | more | finished | stopped => exact le_rfl
  | skipped | bad_row | broken | panicked => exact Nat.le_succ _

theorem Moved.errors_le (h : u.Moved net armed t u') :
    u.border.counters.errors ≤ u'.border.counters.errors := by
  cases h with
  | trip | count_fault => exact Nat.le_succ _
  | batch_over _ judged => exact judged.errors_le
  | read_on _ step => exact step.errors.ge
  | read_done _ step => exact step.errors.ge
  | write_on _ step => exact step.errors.ge
  | write_done _ step => exact step.errors.ge
  | disposed =>
    unfold disposeStep
    split
    · exact le_rfl
    · dsimp only
      split
      · exact le_rfl
      · exact Nat.le_succ _
  | _ => exact le_rfl

theorem Moved.failing (h : u.Moved net armed t u') {todo : List NetAction}
    (hs : u'.stage = .failing todo) :
    todo = NetAction.stopAll ∧ 0 < u'.border.counters.errors ∨
      ∃ action rest owed, u.stage = .failing (action :: rest) ∧ action.Does net t owed ∧
        todo = owed ++ rest := by
  have hcounted {v : RunUnit σ} (message : String)
      (hs : (v.record message).fail.stage = .failing todo) :
      todo = NetAction.stopAll ∧ 0 < (v.record message).fail.border.counters.errors :=
    ⟨(Stage.failing.inj hs).symm, Nat.succ_pos _⟩
  cases h with
  | trip => exact .inl (hcounted _ hs)
  | batch_over _ judged =>
    cases judged with
    | bad_row | broken | panicked => exact .inl (hcounted _ hs)
    | more | finished | skipped | stopped => cases hs
  | stop_on stage does => exact .inr ⟨_, _, _, stage, does, (Stage.failing.inj hs).symm⟩
  | _ => cases hs

theorem Moved.errored (h : u.Moved net armed t u') (hl : u.Lively)
    (he : u'.ending = some .errored) : u.ending = some .errored ∨ u.stage = .failing [] := by
  cases hend : u.ending with
  | some e => exact .inl (by rw [← hl.ending_moved h hend, he])
  | none =>
    cases h with
    | failed stage => exact .inr stage
    | close_on stage | closed stage | disposed stage => simp [ending, stage] at hend
    | enter stage | exit stage =>
      exact absurd hend (Option.isSome_iff_ne_none.mp (hl.settled stage))
    | batch_over _ judged => cases judged <;> simp [ending, leave, fail] at he
    | _ => simp [ending, leave, fail] at he

/-- A unit that fails has counted an error, and one that failed has stopped the run as well. -/
structure Blamed (u : RunUnit σ) (stopping : Prop) : Prop where
  failing : ∀ todo, u.stage = .failing todo → 0 < u.border.counters.errors
  errored : u.ending = some .errored → 0 < u.border.counters.errors ∧ stopping

theorem Blamed.mono {P Q : Prop} (h : u.Blamed P) (hpq : P → Q) : u.Blamed Q :=
  ⟨h.failing, fun he => (h.errored he).imp_right hpq⟩

theorem Owing.raised (h : u.Owing (net.stopping = true)) (hs : u.stage = .failing []) :
    net.stopping = true := by
  simp only [Owing, hs] at h
  exact h.raised.resolve_left (by simp [NetAction.stopAll])

theorem Blamed.moved (h : u.Blamed (net.stopping = true)) (ho : u.Owing (net.stopping = true))
    (hl : u.Lively) (hm : u.Moved net armed t u') (ht : net.Touched t net') :
    u'.Blamed (net'.stopping = true) where
  failing todo hs := by
    obtain ⟨-, hpos⟩ | ⟨action, rest, owed, hs', -⟩ := hm.failing hs
    · exact hpos
    · exact (h.failing _ hs').trans_le hm.errors_le
  errored he := by
    obtain he | hs := hm.errored hl he
    · obtain ⟨hpos, hstop⟩ := h.errored he
      exact ⟨hpos.trans_le hm.errors_le, ht.stopping hstop⟩
    · exact ⟨(h.failing _ hs).trans_le hm.errors_le, ht.stopping (ho.raised hs)⟩

/-- A row on its way goes to a channel of the unit's own. -/
def Aimed (u : RunUnit σ) : Prop :=
  ∀ c hops row next, u.stage = .writing (.deliver c hops row) next → c ∈ u.border.outputChannels

theorem Aimed.moved (hm : u.Moved net armed t u') : u'.Aimed := by
  intro c hops row next hs
  cases hm with
  | begin_write =>
    rename_i hop row' next' stage
    cases hop <;> cases hs
  | write_on stage step =>
    have houts := Border.place_outputs step.place
    cases step with
    | choose turn =>
      obtain ⟨o, ho, hc, -⟩ := Border.takeTurn_some turn
      cases hs
      exact houts ▸ Border.mem_outputChannels ho (List.mem_of_getElem? hc)
    | _ => cases hs
  | batch_over _ judged => cases judged <;> cases hs
  | _ => cases hs

def Asleep (u : RunUnit σ) : Prop :=
  ∃ seen next, u.stage = .reading (.sleep seen) next

theorem Asleep.held (h : u.Asleep) : u.held.isSome := by
  obtain ⟨seen, next, hs⟩ := h
  simp [RunUnit.held, hs, Reading.seen]

theorem Moved.asleep (h : u.Moved net armed t u') (hs : u'.Asleep) : net.stopping = false := by
  obtain ⟨seen, next, hs⟩ := hs
  cases h with
  | begin_read =>
    rename_i input next' stage
    cases input <;> cases hs
  | read_on stage step =>
    cases step with
    | fall_asleep _ _ stopping => exact stopping
    | _ => cases hs
  | batch_over _ judged => cases judged <;> cases hs
  | _ => cases hs

end RunUnit

theorem NetAction.Halting.rouses {P : Prop} {todo : List NetAction} (h : Halting P todo) :
    .notifyAll ∈ todo ∨ P :=
  h.raised.imp_left fun hall => by simp [hall, stopAll]

namespace Run

variable {r r' : Run σ} {heard : Nat → Nat} {todo : List NetAction} {party : Party} {t : Touch}

/-- What is owed will have moved the wakeup of everybody who is asleep. -/
def Rousing (r : Run σ) (heard : Nat → Nat) (todo : List NetAction) : Prop :=
  .notifyAll ∈ todo ∨ ∀ i u, r.units[i]? = some u → u.Asleep → .notify i ∈ todo ∨ 0 < heard i

/-- Nobody else falls asleep meanwhile, and a wakeup that has moved does not move back. -/
theorem Rousing.sleepers (hl : r.Afoot) (hs : r.Stepped party t r') (hstop : r.net.stopping = true)
    {i : Nat} {v : RunUnit σ} (hv : r'.units[i]? = some v) (hsleep : v.Asleep) :
    r.units[i]? = some v ∧ (t = .notify i ∨ 0 < heard i → 0 < r.heardOn r' i (heard i)) := by
  obtain ⟨u, hu, rfl | hm⟩ := hs.back_at hv
  · refine ⟨hu, fun hheard => ?_⟩
    obtain ⟨-, -, hon⟩ | ⟨hne, -, hon⟩ := hs.heardOn hl hu hv hsleep.held hsleep.held (heard i)
    · simp [hon]
    · simpa [hon] using hheard.resolve_left hne
  · simp [hm.asleep hsleep] at hstop

theorem Rousing.stepped (h : r.Rousing heard todo) (hl : r.Afoot) (hs : r.Stepped party t r')
    (hstop : .notifyAll ∈ todo ∨ r.net.stopping = true) :
    r'.Rousing (fun i => r.heardOn r' i (heard i)) todo := by
  obtain hall | hstop := hstop
  · exact .inl hall
  · refine h.imp_right fun h i v hv hsleep => ?_
    obtain ⟨hu, hheard⟩ := sleepers hl hs hstop hv hsleep
    exact (h i v hu hsleep).imp_right fun hpos => hheard (.inr hpos)

theorem Rousing.does {a : NetAction} {rest owed : List NetAction} (h : r.Rousing heard (a :: rest))
    (hl : r.Afoot) (hs : r.Stepped party t r') (hd : a.Does r.net t owed)
    (hstop : .notifyAll ∈ a :: rest ∨ r.net.stopping = true) :
    r'.Rousing (fun i => r.heardOn r' i (heard i)) (owed ++ rest) := by
  have hall (hmem : .notifyAll ∈ a :: rest) :
      r'.Rousing (fun i => r.heardOn r' i (heard i)) (owed ++ rest) := by
    rcases List.mem_cons.mp hmem with rfl | hmem
    · cases hd
      refine .inr fun i v hv _ => .inl (List.mem_append_left _ ?_)
      obtain ⟨u, hu, -⟩ := hs.back_at hv
      have hlt := (List.getElem?_eq_some_iff.mp hu).1
      exact List.mem_map_of_mem (List.mem_range.mpr (hl.wakeups ▸ hlt))
    · exact .inl (List.mem_append_right _ hmem)
  obtain hmem | hstop := hstop
  · exact hall hmem
  · obtain hmem | h := h
    · exact hall hmem
    · refine .inr fun i v hv hsleep => ?_
      obtain ⟨hu, hheard⟩ := sleepers hl hs hstop hv hsleep
      rcases h i v hu hsleep with hmem | hpos
      · rcases List.mem_cons.mp hmem with rfl | hmem
        · exact .inr (hheard (.inl hd.notified))
        · exact .inl (List.mem_append_right _ hmem)
      · exact .inr (hheard (.inr hpos))

/-- Whoever fails answers for it: the error is counted, the flag up, and whoever is asleep is
roused. -/
structure Answering (r : Run σ) (heard : Nat → Nat) : Prop where
  blamed : ∀ u ∈ r.units, u.Blamed (r.net.stopping = true)
  aimed : ∀ u ∈ r.units, u.Aimed
  failing : ∀ u ∈ r.units, ∀ todo, u.stage = .failing todo → r.Rousing heard todo
  errored : ∀ u ∈ r.units, u.ending = some .errored → r.Rousing heard []

theorem Answering.stepped (h : r.Answering heard) (ho : r.Orderly) (hl : r.Afoot)
    (hs : r.Stepped party t r') : r'.Answering fun i => r.heardOn r' i (heard i) := by
  have ht := hs.touched
  have hrouses {u : RunUnit σ} (hu : u ∈ r.units) {todo : List NetAction}
      (hstage : u.stage = .failing todo) : .notifyAll ∈ todo ∨ r.net.stopping = true := by
    have howing := ho.units u hu
    simp only [RunUnit.Owing, hstage] at howing
    exact howing.rouses
  refine ⟨fun v hv => ?_, fun v hv => ?_, fun v hv todo hstage => ?_, fun v hv he => ?_⟩
  all_goals
    obtain ⟨i, u, hu, hvu⟩ := hs.back hv
    have hmem := List.mem_of_getElem? hu
  · obtain rfl | hm := hvu
    · exact (h.blamed v hmem).mono ht.stopping
    · exact (h.blamed u hmem).moved (ho.units u hmem) (hl.lively u hmem) hm ht
  · obtain rfl | hm := hvu
    · exact h.aimed v hmem
    · exact RunUnit.Aimed.moved hm
  · obtain rfl | hm := hvu
    · exact (h.failing v hmem todo hstage).stepped hl hs (hrouses hmem hstage)
    · obtain ⟨rfl, -⟩ | ⟨action, rest, owed, hbefore, hd, rfl⟩ := hm.failing hstage
      · exact .inl (by simp [NetAction.stopAll])
      · exact (h.failing u hmem _ hbefore).does hl hs hd (hrouses hmem hbefore)
  · have hbefore (he : u.ending = some .errored) :
        r'.Rousing (fun i => r.heardOn r' i (heard i)) [] :=
      (h.errored u hmem he).stepped hl hs (.inr ((h.blamed u hmem).errored he).2)
    obtain rfl | hm := hvu
    · exact hbefore he
    · obtain he | hstage := hm.errored (hl.lively u hmem) he
      · exact hbefore he
      · exact (h.failing u hmem [] hstage).stepped hl hs (hrouses hmem hstage)

theorem answering_of_stage (hs : ∀ u ∈ r.units, u.stage = .unstarted ∨ u.stage = .spawned) :
    r.Answering heard := by
  refine ⟨fun u hu => ⟨?_, ?_⟩, fun u hu => ?_, fun u hu => ?_, fun u hu => ?_⟩
  all_goals rcases hs u hu with hs | hs <;> simp [RunUnit.ending, RunUnit.Aimed, hs]

theorem Answering.attended (h : r.Answering heard) (ha : r.Attended r') :
    r'.Answering fun i => r.heardOn r' i (heard i) := by
  have hrousing {todo : List NetAction} (h : r.Rousing heard todo) :
      r'.Rousing (fun i => r.heardOn r' i (heard i)) todo := by
    refine h.imp_right fun h i u hu hsleep => ?_
    rw [ha.units] at hu
    simpa only [ha.heardOn hu hsleep.held] using h i u hu hsleep
  obtain ⟨hblamed, haimed, hfailing, herrored⟩ := h
  rw [← ha.units] at hblamed haimed hfailing herrored
  exact ⟨ha.net ▸ hblamed, haimed, fun u hu todo hs => hrousing (hfailing u hu todo hs),
    fun u hu he => hrousing (herrored u hu he)⟩

variable {registry : Registry σ} {settings : Settings} {g : Graph} {armed : List String}

theorem answering_conveys (ds : List Deed) (d : Deed) :
    let r := Run.new registry settings g armed
    Conveys (r.after ds) d (Answering · fun i => r.heard i 0 ds)
      (Answering · fun i => r.heard i 0 (ds ++ [d])) := by
  intro r
  simp only [heard_append]
  refine ⟨fun r' _ _ _ _ hl hp => answering_of_stage fun u hu => .inl ((hl.unstarted u hu).mpr hp),
    fun r' manifest _ _ hl hp _ hr' => answering_of_stage fun v hv => ?_,
    fun r' hr' _ _ h ha => hr' ▸ h.attended ha,
    fun r' party t hr' ho hl _ h _ hs => hr' ▸ h.stepped ho hl hs⟩
  subst hr'
  obtain ⟨u, -, -, rfl⟩ := hl.spawned hp hv
  exact .inr rfl

theorem answering_after (registry : Registry σ) (settings : Settings) (g : Graph)
    (armed : List String) (ds : List Deed) :
    let start := Run.new registry settings g armed
    let r := start.after ds
    r.Orderly ∧ r.Begun fun r => r.Ended (start.cutOff ds) ∧
      r.Heedful (fun i => start.heard i 0 ds) ∧ r.Answering fun i => start.heard i 0 ds :=
  let start := Run.new registry settings g armed
  conveyed_after (fun ds r => r.Ended (start.cutOff ds) ∧
    r.Heedful (fun i => start.heard i 0 ds) ∧ r.Answering fun i => start.heard i 0 ds)
    (fun ds d => (ended_conveys ds d).and ((heedful_conveys ds d).and (answering_conveys ds d))) ds

/-- Every channel refuses, and nobody waits any more, unless the wakeup of a reader has come round
to where the reader saw it last. -/
structure Released (r : Run σ) (heard : Nat → Nat) : Prop where
  puts : ∀ c < r.net.links.length, ∀ row, r.net.put c row = some (.error .aborted, r.net)
  gets : ∀ c < r.net.links.length, r.net.get c = some (.error .aborted, r.net)
  units : ∀ i u, r.units[i]? = some u → u.isIdle = false → heard i < 2 ^ 64 →
    (u.move r.net r.armed).isSome
  producers : ∀ p ∈ r.producers, p.isIdle = false → (p.move r.net).isSome

theorem Answering.released (h : r.Answering heard) (hh : r.Heedful heard) (hc : r.Closing)
    (hl : r.Afoot) {u : RunUnit σ} (hu : u ∈ r.units) (he : u.ending = some .errored) :
    r.Released heard := by
  have hall := (hc.fails u hu).errored he
  obtain ⟨writer, hsound⟩ := hl.sound
  refine ⟨fun c hlt row => (hall c hlt).put row, fun c hlt => (hall c hlt).get,
    fun i v hv hbusy hlt => ?_, fun p hp hbusy => ?_⟩
  · by_contra hnone
    rw [Option.not_isSome_iff_eq_none] at hnone
    have hmem := List.mem_of_getElem? hv
    obtain ⟨call, next, hs, hblocked⟩ | ⟨call, next, hs, hblocked⟩ := RunUnit.move_none hnone hbusy
    · obtain ⟨seen, rfl, hgen⟩ | ⟨k, inlet, rfl, hk, hquiet⟩ := Border.advanceRead_blocked hblocked
      · have hpos : 0 < heard i := by
          simpa using (h.errored u hu he).resolve_left (by simp) i v hv ⟨seen, next, hs⟩
        have hheld := hh.generation i v seen hv (by simp [RunUnit.held, hs, Reading.seen])
        rw [← hl.wakeup i v hv, hgen, hl.wakeup i v hv] at hheld
        have hnat := congrArg UInt64.toNat hheld
        simp only [UInt64.toNat_add, UInt64.toNat_ofNat_of_lt' hlt] at hnat
        have := seen.toNat_lt
        omega
      · have hin := hl.in_lt hmem (List.mem_map_of_mem (List.mem_of_getElem? hk))
        exact (hquiet.resolve_left (Net.channel?_ne_none hin)).not_aborted (hall _ hin)
    · obtain ⟨c, hops, row, rfl, hfull⟩ := Border.advanceWrite_blocked hblocked
      have hout := hl.out_lt hmem (h.aimed v hmem c hops row next hs)
      exact (hfull.resolve_left (Net.channel?_ne_none hout)).not_aborted (hall _ hout)
  · by_contra hnone
    rw [Option.not_isSome_iff_eq_none] at hnone
    have hlt : p.channel < r.net.links.length := by
      simpa [chart, chartOf, Chart.channels] using ((hsound.fed p.channel).mp (mem_feeds hp)).1
    obtain ⟨htodo, ⟨hoffers, hends⟩ | hnowhere | hfull⟩ := Producer.move_none hnone
    · simp [Producer.isIdle, htodo, hoffers, hends] at hbusy
    · exact Net.channel?_ne_none hlt hnowhere
    · exact hfull.not_aborted (hall _ hlt)

theorem Closing.settled (h : r.Closing) (hl : r.Afoot) (ho : r.Orderly) {d : Deed}
    (ha : r.Acted d r') {i : Nat} {u : RunUnit σ} (hu : r.units[i]? = some u) {c : Nat}
    (hc : c ∈ u.border.outputChannels) (hcl : r'.net.Closed c) : u.ending.isSome := by
  have hmem := List.mem_of_getElem? hu
  have hbefore (hcl : r.net.Closed c) : u.ending.isSome :=
    (h.closes u hmem).settled (hl.lively u hmem) hc hcl
  obtain ⟨ch, hch⟩ := Option.ne_none_iff_exists'.mp (Net.channel?_ne_none (hl.out_lt hmem hc))
  obtain hsame | ⟨party, t, rfl, hs⟩ := ha.channel ho hch
  · obtain ⟨ch', hch', hclosed⟩ := hcl
    rw [hsame, Option.some.injEq] at hch'
    exact hbefore ⟨ch, hch, hch' ▸ hclosed⟩
  · obtain hcl | rfl := hs.touched.closed_inv hcl
    · exact hbefore hcl
    · obtain ⟨-, rest, e, hstage⟩ := hl.closer ho hu hc hs
      simp [RunUnit.ending, hstage]

/-- Whatever its step did to make a unit fail, before the end of the unit is settled and any output
closed its error is counted, the run is being stopped, all channels are aborted and all who waited
go on. Nobody ever reads an end of stream from it, and the run is no success. -/
theorem failure_stops_run (registry : Registry σ) (settings : Settings) (g : Graph)
    (armed : List String) (ds es : List Deed) (d : Deed) :
    let start := Run.new registry settings g armed
    let r := start.after ds
    let later := start.after (ds ++ d :: es)
    ∀ (i : Nat) (u v : RunUnit σ), r.units[i]? = some u → later.units[i]? = some v →
      v.life.outcome = .errored →
      (u.ending.isSome ∨ (∃ c ∈ u.border.outputChannels, (r.act d).net.Closed c) →
        0 < u.border.counters.errors ∧ r.net.stopping = true ∧ r.net.AllAborted ∧
          r.Released fun i => start.heard i 0 ds) ∧
      (∀ w ∈ r.units, ∀ inlet ∈ w.border.inputs, inlet.finished = true →
        inlet.channel ∉ u.border.outputChannels) ∧
      ∀ now report r', later.wait now = some (.ok report, r') → report.success = false := by
  intro start r later i u v hu hv herrored
  have hmem := List.mem_of_getElem? hu
  obtain ⟨ho', hb'⟩ := begun_always registry settings g armed (ds ++ d :: es)
  have hend := (hb'.lively ho' v (List.mem_of_getElem? hv)).outcome rfl herrored
  have hsame {e : UnitState} (he : u.ending = some e) : e = .errored := by
    obtain ⟨v', hv', hkept⟩ := kept_after ds (d :: es) hu
    obtain rfl : v' = v := Option.some.inj (hv'.symm.trans hv)
    exact Option.some.inj ((hkept.ending e he).symm.trans hend)
  obtain ⟨ho, hb⟩ := answering_after registry settings g armed ds
  have hafoot : r.Afoot ∧ r.Ended (start.cutOff ds) ∧ r.Heedful (fun i => start.heard i 0 ds) ∧
      r.Answering fun i => start.heard i 0 ds := by
    cases hb with
    | blank phase => simp [r, start, (ho.blank phase).units] at hmem
    | shelved phase units =>
      have hstage := spent_after phase (fun u hu => (units u hu).stage) (d :: es) v
        (by rw [← after_append]; exact List.mem_of_getElem? hv)
      simp [RunUnit.ending, hstage] at hend
    | afoot afoot holds => exact ⟨afoot, holds⟩
  obtain ⟨hl, hended, hh, hanswering⟩ := hafoot
  refine ⟨fun hsettled => ?_, fun w hw inlet hi hf hc => ?_, fun now report r' hwait => ?_⟩
  · have hsettled : u.ending.isSome := by
      obtain hs | ⟨c, hc, hcl⟩ := hsettled
      · exact hs
      · exact hended.closing.settled hl ho (act_acted r d) hu hc hcl
    obtain ⟨e, he⟩ := Option.isSome_iff_exists.mp hsettled
    obtain rfl := hsame he
    obtain ⟨hpos, hstop⟩ := (hanswering.blamed u hmem).errored he
    exact ⟨hpos, hstop, (hended.closing.fails u hmem).errored he,
      hanswering.released hh hended.closing hl hmem he⟩
  · obtain he | ⟨he, -⟩ := hended.read u hmem w hw inlet hi hf hc
    · cases hsame he
    · cases hsame he
  · obtain ⟨-, hunits, -⟩ :=
      (reported_after registry settings g armed (ds ++ d :: es)).told hb' hwait
    rw [RunReport.success, hunits, List.all_map, Bool.eq_false_iff]
    intro hall
    have := List.all_eq_true.mp hall v (List.mem_of_getElem? hv)
    simp [unitReport, herrored] at this

/-- The first of two units panics, while the second one waits for rows. -/
def tripping : Run StepMemory :=
  Run.new Catalog.builtins {} pair ["process_batch.a"]

/-- The second unit has begun to wait; the first one has failed and is about to close its
channel. -/
def tripped : List Deed :=
  [.prepare, .start [] 0] ++ .replicate 4 (.move (.unit 1)) ++ .replicate 10 (.move (.unit 0))

theorem tripped_stops_run :
    (tripping.after tripped).net.stopping = true ∧ (tripping.after tripped).net.AllAborted ∧
      (tripping.after tripped).Released fun i => tripping.heard i 0 tripped := by
  have hending : (tripping.after tripped).units.map (·.ending) = [some .errored, none] := by
    decide +kernel
  have houtcome : (tripping.after (tripped ++ .move (.unit 0) :: .replicate 5 (.move (.unit 0)))).units.map
      (·.life.outcome) = [.errored, .running] := by decide +kernel
  obtain ⟨u, _, hunits, hu, -⟩ := List.map_eq_cons_iff.mp hending
  obtain ⟨v, _, hlater, hv, -⟩ := List.map_eq_cons_iff.mp houtcome
  have hfirst : (tripping.after tripped).units[0]? = some u := by
    rw [hunits, List.getElem?_cons_zero]
  have hsettled : u.ending.isSome := Option.isSome_iff_exists.mpr ⟨_, hu⟩
  exact ((failure_stops_run Catalog.builtins {} pair ["process_batch.a"] tripped
    (.replicate 5 (.move (.unit 0))) (.move (.unit 0)) 0 u v hfirst
    (congrArg (·[0]?) hlater) hv).1 (.inl hsettled)).2

end Run

end Sluice
