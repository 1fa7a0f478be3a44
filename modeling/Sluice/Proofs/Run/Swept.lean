import Sluice.Proofs.Run.Braking

/-!
What stops find. A stop looks the channels up once and aborts those: when no stop is under way, the
aborted channels are exactly the ones that were there when some stop looked, and channels that are
made later are not among them.
-/

namespace Sluice

variable {σ : Type}

namespace RunUnit

variable {u u' : RunUnit σ} {net : Net} {armed : List String} {t : Touch}

/-- A unit that failed goes on to stop the run; no other unit aborts a channel. -/
theorem Owing.halt_cases (h : u.Owing (net.stopping = true)) (hm : u.Moved net armed t u') :
    (∃ action rest owed, u.stage = .failing (action :: rest) ∧ action.Does net t owed ∧
        u'.stage = .failing (owed ++ rest)) ∨
      (∀ c, t ≠ .abort c) ∧ (∀ todo, u.stage = .failing todo → todo = []) ∧
        ∀ todo, u'.stage = .failing todo → todo = NetAction.stopAll := by
  unfold Owing at h
  cases hm with
  | stop_on stage does => exact .inl ⟨_, _, _, stage, does, rfl⟩
  | close_on stage does =>
    simp only [stage] at h
    exact .inr ⟨(does.ends (h _ List.mem_cons_self)).2, by simp [stage], by simp⟩
  | read_on stage step => exact .inr ⟨by cases step <;> simp, by simp [stage], by simp⟩
  | read_done stage step => exact .inr ⟨by cases step <;> simp, by simp [stage], by simp⟩
  | write_on stage step => exact .inr ⟨by cases step <;> simp, by simp [stage], by simp⟩
  | write_done stage step => exact .inr ⟨by cases step <;> simp, by simp [stage], by simp⟩
  | batch_over stage judged =>
    refine .inr ⟨by simp, by simp [stage], fun todo ht => ?_⟩
    cases judged <;> simp_all [fail, leave, record]
  | misplaced stage | see_stop stage | trip stage | no_step stage | failed stage =>
    exact .inr ⟨by simp, by simp [stage], by simp [leave, fail, record, eq_comm]⟩
  | disposed stage => exact .inr ⟨by simp, by simp [stage], by simp⟩
  | _ => exact .inr ⟨by simp, by simp [*], by simp⟩

end RunUnit

namespace Run

variable {r r' : Run σ} {d : Deed} {n : Nat}

/-- What a party that stops the run does next. -/
def nextHalt (r : Run σ) : Party → Option NetAction
  | .unit i =>
    match (r.units[i]?).map RunUnit.stage with
    | some (.failing todo) => todo.head?
    | _ => none
  | .producer _ => none
  | .stop k => (r.stops[k]?).bind List.head?

/-- How many channels a stop finds in this deed. -/
def sweptBy (r : Run σ) : Deed → Nat
  | .move party => if r.nextHalt party = some .abortAll then r.net.links.length else 0
  | _ => 0

/-- How many channels a stop has found, at most, in the course of some deeds. -/
def swept (r : Run σ) : List Deed → Nat
  | [] => 0
  | d :: ds => max (r.sweptBy d) ((r.act d).swept ds)

theorem swept_append (r : Run σ) (ds es : List Deed) :
    r.swept (ds ++ es) = max (r.swept ds) ((r.after ds).swept es) := by
  induction ds generalizing r with
  | nil => exact (Nat.zero_max _).symm
  | cons d ds ih =>
    rw [List.cons_append, swept, swept, ih, Nat.max_assoc]
    rfl

/-- A step with regard to the stops under way: it takes one of them on, or none. -/
inductive HaltStep (r : Run σ) (party : Party) (t : Touch) (r' : Run σ) : Prop
  | elsewhere (next : r.nextHalt party = none) (spares : ∀ c, t ≠ .abort c)
      (back : ∀ todo, r'.Halts todo → r.Halts todo ∨ todo = NetAction.stopAll)
      (forth : ∀ todo, r.Halts todo → r'.Halts todo ∨ todo = [])
  | onward {action : NetAction} {rest owed : List NetAction}
      (next : r.nextHalt party = some action) (under_way : r.Halts (action :: rest))
      (does : action.Does r.net t owed) (left : r'.Halts (owed ++ rest))
      (back : ∀ todo, r'.Halts todo → r.Halts todo ∨ todo = owed ++ rest)
      (forth : ∀ todo, r.Halts todo → r'.Halts todo ∨ todo = action :: rest)

theorem Stepped.halt {party : Party} {t : Touch} (h : r.Stepped party t r') (ho : r.Orderly) :
    r.HaltStep party t r' := by
  cases h with
  | @unit i u u' t net calls at_i moved touched =>
    have hlt := (List.getElem?_eq_some_iff.mp at_i).1
    have hmem := List.mem_of_getElem? at_i
    have hset {todo : List NetAction} (h : ∃ v ∈ r.units.set i u', v.stage = .failing todo) :
        r.Halts todo ∨ u'.stage = .failing todo := by
      obtain ⟨v, hv, hs⟩ := h
      rcases List.mem_or_eq_of_mem_set hv with hv | rfl
      · exact .inl (.inr ⟨v, hv, hs⟩)
      · exact .inr hs
    have hkept {todo : List NetAction} (h : ∃ v ∈ r.units, v.stage = .failing todo) :
        (∃ v ∈ r.units.set i u', v.stage = .failing todo) ∨ u.stage = .failing todo := by
      obtain ⟨v, hv, hs⟩ := h
      rcases List.eq_or_mem_set at_i hv u' with rfl | hv
      · exact .inr hs
      · exact .inl ⟨v, hv, hs⟩
    obtain ⟨action, rest, owed, hstage, hdoes, hstage'⟩ | ⟨ht, hstage, hstage'⟩ :=
      (ho.units u hmem).halt_cases moved
    · refine .onward (by simp [nextHalt, at_i, hstage]) (.inr ⟨u, hmem, hstage⟩) hdoes
        (.inr ⟨u', List.mem_set hlt _, hstage'⟩) (fun todo h => ?_) fun todo h => ?_
      · rcases h with h | h
        · exact .inl (.inl h)
        · exact (hset h).imp_right fun h => by simpa [hstage', eq_comm] using h
      · rcases h with h | h
        · exact .inl (.inl h)
        · exact (hkept h).imp .inr fun h => by simpa [hstage, eq_comm] using h
    · refine .elsewhere ?_ ht (fun todo h => ?_) fun todo h => ?_
      · simp only [nextHalt, at_i, Option.map_some]
        split
        · rename_i hs
          simp [hstage _ (Option.some.inj hs)]
        · rfl
      · rcases h with h | h
        · exact .inl (.inl h)
        · exact (hset h).imp_right (hstage' todo)
      · rcases h with h | h
        · exact .inl (.inl h)
        · exact (hkept h).imp .inr (hstage todo)
  | producer at_k moved =>
    exact .elsewhere rfl ((ho.producers _ (List.mem_of_getElem? at_k)).moved moved).2
      (fun _ => .inl) fun _ => .inl
  | @stop k action rest owed t net at_k does touched =>
    have hlt := (List.getElem?_eq_some_iff.mp at_k).1
    refine .onward (by simp [nextHalt, at_k]) (.inl (List.mem_of_getElem? at_k)) does
      (.inl (List.mem_set hlt _)) (fun todo h => ?_) fun todo h => ?_
    · rcases h with h | h
      · exact (List.mem_or_eq_of_mem_set h).imp_left .inl
      · exact .inl (.inr h)
    · rcases h with h | h
      · exact (List.eq_or_mem_set at_k h (owed ++ rest)).symm.imp_left .inl
      · exact .inl (.inr h)

theorem nextHalt_none {party : Party} (h : r.move party = none) : r.nextHalt party = none := by
  cases party with
  | unit i =>
    rcases hu : r.units[i]? with _ | u
    · simp [nextHalt, hu]
    · have hnone := unit_waits hu h
      cases hs : u.stage with
      | failing todo =>
        rcases todo with _ | ⟨action, rest⟩ <;> simp [RunUnit.move, hs] at hnone
      | _ => simp [nextHalt, hu, hs]
  | producer k => rfl
  | stop k =>
    rcases hk : r.stops[k]? with _ | todo
    · simp [nextHalt, hk]
    · simp [nextHalt, hk, stop_waits hk h]

/-- Before it is started a run has no unit that has begun. -/
def Unbegun (r : Run σ) : Prop :=
  r.phase = .prepared → ∀ u ∈ r.units, u.stage = .unstarted

theorem Unbegun.acted (h : r.Unbegun) (ho : r.Orderly) (ha : r.Acted d r') : r'.Unbegun := by
  have hmodify {i : Nat} {f : RunUnit σ → RunUnit σ} (hf : ∀ u, (f u).stage = u.stage)
      (hp : r.phase = .prepared) : ∀ u ∈ r.units.modify i f, u.stage = .unstarted := by
    intro v hv
    obtain hv | ⟨u, hu, rfl⟩ := List.mem_modify hv
    · exact h hp v hv
    · rw [hf]
      exact h hp u (List.mem_of_getElem? hu)
  cases ha with
  | spoiled | shelved | started | waited => exact fun hp => absurd hp (by simp)
  | prepared phase wired initiated => exact fun _ => (ho.wired_unstarted phase wired).2 initiated
  | fed phase =>
    refine fun _ => hmodify ?_ phase
    exact fun _ => rfl
  | observed phase =>
    refine fun _ => hmodify ?_ phase
    exact fun _ => rfl
  | moved stepped =>
    cases stepped with
    | unit at_i moved =>
      exact fun hp => absurd (h hp _ (List.mem_of_getElem? at_i)) moved.started
    | producer => exact h
    | stop => exact h
  | _ => exact h

/-- The stops so far have found this many channels: these are aborted, or about to be. -/
structure Swept (r : Run σ) (n : Nat) : Prop where
  within : n ≤ r.net.links.length
  aborted : ∀ c, r.net.Aborted c → c < n
  owed : ∀ todo, r.Halts todo → ∀ c, .abort c ∈ todo → c < n
  found : ∀ c < n, r.net.Aborted c ∨ ∃ todo, r.Halts todo ∧ .abort c ∈ todo

theorem Swept.stepped {party : Party} {t : Touch} (h : r.Swept n) (ho : r.Orderly)
    (hs : r.Stepped party t r') : r'.Swept (max n (r.sweptBy (.move party))) := by
  have ht := hs.touched
  cases hs.halt ho with
  | elsewhere next spares back forth =>
    have hn : max n (r.sweptBy (.move party)) = n := by simp [sweptBy, next]
    rw [hn]
    refine ⟨ht.links_length ▸ h.within, fun c hc => ?_, fun todo htodo c hc => ?_, fun c hc => ?_⟩
    · exact (ht.aborted_inv hc).elim (h.aborted c) fun he => absurd he (spares c)
    · rcases back todo htodo with htodo | rfl
      · exact h.owed todo htodo c hc
      · simp [NetAction.stopAll] at hc
    · refine (h.found c hc).imp ht.aborted ?_
      rintro ⟨todo, htodo, hc⟩
      exact ⟨todo, (forth todo htodo).resolve_right (List.ne_nil_of_mem hc), hc⟩
  | @onward action rest owed next under_way does left back forth =>
    by_cases hall : action = .abortAll
    · subst hall
      have hn : max n (r.sweptBy (.move party)) = r.net.links.length := by
        simp [sweptBy, next, h.within]
      rw [hn]
      cases does
      refine ⟨ht.links_length.ge, fun c hc => ?_, fun todo htodo c hc => ?_, fun c hc => ?_⟩
      · have hold := (ht.aborted_inv hc).resolve_right (by simp)
        exact (h.aborted c hold).trans_le h.within
      · rcases back todo htodo with htodo | rfl
        · exact (h.owed todo htodo c hc).trans_le h.within
        · rcases List.mem_append.mp hc with hc | hc
          · simpa using hc
          · exact (h.owed _ under_way c (List.mem_cons_of_mem _ hc)).trans_le h.within
      · exact .inr ⟨_, left, List.mem_append_left _ (by simpa using hc)⟩
    · have hn : max n (r.sweptBy (.move party)) = n := by simp [sweptBy, next, hall]
      have howed (c : Nat) : .abort c ∉ owed := by
        cases does <;> simp at hall ⊢
      rw [hn]
      refine ⟨ht.links_length ▸ h.within, fun c hc => ?_, fun todo htodo c hc => ?_,
        fun c hc => ?_⟩
      · rcases ht.aborted_inv hc with hc | rfl
        · exact h.aborted c hc
        · cases does
          exact h.owed _ under_way c List.mem_cons_self
      · rcases back todo htodo with htodo | rfl
        · exact h.owed todo htodo c hc
        · have hrest := (List.mem_append.mp hc).resolve_left (howed c)
          exact h.owed _ under_way c (List.mem_cons_of_mem _ hrest)
      · rcases h.found c hc with ha | ⟨todo, htodo, hmem⟩
        · exact .inl (ht.aborted ha)
        · rcases forth todo htodo with htodo | rfl
          · exact .inr ⟨todo, htodo, hmem⟩
          · rcases List.mem_cons.mp hmem with rfl | hmem
            · refine .inl ?_
              cases does with
              | abort => exact ht.aborts
              | abort_again again =>
                exact ht.aborted
                  (again.resolve_left (Net.channel?_ne_none (hc.trans_le h.within)))
            · exact .inr ⟨_, left, List.mem_append_right _ hmem⟩

theorem Swept.congr (h : r.Swept n) (hlinks : r.net.links.length ≤ r'.net.links.length)
    (haborted : ∀ c, r'.net.Aborted c ↔ r.net.Aborted c)
    (hback : ∀ todo, r'.Halts todo → r.Halts todo ∨ todo = NetAction.stopAll)
    (hforth : ∀ todo, r.Halts todo → r'.Halts todo) : r'.Swept n := by
  refine ⟨h.within.trans hlinks, fun c hc => h.aborted c ((haborted c).mp hc),
    fun todo htodo c hc => ?_, fun c hc => ?_⟩
  · rcases hback todo htodo with htodo | rfl
    · exact h.owed todo htodo c hc
    · simp [NetAction.stopAll] at hc
  · refine (h.found c hc).imp (haborted c).mpr ?_
    rintro ⟨todo, htodo, hc⟩
    exact ⟨todo, hforth todo htodo, hc⟩

theorem halts_congr (hstops : r'.stops = r.stops)
    (hstages : r'.units.map RunUnit.stage = r.units.map RunUnit.stage) (todo : List NetAction) :
    r'.Halts todo ↔ r.Halts todo := by
  have hmem (r : Run σ) : (∃ u ∈ r.units, u.stage = .failing todo) ↔
      Stage.failing todo ∈ r.units.map RunUnit.stage := by simp
  rw [Halts, Halts, hstops, hmem, hmem, hstages]

theorem aborted_addLink {net : Net} {c capacity : Nat} {reader : Option Nat} :
    (net.addLink capacity reader).2.Aborted c ↔ net.Aborted c := by
  refine ⟨not_aborted_new, fun ⟨ch, hc, ha⟩ => ⟨ch, ?_, ha⟩⟩
  simpa [Net.addLink, Net.channel?, List.getElem?_append_left (Net.channel?_lt hc)] using hc

theorem Swept.kept (h : r.Swept n) (ho : r.Orderly) (hu : r.Unbegun) (ha : r.Acted d r')
    (hd : ∀ party, d ≠ .move party) : r'.Swept n := by
  have hsame {r'' : Run σ} (hnet : r''.net = r.net) (hstops : r''.stops = r.stops)
      (hstages : r''.units.map RunUnit.stage = r.units.map RunUnit.stage) : r''.Swept n :=
    h.congr (by rw [hnet]) (by simp [hnet])
      (fun todo ht => .inl ((halts_congr hstops hstages todo).mp ht))
      fun todo => (halts_congr hstops hstages todo).mpr
  -- before it is wired a run has no channels that a stop could have found
  have hwired {w : Wiring σ} {r'' : Run σ} (hp : r.phase = .new) (hnet : r''.net = w.net)
      (hab : ∀ c, ¬ w.net.Aborted c) (hstops : r''.stops = r.stops)
      (hunits : ∀ u ∈ r''.units, u.stage = .unstarted) : r''.Swept n := by
    obtain rfl : n = 0 := by simpa [(ho.blank hp).links] using h.within
    refine ⟨Nat.zero_le _, fun c hc => absurd (hnet ▸ hc) (hab c), fun todo ht c hc => ?_, by simp⟩
    rcases ht with ht | ⟨u, hu, hs⟩
    · exact h.owed todo (.inl (hstops ▸ ht)) c hc
    · simp [hunits u hu] at hs
  cases ha with
  | idle => exact h
  | spoiled | unwound => exact hsame rfl rfl rfl
  | shelved phase wired units_shelved =>
    exact hwired phase rfl (ho.wired phase wired).2.1 rfl
      ((ho.wired_unstarted phase wired).1 units_shelved)
  | prepared phase wired initiated =>
    exact hwired phase rfl (ho.wired phase wired).2.1 rfl
      ((ho.wired_unstarted phase wired).2 initiated)
  | @fed i u _ phase _ at_i =>
    have hstages : (r.attachProducer i u.id).units.map RunUnit.stage =
        r.units.map RunUnit.stage := by
      refine List.map_modify_of_eq ?_ r.units i
      exact fun _ => rfl
    have hhalts := halts_congr (show (r.attachProducer i u.id).stops = r.stops from rfl) hstages
    refine h.congr ?_ (fun c => aborted_addLink) (fun todo ht => .inl ((hhalts todo).mp ht))
      fun todo => (hhalts todo).mpr
    simp [attachProducer, Net.addLink]
  | observed =>
    refine hsame rfl rfl (List.map_modify_of_eq ?_ _ _)
    exact fun _ => rfl
  | started phase =>
    have hnone (units : List (RunUnit σ)) (hunits : ∀ u ∈ units, ∀ todo, u.stage ≠ .failing todo)
        (todo : List NetAction) : ¬ ∃ u ∈ units, u.stage = .failing todo := by
      rintro ⟨u, hu, hs⟩
      exact hunits u hu todo hs
    have hold := hnone r.units fun u hmem todo => by simp [hu phase u hmem]
    refine h.congr le_rfl (fun _ => Iff.rfl) (fun todo ht => .inl (ht.imp_right fun hx => ?_))
      fun todo ht => ht.imp_right fun hx => absurd hx (hold todo)
    refine absurd hx (hnone _ (fun v hv todo => ?_) todo)
    obtain ⟨u, hmem, rfl⟩ := List.mem_map.mp hv
    unfold RunUnit.spawn
    split <;> simp [hu phase u hmem]
  | offered => exact hsame rfl rfl rfl
  | finishing => exact hsame rfl rfl rfl
  | stopped =>
    refine h.congr le_rfl (fun _ => Iff.rfl) (fun todo ht => ?_) fun todo ht =>
      ht.imp_left (List.mem_append_left _)
    rcases ht with ht | ht
    · exact (List.mem_append.mp ht).imp .inl List.mem_singleton.mp
    · exact .inl (.inr ht)
  | waited => exact hsame rfl rfl rfl
  | moved => exact absurd rfl (hd _)

theorem Swept.act (h : r.Swept n) (ho : r.Orderly) (hu : r.Unbegun) (d : Deed) :
    (r.act d).Swept (max n (r.sweptBy d)) := by
  cases d with
  | move party =>
    cases hm : r.move party with
    | none => simpa [Run.act, hm, sweptBy, nextHalt_none hm] using h
    | some r' =>
      obtain ⟨t, ht⟩ := move_stepped hm
      simpa [Run.act, hm] using h.stepped ho ht
  | _ => simpa [sweptBy] using h.kept ho hu (r.act_acted _) (by simp)

theorem swept_after (registry : Registry σ) (settings : Settings) (g : Graph)
    (armed : List String) (ds : List Deed) :
    let start := Run.new registry settings g armed
    (start.after ds).Swept (start.swept ds) := by
  intro start
  have ho : start.Orderly := orderly_new _ _ _ _
  have hbegun (ds : List Deed) : (start.after ds).Unbegun :=
    (ho.after_keeps (fun hp => by cases hp) (fun _ _ _ ho hu ha => hu.acted ho ha) ds).2
  induction ds using List.reverseRecOn with
  | nil =>
    refine ⟨Nat.zero_le _, ?_, ?_, by simp [swept]⟩
    · simp [start, Run.new, after, Net.Aborted, Net.channel?]
    · simp [start, Run.new, after, Halts]
  | append_singleton ds d ih =>
    have hstep := ih.act (ho.after ds) (hbegun ds) d
    rw [after_append, swept_append, swept, swept, Nat.max_zero]
    exact hstep

end Run

end Sluice
