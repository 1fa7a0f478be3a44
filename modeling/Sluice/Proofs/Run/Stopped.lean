import Sluice.Proofs.Run.EndOfStream
import Sluice.Proofs.Run.Swept

/-!
Producers of a stopped run. They are turned away exactly when a stop found their channel: whoever was
there when the stop was called is, and so is everybody once the run has started. A producer that is
made after the stop puts its rows in, and waits when there is no room.
-/

namespace Sluice

variable {σ : Type}

namespace Net

variable {net : Net} {c : Nat}

theorem put_refused (h : net.Aborted c ∨ net.Closed c) (row : Row) :
    ∃ e, net.put c row = some (.error e, net) := by
  obtain ⟨ch, hc, hends⟩ : ∃ ch, net.channel? c = some ch ∧ (ch.aborted = true ∨ ch.closed = true) :=
    h.elim (fun ⟨ch, hc, ha⟩ => ⟨ch, hc, .inl ha⟩) fun ⟨ch, hc, hcl⟩ => ⟨ch, hc, .inr hcl⟩
  rcases ch.put_cases row with ⟨-, hp⟩ | ⟨-, -, hp⟩ | ⟨ha, hcl, -⟩ | ⟨ha, hcl, -⟩
  · exact ⟨.aborted, by simp [put, hc, hp, setChannel_self hc]⟩
  · exact ⟨.closed, by simp [put, hc, hp, setChannel_self hc]⟩
  · simp [ha, hcl] at hends
  · simp [ha, hcl] at hends

theorem Touched.put_unaborted {net' : Net} {row : Row} (h : net.Touched (.put c row) net') :
    ¬ net.Aborted c := by
  rintro ⟨ch, hch, hab⟩
  cases h with
  | put hc unaborted =>
    rw [hch, Option.some.injEq] at hc
    subst hc
    simp [hab] at unaborted

end Net

namespace Run

variable {r r' : Run σ} {d : Deed} {n : Nat}

/-- A stop with this number will leave the first channels aborted, so many of them. -/
structure Sweeping (r : Run σ) (k n : Nat) : Prop where
  within : n ≤ r.net.links.length
  covered : ∃ todo, r.stops[k]? = some todo ∧ r.net.CoveredTo n todo

theorem Acted.links_le (ha : r.Acted d r') (ho : r.Orderly) :
    r.net.links.length ≤ r'.net.links.length := by
  by_contra hlt
  have hne : r.net.channel? r'.net.links.length ≠ none :=
    Net.channel?_ne_none (Nat.lt_of_not_le hlt)
  obtain ⟨ch, hc⟩ := Option.ne_none_iff_exists'.mp hne
  obtain hc' | ⟨party, t, -, hs⟩ := ha.channel ho hc
  · exact absurd (Net.channel?_lt hc') (lt_irrefl _)
  · exact hlt hs.touched.links_length.ge

theorem Acted.aborted (ha : r.Acted d r') (ho : r.Orderly) {c : Nat} (hc : r.net.Aborted c) :
    r'.net.Aborted c ∧ r.net.entered r'.net c = [] := by
  obtain ⟨ch, hch, hab⟩ := hc
  obtain hc' | ⟨party, t, -, hs⟩ := ha.channel ho hch
  · refine ⟨⟨ch, hc', hab⟩, Net.entered_of_kept fun ch' hch' => ?_⟩
    rw [hch, Option.some.injEq] at hch'
    exact hch' ▸ hc'
  · refine ⟨hs.touched.aborted ⟨ch, hch, hab⟩, ?_⟩
    rw [hs.touched.entered c]
    cases t with
    | put i row =>
      refine if_neg ?_
      rintro rfl
      exact hs.touched.put_unaborted ⟨ch, hch, hab⟩
    | _ => rfl

theorem aborted_carried (ho : r.Orderly) {c : Nat} (hc : r.net.Aborted c) (ds : List Deed) :
    r.carried c ds = [] := by
  induction ds generalizing r with
  | nil => rfl
  | cons d ds ih =>
    have ha := r.act_acted d
    obtain ⟨hc', hnone⟩ := ha.aborted ho hc
    rw [carried, hnone, ih (ho.acted ha) hc']
    rfl

theorem Sweeping.acted {k : Nat} (h : r.Sweeping k n) (ho : r.Orderly) (ha : r.Acted d r') :
    r'.Sweeping k n := by
  obtain ⟨hn, todo, hk, hcov⟩ := h
  have hcov' : r'.net.CoveredTo n todo := hcov.mono fun c hc => (ha.aborted ho hc).1
  refine ⟨hn.trans (ha.links_le ho), ?_⟩
  cases ha with
  | moved stepped =>
    cases stepped with
    | unit => exact ⟨todo, hk, hcov'⟩
    | producer => exact ⟨todo, hk, hcov'⟩
    | @stop j action rest owed t net at_j does touched =>
      by_cases hj : j = k
      · subst hj
        rw [hk, Option.some.injEq] at at_j
        subst at_j
        have hlt := (List.getElem?_eq_some_iff.mp hk).1
        exact ⟨owed ++ rest, by simp [hlt], does.coveredTo touched hn hcov⟩
      · exact ⟨todo, by simp [hj, hk], hcov'⟩
  | stopped =>
    have hlt := (List.getElem?_eq_some_iff.mp hk).1
    exact ⟨todo, by simp [requestStop, List.getElem?_append_left hlt, hk], hcov'⟩
  | _ => exact ⟨todo, hk, hcov'⟩

theorem sweeping_new (r : Run σ) : r.requestStop.Sweeping r.stops.length r.net.links.length :=
  ⟨le_rfl, _, by simp [requestStop], Net.coveredTo_stopAll _ _⟩

theorem Acted.producers (ha : r.Acted d r') :
    r.producers.map (·.channel) <+: r'.producers.map (·.channel) ∧
      (r.phase = .running ∨ r.phase = .finished →
        (r'.phase = .running ∨ r'.phase = .finished) ∧
          r'.producers.length = r.producers.length) := by
  have hsame {r'' : Run σ} (hphase : r''.phase = r.phase ∨ r''.phase = .finished)
      (hproducers : r''.producers.map (·.channel) = r.producers.map (·.channel)) :
      r.producers.map (·.channel) <+: r''.producers.map (·.channel) ∧
        (r.phase = .running ∨ r.phase = .finished →
          (r''.phase = .running ∨ r''.phase = .finished) ∧
            r''.producers.length = r.producers.length) := by
    refine ⟨hproducers ▸ List.prefix_rfl, fun hp => ⟨?_, ?_⟩⟩
    · rcases hphase with h | h
      · exact h ▸ hp
      · exact .inr h
    · simpa using congrArg List.length hproducers
  have hnever {P : Prop} {phase : Phase} (h : r.phase = phase)
      (hne : phase ≠ .running ∧ phase ≠ .finished) (hp : r.phase = .running ∨ r.phase = .finished) :
      P := by
    rw [h] at hp
    exact absurd hp (by simp [hne])
  cases ha with
  | prepared phase => exact ⟨List.prefix_rfl, hnever phase (by simp)⟩
  | fed phase => exact ⟨by simp [attachProducer], hnever phase (by simp)⟩
  | started phase => exact ⟨List.prefix_rfl, hnever phase (by simp)⟩
  | spoiled | shelved | waited => exact hsame (.inr rfl) rfl
  | offered =>
    refine hsame (.inl rfl) (List.map_modify_of_eq ?_ _ _)
    exact fun _ => rfl
  | finishing =>
    refine hsame (.inl rfl) (List.map_modify_of_eq ?_ _ _)
    exact fun _ => rfl
  | moved stepped =>
    cases stepped with
    | unit => exact hsame (.inl rfl) rfl
    | stop => exact hsame (.inl rfl) rfl
    | producer at_k moved => exact hsame (.inl rfl) (List.map_set_of_eq at_k (by cases moved <;> rfl))
  | _ => exact hsame (.inl rfl) rfl

theorem producers_after (r : Run σ) (ds : List Deed) :
    r.producers.map (·.channel) <+: (r.after ds).producers.map (·.channel) ∧
      (r.phase = .running ∨ r.phase = .finished →
        (r.after ds).producers.length = r.producers.length) := by
  induction ds generalizing r with
  | nil => exact ⟨List.prefix_rfl, fun _ => rfl⟩
  | cons d ds ih =>
    obtain ⟨hkept, hphase⟩ := (r.act_acted d).producers
    obtain ⟨hkept', hphase'⟩ := ih (r.act d)
    exact ⟨hkept.trans hkept', fun hp =>
      (hphase' (hphase hp).1).trans (hphase hp).2⟩

/-- The channels of the producers are channels of the run. -/
def ProducersLinked (r : Run σ) : Prop :=
  ∀ c ∈ r.producers.map (·.channel), c < r.net.links.length

theorem ProducersLinked.acted (h : r.ProducersLinked) (ho : r.Orderly) (ha : r.Acted d r') :
    r'.ProducersLinked := by
  have hle := ha.links_le ho
  have hsame {r'' : Run σ} (hle : r.net.links.length ≤ r''.net.links.length)
      (hproducers : r''.producers.map (·.channel) = r.producers.map (·.channel)) : r''.ProducersLinked :=
    fun c hc => (h c (hproducers ▸ hc)).trans_le hle
  cases ha with
  | fed =>
    intro c hc
    simp only [attachProducer, Net.addLink, List.map_append, List.mem_append, List.length_append,
      List.map_cons, List.map_nil, List.mem_singleton, List.length_singleton] at hc ⊢
    rcases hc with hc | rfl
    · exact (h c hc).trans (Nat.lt_succ_self _)
    · exact Nat.lt_succ_self _
  | offered =>
    refine hsame hle (List.map_modify_of_eq ?_ _ _)
    exact fun _ => rfl
  | finishing =>
    refine hsame hle (List.map_modify_of_eq ?_ _ _)
    exact fun _ => rfl
  | moved stepped =>
    cases stepped with
    | unit => exact hsame hle rfl
    | stop => exact hsame hle rfl
    | producer at_k moved => exact hsame hle (List.map_set_of_eq at_k (by cases moved <;> rfl))
  | _ => exact hsame hle rfl

/-- A call to put anything fails at once and leaves the net as it is. -/
def Refuses (r : Run σ) (p : Producer) : Prop :=
  ∀ row, ∃ e, (p.offer [row]).move r.net = some ({ p.offer [] with failure := some e }, r.net)

theorem refuses_iff {p : Producer} (hp : p.todo = []) :
    r.Refuses p ↔ r.net.Aborted p.channel ∨ r.net.Closed p.channel := by
  constructor
  · intro h
    obtain ⟨e, he⟩ := h (.ok ⟨⟨[]⟩, [], rfl⟩)
    rcases hput : r.net.put p.channel ⟨⟨[]⟩, [], rfl⟩ with _ | ⟨a, net⟩
    · simp [Producer.move, Producer.offer, hp, hput] at he
    · obtain ⟨rfl, -⟩ | ⟨-, ⟨-, hab⟩ | ⟨-, hcl⟩⟩ := Net.put_touched hput
      · simp [Producer.move, Producer.offer, hp, hput] at he
      · exact .inl hab
      · exact .inr hcl
  · intro h row
    rcases row with e | row
    · exact ⟨.core e, by simp [Producer.move, Producer.offer, hp]⟩
    · obtain ⟨e, he⟩ := Net.put_refused h row
      exact ⟨.channel e, by simp [Producer.move, Producer.offer, hp, he]⟩

/-- A stop that has returned turns away for good the producers that were there when it was called.
Where no stop is under way, exactly those are turned away whose channel a stop has found or that
have ended their stream. -/
theorem stopped_refuses_iff (registry : Registry σ) (settings : Settings) (g : Graph)
    (armed : List String) :
    let start := Run.new registry settings g armed
    (∀ before later,
      let called := start.after before
      let r := start.after (before ++ .stop :: later)
      r.stops[called.stops.length]? = some [] →
      ∀ k p, r.producers[k]? = some p → p.todo = [] →
        k < called.producers.length ∨ called.phase = .running →
        r.Refuses p ∧ ∀ ds, r.carried p.channel ds = []) ∧
    ∀ ds,
      let r := start.after ds
      (∀ todo, r.Halts todo → todo = []) →
      ∀ p ∈ r.producers, p.todo = [] →
        (r.Refuses p ↔ p.channel < start.swept ds ∨ r.net.Closed p.channel) := by
  intro start
  have ho : start.Orderly := orderly_new _ _ _ _
  refine ⟨fun before later => ?_, fun ds => ?_⟩
  · intro called r hreturned k p hp htodo hthere
    have hr : r = (called.act .stop).after later := after_append _ _ _
    have hcalled := ho.after before
    have hfed : called.ProducersLinked := (ho.after_keeps (fun c hc => by simp [start, Run.new] at hc)
      (fun _ _ _ ho hf ha => hf.acted ho ha) before).2
    have hsweep : r.Sweeping called.stops.length called.net.links.length := by
      rw [hr]
      exact ((hcalled.acted (called.act_acted .stop)).after_keeps
        (P := fun r => r.Sweeping called.stops.length called.net.links.length)
        called.sweeping_new (fun _ _ _ ho hs ha => hs.acted ho ha) later).2
    obtain ⟨-, todo, hk, hcov⟩ := hsweep
    obtain rfl : [] = todo := by simpa [hreturned] using hk
    obtain ⟨hkept, hnomore⟩ := (called.act .stop).producers_after later
    rw [← hr] at hkept hnomore
    replace hkept : called.producers.map (·.channel) <+: r.producers.map (·.channel) := hkept
    have hlt : k < called.producers.length := by
      rcases hthere with hlt | hrunning
      · exact hlt
      · have hlen := hnomore (.inl hrunning)
        exact hlen ▸ (List.getElem?_eq_some_iff.mp hp).1
    have hchannel : p.channel ∈ called.producers.map (·.channel) := by
      obtain ⟨others, hothers⟩ := hkept
      have hk : (r.producers.map (·.channel))[k]? = some p.channel := by simp [hp]
      rw [← hothers, List.getElem?_append_left (by simpa using hlt)] at hk
      exact List.mem_of_getElem? hk
    have hab : r.net.Aborted p.channel := hcov.done _ (hfed _ hchannel)
    exact ⟨(refuses_iff htodo).mpr (.inl hab), aborted_carried (ho.after _) hab⟩
  · intro r hhalted p hp htodo
    have hswept : r.Swept (start.swept ds) := swept_after registry settings g armed ds
    rw [refuses_iff htodo]
    refine or_congr_left ⟨hswept.aborted _, fun hc => ?_⟩
    refine (hswept.found _ hc).resolve_right ?_
    rintro ⟨todo, ht, hmem⟩
    rw [hhalted todo ht] at hmem
    cases hmem

def blankRow : Row := ⟨⟨[]⟩, [], List.length_nil⟩

/-- The run is stopped before it is prepared, or before its producer is made; then the producer has
two rows to put. -/
def stoppedEarly : List (List Deed) :=
  [[.stop] ++ .replicate 3 (.move (.stop 0)) ++ [.prepare],
    [.prepare, .stop] ++ .replicate 7 (.move (.stop 0))].map
    (· ++ [.addProducer ⟨"a", 0⟩, .offer 0 [.ok blankRow, .ok blankRow]] ++
      .replicate 2 (.move (.producer 0)))

/-- The stop has returned, one row is in the channel, and the producer waits with the other. -/
theorem stoppedEarly_takes_row : stoppedEarly.Forall fun ds =>
    let start := Run.new Catalog.builtins { channelCapacity := 1 } pair []
    let r := start.after ds
    r.net.stopping = true ∧ r.stops = [[]] ∧ start.carried 1 ds = [blankRow] ∧
      r.producers.map (fun p => (p.channel, p.offers, p.todo)) = [(1, [.ok blankRow], [])] ∧
      (r.move (.producer 0)).isNone := by
  decide +kernel

theorem madeBefore_refused :
    let made : List Deed := [.prepare, .addProducer ⟨"a", 0⟩]
    let r := (Run.new Catalog.builtins { channelCapacity := 1 } pair []).after
      (made ++ .stop :: .replicate 9 (.move (.stop 0)))
    ∃ p ∈ r.producers, p.channel = 1 ∧ r.Refuses p ∧ ∀ ds, r.carried p.channel ds = [] := by
  intro made r
  have hreturned : r.stops[((Run.new Catalog.builtins { channelCapacity := 1 } pair []).after
      made).stops.length]? = some [] := by decide +kernel
  have hproducers : r.producers.map (fun p => (p.channel, p.todo)) = [(1, [])] := by
    decide +kernel
  have hthere : 0 < ((Run.new Catalog.builtins { channelCapacity := 1 } pair []).after
      made).producers.length := by decide +kernel
  obtain ⟨p, _, hr, hp, -⟩ := List.map_eq_cons_iff.mp hproducers
  obtain ⟨hchannel, htodo⟩ := Prod.mk.inj hp
  have hfirst : r.producers[0]? = some p := by rw [hr, List.getElem?_cons_zero]
  exact ⟨p, List.mem_of_getElem? hfirst, hchannel,
    (stopped_refuses_iff Catalog.builtins _ pair []).1 made _ hreturned 0 p hfirst htodo
      (.inl hthere)⟩

end Run

end Sluice
