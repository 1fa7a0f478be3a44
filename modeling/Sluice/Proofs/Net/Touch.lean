import Sluice.Proofs.Channel.Turns
import Sluice.Run.History

/-!
The ways in which one step of a party touches the net. Whatever moves, each channel, each wakeup
and the flag change as said here, and the rest of the net stays.
-/

namespace Sluice

inductive Touch where
  | nothing
  | raise
  | put (c : Nat) (row : Row)
  | take (c : Nat) (row : Row)
  | close (c : Nat)
  | abort (c : Nat)
  | notify (wakeup : Nat)

inductive Net.Touched (net : Net) : Touch → Net → Prop
  | nothing : net.Touched .nothing net
  | raise : net.Touched .raise { net with stopping := true }
  | put {c : Nat} {ch : Channel Row} {row : Row} (hc : net.channel? c = some ch)
      (unaborted : ch.aborted = false) (opened : ch.closed = false)
      (room : ch.queue.length < ch.capacity) :
      net.Touched (.put c row) (net.setChannel c (ch.push row))
  | take {c : Nat} {ch : Channel Row} {row : Row} {rest : List Row} (hc : net.channel? c = some ch)
      (unaborted : ch.aborted = false) (first : ch.queue = row :: rest) :
      net.Touched (.take c row) (net.setChannel c (ch.pop rest))
  | close {c : Nat} {ch : Channel Row} (hc : net.channel? c = some ch) (opened : ch.closed = false) :
      net.Touched (.close c) (net.setChannel c ch.close)
  | abort {c : Nat} {ch : Channel Row} (hc : net.channel? c = some ch)
      (unaborted : ch.aborted = false) : net.Touched (.abort c) (net.setChannel c ch.abort)
  | notify {w : Nat} : net.Touched (.notify w) (net.notify w)

def Touch.on (t : Touch) (c : Nat) (ch : Channel Row) : Channel Row :=
  match t with
  | .put i row => if i = c then ch.push row else ch
  | .take i _ => if i = c then ch.pop ch.queue.tail else ch
  | .close i => if i = c then ch.close else ch
  | .abort i => if i = c then ch.abort else ch
  | _ => ch

namespace Net

theorem channel?_setChannel (net : Net) (i j : Nat) (ch : Channel Row) :
    (net.setChannel i ch).channel? j =
      (net.channel? j).map fun old => if i = j then ch else old := by
  simp only [channel?, setChannel, List.getElem?_modify]
  cases net.links[j]? <;> by_cases h : i = j <;> simp [h]

theorem setChannel_self {net : Net} {i : Nat} {ch : Channel Row} (h : net.channel? i = some ch) :
    net.setChannel i ch = net := by
  have hlinks : net.links.modify i (fun link => { link with channel := ch }) = net.links := by
    apply List.ext_getElem?
    intro j
    rw [List.getElem?_modify]
    cases hj : net.links[j]? with
    | none => simp
    | some link =>
      by_cases hij : i = j
      · subst hij
        have : link.channel = ch := by simpa [channel?, hj] using h
        simp [← this]
      · simp [hij]
  simp [setChannel, hlinks]

@[simp] theorem channel?_notify (net : Net) (w c : Nat) :
    (net.notify w).channel? c = net.channel? c := rfl

theorem channel?_lt {net : Net} {c : Nat} {ch : Channel Row} (h : net.channel? c = some ch) :
    c < net.links.length := by
  obtain ⟨link, hl, -⟩ := Option.map_eq_some_iff.mp h
  exact (List.getElem?_eq_some_iff.mp hl).1

theorem channel?_ne_none {net : Net} {c : Nat} (h : c < net.links.length) :
    net.channel? c ≠ none := by
  simp [channel?, h]

def reader? (net : Net) (c : Nat) : Option Nat :=
  (net.links[c]?).bind (·.reader)

theorem signal_eq (net : Net) (c : Nat) :
    net.signal c = match net.reader? c with
      | some w => net.notify w
      | none => net := rfl

theorem entered_of_kept {net net' : Net} {c : Nat}
    (h : ∀ ch, net.channel? c = some ch → net'.channel? c = some ch) : net.entered net' c = [] := by
  unfold Net.entered
  split
  · rename_i b a hb ha
    rw [h b hb, Option.some.injEq] at ha
    simp [ha]
  · rfl

namespace Touched

variable {net net' : Net} {t : Touch}

theorem channel (h : net.Touched t net') (c : Nat) :
    net'.channel? c = (net.channel? c).map (t.on c) := by
  have hid (ch : Option (Channel Row)) : ch = ch.map fun ch => ch := by simp
  have hset (i : Nat) (ch : Channel Row)
      (h : ∀ old, net.channel? c = some old → (if i = c then ch else old) = t.on c old) :
      (net.setChannel i ch).channel? c = (net.channel? c).map (t.on c) := by
    rw [channel?_setChannel]
    cases hc : net.channel? c with
    | none => rfl
    | some old => simp [h old hc]
  cases h with
  | nothing => exact hid _
  | raise => exact hid _
  | notify => exact hid _
  | put hc => exact hset _ _ fun old ho => by grind [Touch.on]
  | take hc _ hq => exact hset _ _ fun old ho => by grind [Touch.on]
  | close hc => exact hset _ _ fun old ho => by grind [Touch.on]
  | abort hc => exact hset _ _ fun old ho => by grind [Touch.on]

theorem stopping (h : net.Touched t net') (hs : net.stopping = true) : net'.stopping = true := by
  cases h <;> first | exact hs | rfl

theorem stopping_of_ne (h : net.Touched t net') (ht : t ≠ .raise) :
    net'.stopping = net.stopping := by
  cases h <;> first | rfl | exact absurd rfl ht

theorem readers (h : net.Touched t net') : net'.links.map (·.reader) = net.links.map (·.reader) := by
  have hset (i : Nat) (ch : Channel Row) :
      (net.setChannel i ch).links.map (·.reader) = net.links.map (·.reader) := by
    apply List.ext_getElem?
    intro j
    simp only [setChannel, List.getElem?_map, List.getElem?_modify]
    cases net.links[j]? <;> simp
    split <;> rfl
  cases h <;> first | rfl | exact hset _ _

theorem links_length (h : net.Touched t net') : net'.links.length = net.links.length := by
  simpa using congrArg List.length h.readers

theorem wakeups_length (h : net.Touched t net') : net'.wakeups.length = net.wakeups.length := by
  cases h <;> first | rfl | simp [Net.notify]

theorem generation_of_ne (h : net.Touched t net') {w : Nat} (ht : t ≠ .notify w) :
    net'.generation w = net.generation w := by
  cases h <;> try rfl
  rename_i v
  have hne : v ≠ w := fun he => ht (by rw [he])
  simp only [generation, Net.notify, List.getElem?_modify]
  simp [hne]

theorem generation_notify (h : net.Touched (.notify w) net') (hw : w < net.wakeups.length) :
    net'.generation w = net.generation w + 1 := by
  cases h
  simp [generation, Net.notify, Wakeup.notify, hw]

theorem generation_cases (h : net.Touched t net') {w : Nat} (hw : w < net.wakeups.length) :
    t = .notify w ∧ net'.generation w = net.generation w + 1 ∧
        net'.generation w ≠ net.generation w ∨
      t ≠ .notify w ∧ net'.generation w = net.generation w := by
  by_cases ht : t = .notify w
  · subst ht
    have hgen := h.generation_notify hw
    refine .inl ⟨rfl, hgen, fun he => ?_⟩
    have := congrArg UInt64.toNat (hgen.symm.trans he)
    simp only [UInt64.toNat_add, UInt64.reduceToNat] at this
    have := (net.generation w).toNat_lt
    omega
  · exact .inr ⟨ht, h.generation_of_ne ht⟩

theorem reader? (h : net.Touched t net') (c : Nat) : net'.reader? c = net.reader? c := by
  have hc := congrArg (fun readers => readers[c]?) h.readers
  simp only [List.getElem?_map] at hc
  unfold Net.reader?
  cases h' : net'.links[c]? <;> cases h : net.links[c]? <;> simp_all

theorem entered (h : net.Touched t net') (c : Nat) :
    net.entered net' c = match t with
      | .put i row => if i = c then [row] else []
      | _ => [] := by
  have hch := h.channel c
  unfold Net.entered
  cases hc : net.channel? c with
  | none =>
    rw [hc] at hch
    cases h with
    | @put i _ row hi =>
      have : i ≠ c := by rintro rfl; rw [hc] at hi; cases hi
      simp [this]
    | _ => simp
  | some ch =>
    rw [hc] at hch
    simp only [hch, Option.map_some]
    cases t with
    | put i row => by_cases hi : i = c <;> simp [Touch.on, hi]
    | take i row => by_cases hi : i = c <;> simp [Touch.on, hi]
    | close i => by_cases hi : i = c <;> simp [Touch.on, hi]
    | abort i => by_cases hi : i = c <;> simp [Touch.on, hi]
    | nothing => simp [Touch.on]
    | raise => simp [Touch.on]
    | notify w => simp [Touch.on]

end Touched

def Aborted (net : Net) (c : Nat) : Prop :=
  ∃ ch, net.channel? c = some ch ∧ ch.aborted = true

def Closed (net : Net) (c : Nat) : Prop :=
  ∃ ch, net.channel? c = some ch ∧ ch.closed = true

instance (net : Net) (c : Nat) : Decidable (net.Closed c) :=
  decidable_of_iff ((net.channel? c).any (·.closed) = true) (by simp [Closed, Option.any_eq_true])

def Drained (net : Net) (c : Nat) : Prop :=
  ∃ ch, net.channel? c = some ch ∧ ch.closed = true ∧ ch.queue = []

def Quiet (net : Net) (c : Nat) : Prop :=
  ∃ ch, net.channel? c = some ch ∧ ch.aborted = false ∧ ch.closed = false ∧ ch.queue = []

def Full (net : Net) (c : Nat) : Prop :=
  ∃ ch, net.channel? c = some ch ∧ ch.aborted = false ∧ ch.closed = false ∧
    ch.capacity ≤ ch.queue.length

theorem Drained.closed {net : Net} {c : Nat} (h : net.Drained c) : net.Closed c := by
  obtain ⟨ch, hc, hcl, -⟩ := h
  exact ⟨ch, hc, hcl⟩

theorem Full.not_drained {net : Net} {c : Nat} (h : net.Full c) : ¬ net.Drained c := by
  obtain ⟨ch, hc, -, hcl, -⟩ := h
  rintro ⟨ch', hc', hcl', -⟩
  rw [hc, Option.some.injEq] at hc'
  subst hc'
  simp [hcl] at hcl'

theorem Full.not_quiet {net : Net} {c : Nat} (h : net.Full c) : ¬ net.Quiet c := by
  obtain ⟨ch, hc, -, -, hfull⟩ := h
  rintro ⟨ch', hc', -, -, hq⟩
  rw [hc, Option.some.injEq] at hc'
  subst hc'
  have := ch.capacity_pos
  simp only [hq, List.length_nil] at hfull
  omega

theorem Quiet.not_closed {net : Net} {c : Nat} (h : net.Quiet c) : ¬ net.Closed c := by
  obtain ⟨ch, hc, -, hcl, -⟩ := h
  rintro ⟨ch', hc', hcl'⟩
  rw [hc, Option.some.injEq] at hc'
  subst hc'
  simp [hcl] at hcl'

theorem Quiet.not_aborted {net : Net} {c : Nat} (h : net.Quiet c) : ¬ net.Aborted c := by
  obtain ⟨ch, hc, ha, -⟩ := h
  rintro ⟨ch', hc', ha'⟩
  rw [hc, Option.some.injEq] at hc'
  subst hc'
  simp [ha] at ha'

theorem Full.not_aborted {net : Net} {c : Nat} (h : net.Full c) : ¬ net.Aborted c := by
  obtain ⟨ch, hc, ha, -⟩ := h
  rintro ⟨ch', hc', ha'⟩
  rw [hc, Option.some.injEq] at hc'
  subst hc'
  simp [ha] at ha'

namespace Touched

variable {net net' : Net} {t : Touch} {c : Nat}

theorem aborted (h : net.Touched t net') (ha : net.Aborted c) : net'.Aborted c := by
  obtain ⟨ch, hc, ha⟩ := ha
  refine ⟨t.on c ch, by rw [h.channel, hc]; rfl, ?_⟩
  cases t <;> simp only [Touch.on] <;> (try split) <;> simp [ha]

theorem aborts (h : net.Touched (.abort c) net') : net'.Aborted c := by
  have hc' := h.channel c
  cases h with
  | @abort c ch hc =>
    rw [hc] at hc'
    exact ⟨_, hc', by simp [Touch.on]⟩

theorem closes (h : net.Touched (.close c) net') : net'.Closed c := by
  have hc' := h.channel c
  cases h with
  | @close c ch hc =>
    rw [hc] at hc'
    exact ⟨_, hc', by simp [Touch.on]⟩

theorem opened (h : net.Touched (.close c) net') :
    ∃ ch, net.channel? c = some ch ∧ ch.closed = false := by
  cases h with
  | close hc opened => exact ⟨_, hc, opened⟩

theorem aborted_inv (h : net.Touched t net') (ha : net'.Aborted c) :
    net.Aborted c ∨ t = .abort c := by
  obtain ⟨ch', hc', ha'⟩ := ha
  rw [h.channel, Option.map_eq_some_iff] at hc'
  obtain ⟨ch, hc, rfl⟩ := hc'
  cases t with
  | abort i =>
    by_cases hi : i = c
    · exact .inr (by rw [hi])
    · exact .inl ⟨ch, hc, by simpa [Touch.on, hi] using ha'⟩
  | _ =>
    refine .inl ⟨ch, hc, ?_⟩
    simp only [Touch.on] at ha'
    first | exact ha' | (split at ha' <;> simpa using ha')

theorem closed (h : net.Touched t net') (hcl : net.Closed c) : net'.Closed c := by
  obtain ⟨ch, hc, hcl⟩ := hcl
  refine ⟨t.on c ch, by rw [h.channel, hc]; rfl, ?_⟩
  cases t <;> simp only [Touch.on] <;> (try split) <;> simp [hcl]

theorem closed_inv (h : net.Touched t net') (hcl : net'.Closed c) :
    net.Closed c ∨ t = .close c := by
  obtain ⟨ch', hc', hcl'⟩ := hcl
  rw [h.channel, Option.map_eq_some_iff] at hc'
  obtain ⟨ch, hc, rfl⟩ := hc'
  cases t with
  | close i =>
    by_cases hi : i = c
    · exact .inr (by rw [hi])
    · exact .inl ⟨ch, hc, by simpa [Touch.on, hi] using hcl'⟩
  | _ =>
    refine .inl ⟨ch, hc, ?_⟩
    simp only [Touch.on] at hcl'
    first | exact hcl' | (split at hcl' <;> simpa using hcl')

theorem drained (h : net.Touched t net') (hd : net.Drained c) : net'.Drained c := by
  obtain ⟨ch, hc, hcl, hq⟩ := hd
  refine ⟨t.on c ch, by rw [h.channel, hc]; rfl, ?_⟩
  cases h with
  | @put i ch' row hc' _ ho =>
    have : i ≠ c := by
      rintro rfl
      rw [hc, Option.some.injEq] at hc'
      subst hc'
      simp [hcl] at ho
    simp [Touch.on, this, hcl, hq]
  | @take i _ => by_cases hi : i = c <;> simp [Touch.on, hi, hcl, hq]
  | @close i _ => by_cases hi : i = c <;> simp [Touch.on, hi, hcl, hq]
  | @abort i _ => by_cases hi : i = c <;> simp [Touch.on, hi, hcl, hq]
  | _ => exact ⟨hcl, hq⟩

theorem quiet (h : net.Touched t net') (hq : net.Quiet c) :
    net'.Quiet c ∨ (∃ row, t = .put c row) ∨ t = .close c ∨ t = .abort c := by
  obtain ⟨ch, hc, ha, hcl, hq⟩ := hq
  have hc' : net'.channel? c = some (t.on c ch) := by rw [h.channel, hc]; rfl
  cases t with
  | put i row =>
    by_cases hi : i = c
    · exact .inr (.inl ⟨row, by rw [hi]⟩)
    · exact .inl ⟨_, hc', by simp [Touch.on, hi, ha, hcl, hq]⟩
  | close i =>
    by_cases hi : i = c
    · exact .inr (.inr (.inl (by rw [hi])))
    · exact .inl ⟨_, hc', by simp [Touch.on, hi, ha, hcl, hq]⟩
  | abort i =>
    by_cases hi : i = c
    · exact .inr (.inr (.inr (by rw [hi])))
    · exact .inl ⟨_, hc', by simp [Touch.on, hi, ha, hcl, hq]⟩
  | take i row => exact .inl ⟨_, hc', by by_cases hi : i = c <;> simp [Touch.on, hi, ha, hcl, hq]⟩
  | _ => exact .inl ⟨_, hc', ha, hcl, hq⟩

end Touched

theorem put_touched {net net' : Net} {c : Nat} {row : Row} {r : Except Refusal Unit}
    (h : net.put c row = some (r, net')) :
    r = .ok () ∧ net.Touched (.put c row) net' ∨
      net' = net ∧ (r = .error .aborted ∧ net.Aborted c ∨ r = .error .closed ∧ net.Closed c) := by
  unfold put at h
  cases hc : net.channel? c with
  | none => simp [hc] at h
  | some ch =>
    simp only [hc] at h
    rcases ch.put_cases row with ⟨ha, hp⟩ | ⟨ha, hcl, hp⟩ | ⟨-, -, -, hp⟩ | ⟨ha, hcl, hlt, hp⟩
    · simp only [hp, setChannel_self hc, Option.some.injEq, Prod.mk.injEq] at h
      exact .inr ⟨h.2.symm, .inl ⟨h.1.symm, ch, hc, ha⟩⟩
    · simp only [hp, setChannel_self hc, Option.some.injEq, Prod.mk.injEq] at h
      exact .inr ⟨h.2.symm, .inr ⟨h.1.symm, ch, hc, hcl⟩⟩
    · simp [hp] at h
    · simp only [hp, Option.some.injEq, Prod.mk.injEq] at h
      obtain ⟨rfl, rfl⟩ := h
      exact .inl ⟨rfl, .put hc ha hcl hlt⟩

theorem Aborted.put {net : Net} {c : Nat} (h : net.Aborted c) (row : Row) :
    net.put c row = some (.error .aborted, net) := by
  obtain ⟨ch, hc, ha⟩ := h
  simp [Net.put, hc, Channel.put, ha, setChannel_self hc]

theorem Aborted.get {net : Net} {c : Nat} (h : net.Aborted c) :
    net.get c = some (.error .aborted, net) := by
  obtain ⟨ch, hc, ha⟩ := h
  simp [Net.get, hc, Channel.get, ha, setChannel_self hc]

theorem put_blocked {net : Net} {c : Nat} {row : Row} (h : net.put c row = none) :
    net.channel? c = none ∨ net.Full c := by
  unfold put at h
  cases hc : net.channel? c with
  | none => exact .inl rfl
  | some ch =>
    simp only [hc] at h
    rcases ch.put_cases row with ⟨-, hp⟩ | ⟨-, -, hp⟩ | ⟨ha, hcl, hfull, -⟩ | ⟨-, -, -, hp⟩
    · simp [hp] at h
    · simp [hp] at h
    · exact .inr ⟨ch, hc, ha, hcl, hfull⟩
    · simp [hp] at h

theorem get_touched {net net' : Net} {c : Nat} {r : Except Refusal (Option Row)}
    (h : net.get c = some (r, net')) :
    (∃ row, r = .ok (some row) ∧ net.Touched (.take c row) net') ∨
      net' = net ∧ (r = .error .aborted ∧ net.Aborted c ∨
        r = .ok none ∧ net.Drained c ∧ ¬ net.Aborted c) := by
  unfold get at h
  cases hc : net.channel? c with
  | none => simp [hc] at h
  | some ch =>
    simp only [hc] at h
    rcases ch.get_cases with ⟨ha, hg⟩ | ⟨ha, hcl, hq, hg⟩ | ⟨-, -, -, hg⟩ | ⟨ha, row, rest, hq, hg⟩
    · simp only [hg, setChannel_self hc, Option.some.injEq, Prod.mk.injEq] at h
      exact .inr ⟨h.2.symm, .inl ⟨h.1.symm, ch, hc, ha⟩⟩
    · simp only [hg, setChannel_self hc, Option.some.injEq, Prod.mk.injEq] at h
      exact .inr ⟨h.2.symm, .inr ⟨h.1.symm, ⟨ch, hc, hcl, hq⟩, by simp [Aborted, hc, ha]⟩⟩
    · simp [hg] at h
    · simp only [hg, Option.some.injEq, Prod.mk.injEq] at h
      obtain ⟨rfl, rfl⟩ := h
      exact .inl ⟨row, rfl, .take hc ha hq⟩

theorem get_blocked {net : Net} {c : Nat} (h : net.get c = none) :
    net.channel? c = none ∨ net.Quiet c := by
  unfold get at h
  cases hc : net.channel? c with
  | none => exact .inl rfl
  | some ch =>
    simp only [hc] at h
    rcases ch.get_cases with ⟨-, hg⟩ | ⟨-, -, -, hg⟩ | ⟨ha, hcl, hq, -⟩ | ⟨-, row, rest, -, hg⟩
    · simp [hg] at h
    · simp [hg] at h
    · exact .inr ⟨ch, hc, ha, hcl, hq⟩
    · simp [hg] at h

theorem tryGet_touched {net net' : Net} {c : Nat} {r : Except Refusal (Poll Row)}
    (h : net.tryGet c = (r, net')) :
    (∃ row, r = .ok (.item row) ∧ net.Touched (.take c row) net') ∨
      net' = net ∧ (r = .error .aborted ∧ net.Aborted c ∨
        r = .ok .ended ∧ net.Drained c ∧ ¬ net.Aborted c ∨
        r = .ok .empty ∧ (net.channel? c = none ∨ net.Quiet c)) := by
  unfold tryGet at h
  cases hc : net.channel? c with
  | none =>
    simp only [hc, Prod.mk.injEq] at h
    exact .inr ⟨h.2.symm, .inr (.inr ⟨h.1.symm, .inl rfl⟩)⟩
  | some ch =>
    simp only [hc] at h
    rcases ch.tryGet_cases with ⟨ha, hg⟩ | ⟨ha, hcl, hq, hg⟩ | ⟨ha, hcl, hq, hg⟩ |
      ⟨ha, row, rest, hq, hg⟩
    · simp only [hg, setChannel_self hc, Prod.mk.injEq] at h
      exact .inr ⟨h.2.symm, .inl ⟨h.1.symm, ch, hc, ha⟩⟩
    · simp only [hg, setChannel_self hc, Prod.mk.injEq] at h
      exact .inr ⟨h.2.symm, .inr (.inl ⟨h.1.symm, ⟨ch, hc, hcl, hq⟩, by simp [Aborted, hc, ha]⟩)⟩
    · simp only [hg, setChannel_self hc, Prod.mk.injEq] at h
      exact .inr ⟨h.2.symm, .inr (.inr ⟨h.1.symm, .inr ⟨ch, hc, ha, hcl, hq⟩⟩)⟩
    · simp only [hg, Prod.mk.injEq] at h
      obtain ⟨rfl, rfl⟩ := h
      exact .inl ⟨row, rfl, .take hc ha hq⟩

theorem close_touched {net net' : Net} {c : Nat} (h : net.close? c = some net') :
    net.Touched (.close c) net' := by
  unfold close? at h
  cases hc : net.channel? c with
  | none => simp [hc] at h
  | some ch =>
    simp only [hc] at h
    cases hcl : ch.closed with
    | true => simp [hcl] at h
    | false =>
      simp only [hcl, Bool.false_eq_true, if_false, Option.some.injEq] at h
      exact h ▸ .close hc hcl

theorem close_idle {net : Net} {c : Nat} (h : net.close? c = none) :
    net.channel? c = none ∨ net.Closed c := by
  unfold close? at h
  cases hc : net.channel? c with
  | none => exact .inl rfl
  | some ch =>
    simp only [hc] at h
    cases hcl : ch.closed with
    | true => exact .inr ⟨ch, hc, hcl⟩
    | false => simp [hcl] at h

theorem abort_touched {net net' : Net} {c : Nat} (h : net.abort? c = some net') :
    net.Touched (.abort c) net' := by
  unfold abort? at h
  cases hc : net.channel? c with
  | none => simp [hc] at h
  | some ch =>
    simp only [hc] at h
    cases ha : ch.aborted with
    | true => simp [ha] at h
    | false =>
      simp only [ha, Bool.false_eq_true, if_false, Option.some.injEq] at h
      exact h ▸ .abort hc ha

theorem abort_idle {net : Net} {c : Nat} (h : net.abort? c = none) :
    net.channel? c = none ∨ net.Aborted c := by
  unfold abort? at h
  cases hc : net.channel? c with
  | none => exact .inl rfl
  | some ch =>
    simp only [hc] at h
    cases ha : ch.aborted with
    | true => exact .inr ⟨ch, hc, ha⟩
    | false => simp [ha] at h

theorem signal_touched (net : Net) (c : Nat) :
    (∃ w, net.reader? c = some w ∧ net.Touched (.notify w) (net.signal c)) ∨
      net.reader? c = none ∧ net.Touched .nothing (net.signal c) := by
  rw [signal_eq]
  cases h : net.reader? c with
  | some w => exact .inl ⟨w, rfl, .notify⟩
  | none => exact .inr ⟨rfl, .nothing⟩

/-- By touches only. -/
def Reaches : Net → Net → Prop :=
  Relation.ReflTransGen fun net net' => ∃ t, net.Touched t net'

namespace Reaches

variable {net net' net'' : Net} {c : Nat}

theorem of_touched {t : Touch} (h : net.Touched t net') : net.Reaches net' :=
  .single ⟨t, h⟩

theorem trans (h : net.Reaches net') (h' : net'.Reaches net'') : net.Reaches net'' :=
  Relation.ReflTransGen.trans h h'

theorem links_length (h : net.Reaches net') : net'.links.length = net.links.length := by
  induction h with
  | refl => rfl
  | tail _ hstep ih =>
    obtain ⟨t, ht⟩ := hstep
    rw [ht.links_length, ih]

theorem aborted (h : net.Reaches net') (ha : net.Aborted c) : net'.Aborted c := by
  induction h with
  | refl => exact ha
  | tail _ hstep ih =>
    obtain ⟨t, ht⟩ := hstep
    exact ht.aborted ih

theorem foldl {α : Type} {f : Net → α → Net} (hf : ∀ (net : Net) a, net.Reaches (f net a))
    (l : List α) (net : Net) : net.Reaches (l.foldl f net) := by
  induction l generalizing net with
  | nil => exact .refl
  | cons a l ih => exact (hf net a).trans (ih (f net a))

end Reaches

theorem signal_reaches (net : Net) (c : Nat) : net.Reaches (net.signal c) := by
  obtain ⟨w, -, h⟩ | ⟨-, h⟩ := net.signal_touched c <;> exact .of_touched h

theorem abort_reaches (net : Net) (c : Nat) : net.Reaches (net.abort c) := by
  unfold abort
  split
  · rename_i net' h
    exact (Reaches.of_touched (abort_touched h)).trans (net'.signal_reaches c)
  · exact .refl

theorem abort_aborts {net : Net} {c : Nat} (hc : c < net.links.length) :
    (net.abort c).Aborted c := by
  unfold abort
  split
  · rename_i net' h
    exact (net'.signal_reaches c).aborted (abort_touched h).aborts
  · rename_i h
    exact (abort_idle h).resolve_left (channel?_ne_none hc)

theorem stop_aborts {net : Net} {c : Nat} (hc : c < net.links.length) : net.stop.Aborted c := by
  have hfold (l : List Nat) (net : Net) (hl : c ∈ l) (hc : c < net.links.length) :
      (l.foldl abort net).Aborted c := by
    induction l generalizing net with
    | nil => cases hl
    | cons d l ih =>
      rcases List.mem_cons.mp hl with rfl | hl
      · exact (Reaches.foldl abort_reaches l _).aborted (abort_aborts hc)
      · exact ih _ hl ((net.abort_reaches d).links_length ▸ hc)
  exact (Reaches.foldl (fun _ _ => .of_touched .notify) _ _).aborted
    (hfold _ _ (List.mem_range.mpr hc) hc)

end Net

end Sluice
