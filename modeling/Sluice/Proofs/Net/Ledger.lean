import Sluice.Proofs.Net.Touch

/-!
Ledgers: all rows that went into each channel and all that came out. What went in is what came out
followed by what is queued.
-/

namespace Sluice

structure Ledger where
  put : Nat → List Row := fun _ => []
  taken : Nat → List Row := fun _ => []

namespace Ledger

def after (l : Ledger) : Touch → Ledger
  | .put c row => { l with put := Function.update l.put c (l.put c ++ [row]) }
  | .take c row => { l with taken := Function.update l.taken c (l.taken c ++ [row]) }
  | _ => l

/-- What a channel holds and what it counted are what the ledger tells. -/
structure Matches (l : Ledger) (c : Nat) (ch : Channel Row) : Prop where
  queue : l.put c = l.taken c ++ ch.queue
  rowsPut : ch.rowsPut = (l.put c).length
  rowsTaken : ch.rowsTaken = (l.taken c).length

def Fits (l : Ledger) (net : Net) : Prop :=
  ∀ c ch, net.channel? c = some ch → l.Matches c ch

theorem put_after_of_ne {l : Ledger} {t : Touch} {c : Nat} (h : ∀ row, t ≠ .put c row) :
    (l.after t).put c = l.put c := by
  cases t with
  | put i row =>
    have : c ≠ i := fun hi => h row (by rw [hi])
    simp [after, Function.update_of_ne this]
  | _ => rfl

theorem taken_after_of_ne {l : Ledger} {t : Touch} {c : Nat} (h : ∀ row, t ≠ .take c row) :
    (l.after t).taken c = l.taken c := by
  cases t with
  | take i row =>
    have : c ≠ i := fun hi => h row (by rw [hi])
    simp [after, Function.update_of_ne this]
  | _ => rfl

/-- What went in is what came out followed by what is queued, whatever was queued before. -/
theorem balanced_after {l : Ledger} {net net' : Net} {t : Touch} {c : Nat} {ch : Channel Row}
    {before : List Row} (ht : net.Touched t net') (hc : net.channel? c = some ch)
    (h : before ++ l.put c = l.taken c ++ ch.queue) :
    before ++ (l.after t).put c = (l.after t).taken c ++ (t.on c ch).queue := by
  cases ht with
  | @put i _ row =>
    by_cases hi : i = c
    · subst hi
      simp [after, Touch.on, ← List.append_assoc, h]
    · simp [after, Touch.on, hi, Function.update_of_ne (Ne.symm hi), h]
  | @take i ch' row rest hi' _ hq =>
    by_cases hi : i = c
    · subst hi
      obtain rfl := Option.some.inj (hi'.symm.trans hc)
      simp [after, Touch.on, h, hq]
    · simp [after, Touch.on, hi, Function.update_of_ne (Ne.symm hi), h]
  | @close i => by_cases hi : i = c <;> simp [after, Touch.on, hi, h]
  | @abort i => by_cases hi : i = c <;> simp [after, Touch.on, hi, h]
  | _ => exact h

theorem Fits.touched {l : Ledger} {net net' : Net} {t : Touch} (h : l.Fits net)
    (ht : net.Touched t net') : (l.after t).Fits net' := by
  intro c ch' hc'
  rw [ht.channel, Option.map_eq_some_iff] at hc'
  obtain ⟨ch, hc, rfl⟩ := hc'
  obtain ⟨hqueue, hput, htaken⟩ := h c ch hc
  have hqueue' := balanced_after ht hc ((List.nil_append _).trans hqueue)
  rw [List.nil_append] at hqueue'
  cases ht with
  | @put i _ row =>
    by_cases hi : i = c
    · subst hi
      exact ⟨hqueue', by simp [after, Touch.on, hput], by simp [after, Touch.on, htaken]⟩
    · exact ⟨hqueue', by simp [after, Touch.on, hi, Function.update_of_ne (Ne.symm hi), hput],
        by simp [after, Touch.on, hi, htaken]⟩
  | @take i _ row =>
    by_cases hi : i = c
    · subst hi
      exact ⟨hqueue', by simp [after, Touch.on, hput], by simp [after, Touch.on, htaken]⟩
    · exact ⟨hqueue', by simp [after, Touch.on, hi, hput],
        by simp [after, Touch.on, hi, Function.update_of_ne (Ne.symm hi), htaken]⟩
  | @close i => by_cases hi : i = c <;> exact ⟨hqueue', by simp [after, Touch.on, hi, hput],
      by simp [after, Touch.on, hi, htaken]⟩
  | @abort i => by_cases hi : i = c <;> exact ⟨hqueue', by simp [after, Touch.on, hi, hput],
      by simp [after, Touch.on, hi, htaken]⟩
  | _ => exact ⟨hqueue', hput, htaken⟩

end Ledger

end Sluice
