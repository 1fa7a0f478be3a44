import Mathlib.Tactic
import Sluice.Channel.Basic

/-! What each operation on a channel comes to, by the state that it finds. -/

namespace Sluice.Channel

variable {α : Type}

def push (c : Channel α) (a : α) : Channel α :=
  { c with
    queue := c.queue ++ [a]
    rowsPut := c.rowsPut + 1
    peakDepth := max c.peakDepth (c.queue.length + 1) }

def pop (c : Channel α) (rest : List α) : Channel α :=
  { c with queue := rest, rowsTaken := c.rowsTaken + 1 }

theorem put_cases (c : Channel α) (a : α) :
    c.aborted = true ∧ c.put a = .returns (.error .aborted) c ∨
    c.aborted = false ∧ c.closed = true ∧ c.put a = .returns (.error .closed) c ∨
    c.aborted = false ∧ c.closed = false ∧ c.capacity ≤ c.queue.length ∧ c.put a = .waits ∨
    c.aborted = false ∧ c.closed = false ∧ c.queue.length < c.capacity ∧
      c.put a = .returns (.ok ()) (c.push a) := by
  cases ha : c.aborted with
  | true => exact .inl ⟨rfl, by simp [put, ha]⟩
  | false =>
    cases hc : c.closed with
    | true => exact .inr (.inl ⟨rfl, rfl, by simp [put, ha, hc]⟩)
    | false =>
      by_cases hfull : c.capacity ≤ c.queue.length
      · exact .inr (.inr (.inl ⟨rfl, rfl, hfull, by simp [put, ha, hc, hfull]⟩))
      · exact .inr (.inr (.inr ⟨rfl, rfl, by omega, by simp [put, push, ha, hc, hfull]⟩))

theorem get_cases (c : Channel α) :
    c.aborted = true ∧ c.get = .returns (.error .aborted) c ∨
    c.aborted = false ∧ c.closed = true ∧ c.queue = [] ∧ c.get = .returns (.ok none) c ∨
    c.aborted = false ∧ c.closed = false ∧ c.queue = [] ∧ c.get = .waits ∨
    c.aborted = false ∧ ∃ a rest, c.queue = a :: rest ∧
      c.get = .returns (.ok (some a)) (c.pop rest) := by
  cases ha : c.aborted with
  | true => exact .inl ⟨rfl, by simp [get, ha]⟩
  | false =>
    cases hq : c.queue with
    | nil =>
      cases hc : c.closed with
      | true => exact .inr (.inl ⟨rfl, rfl, rfl, by simp [get, ha, hc, hq]⟩)
      | false => exact .inr (.inr (.inl ⟨rfl, rfl, rfl, by simp [get, ha, hc, hq]⟩))
    | cons a rest =>
      exact .inr (.inr (.inr ⟨rfl, a, rest, rfl, by simp [get, pop, ha, hq]⟩))

theorem tryGet_cases (c : Channel α) :
    c.aborted = true ∧ c.tryGet = (.error .aborted, c) ∨
    c.aborted = false ∧ c.closed = true ∧ c.queue = [] ∧ c.tryGet = (.ok .ended, c) ∨
    c.aborted = false ∧ c.closed = false ∧ c.queue = [] ∧ c.tryGet = (.ok .empty, c) ∨
    c.aborted = false ∧ ∃ a rest, c.queue = a :: rest ∧
      c.tryGet = (.ok (.item a), c.pop rest) := by
  cases ha : c.aborted with
  | true => exact .inl ⟨rfl, by simp [tryGet, ha]⟩
  | false =>
    cases hq : c.queue with
    | nil =>
      cases hc : c.closed with
      | true => exact .inr (.inl ⟨rfl, rfl, rfl, by simp [tryGet, ha, hc, hq]⟩)
      | false => exact .inr (.inr (.inl ⟨rfl, rfl, rfl, by simp [tryGet, ha, hc, hq]⟩))
    | cons a rest =>
      exact .inr (.inr (.inr ⟨rfl, a, rest, rfl, by simp [tryGet, pop, ha, hq]⟩))

@[simp] theorem push_queue (c : Channel α) (a : α) : (c.push a).queue = c.queue ++ [a] := rfl
@[simp] theorem push_closed (c : Channel α) (a : α) : (c.push a).closed = c.closed := rfl
@[simp] theorem push_aborted (c : Channel α) (a : α) : (c.push a).aborted = c.aborted := rfl
@[simp] theorem push_capacity (c : Channel α) (a : α) : (c.push a).capacity = c.capacity := rfl
@[simp] theorem push_rowsPut (c : Channel α) (a : α) : (c.push a).rowsPut = c.rowsPut + 1 := rfl
@[simp] theorem push_rowsTaken (c : Channel α) (a : α) : (c.push a).rowsTaken = c.rowsTaken := rfl
@[simp] theorem push_peakDepth (c : Channel α) (a : α) :
    (c.push a).peakDepth = max c.peakDepth (c.queue.length + 1) := rfl

@[simp] theorem pop_queue (c : Channel α) (rest : List α) : (c.pop rest).queue = rest := rfl
@[simp] theorem pop_closed (c : Channel α) (rest : List α) : (c.pop rest).closed = c.closed := rfl
@[simp] theorem pop_aborted (c : Channel α) (rest : List α) : (c.pop rest).aborted = c.aborted := rfl
@[simp] theorem pop_capacity (c : Channel α) (rest : List α) :
    (c.pop rest).capacity = c.capacity := rfl
@[simp] theorem pop_rowsPut (c : Channel α) (rest : List α) : (c.pop rest).rowsPut = c.rowsPut := rfl
@[simp] theorem pop_rowsTaken (c : Channel α) (rest : List α) :
    (c.pop rest).rowsTaken = c.rowsTaken + 1 := rfl
@[simp] theorem pop_peakDepth (c : Channel α) (rest : List α) :
    (c.pop rest).peakDepth = c.peakDepth := rfl

@[simp] theorem close_queue (c : Channel α) : c.close.queue = c.queue := rfl
@[simp] theorem close_closed (c : Channel α) : c.close.closed = true := rfl
@[simp] theorem close_aborted (c : Channel α) : c.close.aborted = c.aborted := rfl
@[simp] theorem close_capacity (c : Channel α) : c.close.capacity = c.capacity := rfl
@[simp] theorem close_rowsPut (c : Channel α) : c.close.rowsPut = c.rowsPut := rfl
@[simp] theorem close_rowsTaken (c : Channel α) : c.close.rowsTaken = c.rowsTaken := rfl
@[simp] theorem close_peakDepth (c : Channel α) : c.close.peakDepth = c.peakDepth := rfl

@[simp] theorem abort_queue (c : Channel α) : c.abort.queue = c.queue := rfl
@[simp] theorem abort_closed (c : Channel α) : c.abort.closed = c.closed := rfl
@[simp] theorem abort_aborted (c : Channel α) : c.abort.aborted = true := rfl
@[simp] theorem abort_capacity (c : Channel α) : c.abort.capacity = c.capacity := rfl
@[simp] theorem abort_rowsPut (c : Channel α) : c.abort.rowsPut = c.rowsPut := rfl
@[simp] theorem abort_rowsTaken (c : Channel α) : c.abort.rowsTaken = c.rowsTaken := rfl
@[simp] theorem abort_peakDepth (c : Channel α) : c.abort.peakDepth = c.peakDepth := rfl

end Sluice.Channel
