import Mathlib.Data.Finset.Sort

/-! A bounded channel: first in, first out, and never above its capacity. -/

namespace OmniBridge

structure Channel (α : Type*) (capacity : Nat) where
  items : List α
  fits : items.length ≤ capacity

namespace Channel

variable {α : Type*} {capacity : Nat} {q r : Channel α capacity} {a : α}

def empty : Channel α capacity := ⟨[], Nat.zero_le capacity⟩

def send (a : α) (q : Channel α capacity) : Option (Channel α capacity) :=
  if h : q.items.length < capacity then
    some ⟨q.items ++ [a], by rw [List.length_append, List.length_singleton]; exact h⟩
  else none

def recv : Channel α capacity → Option (α × Channel α capacity)
  | ⟨[], _⟩ => none
  | ⟨a :: rest, h⟩ => some (a, ⟨rest, Nat.le_of_succ_le h⟩)

theorem send_eq_some (h : q.send a = some r) : r.items = q.items ++ [a] := by
  unfold send at h
  split at h
  · exact Option.some.inj h ▸ rfl
  · cases h

theorem send_eq_none : q.send a = none ↔ q.items.length = capacity := by
  have hfits := q.fits
  unfold send
  split
  · refine iff_of_false nofun ?_
    omega
  · refine iff_of_true rfl ?_
    omega

theorem recv_eq_some (h : q.recv = some (a, r)) : q.items = a :: r.items := by
  obtain ⟨items, _⟩ := q
  cases items with
  | nil => cases h
  | cons =>
    cases h
    rfl

theorem recv_eq_none : q.recv = none ↔ q.items = [] := by
  obtain ⟨items, _⟩ := q
  cases items with
  | nil => exact iff_of_true rfl rfl
  | cons => exact iff_of_false nofun nofun

theorem length_send (h : q.send a = some r) : r.items.length = q.items.length + 1 := by
  rw [send_eq_some h, List.length_append, List.length_singleton]

theorem length_recv (h : q.recv = some (a, r)) : q.items.length = r.items.length + 1 := by
  rw [recv_eq_some h, List.length_cons]

end Channel

end OmniBridge
