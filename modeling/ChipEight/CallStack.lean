import ChipEight.Breach

/-!
# ChipEight.CallStack — at most sixteen return addresses

Sixteen slots and the number of those in use; a slot given up keeps its old content until it is
used again.  `toList` is the view, the slots in use from the bottom up.  Pushing onto a full stack
and popping from an empty one are breaches.
-/

namespace ChipEight

/-- The return addresses of the calls in progress, the earliest first. -/
structure CallStack where
  slots : Vector UInt16 16
  /-- Number of slots in use, and so the index of the next free one. -/
  depth : Nat
  depth_le : depth ≤ 16
  deriving DecidableEq

namespace CallStack

/-- Number of slots. -/
abbrev capacity : Nat := 16

/-- No call in progress, every slot zero. -/
def empty : CallStack := ⟨Vector.replicate 16 0, 0, by decide⟩

/-- No slot is in use. -/
def isEmpty (s : CallStack) : Bool := s.depth == 0

/-- Every slot is in use. -/
def isFull (s : CallStack) : Bool := s.depth == capacity

/-- The slots in use, bottom first. -/
def toList (s : CallStack) : List UInt16 := s.slots.toList.take s.depth

/-- One more return address on top. -/
def push (s : CallStack) (a : UInt16) : Except Breach CallStack :=
  if h : s.depth < capacity then .ok ⟨s.slots.set s.depth a, s.depth + 1, h⟩ else .error .stackFull

/-- The return address on top, and the stack without it. -/
def pop (s : CallStack) : Except Breach (UInt16 × CallStack) :=
  if h : 0 < s.depth then
    have hd : s.depth - 1 < 16 := by have := s.depth_le; omega
    .ok (s.slots[s.depth - 1], ⟨s.slots, s.depth - 1, Nat.le_of_lt hd⟩)
  else .error .stackEmpty

/-! ### The view of each operation -/

theorem length_toList (s : CallStack) : s.toList.length = s.depth := by
  have h := s.depth_le
  simp [toList]
  omega

@[simp] theorem toList_empty : empty.toList = [] := rfl

theorem toList_of_push {s t : CallStack} {a : UInt16} (h : s.push a = .ok t) :
    t.toList = s.toList ++ [a] := by
  unfold push at h
  split at h
  · next hd =>
    cases h
    have hl : s.depth < s.slots.toList.length := by simpa using hd
    simp only [toList, Vector.toList_set]
    rw [List.take_add_one, List.take_set_of_le (Nat.le_refl _), List.getElem?_set_self hl]
    rfl
  · cases h

theorem toList_of_pop {s t : CallStack} {a : UInt16} (h : s.pop = .ok (a, t)) :
    s.toList = t.toList ++ [a] := by
  unfold pop at h
  split at h
  · next hd =>
    have h16 := s.depth_le
    cases h
    obtain ⟨k, hk⟩ : ∃ k, s.depth = k + 1 := ⟨s.depth - 1, by omega⟩
    simp only [toList, hk, Nat.add_sub_cancel]
    rw [List.take_add_one, List.getElem?_eq_getElem (by simp; omega)]
    rfl
  · cases h

theorem push_eq_error_iff {s : CallStack} {a : UInt16} {b : Breach} :
    s.push a = .error b ↔ s.isFull = true ∧ b = .stackFull := by
  have h := s.depth_le
  unfold push
  split
  · next hd =>
    simp [isFull]
    omega
  · next hd =>
    have he : s.depth = capacity := Nat.le_antisymm h (Nat.le_of_not_lt hd)
    simp only [Except.error.injEq, isFull, he, BEq.rfl, true_and]
    exact eq_comm

theorem pop_eq_error_iff {s : CallStack} {b : Breach} :
    s.pop = .error b ↔ s.isEmpty = true ∧ b = .stackEmpty := by
  unfold pop
  split
  · next hd =>
    simp [isEmpty]
    omega
  · next hd =>
    have he : s.depth = 0 := Nat.eq_zero_of_not_pos hd
    simp only [Except.error.injEq, isEmpty, he, BEq.rfl, true_and]
    exact eq_comm

theorem exists_push {s : CallStack} (h : s.isFull = false) (a : UInt16) :
    ∃ t, s.push a = .ok t := by
  cases e : s.push a with
  | ok t => exact ⟨t, rfl⟩
  | error b => rw [(push_eq_error_iff.mp e).1] at h; cases h

theorem exists_pop {s : CallStack} (h : s.isEmpty = false) : ∃ a t, s.pop = .ok (a, t) := by
  cases e : s.pop with
  | ok p => exact ⟨p.1, p.2, rfl⟩
  | error b => rw [(pop_eq_error_iff.mp e).1] at h; cases h

end CallStack

end ChipEight
