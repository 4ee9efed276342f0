/-!
# ChipEight.Keypad — sixteen keys and a latch

A key is a number below sixteen.  The keypad knows which keys are held, one bit for each, and the
latch keeps the key pressed last until it is taken, so that a key let go before anyone looked is
still seen.  What each operation does to the bits is told by `isDown`, key by key.
-/

namespace ChipEight

/-- One of the sixteen keys. -/
abbrev Key := Fin 16

namespace Key

/-- Number of keys. -/
abbrev count : Nat := 16

/-- The key with the given number, if there is one. -/
def ofNat? (n : Nat) : Option Key := if h : n < 16 then some ⟨n, h⟩ else none

/-- The short name, such as `ka`. -/
def text (k : Key) : String := String.ofList ['k', Nat.digitChar k.val]

/-- The long name, such as `KeyA`. -/
def name (k : Key) : String := "Key" ++ String.ofList [(Nat.digitChar k.val).toUpper]

/-- The word in which only the key's bit is set. -/
def mask (k : Key) : UInt16 := 1 <<< UInt16.ofNat k.val

/-- What is said of a number that is no key. -/
def refusal (n : Nat) : String :=
  "keycode must be in range 0 <= keycode < 16, got " ++ toString n

theorem ofNat?_eq_some_iff {n : Nat} {k : Key} : ofNat? n = some k ↔ n = k := by
  rw [ofNat?, Option.dite_none_right_eq_some]
  constructor
  · rintro ⟨h, hk⟩
    rw [← Option.some.inj hk]
  · rintro rfl
    exact ⟨k.isLt, rfl⟩

theorem mask_ne_zero (k : Key) : k.mask ≠ 0 := by
  revert k
  decide

theorem toBitVec_mask (k : Key) : k.mask.toBitVec = BitVec.twoPow 16 k.val := by
  revert k
  decide

theorem getLsbD_mask (k j : Key) : k.mask.toBitVec.getLsbD j.val = decide (k = j) := by
  revert k j
  decide

end Key

/-- The keys held down, and the last press not yet taken. -/
structure Keypad where
  /-- The bit of a key is set while the key is held. -/
  held : UInt16
  latch : Option Key
  deriving DecidableEq

namespace Keypad

/-- No key held, nothing latched. -/
def idle : Keypad := ⟨0, none⟩

/-- The key is held. -/
def isDown (p : Keypad) (k : Key) : Bool := p.held &&& k.mask != 0

/-- The key goes down and is latched. -/
def press (p : Keypad) (k : Key) : Keypad := ⟨p.held ||| k.mask, some k⟩

/-- The key goes up; the latch stays. -/
def release (p : Keypad) (k : Key) : Keypad := ⟨p.held &&& ~~~k.mask, p.latch⟩

/-- The keypad with an empty latch. -/
def unlatch (p : Keypad) : Keypad := ⟨p.held, none⟩

/-- The keys held, in ascending order. -/
def heldKeys (p : Keypad) : List Key := (List.finRange 16).filter p.isDown

/-- Some key is held. -/
def anyDown (p : Keypad) : Bool := p.held != 0

/-- The held keys in words, nothing when there are none. -/
def report (p : Keypad) : String :=
  if p.anyDown then "keys:" ++ String.join (p.heldKeys.map fun k => " " ++ k.text) else ""

/-! ### Bits -/

theorem isDown_eq (p : Keypad) (k : Key) : p.isDown k = p.held.toBitVec.getLsbD k.val := by
  have hbits : (p.held &&& k.mask).toBitVec =
      if p.held.toBitVec.getLsbD k.val then k.mask.toBitVec else 0 := by
    rw [UInt16.toBitVec_and, Key.toBitVec_mask, BitVec.and_twoPow]
    rfl
  cases hbit : p.held.toBitVec.getLsbD k.val with
  | true =>
    rw [hbit, if_pos rfl] at hbits
    rw [isDown, UInt16.toBitVec_inj.mp hbits]
    exact bne_iff_ne.mpr k.mask_ne_zero
  | false =>
    rw [hbit, if_neg Bool.false_ne_true] at hbits
    have hzero : p.held &&& k.mask = 0 := UInt16.toBitVec_inj.mp hbits
    rw [isDown, hzero]
    rfl

theorem held_ext {p q : Keypad} (h : ∀ k, p.isDown k = q.isDown k) : p.held = q.held := by
  apply UInt16.toBitVec_inj.mp
  apply BitVec.eq_of_getLsbD_eq
  intro i hi
  rw [← isDown_eq p ⟨i, hi⟩, h, isDown_eq]

/-! ### The view of each operation -/

@[simp] theorem isDown_idle (k : Key) : idle.isDown k = false := by
  simp [isDown_eq, idle]

@[simp] theorem isDown_press (p : Keypad) (k j : Key) :
    (p.press k).isDown j = (decide (k = j) || p.isDown j) := by
  simp only [isDown_eq, press, UInt16.toBitVec_or, BitVec.getLsbD_or, Key.getLsbD_mask,
    Bool.or_comm]

@[simp] theorem isDown_release (p : Keypad) (k j : Key) :
    (p.release k).isDown j = (!decide (k = j) && p.isDown j) := by
  simp only [isDown_eq, release, UInt16.toBitVec_and, UInt16.toBitVec_not, BitVec.getLsbD_and,
    BitVec.getLsbD_not, Key.getLsbD_mask, j.isLt, decide_true, Bool.true_and, Bool.and_comm]

@[simp] theorem isDown_unlatch (p : Keypad) (k : Key) : p.unlatch.isDown k = p.isDown k := rfl

theorem mem_heldKeys {p : Keypad} {k : Key} : k ∈ p.heldKeys ↔ p.isDown k = true := by
  simp [heldKeys, List.mem_filter]

end Keypad

end ChipEight
