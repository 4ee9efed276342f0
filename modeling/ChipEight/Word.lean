/-!
# ChipEight.Word — words, their bytes and their fields

A word is two bytes, the high one first.  Its four nibbles are the group `g`, the register fields
`x` and `y` and the small number `n`; the low byte is the field `kk` and the low twelve bits the
address field `nnn`.  Main statements: a word is determined by its bytes (`join_high_low`) and by
its group and address field (`ofFields_group_address`).
-/

namespace ChipEight.Word

/-- The word with the given high and low byte. -/
def join (high low : UInt8) : UInt16 := UInt16.ofNat (256 * high.toNat + low.toNat)

/-- The high byte. -/
def high (w : UInt16) : UInt8 := UInt8.ofNat (w.toNat / 256)

/-- The low byte, the field `kk`. -/
def low (w : UInt16) : UInt8 := UInt8.ofNat (w.toNat % 256)

/-- The high nibble, which tells the group of an instruction. -/
def group (w : UInt16) : Fin 16 := ⟨w.toNat / 4096, by have := w.toNat_lt; omega⟩

/-- The low nibble of the high byte, the field `x`. -/
def x (w : UInt16) : Fin 16 := ⟨w.toNat / 256 % 16, by omega⟩

/-- The high nibble of the low byte, the field `y`. -/
def y (w : UInt16) : Fin 16 := ⟨w.toNat / 16 % 16, by omega⟩

/-- The low nibble, the field `n`. -/
def n (w : UInt16) : Fin 16 := ⟨w.toNat % 16, by omega⟩

/-- The low twelve bits, the field `nnn`. -/
def address (w : UInt16) : Fin 4096 := ⟨w.toNat % 4096, by omega⟩

/-- The word of group `g` with address field `a`. -/
def ofAddress (g : Fin 16) (a : Fin 4096) : UInt16 := UInt16.ofNat (4096 * g + a)

/-- The word of group `g` with fields `x` and `kk`. -/
def ofByte (g x : Fin 16) (kk : UInt8) : UInt16 := UInt16.ofNat (4096 * g + 256 * x + kk.toNat)

/-- The word of group `g` with fields `x`, `y` and `n`. -/
def ofNibbles (g x y n : Fin 16) : UInt16 := UInt16.ofNat (4096 * g + 256 * x + 16 * y + n)

/-! ### Numbers behind the words -/

theorem toNat_join (high low : UInt8) : (join high low).toNat = 256 * high.toNat + low.toNat := by
  have h1 := high.toNat_lt
  have h2 := low.toNat_lt
  simp only [join, UInt16.toNat_ofNat']
  omega

theorem toNat_high (w : UInt16) : (high w).toNat = w.toNat / 256 := by
  have h := w.toNat_lt
  simp only [high, UInt8.toNat_ofNat']
  omega

theorem toNat_low (w : UInt16) : (low w).toNat = w.toNat % 256 := by
  simp only [low, UInt8.toNat_ofNat']
  omega

theorem toNat_ofAddress (g : Fin 16) (a : Fin 4096) : (ofAddress g a).toNat = 4096 * g + a := by
  simp only [ofAddress, UInt16.toNat_ofNat']
  omega

theorem toNat_ofByte (g x : Fin 16) (kk : UInt8) :
    (ofByte g x kk).toNat = 4096 * g + 256 * x + kk.toNat := by
  have h := kk.toNat_lt
  simp only [ofByte, UInt16.toNat_ofNat']
  omega

theorem toNat_ofNibbles (g x y n : Fin 16) :
    (ofNibbles g x y n).toNat = 4096 * g + 256 * x + 16 * y + n := by
  simp only [ofNibbles, UInt16.toNat_ofNat']
  omega

/-! ### Taking apart and putting together -/

@[simp] theorem join_high_low (w : UInt16) : join (high w) (low w) = w := by
  apply UInt16.toNat_inj.mp
  rw [toNat_join, toNat_high, toNat_low]
  omega

@[simp] theorem high_join (h l : UInt8) : high (join h l) = h := by
  have h2 := l.toNat_lt
  apply UInt8.toNat_inj.mp
  rw [toNat_high, toNat_join]
  omega

@[simp] theorem low_join (h l : UInt8) : low (join h l) = l := by
  have h2 := l.toNat_lt
  apply UInt8.toNat_inj.mp
  rw [toNat_low, toNat_join]
  omega

@[simp] theorem ofFields_group_address (w : UInt16) : ofAddress (group w) (address w) = w := by
  apply UInt16.toNat_inj.mp
  rw [toNat_ofAddress]
  simp only [group, address]
  omega

@[simp] theorem ofFields_group_byte (w : UInt16) : ofByte (group w) (x w) (low w) = w := by
  apply UInt16.toNat_inj.mp
  rw [toNat_ofByte, toNat_low]
  simp only [group, x]
  omega

@[simp] theorem ofFields_group_nibbles (w : UInt16) :
    ofNibbles (group w) (x w) (y w) (n w) = w := by
  apply UInt16.toNat_inj.mp
  rw [toNat_ofNibbles]
  simp only [group, x, y, n]
  omega

@[simp] theorem group_ofAddress (g : Fin 16) (a : Fin 4096) : group (ofAddress g a) = g := by
  ext; simp only [group, toNat_ofAddress]; omega

@[simp] theorem address_ofAddress (g : Fin 16) (a : Fin 4096) : address (ofAddress g a) = a := by
  ext; simp only [address, toNat_ofAddress]; omega

@[simp] theorem group_ofByte (g x : Fin 16) (kk : UInt8) : group (ofByte g x kk) = g := by
  have h := kk.toNat_lt
  ext; simp only [group, toNat_ofByte]; omega

@[simp] theorem x_ofByte (g r : Fin 16) (kk : UInt8) : x (ofByte g r kk) = r := by
  have h := kk.toNat_lt
  ext; simp only [x, toNat_ofByte]; omega

@[simp] theorem low_ofByte (g r : Fin 16) (kk : UInt8) : low (ofByte g r kk) = kk := by
  have h := kk.toNat_lt
  apply UInt8.toNat_inj.mp
  rw [toNat_low, toNat_ofByte]
  omega

@[simp] theorem group_ofNibbles (g x y n : Fin 16) : group (ofNibbles g x y n) = g := by
  ext; simp only [group, toNat_ofNibbles]; omega

@[simp] theorem x_ofNibbles (g r s k : Fin 16) : x (ofNibbles g r s k) = r := by
  ext; simp only [x, toNat_ofNibbles]; omega

@[simp] theorem y_ofNibbles (g r s k : Fin 16) : y (ofNibbles g r s k) = s := by
  ext; simp only [y, toNat_ofNibbles]; omega

@[simp] theorem n_ofNibbles (g r s k : Fin 16) : n (ofNibbles g r s k) = k := by
  ext; simp only [n, toNat_ofNibbles]; omega

end ChipEight.Word
