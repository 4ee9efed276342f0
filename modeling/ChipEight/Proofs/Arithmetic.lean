import ChipEight.Proofs.Cycle

/-!
# ChipEight.Proofs.Arithmetic — sums, differences and shifts of registers

Additions, subtractions and shifts of bytes lose a bit, which goes to the flag register.  The laws of
`Vm.GivesFlagged` say how: result and flag together are the exact sum, difference or shift of the
operands, as numbers without a limit.  Main statement: each arithmetic instruction obeys its law for
any two registers, also when they are the same or the flag register, and those without a flag leave
it alone (`arithmetic_exact`).
-/

namespace ChipEight

namespace Vm

variable {vm : Vm} {i : Instr} {x : Reg}

/-- The instruction gives `Vx` a value that is as the law says, and changes nothing else. -/
def Gives (vm : Vm) (i : Instr) (x : Reg) (law : UInt8 → Prop) : Prop :=
  ∃ (v : UInt8) (after : Vm), vm.Does i .ok after ∧ law v ∧
    (∀ r, after.machine.reg r = if r = x then v else vm.machine.reg r) ∧
    after = { vm with machine := { vm.machine with regs := after.machine.regs } }

/-- The instruction has a result and a flag, one or zero, that are as the law says.  The flag goes to
`VF`, the result to `Vx` unless that is `VF`, and nothing else changes. -/
def GivesFlagged (vm : Vm) (i : Instr) (x : Reg) (law : Int → Int → Prop) : Prop :=
  ∃ (v f : UInt8) (after : Vm), vm.Does i .ok after ∧ law v.toNat f.toNat ∧ (f = 0 ∨ f = 1) ∧
    (∀ r, after.machine.reg r = if r = Reg.flag then f else if r = x then v else vm.machine.reg r) ∧
    after = { vm with machine := { vm.machine with regs := after.machine.regs } }

theorem gives_of_run {v : UInt8} {law : UInt8 → Prop}
    (h : ∀ random, (Act.exec random i).run vm =
      .ok {} { vm with machine := vm.machine.setReg x v }) (hl : law v) : vm.Gives i x law := by
  refine ⟨v, _, .of_run h, hl, fun r => ?_, rfl⟩
  simp only [Machine.reg_setReg, eq_comm]

theorem givesFlagged_of_run {v : UInt8} {flag : Bool} {law : Int → Int → Prop}
    (h : ∀ random, (Act.exec random i).run vm =
      .ok {} { vm with machine := (vm.machine.setReg x v).setFlag flag })
    (hl : law v.toNat flag.toNat) : vm.GivesFlagged i x law := by
  refine ⟨v, if flag then 1 else 0, _, .of_run h, ?_, ?_, fun r => ?_, rfl⟩
  · cases flag <;> exact hl
  · cases flag <;> decide
  · simp only [Machine.reg_setFlag, Machine.reg_setReg, eq_comm]

end Vm

/-! ### Bytes as numbers -/

namespace Byte

variable (a b : UInt8)

theorem add_carry :
    (a.toNat + b.toNat : Int) = (a + b).toNat + 256 * (decide (256 ≤ a.toNat + b.toNat)).toNat := by
  have ha := a.toNat_lt
  have hb := b.toNat_lt
  rw [UInt8.toNat_add]
  by_cases h : 256 ≤ a.toNat + b.toNat
  · simp only [h, decide_true, Bool.toNat_true]
    omega
  · simp only [h, decide_false, Bool.toNat_false]
    omega

theorem sub_borrow :
    (a.toNat - b.toNat : Int) = (a - b).toNat - 256 * (1 - (decide (b ≤ a)).toNat) := by
  have ha := a.toNat_lt
  have hb := b.toNat_lt
  rw [UInt8.toNat_sub]
  by_cases h : b ≤ a
  · have hle := UInt8.le_iff_toNat_le.mp h
    simp only [h, decide_true, Bool.toNat_true]
    omega
  · have hlt : ¬ b.toNat ≤ a.toNat := fun hle => h (UInt8.le_iff_toNat_le.mpr hle)
    simp only [h, decide_false, Bool.toNat_false]
    omega

theorem half_bit : (a.toNat : Int) = 2 * (a / 2).toNat + (decide (a % 2 = 1)).toNat := by
  have hodd : a % 2 = 1 ↔ a.toNat % 2 = 1 := by
    rw [← UInt8.toNat_inj, UInt8.toNat_mod]
    rfl
  have htwo : (2 : UInt8).toNat = 2 := rfl
  rw [UInt8.toNat_div, htwo]
  by_cases h : a.toNat % 2 = 1
  · simp only [hodd, h, decide_true, Bool.toNat_true]
    omega
  · simp only [hodd, h, decide_false, Bool.toNat_false]
    omega

theorem double_bit : (2 * a.toNat : Int) = (a + a).toNat + 256 * (decide (128 ≤ a)).toNat := by
  have hcarry := add_carry a a
  have hhigh : 128 ≤ a ↔ 256 ≤ a.toNat + a.toNat := by
    have h128 : (128 : UInt8).toNat = 128 := rfl
    rw [UInt8.le_iff_toNat_le, h128]
    omega
  rw [decide_eq_decide.mpr hhigh, ← hcarry]
  omega

end Byte

/-! ### Instructions -/

namespace Vm

/-- With `a` and `b` for the values of `Vx` and `Vy` before, result and flag of the arithmetic
instructions are related to the exact sum, difference, half and double, whatever the two registers;
the flag is one when nothing was borrowed, and otherwise the bit that was lost.  Shifts do not look
at `Vy`.  Adding a byte wraps, and like the four operations on single bits it has no flag. -/
theorem arithmetic_exact (vm : Vm) (x y : Reg) (k : UInt8) :
    let a := (vm.machine.reg x).toNat
    let b := (vm.machine.reg y).toNat
    vm.GivesFlagged (.pair .add x y) x (fun v f => (a + b : Int) = v + 256 * f) ∧
    vm.GivesFlagged (.pair .sub x y) x (fun v f => (a - b : Int) = v - 256 * (1 - f)) ∧
    vm.GivesFlagged (.pair .subFrom x y) x (fun v f => (b - a : Int) = v - 256 * (1 - f)) ∧
    vm.GivesFlagged (.pair .shiftRight x y) x (fun v f => (a : Int) = 2 * v + f) ∧
    vm.GivesFlagged (.pair .shiftLeft x y) x (fun v f => (2 * a : Int) = v + 256 * f) ∧
    (∀ z random,
      (Act.exec random (.pair .shiftRight x y)).run vm =
          (Act.exec random (.pair .shiftRight x z)).run vm ∧
        (Act.exec random (.pair .shiftLeft x y)).run vm =
          (Act.exec random (.pair .shiftLeft x z)).run vm) ∧
    vm.Gives (.byte .add x k) x (fun v => v.toNat = (a + k.toNat) % 256) ∧
    vm.Gives (.pair .copy x y) x (fun v => v.toNat = b) ∧
    vm.Gives (.pair .or x y) x
      (fun v => ∀ j, v.toNat.testBit j = (a.testBit j || b.testBit j)) ∧
    vm.Gives (.pair .and x y) x
      (fun v => ∀ j, v.toNat.testBit j = (a.testBit j && b.testBit j)) ∧
    vm.Gives (.pair .xor x y) x
      (fun v => ∀ j, v.toNat.testBit j = (a.testBit j ^^ b.testBit j)) := by
  intro a b
  refine ⟨?_, ?_, ?_, ?_, ?_, fun z random => ⟨rfl, rfl⟩, ?_, ?_, ?_, ?_, ?_⟩
  · exact givesFlagged_of_run (fun _ => rfl) (Byte.add_carry _ _)
  · exact givesFlagged_of_run (fun _ => rfl) (Byte.sub_borrow _ _)
  · exact givesFlagged_of_run (fun _ => rfl) (Byte.sub_borrow _ _)
  · exact givesFlagged_of_run (fun _ => rfl) (Byte.half_bit _)
  · exact givesFlagged_of_run (fun _ => rfl) (Byte.double_bit _)
  · exact gives_of_run (fun _ => rfl) (UInt8.toNat_add _ _)
  · exact gives_of_run (fun _ => rfl) rfl
  · refine gives_of_run (fun _ => rfl) fun j => ?_
    rw [UInt8.toNat_or, Nat.testBit_or]
  · refine gives_of_run (fun _ => rfl) fun j => ?_
    rw [UInt8.toNat_and, Nat.testBit_and]
  · refine gives_of_run (fun _ => rfl) fun j => ?_
    rw [UInt8.toNat_xor, Nat.testBit_xor]

end Vm

end ChipEight
