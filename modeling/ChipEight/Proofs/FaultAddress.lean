import ChipEight.Proofs.FaultTable
import ChipEight.Proofs.Failure

/-!
# ChipEight.Proofs.FaultAddress — the address told when bytes are missing

A cycle needs the two bytes at the program counter and those that the word there needs from `I` on
(`Machine.NeedsByte`); when it cannot have all of them, it fails and tells an address.  Main
statement: that address is one of a needed byte past the end of memory, but for a fetch at the last
byte of memory and for a sprite without rows; and the latter is the only cycle that fails so
although every byte that it needs is there (`outOfBounds_sound_iff`).
-/

namespace ChipEight

/-- The next cycle needs the byte at an address. -/
inductive Machine.NeedsByte (m : Machine) : Nat → Prop
  /-- It is one of the two bytes of the word. -/
  | word {a : Nat} (hl : m.pc ≤ a) (hu : a ≤ m.pc + 1) : m.NeedsByte a
  /-- It is one of those that the word needs from `I` on. -/
  | span {w : UInt16} {k a : Nat} (hw : m.word? = some w) (hk : Word.Needs w k)
      (hl : m.index.toNat ≤ a) (hu : a < m.index.toNat + k) : m.NeedsByte a

/-! ### Sprites without rows -/

namespace Word

variable {w : UInt16} {k : Nat}

theorem fits_rowless_iff : Fits w "Dxy0" ↔ Fits w "Dxyn" ∧ n w = 0 := by
  show Fits w (String.ofList [Hex.digit 0xD, 'x', 'y', Hex.digit 0x0]) ↔
    Fits w (String.ofList [Hex.digit 0xD, 'x', 'y', 'n']) ∧ _
  have hzero : n w = 0 ↔ (n w).val = 0 := Fin.ext_iff
  rw [fits_ofList, fits_ofList, allows_digit (by decide) (n w), hzero]
  simp only [allows_n, and_true, and_assoc]

/-- The only words that point to bytes and need none of them draw a sprite without rows. -/
theorem Needs.eq_zero_iff (h : Needs w k) : k = 0 ↔ Fits w "Dxy0" := by
  constructor
  · intro hk
    cases h with
    | draw h => exact fits_rowless_iff.mpr ⟨h, Fin.ext hk⟩
    | storeDigits h | storeRegs h | loadRegs h => cases hk
  · intro hfit
    obtain ⟨hdraw, hn⟩ := fits_rowless_iff.mp hfit
    have hd := Instr.decode?_of_fits (i := .draw 0 0 0) hdraw rfl
    obtain ⟨i, hi, hs⟩ := h.exists_span?
    rw [hd] at hi
    cases hi
    cases hs
    exact congrArg Fin.val hn

end Word

/-! ### The address -/

/-- A sprite without rows needs nothing but its word. -/
theorem Machine.NeedsByte.lt_of_rowless {m : Machine} {w : UInt16} {a : Nat} (h : m.NeedsByte a)
    (hw : m.word? = some w) (hfit : Word.Fits w "Dxy0") : a < 4096 := by
  have hpc := pc_le_of_word? hw
  cases h with
  | word _ hu => omega
  | span hw' hk hl hu =>
    obtain rfl := Option.some.inj (hw.symm.trans hw')
    have hnone := hk.eq_zero_iff.mpr hfit
    omega

namespace Vm

variable {vm : Vm} {random : UInt8} {address : Nat}

/-- When a cycle fails because bytes are missing, it tells the address of a byte that it needs and
that lies past the end of memory, unless the word begins at the last byte of memory or draws a
sprite without rows.  All bytes that it needs lie within memory exactly if it draws such a sprite. -/
theorem outOfBounds_sound_iff
    (h : (vm.cycle random).result = .error (.fault (.outOfBounds address))) :
    (vm.machine.NeedsByte address ∧ 4096 ≤ address ↔
      vm.machine.pc ≠ 4095 ∧ ∀ w, vm.machine.word? = some w → ¬ Word.Fits w "Dxy0") ∧
    ((∀ a, vm.machine.NeedsByte a → a < 4096) ↔
      ∃ w, vm.machine.word? = some w ∧ Word.Fits w "Dxy0") := by
  have hinside : (∃ w, vm.machine.word? = some w ∧ Word.Fits w "Dxy0") →
      ∀ a, vm.machine.NeedsByte a → a < 4096 := by
    rintro ⟨w, hw, hfit⟩ a ha
    exact ha.lt_of_rowless hw hfit
  obtain ⟨f, hf, hfault⟩ := cycle_result_eq_error_iff.mp h
  cases hf
  cases Machine.fault?_eq_some_iff.mp hfault with
  | fetch hpc =>
    have hnone := Machine.word?_eq_none_iff.mpr hpc
    have hneeds : vm.machine.NeedsByte vm.machine.pc := .word (Nat.le_refl _) (Nat.le_succ _)
    refine ⟨⟨?_, ?_⟩, ⟨?_, hinside⟩⟩
    · rintro ⟨-, hpast⟩
      exact ⟨by omega, by simp [hnone]⟩
    · rintro ⟨hne, -⟩
      exact ⟨hneeds, by omega⟩
    · intro hall
      have hlast := hall _ (.word (Nat.le_succ vm.machine.pc) (Nat.le_refl _))
      omega
  | @past w k hw hk hpast =>
    have hpc := Machine.pc_le_of_word? hw
    have hrowless : (∃ w, vm.machine.word? = some w ∧ Word.Fits w "Dxy0") ↔ k = 0 := by
      simp only [hw, Option.some.injEq, exists_eq_left']
      exact hk.eq_zero_iff.symm
    have hneeds : k ≠ 0 → vm.machine.NeedsByte (vm.machine.index.toNat + k - 1) :=
      fun hne => .span hw hk (by omega) (by omega)
    refine ⟨⟨?_, ?_⟩, ⟨?_, hinside⟩⟩
    · rintro ⟨hn, hle⟩
      refine ⟨by omega, fun w' hw' hfit => ?_⟩
      have hlt := hinside ⟨w', hw', hfit⟩ _ hn
      omega
    · rintro ⟨-, hno⟩
      have hne : k ≠ 0 := fun hk0 => by
        obtain ⟨w', hw', hfit⟩ := hrowless.mpr hk0
        exact hno w' hw' hfit
      exact ⟨hneeds hne, by omega⟩
    · intro hall
      refine hrowless.mpr (Classical.not_not.mp fun hne => ?_)
      have hlt := hall _ (hneeds hne)
      omega

/-- A program that points `I` at the last byte but one and draws three rows from there: the byte told
is the first one past the end of memory. -/
theorem outOfBounds_sound_iff_rows :
    let vm := (new {}).afterAll [.load [0xAF, 0xFE, 0xD0, 0x03], .cycle 0]
    (vm.cycle 0).result = .error (.fault (.outOfBounds 4096)) ∧ vm.machine.NeedsByte 4096 := by
  intro vm
  let start := (new {}).installed [0xAF, 0xFE, 0xD0, 0x03]
  have hnext : start.machine.next = .ok (.addr .loadIndex 0xFFE) :=
    Machine.next_of_decode? (word?_installed (new {}) 0xAF 0xFE [0xD0, 0x03]) (by decide)
  have hvm : vm = { start with
      machine := { start.machine with pc := start.machine.pc + 2, index := 0xFFE } } := by
    have hcycle : vm = (start.cycle 0).vm := afterAll_load_cycle (by decide) 0 (new {})
    rw [hcycle, (Does.of_run fun _ => rfl).cycle_eq 0 hnext]
    rfl
  have hindex : vm.machine.index = 0xFFE := by rw [hvm]
  have hmemory : vm.machine.memory = start.machine.memory := by rw [hvm]
  have hpc : vm.machine.pc = Machine.programStart + 2 := by
    rw [hvm, ← pc_installed (new {}) [0xAF, 0xFE, 0xD0, 0x03]]
  have hw : vm.machine.word? = some 0xD003 :=
    word?_of_program (hmemory.trans (memory_installed _ _)) hpc (by decide) rfl rfl
  have hfails : (vm.cycle 0).result = .error (.fault (.outOfBounds 4096)) := by
    have hpast := Machine.Faulty.past hw (.draw (by decide)) (by rw [hindex]; decide)
    rw [hindex] at hpast
    exact cycle_result_eq_error_iff.mpr ⟨_, rfl, hpast.fault?_eq⟩
  refine ⟨hfails, ((outOfBounds_sound_iff hfails).1.mpr ⟨?_, fun w hw' => ?_⟩).1⟩
  · rw [hpc]
    decide
  · obtain rfl := Option.some.inj (hw.symm.trans hw')
    decide

/-- A program that goes to the last byte of memory: the address told is that of this byte. -/
theorem outOfBounds_last_byte :
    let vm := (new {}).afterAll [.load [0x1F, 0xFF], .cycle 0]
    (vm.cycle 0).result = .error (.fault (.outOfBounds 4095)) ∧ 4095 < Memory.size := by
  intro vm
  let start := (new {}).installed [0x1F, 0xFF]
  have hnext : start.machine.next = .ok (.addr .jump 0xFFF) :=
    Machine.next_of_decode? (word?_installed (new {}) 0x1F 0xFF []) (by decide)
  have hvm : vm = (start.cycle 0).vm := afterAll_load_cycle (by decide) 0 (new {})
  have hpc : vm.machine.pc = (0xFFF : Addr) := by
    rw [hvm, cycle_of_run_exec hnext rfl rfl]
  have hlast : ((0xFFF : Addr) : Nat) = 4095 := by decide
  refine ⟨cycle_result_eq_error_iff.mpr ⟨_, rfl, ?_⟩, by decide⟩
  rw [Machine.fault?, Machine.word?_eq_none_iff.mpr (by omega), hpc, hlast]

end Vm

end ChipEight
