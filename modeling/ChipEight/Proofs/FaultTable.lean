import ChipEight.Proofs.Cycle
import ChipEight.Proofs.Form

/-!
# ChipEight.Proofs.FaultTable — when a cycle fails, and how

`Machine.Faulty` lists the faults of a machine by the written form of the word at the program
counter.  Main statement: a cycle fails with a fault exactly when that fault is listed, and succeeds
when none is (`cycle_fails_iff_faulty`).
-/

namespace ChipEight

/-- The word is an instruction that needs the `k` bytes from `I` on. -/
inductive Word.Needs (w : UInt16) : Nat → Prop where
  | draw (h : Word.Fits w "Dxyn") : Word.Needs w (Word.n w)
  | storeDigits (h : Word.Fits w "Fx33") : Word.Needs w 3
  | storeRegs (h : Word.Fits w "Fx55") : Word.Needs w (Word.x w + 1)
  | loadRegs (h : Word.Fits w "Fx65") : Word.Needs w (Word.x w + 1)

/-- The faults of a machine, of which it has one at most. -/
inductive Machine.Faulty (m : Machine) : Fault → Prop where
  /-- There is no word at the program counter. -/
  | fetch (h : 4094 < m.pc) : m.Faulty (.outOfBounds m.pc)
  /-- The word is no instruction. -/
  | unrecognized {w a : UInt16} (hw : m.word? = some w)
      (h : ∀ form ∈ Instr.forms, ¬ Word.Fits w form) (ha : a.toNat = m.pc) :
      m.Faulty (.unrecognized w a)
  /-- A return, and no return address in use. -/
  | underflow (hw : m.word? = some 0x00EE) (h : m.stack.depth = 0) : m.Faulty .stackUnderflow
  /-- A call, and every slot for return addresses in use. -/
  | overflow {w : UInt16} (hw : m.word? = some w) (hc : Word.Fits w "2nnn")
      (h : m.stack.depth = 16) : m.Faulty .stackOverflow
  /-- Some of the bytes needed lie past the end of memory. -/
  | past {w : UInt16} {k : Nat} (hw : m.word? = some w) (hk : Word.Needs w k)
      (h : 4096 < m.index.toNat + k) : m.Faulty (.outOfBounds (m.index.toNat + k - 1))

/-! ### What a word needs -/

theorem Instr.needs_of_span? {i : Instr} {k : Nat} (h : i.span? = some k) :
    Word.Needs i.encode k := by
  unfold Instr.span? at h
  split at h <;> cases h
  · next x y n =>
    have hn : Word.n (encode (.draw x y n)) = n := by simp [encode]
    have hd := Word.Needs.draw (fits_encode (.draw x y n))
    rw [hn] at hd
    exact hd
  · next x => exact .storeDigits (fits_encode (.single .storeDigits x))
  · next x =>
    have hx : Word.x (encode (.single .storeRegs x)) = x := by simp [encode]
    have hd := Word.Needs.storeRegs (fits_encode (.single .storeRegs x))
    rw [hx] at hd
    exact hd
  · next x =>
    have hx : Word.x (encode (.single .loadRegs x)) = x := by simp [encode]
    have hd := Word.Needs.loadRegs (fits_encode (.single .loadRegs x))
    rw [hx] at hd
    exact hd

theorem Word.Needs.exists_span? {w : UInt16} {k : Nat} (h : Word.Needs w k) :
    ∃ i, Instr.decode? w = some i ∧ i.span? = some k := by
  cases h with
  | draw h => exact ⟨_, Instr.decode?_of_fits (i := .draw 0 0 0) h rfl, rfl⟩
  | storeDigits h => exact ⟨_, Instr.decode?_of_fits (i := .single .storeDigits 0) h rfl, rfl⟩
  | storeRegs h => exact ⟨_, Instr.decode?_of_fits (i := .single .storeRegs 0) h rfl, rfl⟩
  | loadRegs h => exact ⟨_, Instr.decode?_of_fits (i := .single .loadRegs 0) h rfl, rfl⟩

namespace Machine

variable {m : Machine} {f : Fault}

/-! ### The fault of a machine -/

theorem fault?_of_decode? {w : UInt16} {i : Instr} (hw : m.word? = some w)
    (hd : Instr.decode? w = some i) : m.fault? = m.obstacle? i := by
  simp only [fault?, hw, hd]

theorem obstacle?_of_span? {i : Instr} {k : Nat} (hk : i.span? = some k)
    (h : 4096 < m.index.toNat + k) : m.obstacle? i = some (.outOfBounds (m.index.toNat + k - 1)) := by
  have hc : ¬ Memory.Contains m.index.toNat k := Nat.not_le_of_lt h
  unfold obstacle?
  split
  · cases hk
  · cases hk
  · rw [hk]
    simp only [if_neg hc]

theorem faulty_of_obstacle? {i : Instr} (hw : m.word? = some i.encode)
    (h : m.obstacle? i = some f) : m.Faulty f := by
  unfold obstacle? at h
  split at h
  · split at h
    · next he =>
      cases h
      exact .underflow hw (beq_iff_eq.mp he)
    · cases h
  · next a =>
    split at h
    · next hf =>
      cases h
      exact .overflow hw (Instr.fits_encode (.addr .call a)) (beq_iff_eq.mp hf)
    · cases h
  · split at h
    · next hk =>
      split at h
      · cases h
      · next hc =>
        cases h
        exact .past hw (Instr.needs_of_span? hk) (Nat.lt_of_not_le hc)
    · cases h

theorem faulty_of_fault? (h : m.fault? = some f) : m.Faulty f := by
  unfold fault? at h
  split at h
  · next hw =>
    cases h
    exact .fetch (word?_eq_none_iff.mp hw)
  · next w hw =>
    split at h
    · next hd =>
      cases h
      refine .unrecognized hw (Instr.decode?_eq_none_iff.mp hd) ?_
      have hpc := pc_le_of_word? hw
      rw [UInt16.toNat_ofNat']
      omega
    · next i hd =>
      rw [← Instr.encode_of_decode? hd] at hw
      exact faulty_of_obstacle? hw h

theorem Faulty.fault?_eq (h : m.Faulty f) : m.fault? = some f := by
  cases h with
  | fetch h => simp only [fault?, word?_eq_none_iff.mpr h]
  | @unrecognized w a hw h ha =>
    have hd := Instr.decode?_eq_none_iff.mpr h
    simp only [fault?, hw, hd]
    rw [← ha, UInt16.ofNat_toNat]
  | underflow hw h =>
    rw [fault?_of_decode? (i := .ret) hw (by decide)]
    exact if_pos (beq_iff_eq.mpr h)
  | @overflow w hw hc h =>
    rw [fault?_of_decode? hw (Instr.decode?_of_fits (i := .addr .call 0) hc rfl)]
    exact if_pos (beq_iff_eq.mpr h)
  | past hw hk h =>
    obtain ⟨i, hd, hs⟩ := hk.exists_span?
    rw [fault?_of_decode? hw hd, obstacle?_of_span? hs h]

theorem fault?_eq_some_iff : m.fault? = some f ↔ m.Faulty f :=
  ⟨faulty_of_fault?, Faulty.fault?_eq⟩

end Machine

/-- A cycle fails exactly with the faults of the machine, and succeeds if it has none. -/
theorem Vm.cycle_fails_iff_faulty (vm : Vm) (random : UInt8) :
    (∀ e, (vm.cycle random).result = .error e ↔ ∃ f, e = .fault f ∧ vm.machine.Faulty f) ∧
      ((∃ notice, (vm.cycle random).result = .ok notice) ↔ ∀ f, ¬ vm.machine.Faulty f) := by
  refine ⟨fun e => ?_, ?_⟩
  · simp only [cycle_result_eq_error_iff, Machine.fault?_eq_some_iff]
  · constructor
    · rintro ⟨notice, hok⟩ f hf
      have herr := (cycle_of_fault hf.fault?_eq random).result_eq
      rw [hok] at herr
      cases herr
    · intro hf
      cases hr : (vm.cycle random).result with
      | ok notice => exact ⟨notice, rfl⟩
      | error e =>
        obtain ⟨f, rfl, hf'⟩ := cycle_result_eq_error_iff.mp hr
        exact absurd (Machine.fault?_eq_some_iff.mp hf') (hf f)

end ChipEight
