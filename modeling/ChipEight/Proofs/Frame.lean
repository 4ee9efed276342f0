import ChipEight.Proofs.Footprint

/-!
# ChipEight.Proofs.Frame — the frame of a cycle

`Machine.Goes` lists by written form where the program goes from a word, as `Machine.Touches` lists
what the word touches.  Main statement: a successful cycle goes where its word says and keeps every
part that the word does not touch, and no cycle starts or stops the clocks or asks the host to beep
or to show the screen (`cycle_frame`).
-/

namespace ChipEight

namespace Machine

/-- The word is a skip, and its condition holds. -/
inductive TakesSkip (m : Machine) (w : UInt16) : Prop
  | byteEq (h : Word.Fits w "3xkk") (hc : m.reg (Word.x w) = Word.low w)
  | byteNe (h : Word.Fits w "4xkk") (hc : m.reg (Word.x w) ≠ Word.low w)
  | pairEq (h : Word.Fits w "5xy0") (hc : m.reg (Word.x w) = m.reg (Word.y w))
  | pairNe (h : Word.Fits w "9xy0") (hc : m.reg (Word.x w) ≠ m.reg (Word.y w))
  | down {k : Key} (h : Word.Fits w "Ex9E") (hk : k.val = (m.reg (Word.x w)).toNat)
      (hc : m.keypad.isDown k = true)
  | up (h : Word.Fits w "ExA1")
      (hc : ∀ k : Key, k.val = (m.reg (Word.x w)).toNat → m.keypad.isDown k = false)

/-- Where the program goes from a word. -/
inductive Goes (m : Machine) (w : UInt16) : Nat → Prop
  | jump (h : Word.FitsOne w ["1nnn", "2nnn"]) : m.Goes w (Word.address w)
  | offset (h : Word.Fits w "Bnnn") : m.Goes w (Word.address w + (m.reg 0).toNat)
  | ret {a : UInt16} (h : Word.Fits w "00EE") (ht : m.stack.toList.getLast? = some a) :
      m.Goes w a.toNat
  /-- A wait for a key that was not pressed. -/
  | stall (h : Word.Fits w "Fx0A") (hl : m.keypad.latch = none) : m.Goes w m.pc
  | skip (h : m.TakesSkip w) : m.Goes w (m.pc + 4)
  | next (hj : ¬ Word.FitsOne w ["1nnn", "2nnn", "Bnnn", "00EE"]) (hs : ¬ m.TakesSkip w)
      (hk : Word.Fits w "Fx0A" → m.keypad.latch ≠ none) : m.Goes w (m.pc + 2)

end Machine

/-! ### Words and their instructions -/

section Decoded

variable {m : Machine} {w : UInt16} {i : Instr}

theorem Instr.withOperands_of_decode? (hd : decode? w = some i) : i.withOperands w = i := by
  have h := withOperands_encode i
  rw [encode_of_decode? hd] at h
  exact h

theorem Instr.eq_withOperands_of_fits (hd : decode? w = some i) (j : Instr)
    (h : Word.Fits w j.form) (ha : (j.withOperands w).isAlias = false) : i = j.withOperands w :=
  Option.some.inj (hd.symm.trans (decode?_of_fits h ha))

theorem Instr.fits_of_decode? (hd : decode? w = some i) : Word.Fits w i.form := by
  rw [← encode_of_decode? hd]
  exact fits_encode i

theorem Machine.keyDown_eq_true_iff {v : UInt8} :
    m.keyDown v = true ↔ ∃ k : Key, k.val = v.toNat ∧ m.keypad.isDown k = true := by
  unfold keyDown Key.ofNat?
  split
  · next k hk =>
    split at hk
    · next hv =>
      cases hk
      constructor
      · intro h
        exact ⟨_, rfl, h⟩
      · rintro ⟨j, hj, h⟩
        have hjv : j = ⟨v.toNat, hv⟩ := Fin.ext hj
        rw [← hjv]
        exact h
    · cases hk
  · next hk =>
    split at hk
    · cases hk
    · next hv =>
      constructor
      · intro h
        cases h
      · rintro ⟨j, hj, -⟩
        exact absurd (hj ▸ j.isLt) hv

theorem Machine.skips_of_takesSkip (hd : Instr.decode? w = some i) (h : m.TakesSkip w) :
    m.skips i = true := by
  cases h with
  | byteEq h hc =>
    obtain rfl := Instr.eq_withOperands_of_fits hd (.byte .skipEq 0 0) h rfl
    exact beq_iff_eq.mpr hc
  | byteNe h hc =>
    obtain rfl := Instr.eq_withOperands_of_fits hd (.byte .skipNe 0 0) h rfl
    exact bne_iff_ne.mpr hc
  | pairEq h hc =>
    obtain rfl := Instr.eq_withOperands_of_fits hd (.pair .skipEq 0 0) h rfl
    exact beq_iff_eq.mpr hc
  | pairNe h hc =>
    obtain rfl := Instr.eq_withOperands_of_fits hd (.pair .skipNe 0 0) h rfl
    exact bne_iff_ne.mpr hc
  | @down k h hk hc =>
    obtain rfl := Instr.eq_withOperands_of_fits hd (.single .skipDown 0) h rfl
    exact keyDown_eq_true_iff.mpr ⟨k, hk, hc⟩
  | up h hc =>
    obtain rfl := Instr.eq_withOperands_of_fits hd (.single .skipUp 0) h rfl
    show (!m.keyDown _) = true
    rw [Bool.not_eq_true', Bool.eq_false_iff]
    intro hk
    obtain ⟨k, hk, hdown⟩ := keyDown_eq_true_iff.mp hk
    rw [hc k hk] at hdown
    cases hdown

theorem Machine.takesSkip_of_skips (hd : Instr.decode? w = some i) (h : m.skips i = true) :
    m.TakesSkip w := by
  have hf := Instr.fits_of_decode? hd
  have ho := Instr.withOperands_of_decode? hd
  unfold skips at h
  split at h
  · cases ho
    exact .byteEq hf (beq_iff_eq.mp h)
  · cases ho
    exact .byteNe hf (bne_iff_ne.mp h)
  · cases ho
    exact .pairEq hf (beq_iff_eq.mp h)
  · cases ho
    exact .pairNe hf (bne_iff_ne.mp h)
  · cases ho
    obtain ⟨k, hk, hc⟩ := keyDown_eq_true_iff.mp h
    exact .down hf hk hc
  · cases ho
    refine .up hf fun k hk => Bool.eq_false_iff.mpr fun hc => ?_
    rw [keyDown_eq_true_iff.mpr ⟨k, hk, hc⟩] at h
    cases h
  · cases h

/-- The instruction goes to an address of its own. -/
def Instr.isJump : Instr → Bool
  | .ret | .addr .jump _ | .addr .call _ | .addr .jumpOffset _ => true
  | _ => false

theorem Instr.isJump_of_fitsOne (hd : decode? w = some i)
    (h : Word.FitsOne w ["1nnn", "2nnn", "Bnnn", "00EE"]) : i.isJump = true := by
  obtain ⟨form, hmem, hf⟩ := h
  simp only [List.mem_cons, List.not_mem_nil, or_false] at hmem
  rcases hmem with rfl | rfl | rfl | rfl
  · rw [eq_withOperands_of_fits hd (.addr .jump 0) hf rfl]
    rfl
  · rw [eq_withOperands_of_fits hd (.addr .call 0) hf rfl]
    rfl
  · rw [eq_withOperands_of_fits hd (.addr .jumpOffset 0) hf rfl]
    rfl
  · rw [eq_withOperands_of_fits hd .ret hf rfl]
    rfl

theorem Machine.goes_next (hd : Instr.decode? w = some i) (hj : i.isJump = false)
    (hs : m.skips i = false) (hk : ∀ x, i = .single .awaitKey x → m.keypad.latch ≠ none) :
    m.Goes w (m.pc + 2) := by
  refine .next ?_ ?_ ?_
  · intro h
    rw [Instr.isJump_of_fitsOne hd h] at hj
    cases hj
  · intro h
    rw [skips_of_takesSkip hd h] at hs
    cases hs
  · intro h
    exact hk _ (Instr.eq_withOperands_of_fits hd (.single .awaitKey 0) h rfl)

/-- The routes of the instructions are those of the table. -/
theorem Machine.goes_of_route (hd : Instr.decode? w = some i) (ho : m.obstacle? i = none)
    {target : Nat} (ht : (m.route i).target m.pc = .ok target) : m.Goes w target := by
  have hf := Instr.fits_of_decode? hd
  have hop := Instr.withOperands_of_decode? hd
  unfold route at ht
  split at ht
  · -- a return, which has something to return to
    cases ht
    obtain ⟨a, stack, hs⟩ := Act.exists_pop_of_clear ho
    have hl := CallStack.toList_of_pop hs
    have hlast : m.returns.getLastD 0 = a.toNat := by
      rw [returns, hl, List.map_append, List.map_singleton, List.getLastD_concat]
    rw [hlast]
    exact .ret hf (by rw [hl, List.getLast?_concat])
  · cases ht
    cases hop
    exact .jump ⟨"1nnn", by decide, hf⟩
  · cases ht
    cases hop
    exact .jump ⟨"2nnn", by decide, hf⟩
  · cases ht
    cases hop
    exact .offset hf
  · split at ht
    · next hl =>
      cases ht
      exact .stall hf hl
    · next hl =>
      obtain rfl := Checked.eq_add_of_add_eq_ok ht
      exact goes_next hd rfl rfl fun _ _ => hl
  · next h1 h2 h3 h4 h5 =>
    cases hs : m.skips i with
    | true =>
      rw [hs] at ht
      obtain rfl := Checked.eq_add_of_add_eq_ok ht
      exact .skip (takesSkip_of_skips hd hs)
    | false =>
      rw [hs] at ht
      obtain rfl := Checked.eq_add_of_add_eq_ok ht
      refine goes_next hd ?_ hs fun x hx => absurd hx (h5 x)
      unfold Instr.isJump
      split
      · exact absurd rfl h1
      · exact absurd rfl (h2 _)
      · exact absurd rfl (h3 _)
      · exact absurd rfl (h4 _)
      · rfl

end Decoded

namespace Vm

variable {vm : Vm}

/-- The clocks and the host have no part in a cycle. -/
theorem cycle_quiet (vm : Vm) (random : UInt8) :
    (vm.cycle random).vm.isPlaying = vm.isPlaying ∧
      ∀ s ∈ (vm.cycle random).signals, ∃ f, s = .error f := by
  cases hf : vm.machine.fault? with
  | some f =>
    have hr := cycle_of_fault hf random
    rw [hr.vm_eq, hr.signals_eq]
    refine ⟨rfl, ?_⟩
    intro s hs
    exact ⟨f, List.mem_singleton.mp hs⟩
  | none =>
    obtain ⟨w, i, e, after, target, -, -, -, -, hx, -, hc⟩ := cycle_executed hf random
    rw [hc]
    exact ⟨hx.playing_eq, nofun⟩

/-- A successful cycle goes where the word at the program counter says and keeps every part that
the word does not touch; `Fx1E` adds modulo 65536 and leaves the registers alone.  No cycle at all
starts or stops the clocks, beeps or shows the screen. -/
theorem cycle_frame (vm : Vm) (random : UInt8) :
    let o := vm.cycle random
    (o.vm.isPlaying = vm.isPlaying ∧ .beep ∉ o.signals ∧ .redraw ∉ o.signals) ∧
      ∀ notice, o.result = .ok notice →
        ∃ w, vm.machine.word? = some w ∧
          vm.machine.Goes w o.vm.machine.pc ∧
          (∀ p, ¬ vm.machine.Touches w p → p.Same vm o.vm) ∧
          (Word.Fits w "Fx1E" →
            o.vm.machine.index.toNat =
                (vm.machine.index.toNat + (vm.machine.reg (Word.x w)).toNat) % 65536 ∧
              o.vm.machine.regs = vm.machine.regs) := by
  intro o
  obtain ⟨hplaying, hsignals⟩ := cycle_quiet vm random
  refine ⟨⟨hplaying, ?_, ?_⟩, ?_⟩
  · intro h
    obtain ⟨f, hf⟩ := hsignals _ h
    cases hf
  · intro h
    obtain ⟨f, hf⟩ := hsignals _ h
    cases hf
  · intro notice hok
    have hf := fault?_eq_none_of_ok hok
    obtain ⟨w, i, e, after, target, hw, hd, ho, hrun, hx, ht, hc⟩ := cycle_executed hf random
    have hvm : o.vm = { after with machine := { after.machine with pc := target } } := by
      show (vm.cycle random).vm = _
      rw [hc]
    rw [hvm]
    refine ⟨w, hw, Machine.goes_of_route hd ho ht, ?_, ?_⟩
    · intro p hp
      rw [← Instr.encode_of_decode? hd] at hp
      have hs := hx.keeps p hp
      -- the program counter is no part
      cases p <;> exact hs
    · intro hfit
      obtain rfl := Instr.eq_withOperands_of_fits hd (.single .addIndex 0) hfit rfl
      cases hrun
      refine ⟨?_, rfl⟩
      show (vm.machine.index + (vm.machine.reg (Word.x w)).toUInt16).toNat = _
      rw [UInt16.toNat_add, UInt8.toNat_toUInt16]

/-- `F31E`, the first word of a program, found with `I` near its end: the sum starts over from zero,
and registers, memory and timers are kept. -/
theorem cycle_frame_addIndex :
    let loaded := ((new {}).load [0xF3, 0x1E]).vm
    let vm : Vm := { loaded with
      machine := { loaded.machine.setReg 3 42 with index := 0xFFF0, sound := 9 } }
    let after := (vm.cycle 0).vm
    after.machine.index = 26 ∧ after.machine.reg 3 = 42 ∧ after.machine.regs = vm.machine.regs ∧
      after.machine.sound = 9 ∧ ∀ a : Fin 4096, (Part.byte a).Same vm after := by
  intro loaded vm after
  have hw : vm.machine.word? = some 0xF31E := by
    show ((new {}).load [0xF3, 0x1E]).vm.machine.word? = _
    rw [load_of_fits (by decide)]
    exact word?_installed (new {}) 0xF3 0x1E []
  have hok : (vm.cycle 0).result = .ok .ok := by
    obtain ⟨target, ht⟩ := Route.exists_target (Machine.pc_le_of_word? hw) .next
    rw [cycle_of_run_exec (Machine.next_of_decode? hw rfl) rfl ht]
  obtain ⟨w, hw', -, hkeeps, hadd⟩ := (cycle_frame vm 0).2 .ok hok
  obtain rfl := Option.some.inj (hw.symm.trans hw')
  obtain ⟨hindex, hregs⟩ := hadd (by decide)
  have hthree : vm.machine.reg 3 = 42 := by
    show (loaded.machine.setReg 3 42).reg 3 = 42
    rw [Machine.reg_setReg, if_pos rfl]
  have hsum : (vm.machine.index.toNat + (vm.machine.reg 3).toNat) % 65536 = 26 := by
    have hbefore : vm.machine.index = 0xFFF0 := rfl
    rw [hbefore, hthree]
    decide
  refine ⟨UInt16.toNat_inj.mp (hindex.trans hsum), ?_, hregs, hkeeps .sound ?_,
    fun a => hkeeps (.byte a) ?_⟩
  · rw [Machine.reg, hregs]
    exact hthree
  · intro ht
    cases ht with
    | sound h =>
      revert h
      decide
  · intro ht
    cases ht with
    | digits _ _ h =>
      revert h
      decide
    | stored _ _ h =>
      revert h
      decide

end Vm

end ChipEight
