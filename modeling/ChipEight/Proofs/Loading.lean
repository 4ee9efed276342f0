import ChipEight.Proofs.Lockstep

/-!
# ChipEight.Proofs.Loading — a load is a new beginning

`Memory.imageByte` is the memory image of a program, byte by byte.  Main statement: a load that is
granted leaves that image and otherwise a blank machine, so that from then on nothing tells the
machine from one just built; any other load is refused (`load_erases_history`).
-/

namespace ChipEight

/-- What lies at address `a` once the program is loaded: glyphs, program, and zeros elsewhere. -/
def Memory.imageByte (program : List UInt8) (a : Nat) : UInt8 :=
  if h : a < 80 then Font.rows[a]
  else if h : 512 ≤ a ∧ a < 512 + program.length then program[a - 512]
  else 0

/-- Nothing but the program, ready to start. -/
structure Vm.Loaded (program : List UInt8) (vm : Vm) : Prop where
  machine_eq : vm.machine = { Machine.blank with memory := vm.machine.memory }
  state_eq : vm.state = .idle
  redraw_eq : vm.redraw = true
  memory_eq : ∀ (a : Nat) (_ : a < Memory.size),
    vm.machine.memory[a] = Memory.imageByte program a
  last_eq : vm.machine.memory[4095] = 0

/-- Nothing but the configuration tells the machines apart. -/
structure Vm.SameState (vm vm' : Vm) : Prop where
  machine_eq : vm'.machine = vm.machine
  state_eq : vm'.state = vm.state
  redraw_eq : vm'.redraw = vm.redraw

namespace Vm

variable {vm vm' : Vm}

theorem SameState.alike (h : vm.SameState vm') : vm.Alike True True vm' where
  machine := by
    rw [h.machine_eq]
    exact .refl _
  redraw_eq _ := h.redraw_eq
  state_eq _ := h.state_eq

theorem Alike.sameState (h : vm.Alike True True vm') : vm.SameState vm' where
  machine_eq := h.machine.eq_of_timed trivial
  state_eq := h.state_eq trivial
  redraw_eq := h.redraw_eq trivial

/-! ### The memory image -/

theorem getElem_installed (vm : Vm) (program : List UInt8) {a : Nat} (ha : a < Memory.size) :
    (vm.installed program).machine.memory[a] = Memory.imageByte program a := by
  show (Font.memory.store Machine.programStart program)[a] = _
  rw [Font.memory, Memory.getElem_store, Memory.getElem_store, Memory.imageByte]
  by_cases hg : a < 80
  · have hp : ¬ (512 ≤ a ∧ a - 512 < program.length) := by omega
    have hr : Font.start ≤ a ∧ a - Font.start < Font.rows.length := ⟨Nat.zero_le a, hg⟩
    rw [dif_neg hp, dif_pos hr, dif_pos hg]
    rfl
  · have hr : ¬ (Font.start ≤ a ∧ a - Font.start < Font.rows.length) := fun h => hg h.2
    rw [dif_neg hg, dif_neg hr, Memory.getElem_blank]
    by_cases hp : 512 ≤ a ∧ a < 512 + program.length
    · have hp' : 512 ≤ a ∧ a - 512 < program.length := by omega
      rw [dif_pos hp', dif_pos hp]
    · have hp' : ¬ (512 ≤ a ∧ a - 512 < program.length) := by omega
      rw [dif_neg hp', dif_neg hp]

/-- The program ends before the last byte. -/
theorem imageByte_last {program : List UInt8} (h : program.length ≤ 3583) :
    Memory.imageByte program 4095 = 0 := by
  have hp : ¬ (512 ≤ 4095 ∧ 4095 < 512 + program.length) := by omega
  rw [Memory.imageByte, dif_neg (by decide), dif_neg hp]

theorem installed_loaded (vm : Vm) {program : List UInt8} (h : program.length ≤ 3583) :
    (vm.installed program).Loaded program where
  machine_eq := rfl
  state_eq := rfl
  redraw_eq := rfl
  memory_eq _ ha := getElem_installed vm program ha
  last_eq := (getElem_installed vm program (by decide)).trans (imageByte_last h)

theorem installed_sameState (vm vm' : Vm) (program : List UInt8) :
    (vm.installed program).SameState (vm'.installed program) := ⟨rfl, rfl, rfl⟩

/-! ### Histories after a load -/

/-- Machines that only their configurations tell apart stay so, and answer the same. -/
theorem SameState.performAll (h : vm.SameState vm') (ops : List Operation) :
    let o := vm.performAll ops
    let o' := vm'.performAll ops
    o'.result = o.result ∧ o'.signals = o.signals ∧ o'.log = o.log ∧ o.vm.SameState o'.vm := by
  intro o o'
  have ha : o.Alike True True o' := performAll_alike h.alike fun _ _ _ => trivial
  exact ⟨ha.result_eq, ha.signals_eq trivial, ha.log_eq trivial, ha.vm.sameState⟩

/-- Whatever happened before, a program that fits replaces all of it: the machine stands as one just
built with the same program would, and everything from then on is the same on both.  A program that
does not fit is refused. -/
theorem load_erases_history (vm : Vm) (config : Config) (program : List UInt8) :
    (program.length ≤ 3583 →
      let loaded := vm.load program
      let fresh := (new config).load program
      loaded.result = .ok () ∧ fresh.result = .ok () ∧
        loaded.vm.Loaded program ∧ loaded.vm.SameState fresh.vm ∧
        ∀ ops,
          let o := loaded.vm.performAll ops
          let o' := fresh.vm.performAll ops
          o'.result = o.result ∧ o'.signals = o.signals ∧ o'.log = o.log ∧
            o.vm.SameState o'.vm) ∧
    (3583 < program.length →
      (vm.load program).Refused vm (.programTooLarge program.length 3583)) := by
  refine ⟨fun h => ?_, fun h => load_of_too_large h vm⟩
  intro loaded fresh
  have hl : loaded = ⟨vm.installed program, .ok (), [], [.loaded program.length]⟩ :=
    load_of_fits h vm
  have hf : fresh = ⟨(new config).installed program, .ok (), [], [.loaded program.length]⟩ :=
    load_of_fits h (new config)
  rw [hl, hf]
  have hs := installed_sameState vm (new config) program
  exact ⟨rfl, rfl, installed_loaded vm h, hs, hs.performAll⟩

/-- A machine deep in calls, with a key pressed and its clocks running, and a program that waits for
a key; then a program of one byte too many. -/
theorem load_erases_history_calls :
    let used := ((new {}).performAll
      [.load [0x22, 0x00], .resume, .keyDown 4, .run (List.replicate 10 0)]).vm
    (((new {}).load [0xF0, 0x0A]).vm.performAll [.cycle 0, .keys]).result =
        ((used.load [0xF0, 0x0A]).vm.performAll [.cycle 0, .keys]).result ∧
      (used.load (List.replicate 3584 0)).Refused used (.programTooLarge 3584 3583) := by
  intro used
  refine ⟨?_, ?_⟩
  · obtain ⟨-, -, -, -, h⟩ := (load_erases_history used {} [0xF0, 0x0A]).1 (by decide)
    exact (h [.cycle 0, .keys]).1
  · have h := (load_erases_history used {} (List.replicate 3584 0)).2
    rw [List.length_replicate] at h
    exact h (by decide)

end Vm

end ChipEight
