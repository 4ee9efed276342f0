import ChipEight.Proofs.Cycle

/-!
# ChipEight.Proofs.Transfer — registers kept in memory

A store puts bytes into memory from `I` on (`Vm.Stores`), and a load brings bytes from there into the
first registers (`Vm.Loads`); neither changes anything else.  Main statement: what was stored is what
is loaded later, all of it or the first bytes, if `I` and memory are still the same, and the decimal
digits of a register are stored in such a way as well (`stored_loads_back`).
-/

namespace ChipEight

/-! ### Stores and loads -/

namespace Vm

variable {vm later : Vm} {i : Instr} {bytes : List UInt8}

/-- The instruction puts the bytes into memory, from `I` on, and changes nothing else. -/
structure Stores (vm : Vm) (i : Instr) (bytes : List UInt8) (stored : Vm) : Prop where
  does : vm.Does i .ok stored
  inside : ∀ k b, bytes[k]? = some b →
    stored.machine.memory.readByte (vm.machine.index.toNat + k) = .ok b
  outside : ∀ a, (∀ k < bytes.length, a ≠ vm.machine.index.toNat + k) →
    stored.machine.memory.readByte a = vm.machine.memory.readByte a
  rest_eq : stored = { vm with machine := { vm.machine with memory := stored.machine.memory } }

/-- The instruction gives the bytes to the first registers and changes nothing else. -/
structure Loads (vm : Vm) (i : Instr) (bytes : List UInt8) (loaded : Vm) : Prop where
  does : vm.Does i .ok loaded
  first : ∀ (r : Reg) b, bytes[r.val]? = some b → loaded.machine.reg r = b
  others : ∀ r : Reg, bytes.length ≤ r → loaded.machine.reg r = vm.machine.reg r
  rest_eq : loaded = { vm with machine := { vm.machine with regs := loaded.machine.regs } }

theorem stores_of_run (hfits : vm.machine.index.toNat + bytes.length ≤ Memory.size)
    (h : ∀ random, (Act.exec random i).run vm =
      .ok {} { vm with
        machine := { vm.machine with
          memory := vm.machine.memory.store vm.machine.index.toNat bytes } }) :
    vm.Stores i bytes { vm with
      machine := { vm.machine with
        memory := vm.machine.memory.store vm.machine.index.toNat bytes } } where
  does := .of_run h
  inside k b hk := by
    have hlt := (List.getElem?_eq_some_iff.mp hk).1
    exact Memory.readByte_store_inside hk (by omega)
  outside a ha := Memory.readByte_store_outside ha
  rest_eq := rfl

/-- A load brings the block that `I` points to. -/
theorem loads_block {y : Reg} (h : vm.machine.index.toNat + (y + 1) ≤ Memory.size) :
    ∃ loaded, vm.Loads (.single .loadRegs y)
      (vm.machine.memory.block vm.machine.index.toNat (y + 1) h) loaded := by
  refine ⟨_, .of_run fun _ => Act.run_execLoadRegs h, fun r b hb => ?_, fun r hr => ?_, rfl⟩
  · show (vm.machine.setRegs _).reg r = b
    rw [Machine.reg_setRegs, List.getD_eq_getElem?_getD, hb, Option.getD_some]
  · show (vm.machine.setRegs _).reg r = _
    rw [Machine.reg_setRegs, List.getD_eq_getElem?_getD, List.getElem?_eq_none hr, Option.getD_none]

/-- What was stored is loaded later, as far as the load reaches. -/
theorem loads_stored {bytes : List UInt8} {y : Reg} (hy : y + 1 ≤ bytes.length)
    (hfits : vm.machine.index.toNat + bytes.length ≤ Memory.size)
    (hindex : later.machine.index = vm.machine.index)
    (hmemory : later.machine.memory = vm.machine.memory.store vm.machine.index.toNat bytes) :
    ∃ loaded, later.Loads (.single .loadRegs y) (bytes.take (y + 1)) loaded := by
  have h : vm.machine.index.toNat + (y + 1) ≤ Memory.size := by omega
  have hlater : later.machine.index.toNat + (y + 1) ≤ Memory.size := by rw [hindex]; exact h
  have hblock : later.machine.memory.block later.machine.index.toNat (y + 1) hlater =
      bytes.take (y + 1) := by
    simp only [hmemory, hindex]
    exact Memory.block_store h hy
  rw [← hblock]
  exact loads_block hlater

/-! ### Registers and digits -/

/-- The bytes that `V0` up to `Vx` hold. -/
theorem getElem?_take_reg (m : Machine) {k x : Reg} (h : k ≤ x) :
    ((List.ofFn m.reg).take (x + 1))[k.val]? = some (m.reg k) := by
  rw [List.getElem?_take_of_lt (Nat.lt_succ_of_le h), List.getElem?_ofFn, dif_pos k.isLt]

theorem digits_sum (v : UInt8) :
    (v / 100 % 10).toNat ≤ 9 ∧ (v / 10 % 10).toNat ≤ 9 ∧ (v % 10).toNat ≤ 9 ∧
      100 * (v / 100 % 10).toNat + 10 * (v / 10 % 10).toNat + (v % 10).toNat = v.toNat := by
  have hv := v.toNat_lt
  have hten : (10 : UInt8).toNat = 10 := rfl
  have hhundred : (100 : UInt8).toNat = 100 := rfl
  simp only [UInt8.toNat_mod, UInt8.toNat_div, hten, hhundred]
  omega

/-- Storing `V0` up to `Vx` puts them at `I` and changes nothing else, and a load that finds `I` and
memory as they were then brings them back, up to any `Vy` not after `Vx`, whatever the registers hold
meanwhile.  Storing the digits of `Vx` puts its hundreds, tens and ones there, and a load brings them
to `V0`, `V1` and `V2`.  All that is needed is that the bytes lie within memory. -/
theorem stored_loads_back (vm : Vm) (x : Reg) :
    (vm.machine.index.toNat + x + 1 ≤ 4096 →
      ∃ stored, vm.Stores (.single .storeRegs x) ((List.ofFn vm.machine.reg).take (x + 1)) stored ∧
        (∀ k ≤ x, stored.machine.memory.readByte (vm.machine.index.toNat + k) =
          .ok (vm.machine.reg k)) ∧
        ∀ (later : Vm) (y : Reg), y ≤ x → later.machine.index = vm.machine.index →
          later.machine.memory = stored.machine.memory →
          ∃ loaded,
            later.Loads (.single .loadRegs y) ((List.ofFn vm.machine.reg).take (y + 1)) loaded ∧
            ∀ k ≤ y, loaded.machine.reg k = vm.machine.reg k) ∧
    (vm.machine.index.toNat + 3 ≤ 4096 →
      ∃ (h t o : UInt8) (stored : Vm), h ≤ 9 ∧ t ≤ 9 ∧ o ≤ 9 ∧
        100 * h.toNat + 10 * t.toNat + o.toNat = (vm.machine.reg x).toNat ∧
        vm.Stores (.single .storeDigits x) [h, t, o] stored ∧
        ∀ later : Vm, later.machine.index = vm.machine.index →
          later.machine.memory = stored.machine.memory →
          ∃ loaded, later.Loads (.single .loadRegs 2) [h, t, o] loaded) := by
  refine ⟨fun hfits => ?_, fun hfits => ?_⟩
  · have hvalues := vm.machine.firstRegs_eq_take x.isLt
    have hlength : ((List.ofFn vm.machine.reg).take (x + 1)).length = x + 1 := by
      rw [← hvalues, Machine.length_firstRegs]
    have hstore : vm.machine.index.toNat + ((List.ofFn vm.machine.reg).take (x + 1)).length ≤
        Memory.size := by
      rw [hlength]
      exact hfits
    have hstores := stores_of_run (i := .single .storeRegs x) hstore fun _ => by
      rw [← hvalues]
      exact Act.run_execStoreRegs hfits
    refine ⟨_, hstores, fun k hk => hstores.inside k _ (getElem?_take_reg _ hk), ?_⟩
    intro later y hy hindex hmemory
    have hle : y.val + 1 ≤ x.val + 1 := Nat.succ_le_succ hy
    obtain ⟨loaded, hloaded⟩ :=
      loads_stored (y := y) (by rw [hlength]; exact hle) hstore hindex hmemory
    rw [List.take_take, Nat.min_eq_left hle] at hloaded
    exact ⟨loaded, hloaded, fun k hk => hloaded.first k _ (getElem?_take_reg _ hk)⟩
  · obtain ⟨hh, ht, ho, hsum⟩ := digits_sum (vm.machine.reg x)
    refine ⟨_, _, _, _, UInt8.le_iff_toNat_le.mpr hh, UInt8.le_iff_toNat_le.mpr ht,
      UInt8.le_iff_toNat_le.mpr ho, hsum,
      stores_of_run hfits fun _ => Act.run_execStoreDigits hfits, ?_⟩
    intro later hindex hmemory
    refine loads_stored (y := 2) ?_ hfits hindex hmemory
    exact Nat.le_refl 3

/-- Sixteen different bytes kept in the last bytes of memory and half of them brought back when all
registers are zero, and the digits of 254. -/
theorem stored_loads_back_top :
    let vm : Vm := { new {} with
      machine := { Machine.blank with
        index := 4080
        regs := #v[1, 18, 35, 52, 69, 86, 103, 120, 137, 254, 171, 188, 205, 222, 239, 240] } }
    (∃ stored loaded,
      vm.Stores (.single .storeRegs 15)
        [1, 18, 35, 52, 69, 86, 103, 120, 137, 254, 171, 188, 205, 222, 239, 240] stored ∧
      stored.machine.memory.readByte 4095 = .ok 240 ∧
      Loads { stored with machine := { stored.machine with regs := Machine.blank.regs } }
        (.single .loadRegs 7) [1, 18, 35, 52, 69, 86, 103, 120] loaded ∧
      loaded.machine.reg 7 = 120 ∧ loaded.machine.reg 8 = 0) ∧
    ∃ stored loaded, vm.Stores (.single .storeDigits 9) [2, 5, 4] stored ∧
      stored.Loads (.single .loadRegs 2) [2, 5, 4] loaded := by
  intro vm
  refine ⟨?_, ?_⟩
  · obtain ⟨stored, hstores, hbytes, hloads⟩ := (stored_loads_back vm 15).1 (by decide)
    have hindex : stored.machine.index = vm.machine.index := by rw [hstores.rest_eq]
    obtain ⟨loaded, hloaded, hregs⟩ := hloads
      { stored with machine := { stored.machine with regs := Machine.blank.regs } } 7 (by decide)
      hindex rfl
    exact ⟨stored, loaded, hstores, hbytes 15 (by decide), hloaded, hregs 7 (by decide),
      hloaded.others 8 (by decide)⟩
  · obtain ⟨h, t, o, stored, hh, ht, ho, hsum, hstores, hloads⟩ :=
      (stored_loads_back vm 9).2 (by decide)
    have hv : (vm.machine.reg 9).toNat = 254 := by decide
    have hh' := UInt8.le_iff_toNat_le.mp hh
    have ht' := UInt8.le_iff_toNat_le.mp ht
    have ho' := UInt8.le_iff_toNat_le.mp ho
    have hnine : (9 : UInt8).toNat = 9 := rfl
    rw [hnine] at hh' ht' ho'
    obtain rfl : h = 2 := UInt8.toNat_inj.mp (by show h.toNat = 2; omega)
    obtain rfl : t = 5 := UInt8.toNat_inj.mp (by show t.toNat = 5; omega)
    obtain rfl : o = 4 := UInt8.toNat_inj.mp (by show o.toNat = 4; omega)
    have hindex : stored.machine.index = vm.machine.index := by rw [hstores.rest_eq]
    obtain ⟨loaded, hloaded⟩ := hloads stored hindex rfl
    exact ⟨stored, loaded, hstores, hloaded⟩

end Vm

end ChipEight
