import ChipEight.Proofs.Cycle
import ChipEight.Vm.History
import Mathlib.Algebra.Group.Nat.Defs
import Mathlib.Data.List.Forall2

/-!
# ChipEight.Proofs.Bounds — no operation breaks a contract

Memory, call stack, registers and arithmetic answer a breach when they are asked for something that
they cannot give.  No operation of the host ever makes them do so, because the program counter and
the return addresses stay within bounds (`Machine.Bounded`), which every operation keeps.  Main
statement: whatever a host does with a new machine, it never gets a breach for an answer, and the
machine stays bounded (`performAll_within_bounds`).
-/

namespace ChipEight

/-- The program counter and the return addresses are where programs can get them to. -/
structure Machine.Bounded (m : Machine) : Prop where
  pc_le : m.pc ≤ 0x10FE
  depth_le : m.stack.depth ≤ 16
  returns : ∀ r ∈ m.stack.toList, 2 ≤ r.toNat ∧ r.toNat ≤ 0x1000

/-- The operation broke no contract, and the machine is bounded. -/
structure Outcome.Safe (o : Outcome (Except Failure α)) : Prop where
  no_breach : ∀ b, o.result ≠ .error (.breach b)
  bounded : o.vm.machine.Bounded

namespace Outcome

variable {o : Outcome (Except Failure α)}

theorem Refused.safe {before : Vm} {f : Fault} (h : o.Refused before f)
    (hb : before.machine.Bounded) : o.Safe where
  no_breach b := by
    rw [h.result_eq]
    nofun
  bounded := by
    rw [h.vm_eq]
    exact hb

theorem Safe.map (h : o.Safe) (g : α → β) : (o.map fun r => r.map g).Safe where
  no_breach b hr := by
    have hn := h.no_breach b
    obtain ⟨vm, r, signals, log⟩ := o
    cases r with
    | ok a => cases hr
    | error e =>
      cases hr
      exact hn rfl
  bounded := h.bounded

theorem Safe.of_done {vm : Vm} (h : vm.machine.Bounded) (a : α) (signals : List Signal)
    (log : List Record) : (⟨vm, .ok a, signals, log⟩ : Outcome (Except Failure α)).Safe :=
  ⟨nofun, h⟩

end Outcome

namespace Machine

theorem blank_bounded (memory : Memory) : { blank with memory }.Bounded where
  pc_le := Nat.le_of_ble_eq_true rfl
  depth_le := Nat.zero_le _
  returns _ h := absurd h List.not_mem_nil

theorem Bounded.of_eq {m m' : Machine} (h : m.Bounded) (hp : m'.pc = m.pc)
    (hs : m'.stack = m.stack) : m'.Bounded where
  pc_le := hp ▸ h.pc_le
  depth_le := m'.stack.depth_le
  returns := hs ▸ h.returns

/-- A bounded machine stays so when it moves on. -/
theorem Moves.bounded {m after : Machine} {e : Effect} {target : Nat} (h : m.Moves e after)
    (hb : m.Bounded) (hpc : m.pc ≤ 4094) (ht : e.route.target m.pc = .ok target) :
    { after with pc := target }.Bounded where
  pc_le := by
    show target ≤ 0x10FE
    -- past memory only by a jump; four further than the last word is still below that
    rcases Route.le_of_target ht with hle | hto
    · omega
    · rcases h.target target hto with hle | ⟨r, hr, rfl⟩
      · exact hle
      · have hle := (hb.returns r hr).2
        omega
  depth_le := after.stack.depth_le
  returns r hr := by
    rcases h.returns r hr with hold | hnew
    · exact hb.returns r hold
    · omega

end Machine

namespace Vm

variable {vm : Vm}

/-! ### One operation -/

theorem cycle_safe (h : vm.machine.Bounded) (random : UInt8) : (vm.cycle random).Safe := by
  cases hf : vm.machine.fault? with
  | some f => exact (cycle_of_fault hf random).safe h
  | none =>
    obtain ⟨w, -, hw, -, -⟩ := Machine.exists_of_fault?_eq_none hf
    obtain ⟨i, e, after, target, -, -, hm, ht, hc⟩ := cycle_of_clear hf random
    have hb := hm.bounded h (Machine.pc_le_of_word? hw) ht
    rw [hc]
    exact .of_done hb _ _ _

theorem load_safe (h : vm.machine.Bounded) (program : List UInt8) : (vm.load program).Safe := by
  by_cases hl : program.length ≤ Machine.programLimit
  · rw [load_of_fits hl]
    exact .of_done (Machine.blank_bounded _) _ _ _
  · exact (load_of_too_large (Nat.lt_of_not_le hl) vm).safe h

/-- A run keeps the bounds because each of its cycles does. -/
theorem runFrom_safe (h : vm.machine.Bounded) (notice : Notice) (randoms : List UInt8) :
    (runFrom notice randoms vm).Safe := by
  induction randoms generalizing vm notice with
  | nil => exact .of_done h _ _ _
  | cons r rs ih =>
    have hc := cycle_safe h r
    rw [runFrom]
    split
    · next vm' notice' signals log heq =>
      rw [heq] at hc
      have hrs := ih hc.bounded notice'
      exact ⟨hrs.no_breach, hrs.bounded⟩
    · exact hc

/-- Words that lie within memory can be read. -/
theorem exists_words (m : Memory) {addresses : List Nat}
    (h : ∀ a ∈ addresses, a + 2 ≤ Memory.size) :
    ∃ words, List.Forall₂ (fun a w => m.readWord a = .ok w) addresses words := by
  induction addresses with
  | nil => exact ⟨[], .nil⟩
  | cons a rest ih =>
    rw [List.forall_mem_cons] at h
    obtain ⟨words, hw⟩ := ih h.2
    exact ⟨_, .cons (Memory.readWord_of_le m h.1) hw⟩

theorem listingLines_of_words {m : Memory} {addresses : List Nat} {words : List UInt16}
    (h : List.Forall₂ (fun a w => m.readWord a = .ok w) addresses words) :
    listingLines m addresses = .ok (List.zipWith listingLine addresses words) := by
  induction h with
  | nil => rfl
  | cons ha _ ih =>
    rw [listingLines, ha, ih]
    rfl

theorem listedAddresses_le {last : Nat} (hl : last < Memory.size) :
    ∀ a ∈ listedAddresses last, a + 2 ≤ Memory.size := by
  intro a ha
  rw [listedAddresses, List.mem_map] at ha
  obtain ⟨k, hk, rfl⟩ := ha
  rw [List.mem_range] at hk
  simp only [Machine.programStart, Memory.size] at hk hl ⊢
  omega

/-- A listing has a line for each word that begins before the last byte of memory. -/
theorem listing_of_words {count : Nat} (h : Machine.programStart + count < 2 ^ 64)
    {words : List UInt16}
    (hw : List.Forall₂ (fun a w => vm.machine.memory.readWord a = .ok w)
      (listedAddresses (min (Machine.programStart + count) (Memory.size - 1))) words) :
    vm.listing count = .ok (String.join (List.zipWith listingLine
      (listedAddresses (min (Machine.programStart + count) (Memory.size - 1))) words)) := by
  rw [listing, Checked.add_of_lt h]
  simp only [bind, Except.bind, listingLines_of_words hw]
  rfl

theorem exists_listed_words (m : Memory) (count : Nat) :
    ∃ words, List.Forall₂ (fun a w => m.readWord a = .ok w)
      (listedAddresses (min (Machine.programStart + count) (Memory.size - 1))) words := by
  refine exists_words m (listedAddresses_le ?_)
  simp only [Memory.size]
  omega

theorem perform_safe (h : vm.machine.Bounded) {op : Operation}
    (hop : ∀ count, op = .listing count → Machine.programStart + count < 2 ^ 64) :
    (vm.perform op).Safe := by
  cases op with
  | load program => exact (load_safe h program).map _
  | cycle random => exact (cycle_safe h random).map _
  | run randoms => exact (runFrom_safe h .ok randoms).map _
  | resume =>
    refine ⟨nofun, ?_⟩
    show vm.resume.vm.machine.Bounded
    rw [resume_eq]
    exact h
  | suspend =>
    refine ⟨nofun, ?_⟩
    show vm.suspend.vm.machine.Bounded
    rw [suspend_eq]
    exact h
  | tick | keyDown k | keyUp k => exact ⟨nofun, h.of_eq rfl rfl⟩
  | listing count =>
    obtain ⟨words, hw⟩ := exists_listed_words vm.machine.memory count
    rw [perform, listing_of_words (hop count rfl) hw]
    exact .of_done h _ _ _
  | keys | screen => exact .of_done h _ _ _

/-! ### Any number of operations -/

theorem performAll_safe (h : vm.machine.Bounded) {ops : List Operation}
    (hops : ∀ count, .listing count ∈ ops → Machine.programStart + count < 2 ^ 64) :
    (∀ r ∈ (vm.performAll ops).result, ∀ b, r ≠ .error (.breach b)) ∧
      (vm.performAll ops).vm.machine.Bounded := by
  induction ops generalizing vm with
  | nil => exact ⟨nofun, h⟩
  | cons op ops ih =>
    have hop : (vm.perform op).Safe := by
      refine perform_safe h ?_
      rintro count rfl
      exact hops count List.mem_cons_self
    obtain ⟨hr, hb⟩ := ih hop.bounded fun count hc => hops count (List.mem_cons_of_mem _ hc)
    refine ⟨?_, hb⟩
    intro r hmem
    rcases List.mem_cons.mp hmem with rfl | hmem
    · exact hop.no_breach
    · exact hr r hmem

/-- Whatever a host does with a new machine, no component is asked for what it cannot give, and the
machine stays bounded.  The only provision is that the end of a listing is a number of 64 bits. -/
theorem performAll_within_bounds (config : Config) {ops : List Operation}
    (hops : ∀ count, .listing count ∈ ops → Machine.programStart + count < 2 ^ 64) :
    let o := (new config).performAll ops
    (∀ r ∈ o.result, ∀ b, r ≠ .error (.breach b)) ∧ o.vm.machine.Bounded :=
  performAll_safe (Machine.blank_bounded _) hops

/-- A program that calls itself without end, and a listing past the end of memory. -/
theorem performAll_within_bounds_calls :
    let o := (new {}).performAll
      [.load [0x22, 0x00], .run (List.replicate 20 0), .cycle 0, .listing 5000]
    (∀ r ∈ o.result, ∀ b, r ≠ .error (.breach b)) ∧ o.vm.machine.Bounded := by
  refine performAll_within_bounds {} ?_
  intro count h
  obtain rfl : count = 5000 := by simpa using h
  decide

end Vm

end ChipEight
