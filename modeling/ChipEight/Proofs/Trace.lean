import ChipEight.Proofs.Histories
import ChipEight.Proofs.Mnemonics

/-!
# ChipEight.Proofs.Trace — what the log tells of the instructions

Each cycle that finds an instruction records it on the finest level, before it executes it.
`Vm.decodedIn` lists these instructions with their addresses.  Main statement: the texts of that level
are those of the instructions decoded, one for each and in order, and since no two instructions have
the same text, histories with the same texts decoded the same instructions at the same addresses
(`traces_faithful`).
-/

namespace ChipEight.Vm

variable {vm : Vm} {i : Instr}

/-- The texts of the records on the finest level. -/
def traces (log : List Record) : List String :=
  (log.filter fun record => record.level = .trace).map Record.message

/-- The instruction that a cycle decodes, with its address: none if the word at the program counter
does not lie within memory or is no instruction. -/
def decoded (vm : Vm) : List (Nat × Instr) :=
  ((vm.machine.word?.bind Instr.decode?).map fun i => (vm.machine.pc, i)).toList

/-- The instructions that a run decodes.  The first cycle that fails is its last. -/
def runDecoded : List UInt8 → Vm → List (Nat × Instr)
  | [], _ => []
  | r :: rs, vm =>
    vm.decoded ++
      match (vm.cycle r).result with
      | .ok _ => runDecoded rs (vm.cycle r).vm
      | .error _ => []

/-- The instructions that an operation decodes. -/
def decodedBy (op : Operation) (vm : Vm) : List (Nat × Instr) :=
  match op with
  | .cycle _ => vm.decoded
  | .run rs => vm.runDecoded rs
  | _ => []

/-- The instructions that the cycles of a history decode, in order. -/
def decodedIn : List Operation → Vm → List (Nat × Instr)
  | [], _ => []
  | op :: ops, vm => vm.decodedBy op ++ decodedIn ops (vm.perform op).vm

/-- An address and the instruction there as text. -/
def entryText (d : Nat × Instr) : String := Hex.padded 4 d.1 ++ ": " ++ d.2.mnemonic

theorem toList_entryText (d : Nat × Instr) :
    (entryText d).toList = (Hex.padded 4 d.1).toList ++ ':' :: ' ' :: d.2.mnemonic.toList := by
  rw [entryText, String.toList_append, String.toList_append, List.append_assoc]
  rfl

/-- The address ends at the colon, for no digit is one. -/
theorem entryText_inj {d e : Nat × Instr} (h : entryText d = entryText e) : d = e := by
  have hchars := congrArg String.toList h
  have hcolon : ∀ c : Fin 16, Hex.digit c ≠ ':' := by decide
  rw [toList_entryText, toList_entryText] at hchars
  obtain ⟨haddress, hrest⟩ := eq_and_eq_of_append_eq (Hex.not_mem_padded hcolon 4 d.1)
    (Hex.not_mem_padded hcolon 4 e.1) rfl rfl hchars
  have hmnemonic := String.toList_inj.mp (List.cons.inj (List.cons.inj hrest).2).2
  exact Prod.ext (Hex.padded_inj (String.toList_inj.mp haddress)) (Instr.mnemonic_inj hmnemonic)

/-! ### Single operations -/

theorem traces_append (log log' : List Record) : traces (log ++ log') = traces log ++ traces log' := by
  rw [traces, List.filter_append, List.map_append, traces, traces]

theorem traces_fail (vm : Vm) (f : Failure) :
    traces (vm.fail f : Outcome (Except Failure α)).log = [] := by
  cases f <;> rfl

theorem decoded_of_next (h : vm.machine.next = .ok i) : vm.decoded = [(vm.machine.pc, i)] := by
  obtain ⟨w, hw, hd⟩ := Machine.exists_word?_of_next h
  rw [decoded, hw, Option.bind_some, hd]
  rfl

theorem decoded_of_error {f : Failure} (h : vm.machine.next = .error f) : vm.decoded = [] := by
  rw [decoded]
  cases hw : vm.machine.word? with
  | none => rfl
  | some w =>
    rw [Option.bind_some]
    cases hd : Instr.decode? w with
    | none => rfl
    | some i =>
      rw [Machine.next_of_decode? hw hd] at h
      cases h

theorem traces_cycle (vm : Vm) (random : UInt8) :
    traces (vm.cycle random).log = vm.decoded.map entryText := by
  cases hn : vm.machine.next with
  | error f =>
    rw [cycle, hn, decoded_of_error hn]
    exact traces_fail vm f
  | ok i =>
    rw [cycle, hn, decoded_of_next hn]
    dsimp only
    cases (Act.execute random i).run vm with
    | ok notice after => rfl
    | error f after =>
      -- the instruction was recorded before it failed
      show traces ([.executing vm.machine.pc i] ++ (after.fail f).log) = _
      rw [traces_append, traces_fail, List.append_nil]
      rfl

theorem traces_runFrom (notice : Notice) (randoms : List UInt8) (vm : Vm) :
    traces (runFrom notice randoms vm).log = (vm.runDecoded randoms).map entryText := by
  induction randoms generalizing vm notice with
  | nil => rfl
  | cons r rs ih =>
    cases hc : (vm.cycle r).result with
    | ok n =>
      rw [runFrom_cons_of_ok hc, runDecoded, hc, List.map_append, ← traces_cycle vm r, ← ih n]
      exact traces_append _ _
    | error e =>
      rw [runFrom_cons_of_error hc, runDecoded, hc, List.append_nil]
      exact traces_cycle vm r

theorem traces_load (program : List UInt8) (vm : Vm) : traces (vm.load program).log = [] := by
  by_cases h : program.length ≤ Machine.programLimit
  · rw [load_of_fits h]
    rfl
  · rw [load, if_neg h]
    exact traces_fail vm _

theorem traces_perform (op : Operation) (vm : Vm) :
    traces (vm.perform op).log = (vm.decodedBy op).map entryText := by
  cases op with
  | load program => exact traces_load program vm
  | cycle random => exact traces_cycle vm random
  | run randoms => exact traces_runFrom .ok randoms vm
  | resume =>
    show traces vm.resume.log = []
    rw [resume_eq]
    cases vm.state <;> rfl
  | suspend =>
    show traces vm.suspend.log = []
    rw [suspend_eq]
    cases vm.state <;> rfl
  | tick | keyDown k | keyUp k | listing count | keys | screen => rfl

/-! ### Histories -/

theorem traces_performAll (ops : List Operation) (vm : Vm) :
    traces (vm.performAll ops).log = (vm.decodedIn ops).map entryText := by
  induction ops generalizing vm with
  | nil => rfl
  | cons op ops ih =>
    rw [decodedIn, List.map_append, ← traces_perform op vm, ← ih]
    exact traces_append _ _

/-- Whatever the operations, the texts on the finest level of the log are the address and the
mnemonic of each instruction that their cycles decode, in order.  Different instructions have
different mnemonics, so the texts are the same only if the addresses and instructions are. -/
theorem traces_faithful :
    (∀ (vm : Vm) ops, traces (vm.performAll ops).log =
      (vm.decodedIn ops).map fun d => Hex.padded 4 d.1 ++ ": " ++ d.2.mnemonic) ∧
    (∀ i j : Instr, i.mnemonic = j.mnemonic ↔ i = j) ∧
    ∀ (vm vm' : Vm) ops ops',
      traces (vm.performAll ops).log = traces (vm'.performAll ops').log ↔
        vm.decodedIn ops = vm'.decodedIn ops' := by
  refine ⟨fun vm ops => traces_performAll ops vm, fun i j => ?_, fun vm vm' ops ops' => ?_⟩
  · exact ⟨Instr.mnemonic_inj, congrArg Instr.mnemonic⟩
  · rw [traces_performAll, traces_performAll]
    exact List.map_inj_right fun _ _ => entryText_inj

end ChipEight.Vm
