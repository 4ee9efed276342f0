import ChipEight.Proofs.FaultTable
import ChipEight.Proofs.Frame
import ChipEight.Proofs.Nesting
import ChipEight.Proofs.Steps

/-!
# ChipEight.Proofs.Calls — the call stack and the history of calls

The slots in use of the call stack are the return addresses of the calls that no return has matched
yet.  `Step.turn?` reads calls and returns off the executed instructions, one step follows its turn
(`Step.Taken.follow`), and so does a path (`Machine.Path.follow`).  Main statement: from a load on,
slots and pending calls agree, returns go back behind their own calls, and calls and returns fail
exactly for want of room or of a pending call (`calls_nest`).
-/

namespace ChipEight

/-- The call or return that a word at address `p` is. -/
def Word.turn? (p : Nat) (w : UInt16) : Option Turn :=
  if Word.Fits w "2nnn" then some (.call p)
  else if w = 0x00EE then some .ret
  else none

/-- The call or return that was executed. -/
def Step.turn? (s : Step) : Option Turn := s.before.word?.bind (Word.turn? s.before.pc)

/-- The calls and returns among the steps. -/
def turns (ss : List Step) : List Turn := ss.filterMap Step.turn?

/-! ### One step -/

namespace Machine

variable {m : Machine} {w : UInt16} {i : Instr}

theorem returns_ne_nil_of_clear (h : m.obstacle? .ret = none) : m.returns ≠ [] := by
  obtain ⟨a, stack, hs⟩ := Act.exists_pop_of_clear h
  rw [returns, CallStack.toList_of_pop hs]
  simp

/-- The return addresses follow the turn that the word is. -/
theorem follow_turn? (hd : Instr.decode? w = some i) (ho : m.obstacle? i = none) :
    Turn.follow m.returns (Word.turn? m.pc w).toList = some (m.returnsAfter i) := by
  unfold Word.turn?
  split
  · next hw =>
    obtain rfl := Instr.eq_withOperands_of_fits hd (.addr .call 0) hw rfl
    rfl
  · next hw =>
    split
    · next hr =>
      subst hr
      obtain rfl : Instr.ret = i := Option.some.inj hd
      exact if_neg (returns_ne_nil_of_clear ho)
    · next hr =>
      have he := Instr.encode_of_decode? hd
      unfold returnsAfter
      split
      · exact absurd he.symm hr
      · next a => exact absurd (Instr.fits_of_decode? hd) hw
      · rfl

end Machine

namespace Step.Taken

variable {s : Step}

theorem follow (h : s.Taken) :
    Turn.follow s.before.returns s.turn?.toList = some s.after.returns := by
  obtain ⟨vm, random, notice, hok, hb, ha⟩ := h
  have hf := Vm.fault?_eq_none_of_ok hok
  obtain ⟨w, i, e, after, target, hw, hd, ho, -, hx, -, hc⟩ := Vm.cycle_executed hf random
  have hr : s.after.returns = vm.machine.returnsAfter i := by
    rw [ha, hc]
    exact hx.returns_eq
  rw [Step.turn?, hb, hw, hr]
  exact Machine.follow_turn? hd ho

/-- A return goes to the topmost return address. -/
theorem pc_of_ret (h : s.Taken) (ht : s.turn? = some .ret) :
    s.after.pc = s.before.returns.getLastD 0 := by
  obtain ⟨vm, random, notice, hok, hb, ha⟩ := h
  have hf := Vm.fault?_eq_none_of_ok hok
  obtain ⟨w, i, e, after, target, hw, hd, -, -, -, hto, hc⟩ := Vm.cycle_executed hf random
  have hi : i = .ret := by
    rw [Step.turn?, hb, hw] at ht
    by_cases hcall : Word.Fits w "2nnn"
    · simp [Word.turn?, hcall] at ht
    · by_cases hr : w = 0x00EE
      · subst hr
        exact (Option.some.inj hd).symm
      · simp [Word.turn?, hcall, hr] at ht
  subst hi
  cases hto
  rw [ha, hb, hc]

end Step.Taken

/-! ### Paths -/

theorem turns_cons (s : Step) (ss : List Step) : turns (s :: ss) = s.turn?.toList ++ turns ss := by
  rw [turns, List.filterMap_cons]
  cases s.turn? <;> rfl

namespace Machine.Path

variable {m m' : Machine} {ss : List Step}

theorem follow (h : m.Path ss m') : Turn.follow m.returns (turns ss) = some m'.returns := by
  induction h with
  | stay h =>
    rw [returns, returns, h.stack_eq]
    rfl
  | @step m m' s ss h hs _ ih =>
    have hr : m.returns = s.before.returns := by rw [returns, returns, h.stack_eq]
    rw [turns_cons, Turn.follow_append, hr, hs.follow]
    exact ih

/-- A path that starts without calls in progress ends with the return addresses of its pending
calls. -/
theorem pending_iff (h : m.Path ss m') (hm : m.returns = []) {ps : List Nat} :
    Turn.Pending (turns ss) ps ↔ m'.returns = ps.map (· + 2) := by
  have hf := h.follow
  rw [hm] at hf
  rw [Turn.pending_iff_follow, hf, Option.some.injEq]

theorem exists_pending (h : m.Path ss m') (hm : m.returns = []) :
    ∃ ps, Turn.Pending (turns ss) ps ∧ m'.returns = ps.map (· + 2) := by
  have hf := h.follow
  rw [hm] at hf
  exact Turn.exists_pending_of_follow hf

end Machine.Path

theorem Step.eq_of_turn? {s : Step} {p : Nat} (h : s.turn? = some (.call p)) : p = s.before.pc := by
  obtain ⟨w, -, hw⟩ := Option.bind_eq_some_iff.mp h
  unfold Word.turn? at hw
  split at hw
  · cases hw
    rfl
  · split at hw <;> cases hw

namespace Machine.Path

variable {m m' : Machine} {ss ss' : List Step} {s : Step}

/-- A return that was executed has a call of its own, with a balanced piece in between. -/
theorem exists_caller (h : m.Path (ss ++ s :: ss') m') (hm : m.returns = [])
    (ht : s.turn? = some .ret) :
    ∃ outer c body, ss = outer ++ c :: body ∧ c.turn? = some (.call c.before.pc) ∧
      Turn.Balanced (turns body) := by
  obtain ⟨hfront, hs, -⟩ := h.cut
  obtain ⟨ps, hp, hr⟩ := hfront.exists_pending hm
  have hne : ps ≠ [] := by
    rintro rfl
    have hf := hs.follow
    rw [ht, hr] at hf
    cases hf
  obtain ⟨qs, p, rfl⟩ : ∃ qs p, ps = qs ++ [p] := ⟨_, _, (List.dropLast_concat_getLast hne).symm⟩
  obtain ⟨h₀, piece, heq, -, hb⟩ := hp.last
  -- the pieces of the history are pieces of the steps
  obtain ⟨outer, later, rfl, -, hlater⟩ := List.filterMap_eq_append_iff.mp heq
  obtain ⟨still, c, body, rfl, -, hc, rfl⟩ := List.filterMap_eq_cons_iff.mp hlater
  obtain rfl := c.eq_of_turn? hc
  exact ⟨outer ++ still, c, body, by simp, hc, hb⟩

/-- A return goes back behind its own call, and to the call stack of that time. -/
theorem returns_to_caller {c : Step} {outer body rest : List Step}
    (h : m.Path (outer ++ c :: (body ++ s :: rest)) m') (hc : c.turn? = some (.call c.before.pc))
    (hs : s.turn? = some .ret) (hb : Turn.Balanced (turns body)) :
    s.after.pc = c.before.pc + 2 ∧ s.after.stack.toList = c.before.stack.toList := by
  obtain ⟨-, hcalled, hinner⟩ := h.cut
  obtain ⟨hbody, hreturned, -⟩ := hinner.cut
  have hpush : c.after.returns = c.before.returns ++ [c.before.pc + 2] := by
    have hf := hcalled.follow
    rw [hc] at hf
    exact (Option.some.inj hf).symm
  have hkept : s.before.returns = c.before.returns ++ [c.before.pc + 2] := by
    have hf := hbody.follow
    rw [hb.follow_eq, hpush] at hf
    exact (Option.some.inj hf).symm
  refine ⟨?_, ?_⟩
  · rw [hreturned.pc_of_ret hs, hkept, List.getLastD_concat]
  · have hf := hreturned.follow
    have hne : c.before.returns ++ [c.before.pc + 2] ≠ [] := by simp
    rw [hs, hkept, Option.toList_some, Turn.follow, if_neg hne, List.dropLast_concat] at hf
    have hr : c.before.returns = s.after.returns := Option.some.inj hf
    exact ((List.map_inj_right fun _ _ => UInt16.toNat_inj.mp).mp hr).symm

end Machine.Path

/-! ### Calls and returns that fail -/

section Fail

variable {vm : Vm}

theorem Vm.cycle_fails_iff {random : UInt8} :
    (∃ e, (vm.cycle random).result = .error e) ↔ vm.machine.fault? ≠ none := by
  simp only [cycle_result_eq_error_iff, Option.ne_none_iff_exists']
  constructor
  · rintro ⟨-, f, -, hf⟩
    exact ⟨f, hf⟩
  · rintro ⟨f, hf⟩
    exact ⟨_, f, rfl, hf⟩

theorem Machine.length_returns (m : Machine) : m.returns.length = m.stack.depth := by
  rw [returns, List.length_map, CallStack.length_toList]

theorem Vm.ret_fails_iff {random : UInt8} (hw : vm.machine.word? = some 0x00EE) :
    (∃ e, (vm.cycle random).result = .error e) ↔ vm.machine.returns = [] := by
  have hd : Instr.decode? 0x00EE = some .ret := by decide
  rw [cycle_fails_iff, Machine.fault?_of_decode? hw hd, ← List.length_eq_zero_iff,
    Machine.length_returns]
  simp [Machine.obstacle?, CallStack.isEmpty]

theorem Vm.call_fails_iff {random : UInt8} {w : UInt16} (hw : vm.machine.word? = some w)
    (hf : Word.Fits w "2nnn") :
    (∃ e, (vm.cycle random).result = .error e) ↔ vm.machine.returns.length = 16 := by
  have hd := Instr.decode?_of_fits (i := .addr .call 0) hf rfl
  rw [cycle_fails_iff, Machine.fault?_of_decode? hw hd, Machine.length_returns]
  simp [Machine.obstacle?, Instr.withOperands, CallStack.isFull]

end Fail

/-! ### From a load on -/

/-- The call stack agrees with the calls and returns executed so far. -/
structure Vm.Nested (history : List Step) (vm : Vm) : Prop where
  /-- The slots in use hold the addresses behind the pending calls, in the order of their
  execution; a return fails iff no call is pending, and a call iff sixteen are. -/
  pending : ∃ ps, (∀ qs, Turn.Pending (turns history) qs ↔ qs = ps) ∧
    vm.machine.stack.toList.map UInt16.toNat = ps.map (· + 2) ∧
    ∀ random,
      (vm.machine.word? = some 0x00EE →
        ((∃ e, (vm.cycle random).result = .error e) ↔ ps = [])) ∧
      ∀ w, vm.machine.word? = some w → Word.Fits w "2nnn" →
        ((∃ e, (vm.cycle random).result = .error e) ↔ ps.length = 16)
  /-- Every return that was executed has a call of its own. -/
  caller : ∀ front s rest, history = front ++ s :: rest → s.turn? = some .ret →
    ∃ outer c body, front = outer ++ c :: body ∧ c.turn? = some (.call c.before.pc) ∧
      Turn.Balanced (turns body)
  /-- It went back behind that call, and to the call stack of that time. -/
  back : ∀ outer c body s rest, history = outer ++ c :: (body ++ s :: rest) →
    c.turn? = some (.call c.before.pc) → s.turn? = some .ret → Turn.Balanced (turns body) →
    s.after.pc = c.before.pc + 2 ∧ s.after.stack.toList = c.before.stack.toList

namespace Vm

/-- After a load, and until the next one, call stack and history agree, whatever the host does and
whatever the program calls and stores. -/
theorem calls_nest {vm : Vm} {program : List UInt8} (hl : (vm.load program).result = .ok ())
    {ops : List Operation} (hops : ∀ op ∈ ops, ¬ op.Installs) :
    let start := (vm.load program).vm
    Nested (start.steps ops) (start.performAll ops).vm := by
  intro start
  have hp := performAll_path hops start
  have hm : start.machine.returns = [] := by
    have hfits : program.length ≤ Machine.programLimit := by
      refine Nat.le_of_not_lt fun hlt => ?_
      rw [(load_of_too_large hlt vm).result_eq] at hl
      cases hl
    show (vm.load program).vm.machine.returns = []
    rw [load_of_fits hfits]
    rfl
  refine ⟨?_, ?_, ?_⟩
  · obtain ⟨ps, hps, hr⟩ := hp.exists_pending hm
    refine ⟨ps, fun qs => ?_, hr, fun random => ⟨fun hw => ?_, fun w hw hf => ?_⟩⟩
    · rw [hp.pending_iff hm, hr, List.map_inj_right fun _ _ => Nat.add_right_cancel]
      exact eq_comm
    · rw [ret_fails_iff hw, hr, List.map_eq_nil_iff]
    · rw [call_fails_iff hw hf, hr, List.length_map]
  · intro front s rest hsplit hs
    rw [hsplit] at hp
    exact hp.exists_caller hm hs
  · intro outer c body s rest hsplit hc hs hb
    rw [hsplit] at hp
    exact hp.returns_to_caller hc hs hb

/-- A program that calls itself without end, run past sixteen calls, with a rejected load and a key
in between. -/
theorem calls_nest_recursion :
    let start := ((new {}).load [0x22, 0x00]).vm
    let ops : List Operation :=
      [.run (List.replicate 10 0), .load (List.replicate 3584 0), .keyDown 4, .resume,
        .run (List.replicate 10 0)]
    Nested (start.steps ops) (start.performAll ops).vm := by
  refine calls_nest ?_ ?_
  · rw [load_of_fits (by decide)]
  · simp only [List.forall_mem_cons, Operation.Installs, List.length_replicate]
    simp

end Vm

end ChipEight
