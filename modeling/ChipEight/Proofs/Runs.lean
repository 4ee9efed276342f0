import ChipEight.Proofs.Cycle

/-!
# ChipEight.Proofs.Runs — runs of cycles, cut in two and cut short

A run is judged by its cycles taken one at a time: `afterCycles` is the machine after some of them
and `answer?` what the one with a given number answers.  Main statement: a run cut in two is its
first part and, only if that succeeds, its second; it fails exactly if one of its cycles is the first
to fail, and then it leaves the machine and the signals as that cycle does; otherwise it answers what
its last cycle answers (`run_of_parts`).
-/

namespace ChipEight

namespace Outcome

/-- Go on with the answer and the machine there is then, unless the operation failed. -/
def andThen (o : Outcome (Except Failure α)) (next : α → Vm → Outcome (Except Failure β)) :
    Outcome (Except Failure β) :=
  match o.result with
  | .ok a => (next a o.vm).behind o.signals o.log
  | .error e => ⟨o.vm, .error e, o.signals, o.log⟩

variable {o : Outcome (Except Failure α)} {next : α → Vm → Outcome (Except Failure β)}

theorem andThen_of_ok {a : α} (h : o.result = .ok a) :
    o.andThen next = (next a o.vm).behind o.signals o.log := by
  rw [andThen, h]

theorem andThen_of_error {e : Failure} (h : o.result = .error e) :
    o.andThen next = ⟨o.vm, .error e, o.signals, o.log⟩ := by
  rw [andThen, h]

theorem andThen_behind (signals : List Signal) (log : List Record) :
    (o.behind signals log).andThen next = (o.andThen next).behind signals log := by
  obtain ⟨vm, result, own, ownLog⟩ := o
  cases result with
  | ok a => simp [andThen, behind]
  | error e => rfl

end Outcome

namespace Vm

variable {vm : Vm} {r : UInt8} {rs randoms : List UInt8} {n notice : Notice} {e : Failure} {k : Nat}

/-! ### One cycle at a time -/

/-- The machine after one cycle for each random byte, whatever they answer. -/
def afterCycles (randoms : List UInt8) (vm : Vm) : Vm := randoms.foldl (fun vm r => (vm.cycle r).vm) vm

/-- What cycle number `k` answers, counted from zero, if there is one. -/
def answer? (randoms : List UInt8) (vm : Vm) (k : Nat) : Option (Except Failure Notice) :=
  randoms[k]?.map fun r => ((vm.afterCycles (randoms.take k)).cycle r).result

/-- The cycles before number `k` succeed, and number `k` fails. -/
structure FirstFails (vm : Vm) (randoms : List UInt8) (k : Nat) (e : Failure) : Prop where
  before : ∀ j < k, ∃ n, vm.answer? randoms j = some (.ok n)
  fails : vm.answer? randoms k = some (.error e)

theorem lt_of_answer? {a : Except Failure Notice} (h : vm.answer? randoms k = some a) :
    k < randoms.length := by
  obtain ⟨r, hr, -⟩ := Option.map_eq_some_iff.mp h
  exact (List.getElem?_eq_some_iff.mp hr).1

theorem answer?_concat (front : List UInt8) (r : UInt8) (vm : Vm) :
    vm.answer? (front ++ [r]) front.length = some ((vm.afterCycles front).cycle r).result := by
  simp [answer?]

/-- Either the first cycle fails, or it succeeds and a later one is the first to fail from there. -/
theorem firstFails_cons_iff :
    vm.FirstFails (r :: rs) k e ↔
      k = 0 ∧ (vm.cycle r).result = .error e ∨
        ∃ k' n, k = k' + 1 ∧ (vm.cycle r).result = .ok n ∧ (vm.cycle r).vm.FirstFails rs k' e := by
  constructor
  · intro h
    cases k with
    | zero => exact .inl ⟨rfl, Option.some.inj h.fails⟩
    | succ k =>
      obtain ⟨n, hn⟩ := h.before 0 (Nat.succ_pos k)
      refine .inr ⟨k, n, rfl, Option.some.inj hn, ?_, h.fails⟩
      exact fun j hj => h.before (j + 1) (Nat.succ_lt_succ hj)
  · rintro (⟨rfl, hc⟩ | ⟨k, n, rfl, hc, h⟩)
    · exact ⟨nofun, congrArg some hc⟩
    · refine ⟨fun j hj => ?_, h.fails⟩
      cases j with
      | zero => exact ⟨n, congrArg some hc⟩
      | succ j => exact h.before j (Nat.lt_of_succ_lt_succ hj)

/-- No two cycles are the first to fail. -/
theorem FirstFails.unique {k' : Nat} {e' : Failure} (h : vm.FirstFails randoms k e)
    (h' : vm.FirstFails randoms k' e') : k' = k ∧ e' = e := by
  rcases Nat.lt_trichotomy k' k with hlt | rfl | hlt
  · obtain ⟨n, hn⟩ := h.before k' hlt
    rw [h'.fails] at hn
    cases hn
  · have he := h'.fails.symm.trans h.fails
    cases he
    exact ⟨rfl, rfl⟩
  · obtain ⟨n, hn⟩ := h'.before k hlt
    rw [h.fails] at hn
    cases hn

/-! ### Runs in two parts -/

theorem runFrom_append (notice : Notice) (front late : List UInt8) (vm : Vm) :
    runFrom notice (front ++ late) vm =
      (runFrom notice front vm).andThen fun n => runFrom n late := by
  induction front generalizing vm notice with
  | nil => rfl
  | cons r rs ih =>
    rw [List.cons_append]
    cases hc : (vm.cycle r).result with
    | ok n => rw [runFrom_cons_of_ok hc, runFrom_cons_of_ok hc, ih, Outcome.andThen_behind]
    | error e =>
      rw [runFrom_cons_of_error hc, runFrom_cons_of_error hc, Outcome.andThen_of_error hc, ← hc]

/-- What was told before a run is forgotten with its first cycle. -/
theorem runFrom_of_ne_nil (h : randoms ≠ []) (notice notice' : Notice) (vm : Vm) :
    runFrom notice randoms vm = runFrom notice' randoms vm := by
  obtain ⟨r, rs, rfl⟩ := List.exists_cons_of_ne_nil h
  rfl

theorem run_append (front : List UInt8) {late : List UInt8} (h : late ≠ []) (vm : Vm) :
    vm.run (front ++ late) = (vm.run front).andThen fun _ => run late := by
  rw [run, runFrom_append]
  congr 1
  funext n vm
  exact runFrom_of_ne_nil h n .ok vm

/-! ### Where a run ends -/

theorem cycle_signals_of_ok (h : (vm.cycle r).result = .ok n) : (vm.cycle r).signals = [] := by
  obtain ⟨i, e, after, target, -, -, -, -, hc⟩ := cycle_of_clear (fault?_eq_none_of_ok h) r
  rw [hc]

/-- A run that succeeds has gone through all its cycles and told the host nothing. -/
theorem runFrom_of_ok (h : (runFrom notice randoms vm).result = .ok n) :
    (runFrom notice randoms vm).vm = vm.afterCycles randoms ∧
      (runFrom notice randoms vm).signals = [] := by
  induction randoms generalizing vm notice with
  | nil => exact ⟨rfl, rfl⟩
  | cons r rs ih =>
    cases hc : (vm.cycle r).result with
    | ok first =>
      rw [runFrom_cons_of_ok hc] at h ⊢
      obtain ⟨hvm, hsignals⟩ := ih h
      refine ⟨hvm, ?_⟩
      show (vm.cycle r).signals ++ (runFrom first rs (vm.cycle r).vm).signals = []
      rw [cycle_signals_of_ok hc, hsignals, List.append_nil]
    | error e =>
      rw [runFrom_cons_of_error hc, hc] at h
      cases h

/-- A run that fails has a cycle that is the first to fail. -/
theorem exists_firstFails (h : (runFrom notice randoms vm).result = .error e) :
    ∃ k, vm.FirstFails randoms k e := by
  induction randoms generalizing vm notice with
  | nil => cases h
  | cons r rs ih =>
    cases hc : (vm.cycle r).result with
    | ok n =>
      rw [runFrom_cons_of_ok hc] at h
      obtain ⟨k, hk⟩ := ih h
      exact ⟨k + 1, firstFails_cons_iff.mpr (.inr ⟨k, n, rfl, hc, hk⟩)⟩
    | error e' =>
      rw [runFrom_cons_of_error hc] at h
      exact ⟨0, firstFails_cons_iff.mpr (.inl ⟨rfl, h⟩)⟩

/-- The first cycle to fail ends the run: the machine is as it was before that cycle, and the host
is told of its fault and of nothing else. -/
theorem FirstFails.refused (h : vm.FirstFails randoms k e) (notice : Notice) :
    ∃ f, e = .fault f ∧
      (runFrom notice randoms vm).Refused (vm.afterCycles (randoms.take k)) f := by
  induction randoms generalizing vm notice k with
  | nil => cases h.fails
  | cons r rs ih =>
    rcases firstFails_cons_iff.mp h with ⟨rfl, hc⟩ | ⟨k, n, rfl, hc, hlater⟩
    · obtain ⟨f, rfl, hf⟩ := cycle_result_eq_error_iff.mp hc
      rw [runFrom_cons_of_error hc]
      exact ⟨f, rfl, cycle_of_fault hf r⟩
    · obtain ⟨f, rfl, hrest⟩ := ih hlater n
      rw [runFrom_cons_of_ok hc]
      refine ⟨f, rfl, hrest.result_eq, hrest.vm_eq, ?_⟩
      show (vm.cycle r).signals ++ _ = _
      rw [cycle_signals_of_ok hc, hrest.signals_eq, List.nil_append]

theorem runFrom_result_eq_error_iff :
    (runFrom notice randoms vm).result = .error e ↔ ∃ k, vm.FirstFails randoms k e := by
  refine ⟨exists_firstFails, ?_⟩
  rintro ⟨k, hk⟩
  obtain ⟨f, rfl, hrun⟩ := hk.refused notice
  exact hrun.result_eq

/-- The last cycle of a run that succeeds answers for all of it. -/
theorem answer?_last (h : (vm.run randoms).result = .ok n) (hne : randoms ≠ []) :
    vm.answer? randoms (randoms.length - 1) = some (.ok n) := by
  obtain ⟨front, r, rfl⟩ : ∃ front r, randoms = front ++ [r] :=
    ⟨_, _, (List.dropLast_concat_getLast hne).symm⟩
  rw [run, runFrom_append] at h
  cases hfront : (runFrom .ok front vm).result with
  | ok n' =>
    rw [Outcome.andThen_of_ok hfront, runFrom_singleton, (runFrom_of_ok hfront).1] at h
    rw [List.length_append, List.length_singleton, Nat.add_sub_cancel, answer?_concat]
    exact congrArg some h
  | error e =>
    rw [Outcome.andThen_of_error hfront] at h
    cases h

/-- A run cut in two leads to the same machine, answer, signals and records as its first part and,
only if that succeeds, its second part, which must not be empty.  It fails with `e` exactly if one of
its cycles is the first to fail, and fails with `e`; there is one such cycle only, the machine is as
it was before it, and the host is told of that fault and of nothing else.  A run that succeeds leads
to the machine after all its cycles, tells the host nothing, and answers what the last one answers. -/
theorem run_of_parts (vm : Vm) (randoms : List UInt8) :
    (∀ front late, randoms = front ++ late → late ≠ [] →
      vm.run randoms = (vm.run front).andThen fun _ => run late) ∧
    (∀ e, (vm.run randoms).result = .error e ↔ ∃ k, vm.FirstFails randoms k e) ∧
    (∀ k e, vm.FirstFails randoms k e →
      k < randoms.length ∧ (∀ k' e', vm.FirstFails randoms k' e' → k' = k ∧ e' = e) ∧
        ∃ f, e = .fault f ∧ (vm.run randoms).Refused (vm.afterCycles (randoms.take k)) f) ∧
    ∀ notice, (vm.run randoms).result = .ok notice →
      (vm.run randoms).vm = vm.afterCycles randoms ∧ (vm.run randoms).signals = [] ∧
        (randoms ≠ [] → vm.answer? randoms (randoms.length - 1) = some (.ok notice)) := by
  refine ⟨?_, fun e => runFrom_result_eq_error_iff, fun k e h => ?_, fun notice h => ?_⟩
  · rintro front late rfl hlate
    exact run_append front hlate vm
  · exact ⟨lt_of_answer? h.fails, fun k' e' h' => h.unique h', h.refused .ok⟩
  · obtain ⟨hvm, hsignals⟩ := runFrom_of_ok h
    exact ⟨hvm, hsignals, answer?_last h⟩

/-- A program that sets a register and then returns without a call: of three cycles the second fails,
and the run is the first one and then the other two. -/
theorem run_of_parts_return :
    let vm := (new {}).installed [0x60, 0x08, 0x00, 0xEE]
    vm.run [1, 2, 3] = (vm.run [1]).andThen (fun _ => run [2, 3]) ∧
      vm.FirstFails [1, 2, 3] 1 (.fault .stackUnderflow) ∧
      (vm.run [1, 2, 3]).vm = (vm.cycle 1).vm ∧
      (vm.run [1, 2, 3]).signals = [.error .stackUnderflow] ∧
      (vm.run [1]).result = .ok .ok ∧ vm.answer? [1] 0 = some (.ok .ok) := by
  intro vm
  have hword : vm.machine.word? = some 0x6008 := word?_installed (new {}) 0x60 0x08 [0x00, 0xEE]
  have hsets : vm.Does (.byte .load 0 8) .ok { vm with machine := vm.machine.setReg 0 8 } :=
    .of_run fun _ => rfl
  have hcycle := hsets.cycle_eq 1 (Machine.next_of_decode? hword (by decide))
  have hok : (vm.cycle 1).result = .ok .ok := by rw [hcycle]
  have hmemory : (vm.cycle 1).vm.machine.memory = vm.machine.memory := by rw [hcycle]; rfl
  have hpc : (vm.cycle 1).vm.machine.pc = Machine.programStart + 2 := by
    rw [hcycle]
    exact congrArg (· + 2) (pc_installed (new {}) [0x60, 0x08, 0x00, 0xEE])
  have hthen : (vm.cycle 1).vm.machine.word? = some 0x00EE :=
    word?_of_program (hmemory.trans (memory_installed _ _)) hpc (by decide) rfl rfl
  have hstack : (vm.cycle 1).vm.machine.stack = CallStack.empty := by rw [hcycle]; rfl
  have hfault : (vm.cycle 1).vm.machine.fault? = some .stackUnderflow := by
    have hret : (vm.cycle 1).vm.machine.obstacle? .ret = some .stackUnderflow := by
      rw [Machine.obstacle?, hstack]
      rfl
    rw [Machine.fault?, hthen]
    exact hret
  have hfirst : vm.FirstFails [1, 2, 3] 1 (.fault .stackUnderflow) :=
    firstFails_cons_iff.mpr (.inr ⟨0, .ok, rfl, hok,
      firstFails_cons_iff.mpr (.inl ⟨rfl, (cycle_of_fault hfault 2).result_eq⟩)⟩)
  obtain ⟨hcut, -, hfails, -⟩ := run_of_parts vm [1, 2, 3]
  obtain ⟨-, -, f, hf, hrefused⟩ := hfails 1 _ hfirst
  cases hf
  have hone : (vm.run [1]).result = .ok .ok := by rw [run, runFrom_singleton, hok]
  obtain ⟨-, -, -, hsucceeds⟩ := run_of_parts vm [1]
  obtain ⟨-, -, hlast⟩ := hsucceeds .ok hone
  exact ⟨hcut [1] [2, 3] rfl (by decide), hfirst, hrefused.vm_eq, hrefused.signals_eq, hone,
    hlast (by decide)⟩

end Vm

end ChipEight
