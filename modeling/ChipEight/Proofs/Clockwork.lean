import ChipEight.Proofs.Lockstep

/-!
# ChipEight.Proofs.Clockwork — clocks that a program does not notice

Ticking the timers and starting and stopping the clocks does nothing that a program notices, unless
it reads the delay timer.  Histories that differ in such operations only are compared one operation
after the other (`SameBut.alike`).  Main statement: they give the same answers and leave the same
program and keys behind (`clocks_unnoticed`).
-/

namespace ChipEight

/-! ### Lists that differ in hidden elements -/

/-- The lists are the same but for elements that are hidden. -/
inductive SameBut (hidden : α → Bool) : List α → List α → Prop
  | nil : SameBut hidden [] []
  | left {a : α} {as bs : List α} (h : hidden a = true) (hs : SameBut hidden as bs) :
      SameBut hidden (a :: as) bs
  | right {b : α} {as bs : List α} (h : hidden b = true) (hs : SameBut hidden as bs) :
      SameBut hidden as (b :: bs)
  | both {a : α} {as bs : List α} (h : hidden a = false) (hs : SameBut hidden as bs) :
      SameBut hidden (a :: as) (a :: bs)

namespace SameBut

variable {hidden : α → Bool} {as bs front : List α}

theorem right_append (hf : ∀ b ∈ front, hidden b = true) (hs : SameBut hidden as bs) :
    SameBut hidden as (front ++ bs) := by
  induction front with
  | nil => exact hs
  | cons b front ih =>
    rw [List.forall_mem_cons] at hf
    exact .right hf.1 (ih hf.2)

theorem of_filter_eq (h : as.filter (!hidden ·) = bs.filter (!hidden ·)) :
    SameBut hidden as bs := by
  induction as generalizing bs with
  | nil =>
    have hbs : ∀ b ∈ bs, hidden b = true := by
      have hnil := List.filter_eq_nil_iff.mp h.symm
      intro b hb
      simpa using hnil b hb
    have hs := right_append hbs .nil
    rw [List.append_nil] at hs
    exact hs
  | cons a as ih =>
    cases ha : hidden a with
    | true =>
      rw [List.filter_cons_of_neg (by simp [ha])] at h
      exact .left ha (ih h)
    | false =>
      rw [List.filter_cons_of_pos (by simp [ha])] at h
      obtain ⟨front, rest, rfl, hfront, -, hrest⟩ := List.filter_eq_cons_iff.mp h.symm
      refine right_append ?_ (.both ha (ih hrest.symm))
      intro b hb
      simpa using hfront b hb

end SameBut

/-! ### Operations that a program does not notice -/

namespace Operation

/-- The operation starts or stops the clocks. -/
def isControl : Operation → Bool
  | .resume | .suspend => true
  | _ => false

/-- The operation ticks the timers or starts or stops the clocks. -/
def isClock : Operation → Bool
  | .tick | .resume | .suspend => true
  | _ => false

/-- The operation executes nothing and leaves a machine that a program cannot tell from the one
before. -/
def Unnoticed (timed : Prop) (op : Operation) : Prop :=
  ∀ vm : Vm, vm.stepsOf op = [] ∧ vm.Alike timed False (vm.perform op).vm

theorem unnoticed_resume {timed : Prop} : Unnoticed timed .resume := by
  refine fun vm => ⟨rfl, ?_⟩
  show vm.Alike timed False vm.resume.vm
  rw [Vm.resume_eq]
  exact ⟨.refl _, fun _ => rfl, False.elim⟩

theorem unnoticed_suspend {timed : Prop} : Unnoticed timed .suspend := by
  refine fun vm => ⟨rfl, ?_⟩
  show vm.Alike timed False vm.suspend.vm
  rw [Vm.suspend_eq]
  exact ⟨.refl _, fun _ => rfl, False.elim⟩

theorem unnoticed_tick : Unnoticed False .tick :=
  fun _ => ⟨rfl, ⟨_, _, rfl, False.elim⟩, False.elim, False.elim⟩

theorem unnoticed_of_isControl {timed : Prop} {op : Operation} (h : op.isControl = true) :
    op.Unnoticed timed := by
  cases op with
  | resume => exact unnoticed_resume
  | suspend => exact unnoticed_suspend
  | _ => cases h

theorem unnoticed_of_isClock {op : Operation} (h : op.isClock = true) : op.Unnoticed False := by
  cases op with
  | resume => exact unnoticed_resume
  | suspend => exact unnoticed_suspend
  | tick => exact unnoticed_tick
  | _ => cases h

end Operation

/-! ### Histories that differ in them -/

namespace Vm

/-- What the operations that are not hidden answer. -/
def answers (hidden : Operation → Bool) (ops : List Operation) (vm : Vm) :
    List (Except Failure Answer) :=
  ((ops.zip (vm.performAll ops).result).filter fun p => !hidden p.1).map Prod.snd

variable {hidden : Operation → Bool} {op : Operation} {vm vm' : Vm} {timed : Prop}

theorem answers_of_hidden (h : hidden op = true) (ops : List Operation) (vm : Vm) :
    vm.answers hidden (op :: ops) = (vm.perform op).vm.answers hidden ops := by
  show (((op, (vm.perform op).result) :: _).filter _).map _ = _
  rw [List.filter_cons_of_neg (by simp [h])]
  rfl

theorem answers_of_shown (h : hidden op = false) (ops : List Operation) (vm : Vm) :
    vm.answers hidden (op :: ops) =
      (vm.perform op).result :: (vm.perform op).vm.answers hidden ops := by
  show (((op, (vm.perform op).result) :: _).filter _).map _ = _
  rw [List.filter_cons_of_pos (by simp [h])]
  rfl

/-- Histories that differ in operations that a program does not notice. -/
theorem alike_of_sameBut {ops ops' : List Operation} (hs : SameBut hidden ops ops')
    (hh : ∀ op, hidden op = true → op.Unnoticed timed) (h : vm.Alike timed False vm')
    (hr : ∀ s ∈ vm.steps ops, s.before.ReadsDelay → timed) :
    vm'.answers hidden ops' = vm.answers hidden ops ∧
      (vm.performAll ops).vm.Alike timed False (vm'.performAll ops').vm := by
  induction hs generalizing vm vm' with
  | nil => exact ⟨rfl, h⟩
  | @left op ops ops' ho hs ih =>
    obtain ⟨hsteps, ha⟩ := hh op ho vm
    rw [steps, hsteps, List.nil_append] at hr
    rw [answers_of_hidden ho]
    exact ih (ha.symm.trans h) hr
  | @right op ops ops' ho hs ih =>
    obtain ⟨-, ha⟩ := hh op ho vm'
    rw [answers_of_hidden ho]
    exact ih (h.trans ha) hr
  | @both op ops ops' ho hs ih =>
    rw [steps, List.forall_mem_append] at hr
    have hp := perform_alike h hr.1
    obtain ⟨hanswers, hend⟩ := ih hp.vm hr.2
    rw [answers_of_shown ho, answers_of_shown ho, hp.result_eq, hanswers]
    exact ⟨rfl, hend⟩

/-- Histories that differ in ticks and in starting and stopping the clocks only, one of which never
reads the delay timer, have all other answers in common and end with the same program and keys.
If they differ in starting and stopping only, they may read it, and the timers and the redraw note
agree as well. -/
theorem clocks_unnoticed (vm : Vm) (ops ops' : List Operation) :
    (ops.filter (!·.isClock) = ops'.filter (!·.isClock) →
      (∀ s ∈ vm.steps ops, ¬ s.before.ReadsDelay) →
      let after := (vm.performAll ops).vm
      let after' := (vm.performAll ops').vm
      vm.answers Operation.isClock ops' = vm.answers Operation.isClock ops ∧
        after.machine.SameProgram after'.machine ∧
        after'.machine.keypad = after.machine.keypad) ∧
    (ops.filter (!·.isControl) = ops'.filter (!·.isControl) →
      let after := (vm.performAll ops).vm
      let after' := (vm.performAll ops').vm
      vm.answers Operation.isControl ops' = vm.answers Operation.isControl ops ∧
        after'.machine = after.machine ∧ after'.redraw = after.redraw) := by
  refine ⟨?_, ?_⟩
  · intro hfilter hr after after'
    obtain ⟨hanswers, hend⟩ := alike_of_sameBut (.of_filter_eq hfilter)
      (fun op => Operation.unnoticed_of_isClock) (.refl vm) fun s hs hd => hr s hs hd
    exact ⟨hanswers, hend.machine.sameProgram, hend.machine.keypad_eq⟩
  · intro hfilter after after'
    have hv : vm.Alike True False vm := .refl vm
    obtain ⟨hanswers, hend⟩ := alike_of_sameBut (.of_filter_eq hfilter)
      (fun op => Operation.unnoticed_of_isControl) hv fun _ _ _ => trivial
    exact ⟨hanswers, hend.machine.eq_of_timed trivial, hend.redraw_eq trivial⟩

/-- A jump is the one instruction that this history executes. -/
theorem not_readsDelay_of_jump (hw : vm.machine.word? = some 0x1200) :
    ∀ s ∈ vm.steps [.tick, .cycle 1, .suspend, .keyDown 4], ¬ s.before.ReadsDelay := by
  have hc : (vm.tick.vm.cycle 1).result = .ok .jump := by
    have hn : vm.tick.vm.machine.next = .ok (.addr .jump 512) := Machine.next_of_decode? hw rfl
    rw [cycle_of_run_exec hn rfl rfl]
  have hsteps : vm.steps [.tick, .cycle 1, .suspend, .keyDown 4] =
      [⟨vm.tick.vm.machine, (vm.tick.vm.cycle 1).vm.machine⟩] := by
    show runSteps [1] vm.tick.vm ++ [] = _
    rw [runSteps, hc]
    rfl
  rw [hsteps, List.forall_mem_singleton]
  rintro ⟨w, hw', hf⟩
  obtain rfl := Option.some.inj (hw.symm.trans hw')
  revert hf
  decide

/-- A program that jumps to itself, with the clocks ticked, started and stopped at other times; then
one that reads the delay timer, with the clocks started and stopped at other times. -/
theorem clocks_unnoticed_loop :
    let jump := ((new {}).load [0x12, 0x00]).vm
    let read := ((new {}).load [0xF0, 0x07]).vm
    jump.answers Operation.isClock [.resume, .cycle 1, .keyDown 4, .tick, .tick] =
        jump.answers Operation.isClock [.tick, .cycle 1, .suspend, .keyDown 4] ∧
      (read.performAll [.tick, .resume, .cycle 1]).vm.machine =
        (read.performAll [.resume, .tick, .cycle 1, .suspend]).vm.machine := by
  intro jump read
  refine ⟨?_, ?_⟩
  · have hw : jump.machine.word? = some 0x1200 := by
      show ((new {}).load [0x12, 0x00]).vm.machine.word? = _
      rw [load_of_fits (by decide)]
      exact word?_installed (new {}) 0x12 0x00 []
    have h := (clocks_unnoticed jump [.tick, .cycle 1, .suspend, .keyDown 4]
      [.resume, .cycle 1, .keyDown 4, .tick, .tick]).1 rfl (not_readsDelay_of_jump hw)
    exact h.1
  · have h := (clocks_unnoticed read [.resume, .tick, .cycle 1, .suspend]
      [.tick, .resume, .cycle 1]).2 rfl
    exact h.2.1

end Vm

end ChipEight
