import ChipEight.Proofs.Cycle
import ChipEight.Vm.History
import Mathlib.Data.List.Forall2

/-!
# ChipEight.Proofs.Histories — from one operation to a whole history

Cycles make up runs, and operations make up histories.  Main statements: what every cycle keeps is
kept by a run (`runFrom_invariant`), what every operation keeps is kept by a history, each of whose
answers is as the kept fact says (`performAll_steady`), what some operations set and all others keep
is as the last of those set it (`afterAll_latest`), and a fact that operations set and keep is true
if it was set and kept since (`afterAll_iff_since`).
-/

namespace ChipEight.Vm

variable {vm : Vm}

theorem runFrom_invariant {P : Vm → Prop} (hP : ∀ vm r, P vm → P (vm.cycle r).vm) (h : P vm)
    (notice : Notice) (randoms : List UInt8) : P (runFrom notice randoms vm).vm := by
  induction randoms generalizing vm notice with
  | nil => exact h
  | cons r rs ih =>
    cases hc : (vm.cycle r).result with
    | ok n =>
      rw [runFrom_cons_of_ok hc]
      exact ih (hP vm r h) n
    | error e =>
      rw [runFrom_cons_of_error hc]
      exact hP vm r h

theorem performAll_cons (op : Operation) (ops : List Operation) (vm : Vm) :
    vm.performAll (op :: ops) =
      (((vm.perform op).vm.performAll ops).map ((vm.perform op).result :: ·)).behind
        (vm.perform op).signals (vm.perform op).log := rfl

@[simp] theorem afterAll_nil (vm : Vm) : vm.afterAll [] = vm := rfl

@[simp] theorem afterAll_cons (op : Operation) (ops : List Operation) (vm : Vm) :
    vm.afterAll (op :: ops) = (vm.perform op).vm.afterAll ops := rfl

theorem afterAll_append (ops ops' : List Operation) (vm : Vm) :
    vm.afterAll (ops ++ ops') = (vm.afterAll ops).afterAll ops' := by
  induction ops generalizing vm with
  | nil => rfl
  | cons op ops ih => exact ih _

/-- If `I` lets each operation answer as `Q` says and holds again after it, so it does along a
history of operations that `A` admits. -/
theorem performAll_steady {I : Vm → Prop} {A : Operation → Prop}
    {Q : Operation → Except Failure Answer → Prop}
    (step : ∀ vm op, I vm → A op → Q op (vm.perform op).result ∧ I (vm.perform op).vm) (h : I vm)
    {ops : List Operation} (hops : ∀ op ∈ ops, A op) :
    List.Forall₂ Q ops (vm.performAll ops).result ∧ I (vm.performAll ops).vm := by
  induction ops generalizing vm with
  | nil => exact ⟨.nil, h⟩
  | cons op ops ih =>
    rw [List.forall_mem_cons] at hops
    obtain ⟨hq, hi⟩ := step vm op h hops.1
    obtain ⟨hqs, his⟩ := ih hi hops.2
    exact ⟨.cons hq hqs, his⟩

/-- The same without a word on the answers. -/
theorem afterAll_invariant {I : Vm → Prop} {A : Operation → Prop}
    (step : ∀ vm op, I vm → A op → I (vm.perform op).vm) (h : I vm) {ops : List Operation}
    (hops : ∀ op ∈ ops, A op) : I (vm.afterAll ops) :=
  (performAll_steady (Q := fun _ _ => True) (fun vm op hi ha => ⟨trivial, step vm op hi ha⟩) h
    hops).2

/-- If `f` is what the operations that `g` picks out make it, and the same as before after all
others, then the last one picked out decides. -/
theorem afterAll_latest {f : Vm → β} {g : Operation → Option α} {value : α → β}
    {A : Operation → Prop}
    (step : ∀ vm op, A op → f (vm.perform op).vm = (g op).elim (f vm) value)
    {ops : List Operation} (hops : ∀ op ∈ ops, A op) (vm : Vm) :
    f (vm.afterAll ops) = (ops.filterMap g).getLast?.elim (f vm) value := by
  induction ops generalizing vm with
  | nil => rfl
  | cons op ops ih =>
    rw [List.forall_mem_cons] at hops
    have hfirst := step vm op hops.1
    have hrest := ih hops.2 (vm.perform op).vm
    -- the rest falls back on what the first one made it
    rw [hfirst] at hrest
    rw [afterAll_cons, hrest, List.filterMap_cons]
    cases g op with
    | none => rfl
    | some a =>
      rw [List.getLast?_cons]
      cases (ops.filterMap g).getLast? <;> rfl

/-- Of each operation of the history, and the machine that it is done to, `keeps` is true. -/
def Kept (keeps : Operation → Vm → Prop) : List Operation → Vm → Prop
  | [], _ => True
  | op :: ops, vm => keeps op vm ∧ Kept keeps ops (vm.perform op).vm

/-- If a fact is true after an operation that `sets` it, and after one that `keeps` it if it was
true before, and never otherwise, then it is true after a history that set it and kept it since, or
kept it all along. -/
theorem afterAll_iff_since {P : Vm → Prop} {sets : Operation → Prop}
    {keeps : Operation → Vm → Prop}
    (step : ∀ vm op, P (vm.perform op).vm ↔ sets op ∨ P vm ∧ keeps op vm)
    (ops : List Operation) (vm : Vm) :
    P (vm.afterAll ops) ↔
      (∃ front op late, ops = front ++ op :: late ∧ sets op ∧
        Kept keeps late (vm.afterAll (front ++ [op]))) ∨
      P vm ∧ Kept keeps ops vm := by
  induction ops generalizing vm with
  | nil => simp [Kept]
  | cons op ops ih =>
    -- the operation that set it is the first one or a later one
    have hsplit : (∃ front op' late, op :: ops = front ++ op' :: late ∧ sets op' ∧
          Kept keeps late (vm.afterAll (front ++ [op']))) ↔
        sets op ∧ Kept keeps ops (vm.perform op).vm ∨
          ∃ front op' late, ops = front ++ op' :: late ∧ sets op' ∧
            Kept keeps late ((vm.perform op).vm.afterAll (front ++ [op'])) := by
      constructor
      · rintro ⟨front, op', late, heq, hset, hkept⟩
        cases front with
        | nil =>
          cases heq
          exact .inl ⟨hset, hkept⟩
        | cons first front =>
          cases heq
          exact .inr ⟨front, op', late, rfl, hset, hkept⟩
      · rintro (⟨hset, hkept⟩ | ⟨front, op', late, rfl, hset, hkept⟩)
        · exact ⟨[], op, ops, rfl, hset, hkept⟩
        · exact ⟨op :: front, op', late, rfl, hset, hkept⟩
    rw [afterAll_cons, ih, step, hsplit, Kept, or_and_right, and_assoc, or_left_comm, or_assoc]

end ChipEight.Vm
