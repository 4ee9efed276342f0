import ChipEight.Vm.Exec

/-!
# ChipEight.Proofs.Abreast — two executions side by side

Two machines under control are alike when the program cannot tell them apart: they may differ in
run state and configuration, and, unless they are `timed`, in timers and redraw note.  Two acts are
abreast when they end in the same way from alike machines, and with alike machines again.  Main
statement: an instruction is abreast of itself, except that reading the delay timer takes timed
machines (`Abreast.execute`).
-/

namespace ChipEight

/-- All but the timers is the same, and the timers are too if the machines are timed. -/
def Machine.Alike (timed : Prop) (m m' : Machine) : Prop :=
  ∃ delay sound, m' = { m with delay, sound } ∧ (timed → delay = m.delay ∧ sound = m.sound)

/-- Machines that a program cannot tell apart.  If they are `timed`, it cannot do so by its timers
either, and if they are `clocked`, they are in the same run state. -/
structure Vm.Alike (timed clocked : Prop) (vm vm' : Vm) : Prop where
  machine : vm.machine.Alike timed vm'.machine
  redraw_eq : timed → vm'.redraw = vm.redraw
  state_eq : clocked → vm'.state = vm.state

theorem Machine.Alike.refl {timed : Prop} (m : Machine) : m.Alike timed m :=
  ⟨m.delay, m.sound, rfl, fun _ => ⟨rfl, rfl⟩⟩

theorem Machine.Alike.symm {timed : Prop} {m m' : Machine} (h : m.Alike timed m') :
    m'.Alike timed m := by
  obtain ⟨d, s, rfl, ht⟩ := h
  exact ⟨m.delay, m.sound, rfl, fun t => ⟨(ht t).1.symm, (ht t).2.symm⟩⟩

theorem Machine.Alike.trans {timed : Prop} {m m' m'' : Machine} (h : m.Alike timed m')
    (h' : m'.Alike timed m'') : m.Alike timed m'' := by
  obtain ⟨d, s, rfl, ht⟩ := h
  obtain ⟨d', s', rfl, ht'⟩ := h'
  exact ⟨d', s', rfl, fun t => ⟨(ht' t).1.trans (ht t).1, (ht' t).2.trans (ht t).2⟩⟩

theorem Vm.Alike.refl {timed clocked : Prop} (vm : Vm) : vm.Alike timed clocked vm :=
  ⟨.refl _, fun _ => rfl, fun _ => rfl⟩

theorem Vm.Alike.symm {timed clocked : Prop} {vm vm' : Vm} (h : vm.Alike timed clocked vm') :
    vm'.Alike timed clocked vm where
  machine := h.machine.symm
  redraw_eq t := (h.redraw_eq t).symm
  state_eq c := (h.state_eq c).symm

theorem Vm.Alike.trans {timed clocked : Prop} {vm vm' vm'' : Vm} (h : vm.Alike timed clocked vm')
    (h' : vm'.Alike timed clocked vm'') : vm.Alike timed clocked vm'' where
  machine := h.machine.trans h'.machine
  redraw_eq t := (h'.redraw_eq t).trans (h.redraw_eq t)
  state_eq c := (h'.state_eq c).trans (h.state_eq c)

namespace Act

/-- Both end with an answer or both with the same failure. -/
inductive Ends (timed clocked : Prop) (Q : α → β → Prop) :
    EStateM.Result Failure Vm α → EStateM.Result Failure Vm β → Prop
  | ok {a : α} {b : β} {vm vm' : Vm} (h : Q a b) (hv : vm.Alike timed clocked vm') :
      Ends timed clocked Q (.ok a vm) (.ok b vm')
  | error (e : Failure) {vm vm' : Vm} (hv : vm.Alike timed clocked vm') :
      Ends timed clocked Q (.error e vm) (.error e vm')

/-- From alike machines both end in the same way, with answers that `Q` relates. -/
def Abreast (timed clocked : Prop) (Q : α → β → Prop) (act : Act α) (act' : Act β) : Prop :=
  ∀ vm vm', vm.Alike timed clocked vm' → Ends timed clocked Q (act.run vm) (act'.run vm')

namespace Abreast

variable {timed clocked : Prop}

/-! ### The rules -/

theorem pure {Q : α → β → Prop} {a : α} {b : β} (h : Q a b) :
    Abreast timed clocked Q (pure a) (pure b) :=
  fun _ _ hv => .ok h hv

theorem bind {Q : α → β → Prop} {Q' : γ → δ → Prop} {act : Act α} {act' : Act β} {k : α → Act γ}
    {k' : β → Act δ} (h : Abreast timed clocked Q act act')
    (hk : ∀ a b, Q a b → Abreast timed clocked Q' (k a) (k' b)) :
    Abreast timed clocked Q' (act >>= k) (act' >>= k') := by
  intro vm vm' hv
  have he := h vm vm' hv
  rw [EStateM.run_bind, EStateM.run_bind]
  generalize act.run vm = r at he ⊢
  generalize act'.run vm' = r' at he ⊢
  cases he with
  | ok hab hv => exact hk _ _ hab _ _ hv
  | error e hv => exact .error e hv

/-- Acts with the same answer go on with the same continuation. -/
theorem andThen {Q : γ → δ → Prop} {act act' : Act α} {k : α → Act γ} {k' : α → Act δ}
    (h : Abreast timed clocked Eq act act') (hk : ∀ a, Abreast timed clocked Q (k a) (k' a)) :
    Abreast timed clocked Q (act >>= k) (act' >>= k') := by
  refine h.bind fun a b hab => ?_
  subst hab
  exact hk a

theorem machine : Abreast timed clocked (Machine.Alike timed) Act.machine Act.machine :=
  fun _ _ hv => .ok hv.machine hv

/-- Each act sees its own machine, and the other one has other timers only. -/
theorem withMachine {Q : α → β → Prop} {k : Machine → Act α} {k' : Machine → Act β}
    (hk : ∀ (m : Machine) (delay sound : UInt8),
      Abreast timed clocked Q (k m) (k' { m with delay, sound })) :
    Abreast timed clocked Q (Act.machine >>= k) (Act.machine >>= k') := by
  refine machine.bind fun m m' h => ?_
  obtain ⟨delay, sound, rfl, -⟩ := h
  exact hk m delay sound

theorem change {f f' : Machine → Machine}
    (h : ∀ m m', m.Alike timed m' → (f m).Alike timed (f' m')) :
    Abreast timed clocked Eq (change f) (change f') :=
  fun _ _ hv => .ok rfl ⟨h _ _ hv.machine, hv.redraw_eq, hv.state_eq⟩

/-- A change that has no part in the timers. -/
theorem changeUntimed {f : Machine → Machine}
    (hf : ∀ (m : Machine) (delay sound : UInt8),
      f { m with delay, sound } = { f m with delay, sound })
    (hd : ∀ m, (f m).delay = m.delay) (hs : ∀ m, (f m).sound = m.sound) :
    Abreast timed clocked Eq (Act.change f) (Act.change f) := by
  refine change ?_
  rintro m _ ⟨delay, sound, rfl, ht⟩
  refine ⟨delay, sound, hf m delay sound, fun t => ?_⟩
  rw [hd, hs]
  exact ht t

theorem askRedraw : Abreast timed clocked Eq askRedraw askRedraw :=
  fun _ _ hv => .ok rfl ⟨hv.machine, fun _ => rfl, hv.state_eq⟩

theorem setAsleep (asleep : Bool) :
    Abreast timed clocked Eq (setAsleep asleep) (setAsleep asleep) := by
  intro vm vm' hv
  refine .ok rfl ⟨hv.machine, hv.redraw_eq, fun c => ?_⟩
  show vm'.state.setAsleep asleep = vm.state.setAsleep asleep
  rw [hv.state_eq c]

theorem fault {Q : α → β → Prop} (f : Fault) : Abreast timed clocked Q (fault f) (fault f) :=
  fun _ _ hv => .error _ hv

theorem ask (e : Except Breach α) : Abreast timed clocked Eq (ask e) (ask e) := by
  intro vm vm' hv
  cases e with
  | ok a => exact .ok rfl hv
  | error b => exact .error _ hv

theorem ite {Q : α → β → Prop} {c : Prop} [Decidable c] {act₁ act₂ : Act α} {act₁' act₂' : Act β}
    (h₁ : Abreast timed clocked Q act₁ act₁') (h₂ : Abreast timed clocked Q act₂ act₂') :
    Abreast timed clocked Q (if c then act₁ else act₂) (if c then act₁' else act₂') := by
  split
  · exact h₁
  · exact h₂

/-! ### The acts that look at the machine -/

theorem writeByte (address : Nat) (b : UInt8) :
    Abreast timed clocked Eq (writeByte address b) (writeByte address b) := by
  refine withMachine fun m _ _ => (ask _).andThen fun memory => ?_
  exact changeUntimed (fun _ _ _ => rfl) (fun _ => rfl) fun _ => rfl

theorem writeBlock (address : Nat) (bytes : List UInt8) :
    Abreast timed clocked Eq (writeBlock address bytes) (writeBlock address bytes) := by
  refine withMachine fun m _ _ => (ask _).andThen fun memory => ?_
  exact changeUntimed (fun _ _ _ => rfl) (fun _ => rfl) fun _ => rfl

theorem push (a : UInt16) : Abreast timed clocked Eq (push a) (push a) := by
  refine withMachine fun m _ _ => (ask _).andThen fun stack => ?_
  exact changeUntimed (fun _ _ _ => rfl) (fun _ => rfl) fun _ => rfl

theorem pop : Abreast timed clocked Eq pop pop := by
  refine withMachine fun m _ _ => (ask _).andThen fun p => andThen ?_ fun _ => .pure rfl
  exact changeUntimed (fun _ _ _ => rfl) (fun _ => rfl) fun _ => rfl

theorem takeLatch : Abreast timed clocked Eq takeLatch takeLatch := by
  refine withMachine fun m _ _ => andThen ?_ fun _ => .pure rfl
  exact changeUntimed (fun _ _ _ => rfl) (fun _ => rfl) fun _ => rfl

theorem window (length : Nat) : Abreast timed clocked Eq (window length) (window length) := by
  refine withMachine fun m _ _ => .ite (.pure rfl) ?_
  exact (ask _).andThen fun past => (ask _).andThen fun last => .fault _

/-! ### The instructions by their operands -/

theorem execAddr (op : AddrOp) (a : Addr) :
    Abreast timed clocked Eq (execAddr op a) (execAddr op a) := by
  refine withMachine fun m _ _ => ?_
  cases op with
  | sys | jump => exact .pure rfl
  | call =>
    refine .ite (.fault _) ?_
    refine (ask _).andThen fun back => (ask _).andThen fun a => (push a).andThen fun _ => ?_
    exact .pure rfl
  | loadIndex =>
    refine andThen ?_ fun _ => .pure rfl
    exact changeUntimed (fun _ _ _ => rfl) (fun _ => rfl) fun _ => rfl
  | jumpOffset => exact (ask _).andThen fun _ => .pure rfl

/-- A register gets a value that both sides agree on. -/
theorem setReg (x : Reg) (v : UInt8) :
    Abreast timed clocked Eq (Act.change (·.setReg x v)) (Act.change (·.setReg x v)) :=
  changeUntimed (fun _ _ _ => rfl) (fun _ => rfl) fun _ => rfl

theorem execByte (random : UInt8) (op : ByteOp) (x : Reg) (k : UInt8) :
    Abreast timed clocked Eq (execByte random op x k) (execByte random op x k) := by
  refine withMachine fun m _ _ => ?_
  cases op with
  | skipEq | skipNe => exact .pure rfl
  | load | add | random => exact (setReg x _).andThen fun _ => .pure rfl

theorem setWithFlag (x : Reg) (result : UInt8) (flag : Bool) :
    Abreast timed clocked Eq (setWithFlag x result flag) (setWithFlag x result flag) :=
  (setReg x result).andThen fun _ => (setReg Reg.flag _).andThen fun _ => .pure rfl

theorem execPair (op : PairOp) (x y : Reg) :
    Abreast timed clocked Eq (execPair op x y) (execPair op x y) := by
  refine withMachine fun m _ _ => withMachine fun m' _ _ => ?_
  cases op with
  | skipEq | skipNe => exact .pure rfl
  | copy | or | and | xor => exact (setReg x _).andThen fun _ => .pure rfl
  | add | sub | shiftRight | subFrom | shiftLeft => exact setWithFlag x _ _

theorem execDraw (x y : Reg) (n : Nibble) :
    Abreast timed clocked Eq (execDraw x y n) (execDraw x y n) := by
  refine (window n).andThen fun a => withMachine fun m _ _ => (ask _).andThen fun rows => ?_
  refine andThen ?_ fun _ => (setReg Reg.flag _).andThen fun _ => askRedraw.andThen fun _ => .pure rfl
  exact changeUntimed (fun _ _ _ => rfl) (fun _ => rfl) fun _ => rfl

theorem execAwaitKey (x : Reg) :
    Abreast timed clocked Eq (execAwaitKey x) (execAwaitKey x) := by
  refine takeLatch.andThen fun latch => ?_
  cases latch with
  | some k => exact (setReg x _).andThen fun _ => (setAsleep false).andThen fun _ => .pure rfl
  | none => exact (setAsleep true).andThen fun _ => .pure rfl

theorem execLoadGlyph (x : Reg) :
    Abreast timed clocked Eq (execLoadGlyph x) (execLoadGlyph x) := by
  refine withMachine fun m _ _ => (ask _).andThen fun offset => (ask _).andThen fun address => ?_
  refine (ask _).andThen fun index => andThen ?_ fun _ => .pure rfl
  exact changeUntimed (fun _ _ _ => rfl) (fun _ => rfl) fun _ => rfl

theorem execStoreDigits (x : Reg) :
    Abreast timed clocked Eq (execStoreDigits x) (execStoreDigits x) := by
  refine (window 3).andThen fun a => withMachine fun m _ _ => (writeByte a _).andThen fun _ => ?_
  refine (ask _).andThen fun b => (writeByte b _).andThen fun _ => ?_
  exact (ask _).andThen fun c => (writeByte c _).andThen fun _ => .pure rfl

theorem execStoreRegs (x : Reg) :
    Abreast timed clocked Eq (execStoreRegs x) (execStoreRegs x) := by
  refine (ask _).andThen fun count => (window count).andThen fun a => withMachine fun m _ _ => ?_
  exact (ask _).andThen fun values => (writeBlock a values).andThen fun _ => .pure rfl

/-- The machine with its registers written is handed on as a value, timers and all. -/
theorem writeRegs {m m' : Machine} (h : m.Alike timed m') (values : List UInt8) :
    Abreast timed clocked (Machine.Alike timed) (Act.ask (m.writeRegs values))
      (Act.ask (m'.writeRegs values)) := by
  obtain ⟨delay, sound, rfl, ht⟩ := h
  intro vm vm' hv
  unfold Machine.writeRegs
  split
  · exact .ok ⟨delay, sound, by simp only [Machine.setRegs], ht⟩ hv
  · exact .error _ hv

theorem execLoadRegs (x : Reg) :
    Abreast timed clocked Eq (execLoadRegs x) (execLoadRegs x) := by
  refine (ask _).andThen fun count => (window count).andThen fun a => withMachine fun m _ _ => ?_
  refine (ask _).andThen fun values => machine.bind fun m m' h => ?_
  refine (writeRegs h values).bind fun n n' hn => andThen ?_ fun _ => .pure rfl
  exact change fun _ _ _ => hn

theorem readDelay (x : Reg) (h : timed) :
    Abreast timed clocked Eq (Act.change fun m => m.setReg x m.delay)
      (Act.change fun m => m.setReg x m.delay) := by
  refine change ?_
  rintro m _ ⟨delay, sound, rfl, ht⟩
  obtain ⟨rfl, rfl⟩ := ht h
  exact .refl _

theorem setDelay (x : Reg) :
    Abreast timed clocked Eq (Act.change fun m => { m with delay := m.reg x })
      (Act.change fun m => { m with delay := m.reg x }) := by
  refine change ?_
  rintro m _ ⟨delay, sound, rfl, ht⟩
  exact ⟨m.reg x, sound, rfl, fun t => ⟨rfl, (ht t).2⟩⟩

theorem setSound (x : Reg) :
    Abreast timed clocked Eq (Act.change fun m => { m with sound := m.reg x })
      (Act.change fun m => { m with sound := m.reg x }) := by
  refine change ?_
  rintro m _ ⟨delay, sound, rfl, ht⟩
  exact ⟨delay, m.reg x, rfl, fun t => ⟨(ht t).1, rfl⟩⟩

theorem execSingle {op : SingleOp} (x : Reg) (h : op = .readDelay → timed) :
    Abreast timed clocked Eq (execSingle op x) (execSingle op x) := by
  cases op with
  | skipDown | skipUp => exact withMachine fun m _ _ => .pure rfl
  | readDelay => exact (readDelay x (h rfl)).andThen fun _ => .pure rfl
  | awaitKey => exact execAwaitKey x
  | setDelay => exact (setDelay x).andThen fun _ => .pure rfl
  | setSound => exact (setSound x).andThen fun _ => .pure rfl
  | addIndex =>
    refine andThen ?_ fun _ => .pure rfl
    exact changeUntimed (fun _ _ _ => rfl) (fun _ => rfl) fun _ => rfl
  | loadGlyph => exact execLoadGlyph x
  | storeDigits => exact execStoreDigits x
  | storeRegs => exact execStoreRegs x
  | loadRegs => exact execLoadRegs x

/-! ### Whole instructions -/

theorem exec (random : UInt8) {i : Instr} (h : ∀ x, i = .single .readDelay x → timed) :
    Abreast timed clocked Eq (exec random i) (exec random i) := by
  cases i with
  | clear =>
    refine andThen ?_ fun _ => askRedraw.andThen fun _ => .pure rfl
    exact changeUntimed (fun _ _ _ => rfl) (fun _ => rfl) fun _ => rfl
  | ret =>
    refine withMachine fun m _ _ => .ite (.fault _) ?_
    exact pop.andThen fun a => .pure rfl
  | addr op a => exact execAddr op a
  | byte op x k => exact execByte random op x k
  | pair op x y => exact execPair op x y
  | draw x y n => exact execDraw x y n
  | single op x =>
    refine execSingle x ?_
    rintro rfl
    exact h x rfl

/-- Executing an instruction does the same to machines that the program cannot tell apart.  Only
reading the delay timer asks for the same timers. -/
theorem execute (random : UInt8) {i : Instr} (h : ∀ x, i = .single .readDelay x → timed) :
    Abreast timed clocked Eq (execute random i) (execute random i) := by
  refine withMachine fun m _ _ => (exec random h).andThen fun e => ?_
  refine (ask _).andThen fun target => andThen ?_ fun _ => .pure rfl
  exact changeUntimed (fun _ _ _ => rfl) (fun _ => rfl) fun _ => rfl

end Abreast

end Act

end ChipEight
