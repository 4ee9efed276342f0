import ChipEight.Cli.Execution
import ChipEight.Proofs.Disassembly
import ChipEight.Proofs.Timetable

/-!
# ChipEight.Proofs.RunReport — what is reported of a program that was run

The report is made when both threads are gone, and a program that went wrong did so some time
before.  It is right all the same: a play-through leaves the program as the failure found it, and
its fault is the only one that was told (`ofRun_of_playthrough`).  A run is such a play-through, and
the threads get in it all the turns that come due before its time is over, unless the program fails
(`reports_play`).  Main statement: `run_reports`.
-/

namespace ChipEight

theorem Machine.isRuntime_of_obstacle? {m : Machine} {i : Instr} {f : Fault}
    (h : m.obstacle? i = some f) : f.isRuntime = true := by
  unfold obstacle? at h
  split at h
  · obtain ⟨-, hf⟩ := Option.ite_none_right_eq_some.mp h
    cases hf
    rfl
  · obtain ⟨-, hf⟩ := Option.ite_none_right_eq_some.mp h
    cases hf
    rfl
  · split at h
    · obtain ⟨-, hf⟩ := Option.ite_none_left_eq_some.mp h
      cases hf
      rfl
    · cases h

/-- What a machine that runs goes wrong with is a fault of its program. -/
theorem Machine.isRuntime_of_fault? {m : Machine} {f : Fault} (h : m.fault? = some f) :
    f.isRuntime = true := by
  unfold fault? at h
  split at h
  · cases h
    rfl
  · split at h
    · cases h
      rfl
    · exact isRuntime_of_obstacle? h

theorem Fault.oneLine_message {f : Fault} (h : f.isRuntime = true) : OneLine f.message := by
  cases f with
  | programTooLarge => cases h
  | stackOverflow | stackUnderflow => decide
  | outOfBounds a => exact .append (by decide) (Hex.oneLine_padded 4 a)
  | unrecognized w a =>
    have hword : OneLine ("unrecognized opcode " ++ Hex.padded 4 w.toNat) :=
      .append (by decide) (Hex.oneLine_padded 4 w.toNat)
    exact (hword.append (by decide)).append (Hex.oneLine_padded 4 a.toNat)

namespace Cli

open Player

variable {r r' r₀ : Player} {f : Fault} {m : Machine}

/-! ### Reports -/

/-- The report on a program that stopped on a fault while the machine was in this state. -/
def Report.ofStop (m : Machine) (f : Fault) : Report where
  status := 1
  stdout := m.screen.text ++ "\n" ++ "pc: " ++ Hex.padded 4 m.pc ++ "\n"
  stderr := "program stopped: " ++ f.message ++ "\n"
  log := [f.message, (Error.stopped m.pc).message]

/-- The report on a program that ran until the time was over and the machine in this state. -/
def Report.ofEnd (m : Machine) : Report where
  status := 0
  stdout := m.screen.text ++ "\n" ++ "pc: " ++ Hex.padded 4 m.pc ++ "\n"

theorem stops_eq (r : Player) : stops r = r.faults.filter Fault.isRuntime := by
  rw [stops, faults, List.filter_filterMap]
  refine List.filterMap_congr fun s _ => ?_
  cases s with
  | error f => simp [Signal.fault?, Option.filter]
  | redraw | beep => rfl

theorem errorTexts_eq (log : List Record) :
    errorTexts log = (log.filterMap Record.fault?).map Fault.message := by
  induction log with
  | nil => rfl
  | cons record log ih =>
    cases record with
    | failed f => exact congrArg (f.message :: ·) ih
    | executing | keyDown | keyUp | taskStarted | taskStopped | loaded | resumed | suspended =>
      exact ih

/-- The report has the screen and the address of any state in which the program stood as it does at
the end. -/
theorem ofRun_of_fault (hl : Logged r) (hfaults : r.faults = [f]) (hf : f.isRuntime = true)
    (hsame : m.SameProgram r.vm.machine) : ofRun r = .ofStop m f := by
  have hstops : stops r = [f] := by rw [stops_eq, hfaults]; simp [hf]
  have hlog : errorTexts r.log.toList = [f.message] := by rw [errorTexts_eq, hl, hfaults]; rfl
  simp [ofRun, isStopped, hstops, hlog, hsame.screen_eq, hsame.pc_eq, Report.failed, Report.ofStop]

theorem ofRun_of_no_fault (hl : Logged r) (hfaults : r.faults = []) :
    ofRun r = .ofEnd r.vm.machine := by
  have hstops : stops r = [] := by rw [stops_eq, hfaults]; rfl
  have hlog : errorTexts r.log.toList = [] := by rw [errorTexts_eq, hl, hfaults]; rfl
  simp [ofRun, isStopped, hstops, hlog, Report.ofEnd]

/-! ### What a run starts from -/

/-- A machine just built, with a program loaded and keys pressed one after the other. -/
def pressed (config : Config) (program : List UInt8) (keys : List Key) : Vm :=
  keys.foldl (fun vm k => (vm.keyDown k).vm) ((Vm.new config).load program).vm

/-- Keys are no part of the program. -/
theorem pressed_sameProgram (config : Config) (program : List UInt8) (keys : List Key) :
    ((Vm.new config).load program).vm.machine.SameProgram
      (pressed config program keys).machine := by
  rw [pressed]
  generalize ((Vm.new config).load program).vm = vm
  induction keys generalizing vm with
  | nil => exact .refl _
  | cons k keys ih =>
    have hkey : vm.machine.SameProgram (vm.keyDown k).vm.machine := ⟨rfl, rfl, rfl, rfl, rfl, rfl⟩
    exact hkey.trans (ih (vm.keyDown k).vm)

theorem perform_load {program : List UInt8} (h : program.length ≤ 3583) (vm : Vm) :
    (new vm).perform (.load program) =
      resting (vm.load program).vm #[Record.loaded program.length] := by
  have hbegin : (new vm).begin (.load program) = { new vm with host := .loading program } := rfl
  rw [perform, hbegin, callSteps, settle_of_hostStep? rfl, settle_of_ready rfl]
  show { (new vm).absorb (vm.load program) with host := .ready (vm.load program).result } = _
  rw [Vm.load_of_fits h]
  rfl

theorem perform_keyDown (vm : Vm) (log : Array Record) (k : Key) :
    (resting vm log).perform (.keyDown k) = resting (vm.keyDown k).vm (log.push (.keyDown k)) :=
  settle_of_ready rfl _

theorem foldl_keyDown (keys : List Key) (vm : Vm) (log : Array Record) :
    keys.foldl (fun r k => r.perform (.keyDown k)) (resting vm log) =
      resting (keys.foldl (fun vm k => (vm.keyDown k).vm) vm) (log ++ keys.map Record.keyDown) := by
  induction keys generalizing vm log with
  | nil => simp
  | cons k keys ih =>
    rw [List.foldl_cons, perform_keyDown, ih]
    simp

theorem prepare_of_fits {files : Files} {o : RunOptions} {config : Config} {program : List UInt8}
    (hconfig : readConfig files o.config = .ok config) (hfile : files o.file = .file program)
    (h : program.length ≤ 3583) :
    prepare files o = .ok (resting (pressed config program o.keys)
      (#[Record.loaded program.length] ++ o.keys.map Record.keyDown)) := by
  rw [prepare, hconfig, readFile, hfile]
  simp only [loaded, perform_load h]
  show Except.ok (o.keys.foldl _ (resting _ _)) = _
  rw [foldl_keyDown]
  rfl

/-! ### Runs -/

variable {files : Files} {o : RunOptions} {config : Config} {program : List UInt8}

theorem atRest_resting (vm : Vm) (log : Array Record) : AtRest (resting vm log) :=
  ⟨⟨.stopped _, rfl⟩, rfl, rfl⟩

/-- The log of a machine with a program and keys tells of no fault. -/
theorem logged_resting (vm : Vm) (size : Nat) (keys : List Key) :
    Logged (resting vm (#[Record.loaded size] ++ keys.map Record.keyDown)) := by
  have hkeys : (keys.map Record.keyDown).filterMap Record.fault? = [] := by
    simp [List.filterMap_eq_nil_iff, Record.fault?]
  simp only [Logged, resting, Array.toList_appendList, List.filterMap_append, hkeys]
  rfl

/-- However host and threads take turns: the report on a program that goes wrong shows the machine
and the fault as they were then, and that on one that does not shows the machine at the end. -/
theorem ofRun_of_playthrough {moves : List Move} (h : AtRest r₀) (hl : Logged r₀)
    (hclear : r₀.faults = []) (hp : Playthrough r₀ moves r) :
    (∀ early move late r' b e, moves = early ++ move :: late → r₀.steps? early = some r' →
      r'.beat? move = some b → b.failure? = some e →
      ∃ f, e = .fault f ∧ OneLine f.message ∧ ofRun r = .ofStop r'.vm.machine f) ∧
    ((∀ b ∈ r₀.beats moves, b.failure? = none) → ofRun r = .ofEnd r.vm.machine) := by
  have hlogged : Logged r := steps?_invariant (fun _ _ _ => step?_logged) hl hp.steps
  refine ⟨fun early move late r' b e hmoves hs hb he => ?_, fun hnone => ?_⟩
  · obtain ⟨f, rfl, hfault, hfaults, hsame⟩ := hp.of_failure h hmoves hs hb he
    have hruntime := Machine.isRuntime_of_fault? hfault
    rw [hclear] at hfaults
    exact ⟨f, rfl, Fault.oneLine_message hruntime, ofRun_of_fault hlogged hfaults hruntime hsame⟩
  · refine ofRun_of_no_fault hlogged ?_
    rw [hp.faults_eq h, hclear, faults_of_clear (steps?_honest hp.steps) hnone]
    rfl

/-- A play-through in which the first instruction fails, and the host stops the machine before the
timers' thread has begun. -/
theorem exists_failing {vm : Vm} (hf : vm.machine.fault? = some f) (log : Array Record) :
    ∃ early late r' r b, Playthrough (resting vm log) (early ++ .thread ⟨1, .cpu⟩ 0 :: late) r ∧
      (resting vm log).steps? early = some r' ∧ (resting vm log).beats early = [] ∧
      r'.beat? (.thread ⟨1, .cpu⟩ 0) = some b ∧ b.failure? = some (.fault f) := by
  obtain ⟨-, -, -, hnone⟩ := exists_opened vm log
  obtain ⟨signals, log', hs, hb⟩ := exists_failed hf log
  obtain ⟨r', hopened, hfailed⟩ := steps?_append.mp hs
  obtain ⟨r₁, hstep, -⟩ := steps?_cons.mp hfailed
  rw [beats_append hopened, hnone, beats_cons hstep, beats_nil, List.append_nil, List.nil_append,
    Option.toList_eq_singleton_iff] at hb
  let cpu : Move := .thread ⟨1, .cpu⟩ 0
  let timer : Move := .thread ⟨1, .timer⟩ 0
  let start := List.replicate 4 .host ++ List.replicate 3 cpu
  let stop := [cpu, .host, timer, timer, timer, .host, .host, .host]
  have hstop : ∃ r, (startedOnce vm.resume.vm .stopping .starting signals log').steps?
      (.call .suspend :: stop) = some r ∧ r.host = .ready (.ok ()) := ⟨_, rfl, rfl⟩
  obtain ⟨r, hstop, hhost⟩ := hstop
  refine ⟨opening, .call .suspend :: stop, r', r, _, ⟨⟨start, stop, rfl, ?_, ?_⟩, ?_, ?_⟩, hopened,
    hnone, hb, rfl⟩
  · simp [start, cpu, Move.isCall]
  · simp [stop, cpu, timer, Move.isCall]
  · rw [show opening ++ cpu :: .call .suspend :: stop =
      (opening ++ [cpu]) ++ .call .suspend :: stop from rfl]
    exact steps?_append.mpr ⟨_, hs, hstop⟩
  · rw [hhost]
    rfl

/-! ### Turns that come due -/

theorem due_monotone (config : Config) : Monotone (due config) := by
  intro n n' h
  refine Nat.div_le_div_right (Nat.sub_le_sub_right (Nat.add_le_add_right ?_ _) 1)
  exact Nat.mul_le_mul_right timerInterval h

/-- An instruction is due if there is time for the pauses before it. -/
theorem lt_due_iff {k periods : Nat} :
    k < due config periods ↔
      k * max config.interval leastInterval < periods * timerInterval := by
  have hpos : 0 < max config.interval leastInterval := lt_max_of_lt_right (by decide)
  unfold due
  rw [Nat.lt_div_iff_mul_lt hpos]
  omega

/-- The turns of a run of so many seconds: sixty ticks in each, and an instruction for each pause
that begins before its end. -/
structure Timely (config : Config) (seconds : Nat) (ops : List Operation) : Prop where
  ticks : ops.count .tick = 60 * seconds
  cycles : ∀ k, k < ops.countP Operation.isCycle ↔
    k * max config.interval leastInterval < 60 * seconds * timerInterval

theorem timely_timetable (config : Config) (seconds : Nat) (seed : UInt64) :
    Timely config seconds
      (Session.timetable (pace config) 0 seed (timerFrequency * seconds)) where
  ticks := Session.count_tick_timetable _ _ _ _
  cycles k := by
    have hzero : due config 0 = 0 := by
      have hnone : ¬ 0 < due config 0 := by simp [lt_due_iff]
      omega
    have hcount := Session.countP_isCycle_timetable (due_monotone config) 0 seed
      (timerFrequency * seconds)
    rw [hzero, Nat.zero_add, Nat.sub_zero] at hcount
    rw [← lt_due_iff, ← hcount]
    rfl

/-! ### What comes of them -/

/-- The report tells of a program that was carried out so far. -/
structure Reports (p : Progress) (report : Report) : Prop where
  failed : ∀ e, p.failure? = some e → ∃ f, e = .fault f ∧ report = .ofStop p.vm.machine f
  ended : p.failure? = none → report = .ofEnd p.vm.machine

theorem perform_resume_inPlay (vm : Vm) (log : Array Record) :
    InPlay (vm.resume.vm.carryOut []) ((resting vm log).perform .resume) := by
  have hstart : (resting vm log).perform .resume =
      startedOnce vm.resume.vm .starting .starting (#[] ++ vm.resume.signals)
        (log ++ vm.resume.log.filter fun record => record.level != .trace) := rfl
  rw [hstart]
  refine .going (.inl rfl) (.inl rfl) rfl ?_
  rw [faults_startedOnce, vm.resume_told.2]
  rfl

/-- Only a fault that was told ends a run before its time. -/
theorem failure?_of_isStopped {p : Progress} (h : InPlay p r) (hstop : isStopped r = true) :
    p.failure? ≠ none := by
  cases h with
  | going _ _ _ htold => simp [isStopped, stops_eq, htold] at hstop
  | stopped _ hfail => simp [hfail]

/-- What is reported of a machine that is stopped there. -/
theorem reports_of_inPlay {p : Progress} (h : InPlay p r) (hl : Logged (r.perform .suspend)) :
    Reports p (ofRun (r.perform .suspend)) := by
  cases h with
  | @going cpu timer signals log hcpu htimer hclear htold =>
    obtain ⟨hvm, hfaults⟩ :=
      perform_suspend_startedOnce p.vm (hcpu.imp_right .inl) htimer signals log
    rw [htold] at hfaults
    refine ⟨?_, ?_⟩
    · intro e he
      rw [hclear] at he
      cases he
    · intro _
      rw [ofRun_of_no_fault hl hfaults, hvm, Vm.suspend_eq]
  | @stopped vm timer signals log f htimer hfail hfault hsame htold =>
    obtain ⟨hvm, hfaults⟩ :=
      perform_suspend_startedOnce vm (.inr (.inr rfl)) htimer signals log
    rw [htold] at hfaults
    have hend : p.vm.machine.SameProgram
        ((startedOnce vm .finished timer signals log).perform .suspend).vm.machine := by
      rw [hvm, Vm.suspend_eq]
      exact hsame
    refine ⟨?_, ?_⟩
    · intro e he
      rw [hfail] at he
      cases he
      exact ⟨f, rfl, ofRun_of_fault hl hfaults (Machine.isRuntime_of_fault? hfault) hend⟩
    · intro hnone
      rw [hfail] at hnone
      cases hnone

theorem play_playthrough (vm : Vm) (log : Array Record) (seed : UInt64) (seconds : Nat) :
    ∃ moves, Playthrough (resting vm log) moves (play seed seconds (resting vm log)) :=
  Session.exists_playthrough (atRest_resting vm log) seed isStopped (pace vm.config)
    (timerFrequency * seconds)

/-- A machine that is not started yet is played as far as its timetable is carried out. -/
theorem reports_play {vm : Vm} {log : Array Record} (hl : Logged (resting vm log)) (seed : UInt64)
    (seconds : Nat) :
    Reports
      (vm.resume.vm.carryOut
        (Session.timetable (pace vm.config) 0 seed (timerFrequency * seconds)))
      (ofRun (play seed seconds (resting vm log))) := by
  obtain ⟨moves, hp⟩ := play_playthrough vm log seed seconds
  have hlogged : Logged (play seed seconds (resting vm log)) :=
    steps?_invariant (fun _ _ _ => step?_logged) hl hp.steps
  have hplay := Session.playFrom_inPlay (fun _ _ => failure?_of_isStopped) (pace vm.config) 0
    (timerFrequency * seconds) (s := ⟨(resting vm log).perform .resume, seed⟩)
    (perform_resume_inPlay vm log)
  exact reports_of_inPlay hplay hlogged

theorem config_pressed (config : Config) (h : program.length ≤ 3583) (keys : List Key) :
    (pressed config program keys).config = config := by
  have hkeys : ∀ vm : Vm,
      (keys.foldl (fun vm k => (vm.keyDown k).vm) vm).config = vm.config := by
    induction keys with
    | nil => exact fun _ => rfl
    | cons k keys ih => exact fun vm => ih (vm.keyDown k).vm
  rw [pressed, hkeys, Vm.load_of_fits h]
  rfl

/-- What the command line reports of a program that it runs, however host and threads take turns.
The threads find the machine with the program loaded and the keys pressed in their order.  If a step
of a task fails, then whatever happens before the threads are gone, one line tells of the fault, the
screen and the address shown are those that the failure found, the address is named in the last
record too, and the status tells of an error.  If none fails, the status does not.

The run of the command line is one such play-through.  The instructions and ticks that come due in
its time are carried out in their order, the first that fails is the last of them, and the report is
about the machine and the failure to which this leads. -/
theorem run_reports (hconfig : readConfig files o.config = .ok config)
    (hfile : files o.file = .file program) (h : program.length ≤ 3583) :
    ∃ r₀, prepare files o = .ok r₀ ∧ r₀.vm = pressed config program o.keys ∧ r₀.threads = [] ∧
      Returns r₀ ∧
      (∀ moves r, Playthrough r₀ moves r →
        (∀ early late r', moves = early ++ late → r₀.steps? early = some r' →
          r₀.beats early = [] → r'.vm = { r₀.vm with state := r'.vm.state }) ∧
        (∀ early move late r' b e, moves = early ++ move :: late → r₀.steps? early = some r' →
          r'.beat? move = some b → b.failure? = some e →
          ∃ f, e = .fault f ∧ OneLine f.message ∧ ofRun r = .ofStop r'.vm.machine f) ∧
        ((∀ b ∈ r₀.beats moves, b.failure? = none) → ofRun r = .ofEnd r.vm.machine)) ∧
      ∀ seed args, Command.parse args = .ok (.run o) →
        (∃ moves, Playthrough r₀ moves (play seed o.seconds r₀)) ∧
        execute files seed args = ofRun (play seed o.seconds r₀) ∧
        let turns := Session.timetable (pace config) 0 seed (timerFrequency * o.seconds)
        Timely config o.seconds turns ∧
          Reports (r₀.vm.resume.vm.carryOut turns) (execute files seed args) := by
  let vm := pressed config program o.keys
  let log := #[Record.loaded program.length] ++ o.keys.map Record.keyDown
  have hprepare : prepare files o = .ok (resting vm log) := prepare_of_fits hconfig hfile h
  have hrest : AtRest (resting vm log) := atRest_resting vm log
  have hlogged : Logged (resting vm log) := logged_resting vm program.length o.keys
  refine ⟨resting vm log, hprepare, rfl, rfl, hrest.returns, ?_, ?_⟩
  · intro moves r hp
    refine ⟨?_, ofRun_of_playthrough hrest hlogged rfl hp⟩
    intro early late r' hmoves hs hnone
    exact hp.vm_eq_of_beats_eq_nil hrest hmoves hs hnone
  · intro seed args hargs
    have hrun : execute files seed args = ofRun (play seed o.seconds (resting vm log)) := by
      rw [execute, hargs]
      show run files seed o = _
      rw [run, hprepare]
    have hconfig' : vm.config = config := config_pressed config h o.keys
    have hreports := reports_play hlogged seed o.seconds
    rw [hconfig', ← hrun] at hreports
    exact ⟨play_playthrough vm log seed o.seconds, hrun, timely_timetable config o.seconds seed,
      hreports⟩

/-- A program that returns without a call, run with a key held: whether the host stops the machine
at once or when its time is over, the report is that of the first instruction. -/
theorem run_reports_return :
    let files : Files := fun _ => .file [0x00, 0xEE]
    let o : RunOptions := { file := "return", keys := [5] }
    ∃ r₀, prepare files o = .ok r₀ ∧
      (∃ moves r, Playthrough r₀ moves r ∧ ofRun r = .ofStop r₀.vm.machine .stackUnderflow) ∧
      let report := execute files 0 ["run", "return", "--key", "5"]
      report.status = 1 ∧
        report.stderr = "program stopped: corrupt program: call stack underflow\n" ∧
        report.stdout = Screen.blank.text ++ "\n" ++ "pc: 0200\n" ∧
        report.log = ["corrupt program: call stack underflow",
          "application error: program stopped on error at 0200"] := by
  intro files o
  have hconfig : readConfig files o.config = .ok {} := rfl
  have hfile : files o.file = .file [0x00, 0xEE] := rfl
  have hprepare := prepare_of_fits hconfig hfile (by decide)
  have hsame := pressed_sameProgram {} [0x00, 0xEE] o.keys
  rw [Vm.load_of_fits (by decide)] at hsame
  generalize pressed {} [0x00, 0xEE] o.keys = vm at hprepare hsame
  have hf : vm.machine.fault? = some .stackUnderflow := by
    rw [hsame.fault?_eq]
    exact Vm.fault?_installed_ret _ _
  obtain ⟨r₀, hr₀, -, -, -, hplays, hrun⟩ := run_reports hconfig hfile (by decide)
  obtain rfl := Except.ok.inj (hprepare.symm.trans hr₀)
  refine ⟨_, hprepare, ?_, ?_⟩
  · obtain ⟨early, late, r', r, b, hp, hs, hnone, hb, he⟩ := exists_failing hf _
    obtain ⟨hstart, hstop, -⟩ := hplays _ r hp
    obtain ⟨f, hf, -, hreport⟩ := hstop early _ late r' b _ rfl hs hb he
    cases hf
    rw [hstart early _ r' rfl hs hnone] at hreport
    exact ⟨_, r, hp, hreport⟩
  · obtain ⟨random, late, hturns⟩ : ∃ random late,
        Session.timetable (pace {}) 0 0 (timerFrequency * o.seconds) = .cycle random :: late :=
      Session.exists_timetable_eq (by decide) 0 119
    have hresumed : vm.resume.vm.machine = vm.machine := by rw [Vm.resume_eq]
    obtain ⟨-, -, -, hreports⟩ := hrun 0 ["run", "return", "--key", "5"] rfl
    rw [hturns, Vm.carryOut_cycle_of_fault (hresumed.symm ▸ hf)] at hreports
    obtain ⟨f, he, hreport⟩ := hreports.failed _ rfl
    cases he
    have hstopped : execute files 0 ["run", "return", "--key", "5"] =
        .ofStop vm.machine .stackUnderflow :=
      hreport.trans (congrArg (Report.ofStop · .stackUnderflow) hresumed)
    have hpc : Hex.padded 4 vm.machine.pc = "0200" := by
      rw [show vm.machine.pc = 512 from hsame.pc_eq]
      simp [Hex.padded, Hex.paddedDigits, Hex.digits, Hex.digit]
    have hscreen : vm.machine.screen = Screen.blank := hsame.screen_eq
    have hlast : "pc: " ++ ("0200" ++ "\n") = "pc: 0200\n" := rfl
    have hmessage : (Error.stopped vm.machine.pc).message =
        "application error: program stopped on error at 0200" :=
      (congrArg (fun digits => "application error: " ++ ("program stopped on error at " ++ digits))
        hpc).trans (by decide +kernel)
    rw [hstopped]
    refine ⟨rfl, rfl, ?_, ?_⟩
    · simp only [Report.ofStop, hpc, hscreen, String.append_assoc, hlast]
    · exact congrArg (fun text => [Fault.stackUnderflow.message, text]) hmessage

end Cli

end ChipEight
