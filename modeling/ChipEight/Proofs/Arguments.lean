import ChipEight.Cli.Command
import ChipEight.Proofs.Numerals

/-!
# ChipEight.Proofs.Arguments — the argument lists that are a command

`Setting` is an option with an argument that it accepts, and `Problem` says of an argument list what
is wrong with it in the first place where something is.  Main statements: the lists that are read as
a command to run are a file and settings in any number and order, the last file and the last
duration counting and the keys adding up, and every other list is refused for its first problem
(`arguments_read`); the texts that name a key are its digit behind zeros (`key_spelled`).
-/

namespace ChipEight.Cli

/-! ### Numerals as arguments -/

theorem seconds?_eq_some_iff {text : String} {n : Nat} :
    seconds? text = some n ↔ Numeral.Spells 10 text n ∧ n < 2 ^ 64 := by
  rw [seconds?, Numeral.read?_eq_some_iff (by decide)]
  exact and_congr_right' Nat.lt_succ_iff.symm

theorem seconds?_eq_none_iff {text : String} :
    seconds? text = none ↔ ∀ n, Numeral.Spells 10 text n → 2 ^ 64 ≤ n := by
  rw [seconds?, Numeral.read?_eq_none_iff (by decide)]
  rfl

/-- The text names the key: its digit behind zeros, with one plus at most in front. -/
def SpellsKey (text : String) (k : Key) : Prop :=
  ∃ sign zeros c, text.toList = sign ++ (List.replicate zeros '0' ++ [c]) ∧
    (sign = [] ∨ sign = ['+']) ∧ Numeral.Digit 16 c k

theorem key?_eq_some_iff {text : String} {k : Key} : key? text = some k ↔ SpellsKey text k := by
  have hle : k.val ≤ 255 := Nat.le_trans k.isLt.le (by decide)
  simp only [SpellsKey, ← Numeral.spells_digit_iff k.isLt, key?, Option.bind_eq_some_iff,
    Key.ofNat?_eq_some_iff, exists_eq_right, Numeral.read?_eq_some_iff (Nat.le_refl 16), hle, and_true]

/-! ### Settings -/

/-- An option with an argument that it accepts. -/
inductive Setting where
  | conf (file : String)
  | seconds (text : String) (n : Nat) (h : Numeral.Spells 10 text n) (hn : n < 2 ^ 64)
  | key (text : String) (k : Key) (h : key? text = some k)

namespace Setting

/-- The two arguments of a setting. -/
@[simp] def words : Setting → List String
  | .conf file => ["--conf", file]
  | .seconds text _ _ _ => ["--seconds", text]
  | .key text _ _ => ["--key", text]

@[simp] def file? : Setting → Option String
  | .conf file => some file
  | .seconds .. => none
  | .key .. => none

@[simp] def duration? : Setting → Option Nat
  | .conf _ => none
  | .seconds _ n _ _ => some n
  | .key .. => none

@[simp] def key? : Setting → Option Key
  | .conf _ => none
  | .seconds .. => none
  | .key _ k _ => some k

end Setting

namespace RunOptions

/-- A file with settings: the last configuration, the last duration or two seconds, every key. -/
def ofSettings (file : String) (settings : List Setting) : RunOptions where
  file
  config := (settings.filterMap Setting.file?).getLast?
  seconds := (settings.filterMap Setting.duration?).getLast?.getD 2
  keys := settings.filterMap Setting.key?

/-- Reading settings first is reading on from what they make. -/
theorem extend_settings (file : String) (settings : List Setting) (args : List String) :
    RunOptions.extend { file } (settings.flatMap Setting.words ++ args) =
      (ofSettings file settings).extend args := by
  induction settings using List.reverseRecOn generalizing args with
  | nil => rfl
  | append_singleton settings s ih =>
    rw [List.flatMap_append, List.append_assoc, ih, List.flatMap_singleton]
    cases s with
    | conf file =>
      simp [extend, ofSettings, List.filterMap_cons]
    | seconds text n h hn =>
      simp [extend, seconds?_eq_some_iff.mpr ⟨h, hn⟩, ofSettings, List.filterMap_cons]
    | key text k h =>
      simp [extend, h, ofSettings, List.filterMap_cons]

end RunOptions

/-! ### Problems -/

/-- What is said of options whose first one cannot be read, whatever follows it. -/
inductive OptionProblem : List String → String → Prop
  | argument {flag : String} (h : flag ∈ ["--conf", "--seconds", "--key"]) :
      OptionProblem [flag] ("missing argument: " ++ flag)
  | unknown {flag : String} {rest : List String} (h : flag ∉ ["--conf", "--seconds", "--key"]) :
      OptionProblem (flag :: rest) ("unknown option: " ++ flag)
  | seconds {value : String} {rest : List String}
      (h : ∀ n, Numeral.Spells 10 value n → 2 ^ 64 ≤ n) :
      OptionProblem ("--seconds" :: value :: rest) ("invalid seconds: " ++ value)
  | key {value : String} {rest : List String} (h : key? value = none) :
      OptionProblem ("--key" :: value :: rest) ("invalid key: " ++ value)

/-- What is said of arguments whose first problem is met behind settings only. -/
inductive Problem : List String → String → Prop
  | noCommand : Problem [] "missing command"
  | command {name : String} {rest : List String} (hrun : name ≠ "run") (hdis : name ≠ "dis") :
      Problem (name :: rest) ("unknown command: " ++ name)
  | noFile {name : String} (h : name = "run" ∨ name = "dis") : Problem [name] "missing argument: FILE"
  | option {file : String} {rest : List String} {text : String} (settings : List Setting)
      (h : OptionProblem rest text) :
      Problem ("run" :: file :: (settings.flatMap Setting.words ++ rest)) text

namespace RunOptions

theorem extend_of_problem {rest : List String} {text : String} (h : OptionProblem rest text)
    (o : RunOptions) : ∃ e, o.extend rest = .error e ∧ e.message = text := by
  cases h with
  | @argument flag h =>
    have hflag : flag = "--conf" ∨ flag = "--seconds" ∨ flag = "--key" := by simpa using h
    exact ⟨.missingArgument flag, by rw [extend, if_pos hflag], rfl⟩
  | @unknown flag rest h =>
    obtain ⟨hconf, hseconds, hkey⟩ : flag ≠ "--conf" ∧ flag ≠ "--seconds" ∧ flag ≠ "--key" := by
      simpa using h
    refine ⟨.unknownOption flag, ?_, rfl⟩
    cases rest with
    | nil => simp [extend, hconf, hseconds, hkey]
    | cons value rest => simp [extend, hconf, hseconds, hkey]
  | @seconds value rest h =>
    exact ⟨.invalidSeconds value, by simp [extend, seconds?_eq_none_iff.mpr h], rfl⟩
  | @key value rest h => exact ⟨.invalidKey value, by simp [extend, h], rfl⟩

/-- Arguments are settings and then nothing or a problem. -/
theorem exists_settings (args : List String) :
    ∃ (settings : List Setting) (rest : List String), args = settings.flatMap Setting.words ++ rest ∧
      (rest = [] ∨ ∃ text, OptionProblem rest text) := by
  -- along the reading, which takes one setting after the other from whatever options
  have o : RunOptions := { file := "" }
  fun_induction extend o args with
  | case1 => exact ⟨[], [], rfl, .inl rfl⟩
  | case2 o flag h => exact ⟨[], _, rfl, .inr ⟨_, .argument (by simpa using h)⟩⟩
  | case3 o flag h => exact ⟨[], _, rfl, .inr ⟨_, .unknown (by simpa using h)⟩⟩
  | case4 o file args ih =>
    obtain ⟨settings, rest, rfl, hrest⟩ := ih
    exact ⟨.conf file :: settings, rest, rfl, hrest⟩
  | case5 o text args n hn _ ih =>
    obtain ⟨settings, rest, rfl, hrest⟩ := ih
    obtain ⟨hspells, hlt⟩ := seconds?_eq_some_iff.mp hn
    exact ⟨.seconds text n hspells hlt :: settings, rest, rfl, hrest⟩
  | case6 o text args hnone => exact ⟨[], _, rfl, .inr ⟨_, .seconds (seconds?_eq_none_iff.mp hnone)⟩⟩
  | case7 o text args k hk _ _ ih =>
    obtain ⟨settings, rest, rfl, hrest⟩ := ih
    exact ⟨.key text k hk :: settings, rest, rfl, hrest⟩
  | case8 o text args hnone => exact ⟨[], _, rfl, .inr ⟨_, .key hnone⟩⟩
  | case9 o flag value args hconf hseconds hkey =>
    exact ⟨[], _, rfl, .inr ⟨_, .unknown (by simp [hconf, hseconds, hkey])⟩⟩

end RunOptions

/-! ### Commands -/

namespace Command

theorem parse_run (file : String) (settings : List Setting) :
    parse ("run" :: file :: settings.flatMap Setting.words) =
      .ok (.run (.ofSettings file settings)) := by
  have hread := RunOptions.extend_settings file settings []
  rw [List.append_nil, RunOptions.extend] at hread
  rw [parse, if_pos rfl, hread]
  rfl

theorem parse_dis (file : String) (rest : List String) :
    parse ("dis" :: file :: rest) = .ok (.dis file) := by
  rw [parse, if_neg (by decide), if_pos rfl]

theorem parse_of_problem {args : List String} {text : String} (h : Problem args text) :
    ∃ e, parse args = .error e ∧ e.message = text := by
  cases h with
  | noCommand => exact ⟨.missingCommand, rfl, rfl⟩
  | @command name rest hrun hdis =>
    exact ⟨.unknownCommand name, by cases rest <;> simp [parse, hrun, hdis], rfl⟩
  | noFile h => rcases h with rfl | rfl <;> exact ⟨.missingArgument "FILE", rfl, rfl⟩
  | @option file rest _ settings h =>
    obtain ⟨e, he, hmessage⟩ := RunOptions.extend_of_problem h (.ofSettings file settings)
    refine ⟨e, ?_, hmessage⟩
    rw [parse, if_pos rfl, RunOptions.extend_settings, he]
    rfl

theorem run_or_dis_or_problem (args : List String) :
    (∃ (file : String) (settings : List Setting),
      args = "run" :: file :: settings.flatMap Setting.words) ∨
    (∃ file rest, args = "dis" :: file :: rest) ∨ ∃ text, Problem args text := by
  rcases args with _ | ⟨name, args⟩
  · exact .inr (.inr ⟨_, .noCommand⟩)
  by_cases hrun : name = "run"
  · subst hrun
    rcases args with _ | ⟨file, args⟩
    · exact .inr (.inr ⟨_, .noFile (.inl rfl)⟩)
    · obtain ⟨settings, rest, rfl, rfl | ⟨text, hrest⟩⟩ := RunOptions.exists_settings args
      · exact .inl ⟨file, settings, by rw [List.append_nil]⟩
      · exact .inr (.inr ⟨text, .option settings hrest⟩)
  by_cases hdis : name = "dis"
  · subst hdis
    rcases args with _ | ⟨file, rest⟩
    · exact .inr (.inr ⟨_, .noFile (.inr rfl)⟩)
    · exact .inr (.inl ⟨file, rest, rfl⟩)
  · exact .inr (.inr ⟨_, .command hrun hdis⟩)

theorem parse_eq_run_iff {args : List String} {o : RunOptions} :
    parse args = .ok (.run o) ↔ ∃ (file : String) (settings : List Setting),
      args = "run" :: file :: settings.flatMap Setting.words ∧ o = .ofSettings file settings := by
  constructor
  · intro h
    rcases run_or_dis_or_problem args with ⟨file, settings, rfl⟩ | ⟨file, rest, rfl⟩ | ⟨text, hp⟩
    · rw [parse_run, Except.ok.injEq, Command.run.injEq] at h
      exact ⟨file, settings, rfl, h.symm⟩
    · rw [parse_dis] at h
      cases h
    · obtain ⟨e, he, -⟩ := parse_of_problem hp
      rw [he] at h
      cases h
  · rintro ⟨file, settings, rfl, rfl⟩
    exact parse_run file settings

theorem parse_eq_dis_iff {args : List String} {file : String} :
    parse args = .ok (.dis file) ↔ ∃ rest, args = "dis" :: file :: rest := by
  constructor
  · intro h
    rcases run_or_dis_or_problem args with ⟨file, settings, rfl⟩ | ⟨file, rest, rfl⟩ | ⟨text, hp⟩
    · rw [parse_run] at h
      cases h
    · rw [parse_dis, Except.ok.injEq, Command.dis.injEq] at h
      exact ⟨rest, by rw [h]⟩
    · obtain ⟨e, he, -⟩ := parse_of_problem hp
      rw [he] at h
      cases h
  · rintro ⟨rest, rfl⟩
    exact parse_dis file rest

theorem parse_error_iff {args : List String} {text : String} :
    (∃ e, parse args = .error e ∧ e.message = text) ↔ Problem args text := by
  refine ⟨fun ⟨e, he, hmessage⟩ => ?_, parse_of_problem⟩
  rcases run_or_dis_or_problem args with ⟨file, settings, rfl⟩ | ⟨file, rest, rfl⟩ | ⟨text', hp⟩
  · rw [parse_run] at he
    cases he
  · rw [parse_dis] at he
    cases he
  · obtain ⟨e', he', rfl⟩ := parse_of_problem hp
    obtain rfl : e = e' := Except.error.inj (he.symm.trans he')
    exact hmessage ▸ hp

/-- What arguments are read as: a command to run a file with settings, a command to list a file
whatever follows it, or the first problem. -/
theorem arguments_read (args : List String) :
    (∀ o, parse args = .ok (.run o) ↔ ∃ (file : String) (settings : List Setting),
      args = "run" :: file :: settings.flatMap Setting.words ∧ o = .ofSettings file settings) ∧
    (∀ file, parse args = .ok (.dis file) ↔ ∃ rest, args = "dis" :: file :: rest) ∧
    ∀ text, (∃ e, parse args = .error e ∧ e.message = text) ↔ Problem args text :=
  ⟨fun _ => parse_eq_run_iff, fun _ => parse_eq_dis_iff, fun _ => parse_error_iff⟩

/-- The file is taken whatever it looks like, and the first problem is the one told. -/
example : parse ["run", "--conf", "--seconds", "--", "--key", "+9"] =
    .error (.invalidSeconds "--") := by decide

end Command

/-! ### Keys -/

/-- The texts that name a key are a plus at most, zeros and a hexadecimal digit of either case.
Every other one is refused as no key, wherever it is met and whatever follows. -/
theorem key_spelled (text : String) :
    (∀ k, key? text = some k ↔ SpellsKey text k) ∧
    ((∀ k, ¬ SpellsKey text k) → ∀ (o : RunOptions) (rest : List String),
      ∃ e, o.extend ("--key" :: text :: rest) = .error e ∧ e.message = "invalid key: " ++ text) := by
  refine ⟨fun _ => key?_eq_some_iff, fun h o rest => RunOptions.extend_of_problem (.key ?_) o⟩
  rw [Option.eq_none_iff_forall_ne_some]
  exact fun k hk => h k (key?_eq_some_iff.mp hk)

/-- A zero in front of a digit is read over, and one behind it makes the number too large. -/
theorem key_spelled_zeros : (∃ k, key? "0b" = some k ∧ k.val = 11) ∧
    ∃ e, RunOptions.extend { file := "a" } ["--key", "b0", "--conf"] = .error e ∧
      e.message = "invalid key: b0" := by
  obtain ⟨hnamed, -⟩ := key_spelled "0b"
  obtain ⟨hb0, hrefused⟩ := key_spelled "b0"
  have hnone : key? "b0" = none := rfl
  refine ⟨⟨⟨11, by decide⟩, ?_, rfl⟩, hrefused (fun k hk => ?_) _ _⟩
  · exact (hnamed _).mpr ⟨[], 1, 'b', rfl, .inl rfl, by decide⟩
  · have hread := (hb0 k).mpr hk
    rw [hnone] at hread
    cases hread

/-- A key need not be a single digit. -/
theorem key_not_one_digit :
    ¬ ∀ text k, key? text = some k ↔ ∃ c, text.toList = [c] ∧ Numeral.Digit 16 c k := by
  intro h
  obtain ⟨c, hc, -⟩ := (h "+5" 5).mp (by decide)
  exact absurd hc (by simp)

end ChipEight.Cli
