import ChipEight.Program

/-!
# ChipEight.Proofs.Assembly — programs written as bytes and read back

Writing and reading programs are inverse to each other, except that two machine routine calls share
their words with other instructions and are read back as these (`Instr.readBack`).  Main statement:
an assembled program reads back as itself unless one of the two calls is in it, and bytes whose
words are all instructions are those of the program that they read as (`assemble_round_trip`).
-/

namespace ChipEight

namespace Instr

/-- The instruction that the word of `i` is read as. -/
def readBack (i : Instr) : Instr :=
  if i = .addr .sys 0x0E0 then .clear else if i = .addr .sys 0x0EE then .ret else i

theorem isAlias_eq_true_iff {i : Instr} :
    i.isAlias = true ↔ i = .addr .sys 0x0E0 ∨ i = .addr .sys 0x0EE := by
  rw [isAlias, Bool.or_eq_true, beq_iff_eq, beq_iff_eq]

theorem readBack_eq_self_iff {i : Instr} : i.readBack = i ↔ i.isAlias = false := by
  rw [← Bool.not_eq_true, isAlias_eq_true_iff, readBack]
  by_cases h1 : i = .addr .sys 0x0E0
  · subst h1
    decide
  · by_cases h2 : i = .addr .sys 0x0EE
    · subst h2
      decide
    · simp [h1, h2]

theorem decode?_encode_eq_readBack (i : Instr) : decode? i.encode = some i.readBack := by
  cases h : i.isAlias with
  | false => rw [decode?_encode h, readBack_eq_self_iff.mpr h]
  | true => rcases isAlias_eq_true_iff.mp h with rfl | rfl <;> decide

theorem sys?_eq_none_iff {a : Addr} : sys? a = none ↔ a = 0x0E0 ∨ a = 0x0EE := by
  simp only [sys?, ite_eq_left_iff, reduceCtorEq, imp_false, Decidable.not_not]

end Instr

namespace Program

variable {p : List Instr} {bytes : List UInt8}

/-! ### Writing and reading back -/

theorem length_assemble (p : List Instr) : (assemble p).length = 2 * p.length := by
  induction p with
  | nil => rfl
  | cons i p ih =>
    rw [assemble_cons, List.length_cons, List.length_cons, List.length_cons, ih]
    omega

theorem disassemble?_assemble (p : List Instr) :
    disassemble? (assemble p) = some (p.map Instr.readBack) := by
  have hd : Instr.decode? ∘ Instr.encode = fun i => pure i.readBack :=
    funext Instr.decode?_encode_eq_readBack
  rw [disassemble?, words_assemble, List.mapM_map, hd, List.mapM_pure]
  rfl

/-- Each instruction has to read back as itself. -/
theorem map_readBack_eq_self_iff :
    p.map Instr.readBack = p ↔ Instr.addr .sys 0x0E0 ∉ p ∧ Instr.addr .sys 0x0EE ∉ p := by
  have hmem : p.map Instr.readBack = p ↔ ∀ i ∈ p, i.isAlias = false := by
    rw [← List.map_id p, List.map_map, List.map_inj_left, List.map_id]
    exact forall₂_congr fun i _ => Instr.readBack_eq_self_iff
  rw [hmem]
  constructor
  · intro h
    refine ⟨fun h1 => ?_, fun h2 => ?_⟩
    · cases h _ h1
    · cases h _ h2
  · rintro ⟨h1, h2⟩ i hi
    rw [← Bool.not_eq_true, Instr.isAlias_eq_true_iff]
    rintro (rfl | rfl)
    · exact h1 hi
    · exact h2 hi

/-! ### Reading and writing back -/

/-- The two bytes of each word, one word after the other. -/
theorem assemble_eq_flatMap (p : List Instr) :
    assemble p = (p.map Instr.encode).flatMap fun w => [Word.high w, Word.low w] := by
  rw [List.flatMap_map]
  rfl

/-- Where reading words ends, there is at most one byte left. -/
theorem length_lt_two (h : ∀ high low rest, bytes = high :: low :: rest → False) :
    bytes.length < 2 := by
  rcases bytes with _ | ⟨b, _ | ⟨b', rest⟩⟩
  · simp
  · simp
  · exact absurd rfl (h b b' rest)

theorem length_words (bytes : List UInt8) : (words bytes).length = bytes.length / 2 := by
  fun_induction words bytes with
  | case1 high low rest ih =>
    simp only [List.length_cons, ih]
    omega
  | case2 bytes hne =>
    have hlt := length_lt_two hne
    rw [List.length_nil]
    omega

theorem flatMap_words (h : 2 ∣ bytes.length) :
    (words bytes).flatMap (fun w => [Word.high w, Word.low w]) = bytes := by
  -- two bytes at a time, as the words are read
  fun_induction words bytes with
  | case1 high low rest ih =>
    have hrest : 2 ∣ rest.length := by
      simp only [List.length_cons] at h
      omega
    rw [List.flatMap_cons, ih hrest, Word.high_join, Word.low_join]
    rfl
  | case2 bytes hne =>
    have hlt := length_lt_two hne
    have hnil : bytes = [] := by
      rw [← List.length_eq_zero_iff]
      omega
    rw [hnil]
    rfl

/-- Words that are all instructions are those of a program. -/
theorem exists_mapM_decode? {ws : List UInt16} (h : ∀ w ∈ ws, (Instr.decode? w).isSome = true) :
    ∃ p, ws.mapM Instr.decode? = some p ∧ p.map Instr.encode = ws := by
  induction ws with
  | nil => exact ⟨[], rfl, rfl⟩
  | cons w ws ih =>
    rw [List.forall_mem_cons] at h
    obtain ⟨i, hi⟩ := Option.isSome_iff_exists.mp h.1
    obtain ⟨p, hp, he⟩ := ih h.2
    refine ⟨i :: p, ?_, ?_⟩
    · rw [List.mapM_cons, hi, hp]
      rfl
    · rw [List.map_cons, Instr.encode_of_decode? hi, he]

/-- An assembled program has two bytes an instruction, and it reads back as itself unless one of the
two machine routine calls that `sys?` refuses is in it.  Bytes whose words are all instructions are
assembled again from the program that they read as. -/
theorem assemble_round_trip :
    (∀ p : List Instr,
      (assemble p).length = 2 * p.length ∧
        disassemble? (assemble p) = some (p.map Instr.readBack) ∧
        (disassemble? (assemble p) = some p ↔
          Instr.addr .sys 0x0E0 ∉ p ∧ Instr.addr .sys 0x0EE ∉ p)) ∧
      (∀ a, Instr.sys? a = none ↔ a = 0x0E0 ∨ a = 0x0EE) ∧
      ∀ bytes : List UInt8, 2 ∣ bytes.length →
        (∀ w ∈ words bytes, (Instr.decode? w).isSome = true) →
        ∃ p, disassemble? bytes = some p ∧ assemble p = bytes := by
  refine ⟨fun p => ?_, fun a => Instr.sys?_eq_none_iff, fun bytes heven hw => ?_⟩
  · refine ⟨length_assemble p, disassemble?_assemble p, ?_⟩
    rw [disassemble?_assemble, Option.some.injEq]
    exact map_readBack_eq_self_iff
  · obtain ⟨p, hp, he⟩ := exists_mapM_decode? hw
    refine ⟨p, hp, ?_⟩
    rw [assemble_eq_flatMap, he, flatMap_words heven]

/-- Clearing the screen written by its alias reads as clearing, and four bytes that are a draw and a
jump are assembled again. -/
theorem assemble_round_trip_clear :
    disassemble? (assemble [.addr .sys 0x0E0, .draw 0xA 0xB 5]) =
        some [.clear, .draw 0xA 0xB 5] ∧
      ∃ p, disassemble? [0xDA, 0xB5, 0x12, 0x00] = some p ∧
        assemble p = [0xDA, 0xB5, 0x12, 0x00] := by
  obtain ⟨hread, -, hwrite⟩ := assemble_round_trip
  have hwords : ∀ w ∈ words [0xDA, 0xB5, 0x12, 0x00], (Instr.decode? w).isSome = true := by
    intro w hw
    simp only [words, List.mem_cons, List.not_mem_nil, or_false] at hw
    rcases hw with rfl | rfl <;> rfl
  exact ⟨(hread [.addr .sys 0x0E0, .draw 0xA 0xB 5]).2.1, hwrite _ ⟨2, rfl⟩ hwords⟩

end Program

end ChipEight
