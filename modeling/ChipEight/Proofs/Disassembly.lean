import ChipEight.Cli.Execution
import ChipEight.Proofs.Assembly
import ChipEight.Proofs.Bounds
import ChipEight.Proofs.Loading
import ChipEight.Proofs.Mnemonics

/-!
# ChipEight.Proofs.Disassembly — listings are complete and exact

A listing is a text of lines, one for each word (`Lists`), and a line shows an address, the word
there and the instruction that it is (`WordLine`).  Main statement: the lines are those of the words
in memory, rounded up to whole words and cut at the last byte of memory; so a program listed by the
command line is shown byte by byte, and one that was assembled shows the instructions it was
assembled from (`listing_complete`).
-/

namespace ChipEight

/-! ### Lines and words -/

/-- An address, the word there, and behind two blanks the instruction that it is, if it is one. -/
def wordLine (address : Nat) (w : UInt16) : String :=
  Hex.padded 4 address ++ ": " ++ Hex.padded 4 w.toNat ++
    ((Instr.decode? w).elim "" fun i => "  " ++ i.mnemonic)

/-- The text is the number in four capital hexadecimal digits. -/
structure FourDigits (text : String) (n : Nat) : Prop where
  length_eq : text.length = 4
  capital : ∀ c ∈ text.toList, c ∈ "0123456789ABCDEF".toList
  value_eq : Hex.value text.toList = n

theorem fourDigits_padded {n : Nat} (h : n < 65536) : FourDigits (Hex.padded 4 n) n where
  length_eq := Hex.length_padded h
  capital c hc := by
    have hdigit : ∀ d : Fin 16, Hex.digit d ∈ "0123456789ABCDEF".toList := by decide
    obtain ⟨d, rfl⟩ := Hex.exists_eq_digit_of_mem_padded hc
    exact hdigit d
  value_eq := Hex.value_padded 4 n

/-- The line shows an address and the word there, both in four digits. -/
structure WordLine (line : String) (address : Nat) (w : UInt16) : Prop where
  eq : line = wordLine address w
  address_digits : FourDigits (Hex.padded 4 address) address
  word_digits : FourDigits (Hex.padded 4 w.toNat) w.toNat
  one_line : OneLine line

theorem wordLine_shows {address : Nat} (h : address < 65536) (w : UInt16) :
    WordLine (wordLine address w) address w where
  eq := rfl
  address_digits := fourDigits_padded h
  word_digits := fourDigits_padded w.toNat_lt
  one_line := by
    have hword : OneLine (Hex.padded 4 address ++ ": " ++ Hex.padded 4 w.toNat) :=
      .append (.append (Hex.oneLine_padded 4 address) (by decide)) (Hex.oneLine_padded 4 w.toNat)
    refine hword.append ?_
    cases Instr.decode? w with
    | none => decide
    | some i => exact .append (by decide) i.oneLine_mnemonic

theorem exists_front_of_decode? {w : UInt16} {i : Instr} (h : Instr.decode? w = some i)
    (address : Nat) : ∃ front, wordLine address w = front ++ "  " ++ i.mnemonic := by
  refine ⟨Hex.padded 4 address ++ ": " ++ Hex.padded 4 w.toNat, ?_⟩
  rw [wordLine, h]
  exact String.append_assoc.symm

/-- There is one line for each word, in order, and the first word is at the load address. -/
structure Lists (lines : List String) (words : List UInt16) : Prop where
  length_eq : lines.length = words.length
  shows : ∀ k line w, lines[k]? = some line → words[k]? = some w →
    WordLine line (Machine.programStart + 2 * k) w

/-- Lines as one text, each line ended. -/
def unlines (lines : List String) : String := String.join (lines.map (· ++ "\n"))

namespace Vm

variable {vm : Vm} {program : List UInt8}

theorem listingLine_eq (address : Nat) (w : UInt16) :
    listingLine address w = wordLine address w ++ "\n" := by
  rw [listingLine, wordLine]
  cases Instr.decode? w with
  | none => simp
  | some i => simp [String.append_assoc]

theorem length_listedAddresses (count : Nat) :
    (listedAddresses (min (Machine.programStart + count) (Memory.size - 1))).length =
      (min count 3583 + 1) / 2 := by
  rw [listedAddresses, List.length_map, List.length_range]
  simp only [Machine.programStart, Memory.size]
  omega

/-- The lines of a listing. -/
theorem exists_lines {count : Nat} (h : Machine.programStart + count < 2 ^ 64)
    {words : List UInt16}
    (hw : List.Forall₂ (fun a w => vm.machine.memory.readWord a = .ok w)
      (listedAddresses (min (Machine.programStart + count) (Memory.size - 1))) words) :
    ∃ lines, vm.listing count = .ok (unlines lines) ∧ Lists lines words := by
  have hlength := hw.length_eq
  generalize hlast : min (Machine.programStart + count) (Memory.size - 1) = last at hw hlength
  refine ⟨List.zipWith wordLine (listedAddresses last) words, ?_, ?_, ?_⟩
  · rw [listing_of_words h (hlast ▸ hw), hlast, unlines, List.map_zipWith]
    simp only [← listingLine_eq]
  · rw [List.length_zipWith, hlength, Nat.min_self]
  · intro k line w hline hword
    rw [List.getElem?_zipWith, hword, listedAddresses, List.getElem?_map] at hline
    have hk : k < words.length := (List.getElem?_eq_some_iff.mp hword).1
    have hk' : k < (last - Machine.programStart + 1) / 2 := by
      rw [← hlength, listedAddresses, List.length_map, List.length_range] at hk
      exact hk
    rw [List.getElem?_range hk'] at hline
    obtain rfl := Option.some.inj hline
    refine wordLine_shows ?_ w
    simp only [Machine.programStart, Memory.size] at hk' hlast ⊢
    omega

theorem readWord_of_words {m : Memory} {last k : Nat} {words : List UInt16} {w : UInt16}
    (hw : List.Forall₂ (fun a w => m.readWord a = .ok w) (listedAddresses last) words)
    (hk : words[k]? = some w) : m.readWord (Machine.programStart + 2 * k) = .ok w := by
  obtain ⟨hlt, rfl⟩ := List.getElem?_eq_some_iff.mp hk
  have hread := hw.get (hw.length_eq ▸ hlt) hlt
  simpa only [listedAddresses, List.get_eq_getElem, List.getElem_map, List.getElem_range]
    using hread

/-! ### Words of a program -/

/-- Memory that holds a program reads as its words. -/
theorem read_words {m : Memory} {bytes : List UInt8} {a : Nat} (h : a + bytes.length ≤ Memory.size)
    (hm : ∀ (i : Nat) (hi : i < bytes.length), m[a + i] = bytes[i]) :
    List.Forall₂ (fun a w => m.readWord a = .ok w)
      ((List.range (bytes.length / 2)).map fun k => a + 2 * k) (Program.words bytes) := by
  -- two bytes at a time, as the words are read
  fun_induction Program.words bytes generalizing a with
  | case1 high low rest ih =>
    simp only [List.length_cons] at h
    have hword : m.readWord a = .ok (Word.join high low) := by
      have hhigh := hm 0 (by simp)
      have hlow := hm 1 (by simp)
      rw [Memory.readWord_of_le m (by omega)]
      simp only [Nat.add_zero, List.getElem_cons_zero, List.getElem_cons_succ] at hhigh hlow
      rw [hhigh, hlow]
    have hrest : List.Forall₂ (fun a w => m.readWord a = .ok w)
        ((List.range (rest.length / 2)).map fun k => a + 2 + 2 * k) (Program.words rest) := by
      refine ih (by omega) fun i hi => ?_
      have hi' := hm (i + 2) (by simp only [List.length_cons]; omega)
      simpa only [Nat.add_assoc, Nat.add_comm 2, List.getElem_cons_succ] using hi'
    have hlength : (high :: low :: rest).length / 2 = rest.length / 2 + 1 := by
      simp only [List.length_cons]
      omega
    have haddresses : (List.range (rest.length / 2 + 1)).map (fun k => a + 2 * k) =
        a :: (List.range (rest.length / 2)).map fun k => a + 2 + 2 * k := by
      rw [List.range_succ_eq_map, List.map_cons, List.map_map]
      refine congrArg _ (List.map_congr_left fun k _ => ?_)
      show a + 2 * (k + 1) = a + 2 + 2 * k
      omega
    rw [hlength, haddresses]
    exact .cons hword hrest
  | case2 bytes hne =>
    have hlt := Program.length_lt_two hne
    have hlength : bytes.length / 2 = 0 := by omega
    rw [hlength]
    exact .nil

/-- A program with a zero behind it, if it takes one to fill its last word. -/
def padded (program : List UInt8) : List UInt8 :=
  program ++ List.replicate (program.length % 2) 0

theorem length_padded (program : List UInt8) :
    (padded program).length = program.length + program.length % 2 := by
  rw [padded, List.length_append, List.length_replicate]

theorem getElem_installed_padded (vm : Vm) {i : Nat} (ha : Machine.programStart + i < Memory.size)
    (hi : i < (padded program).length) :
    (vm.installed program).machine.memory[Machine.programStart + i] = (padded program)[i] := by
  have hlength := length_padded program
  rw [getElem_installed, Memory.imageByte, dif_neg (by simp only [Machine.programStart]; omega)]
  by_cases hlt : i < program.length
  · simp [Machine.programStart, padded, hlt, List.getElem_append_left]
  · have hge : program.length ≤ i := Nat.le_of_not_lt hlt
    simp [Machine.programStart, padded, hlt, List.getElem_append_right hge]

theorem flatMap_words_padded (program : List UInt8) :
    (Program.words (padded program)).flatMap (fun w => [Word.high w, Word.low w]) =
      program ++ List.replicate (program.length % 2) 0 := by
  refine Program.flatMap_words ?_
  rw [length_padded]
  omega

end Vm

/-! ### The command line -/

namespace Cli

variable {files : Files} {file : String} {program : List UInt8}

/-- A program listed by the command line is shown word by word. -/
theorem exists_dis (hfile : files file = .file program) (h : program.length ≤ 3583) :
    ∃ lines, dis files file = { stdout := unlines lines } ∧
      Lists lines (Program.words (Vm.padded program)) := by
  let vm := (Vm.new {}).installed program
  have hpadded := Vm.length_padded program
  have hcount : Machine.programStart + (program.length + program.length % 2) < 2 ^ 64 := by
    simp only [Machine.programStart]
    omega
  have hwords : List.Forall₂ (fun a w => vm.machine.memory.readWord a = .ok w)
      (Vm.listedAddresses (min (Machine.programStart + (program.length + program.length % 2))
        (Memory.size - 1))) (Program.words (Vm.padded program)) := by
    have hfits : Machine.programStart + (Vm.padded program).length ≤ Memory.size := by
      simp only [Machine.programStart, Memory.size]
      omega
    have hread := Vm.read_words hfits fun i hi =>
      Vm.getElem_installed_padded (Vm.new {}) (by omega) hi
    have hhalf : (min (Machine.programStart + (program.length + program.length % 2))
        (Memory.size - 1) - Machine.programStart + 1) / 2 = (Vm.padded program).length / 2 := by
      rw [hpadded]
      simp only [Machine.programStart, Memory.size]
      omega
    rw [Vm.listedAddresses, hhalf]
    exact hread
  obtain ⟨lines, hlisting, hlists⟩ := Vm.exists_lines hcount hwords
  refine ⟨lines, ?_, hlists⟩
  rw [dis, readFile, hfile]
  simp only [Vm.load_of_fits h]
  rw [hlisting]

/-- A program that was assembled shows its instructions. -/
theorem exists_dis_assemble {p : List Instr} (hfile : files file = .file (Program.assemble p))
    (h : 2 * p.length ≤ 3583) (hclear : .addr .sys 0x0E0 ∉ p) (hret : .addr .sys 0x0EE ∉ p) :
    ∃ lines, dis files file = { stdout := unlines lines } ∧ lines.length = p.length ∧
      ∀ (k : Nat) (i : Instr) line, p[k]? = some i → lines[k]? = some line →
        ∃ front, line = front ++ "  " ++ i.mnemonic := by
  have hlength := Program.length_assemble p
  obtain ⟨lines, hdis, hlists⟩ := exists_dis hfile (by omega)
  have hwords : Program.words (Vm.padded (Program.assemble p)) = p.map Instr.encode := by
    have heven : (Program.assemble p).length % 2 = 0 := by omega
    rw [Vm.padded, heven, List.replicate_zero, List.append_nil, Program.words_assemble]
  rw [hwords] at hlists
  refine ⟨lines, hdis, hlists.length_eq.trans (List.length_map _), ?_⟩
  intro k i line hi hline
  have hword : (p.map Instr.encode)[k]? = some i.encode := by rw [List.getElem?_map, hi]; rfl
  have halias : i.isAlias = false := by
    rw [← Bool.not_eq_true, Instr.isAlias_eq_true_iff]
    rintro (rfl | rfl)
    · exact hclear (List.mem_of_getElem? hi)
    · exact hret (List.mem_of_getElem? hi)
  rw [(hlists.shows k line _ hline hword).eq]
  exact exists_front_of_decode? (Instr.decode?_encode halias) _

/-- A listing of any machine shows the words from the load address on, as many as have a byte among
the first `count` of them and lie within memory.  The command line lists a program by all of its
words, a zero behind a last odd byte, and one that was assembled from instructions by these. -/
theorem listing_complete :
    (∀ (vm : Vm) count, Machine.programStart + count < 2 ^ 64 →
      ∃ lines words, vm.listing count = .ok (unlines lines) ∧ Lists lines words ∧
        lines.length = (min count 3583 + 1) / 2 ∧
        ∀ (k : Nat) w, words[k]? = some w →
          vm.machine.memory.readWord (Machine.programStart + 2 * k) = .ok w) ∧
    (∀ (files : Files) file program, files file = .file program → program.length ≤ 3583 →
      ∃ lines words, dis files file = { stdout := unlines lines } ∧ Lists lines words ∧
        lines.length = (program.length + 1) / 2 ∧
        words.flatMap (fun w => [Word.high w, Word.low w]) =
          program ++ List.replicate (program.length % 2) 0) ∧
    ∀ (files : Files) file p, files file = .file (Program.assemble p) → 2 * p.length ≤ 3583 →
      .addr .sys 0x0E0 ∉ p → .addr .sys 0x0EE ∉ p →
      ∃ lines, dis files file = { stdout := unlines lines } ∧ lines.length = p.length ∧
        ∀ (k : Nat) (i : Instr) line, p[k]? = some i → lines[k]? = some line →
          ∃ front, line = front ++ "  " ++ i.mnemonic := by
  refine ⟨fun vm count h => ?_, fun files file program hfile h => ?_,
    fun files file p hfile h => ?_⟩
  · obtain ⟨words, hw⟩ := Vm.exists_listed_words vm.machine.memory count
    obtain ⟨lines, hlisting, hlists⟩ := Vm.exists_lines h hw
    have hlength := Vm.length_listedAddresses count
    refine ⟨lines, words, hlisting, hlists, ?_, fun k w hk => ?_⟩
    · rw [hlists.length_eq, ← hw.length_eq, hlength]
    · exact Vm.readWord_of_words hw hk
  · obtain ⟨lines, hdis, hlists⟩ := exists_dis hfile h
    have hbytes := Vm.flatMap_words_padded program
    refine ⟨lines, _, hdis, hlists, ?_, hbytes⟩
    rw [hlists.length_eq, Program.length_words, Vm.length_padded]
    omega
  · exact exists_dis_assemble hfile h

/-- A listing up to the end of memory, a program of three bytes, and one of two instructions. -/
theorem listing_complete_odd :
    (∃ lines, (Vm.new {}).listing 5000 = .ok (unlines lines) ∧ lines.length = 1792) ∧
    (∃ lines words, dis (fun _ => .file [0x00, 0xE0, 0x12]) "odd" = { stdout := unlines lines } ∧
      Lists lines words ∧ lines.length = 2 ∧
      words.flatMap (fun w => [Word.high w, Word.low w]) = [0x00, 0xE0, 0x12, 0x00]) ∧
    ∃ lines front, dis (fun _ => .file (Program.assemble [.ret, .clear])) "two" =
        { stdout := unlines lines } ∧ lines.length = 2 ∧
      lines[1]? = some (front ++ "  " ++ "CLS") := by
  obtain ⟨hlisting, hdis, hassembled⟩ := listing_complete
  refine ⟨?_, ?_, ?_⟩
  · obtain ⟨lines, words, hlines, -, hlength, -⟩ := hlisting (Vm.new {}) 5000 (by decide)
    exact ⟨lines, hlines, hlength⟩
  · exact hdis (fun _ => .file [0x00, 0xE0, 0x12]) "odd" _ rfl (by decide)
  · obtain ⟨lines, hlines, hlength, hshown⟩ :=
      hassembled (fun _ => .file _) "two" [.ret, .clear] rfl (by decide) (by decide) (by decide)
    obtain ⟨line, hlast⟩ : ∃ line, lines[1]? = some line :=
      ⟨_, List.getElem?_eq_getElem (by rw [hlength]; decide)⟩
    obtain ⟨front, hfront⟩ := hshown 1 .clear _ rfl hlast
    exact ⟨lines, front, hlines, hlength, hlast.trans (congrArg some hfront)⟩

end Cli

end ChipEight
