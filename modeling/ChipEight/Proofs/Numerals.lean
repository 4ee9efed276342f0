import Mathlib.Data.Nat.Digits.Lemmas
import Mathlib.Tactic.FinCases
import ChipEight.Text.Numeral

/-!
# ChipEight.Proofs.Numerals — the texts that are read as numbers

`Numeral.Spells` says when a text is a numeral of a number.  Main statements: reading gives a number
exactly for the numerals of it that keep within the limit (`read?_eq_some_iff`), and the numerals of
a number below the radix are its digit behind zeros (`spells_digit_iff`).
-/

namespace ChipEight.Numeral

/-- The character is the digit `d` of a radix, as a small or a capital letter above nine. -/
def Digit (radix : Nat) (c : Char) (d : Nat) : Prop :=
  d < radix ∧ (c = Nat.digitChar d ∨ c = (Nat.digitChar d).toUpper)

instance (radix : Nat) (c : Char) (d : Nat) : Decidable (Digit radix c d) :=
  inferInstanceAs (Decidable (_ ∧ _))

/-- The text is a numeral of `n`: one plus at most, and digits with the most significant first. -/
def Spells (radix : Nat) (text : String) (n : Nat) : Prop :=
  ∃ sign cs ds, text.toList = sign ++ cs ∧ (sign = [] ∨ sign = ['+']) ∧
    ds ≠ [] ∧ List.Forall₂ (Digit radix) cs ds ∧ Nat.ofDigits radix ds.reverse = n

variable {radix : Nat}

/-! ### One digit -/

theorem digit?_of_digit {c : Char} {d : Nat} (hr : radix ≤ 16) (h : Digit radix c d) :
    digit? radix c = some d := by
  obtain ⟨hd, hc⟩ := h
  have hsmall : ∀ e : Fin 16, digit? radix (Nat.digitChar e) =
      if e.val < radix then some e.val else none := by
    intro e
    fin_cases e <;> rfl
  have hcapital : ∀ e : Fin 16, digit? radix (Nat.digitChar e).toUpper =
      if e.val < radix then some e.val else none := by
    intro e
    fin_cases e <;> rfl
  rcases hc with rfl | rfl
  · rw [hsmall ⟨d, by omega⟩, if_pos hd]
  · rw [hcapital ⟨d, by omega⟩, if_pos hd]

theorem ofNat_add_sub {c : Char} {low : Nat} (h : low ≤ c.toNat) :
    Char.ofNat (low + (c.toNat - low)) = c := by
  rw [Nat.add_sub_cancel' h, Char.ofNat_toNat]

theorem digit_of_digit? {c : Char} {d : Nat} (h : digit? radix c = some d) : Digit radix c d := by
  have hdecimal : ∀ e : Fin 10, Char.ofNat (48 + e) = Nat.digitChar e := by decide
  have hsmall : ∀ e : Fin 6, Char.ofNat (97 + e) = Nat.digitChar (10 + e) := by decide
  have hcapital : ∀ e : Fin 6, Char.ofNat (65 + e) = (Nat.digitChar (10 + e)).toUpper := by decide
  simp only [digit?, Char.le_def, UInt32.le_iff_toNat_le] at h
  split_ifs at h with hrange hd hrange hd hrange hd hd
  · obtain ⟨hlow, hhigh⟩ : 48 ≤ c.toNat ∧ c.toNat ≤ 57 := hrange
    obtain rfl := Option.some.inj h
    refine ⟨hd, .inl ?_⟩
    rw [← hdecimal ⟨c.toNat - 48, by omega⟩, ofNat_add_sub hlow]
  · obtain ⟨hlow, hhigh⟩ : 97 ≤ c.toNat ∧ c.toNat ≤ 102 := hrange
    obtain rfl : 10 + (c.toNat - 97) = d := by rw [← Option.some.inj h]; omega
    refine ⟨by omega, .inl ?_⟩
    rw [← hsmall ⟨c.toNat - 97, by omega⟩, ofNat_add_sub hlow]
  · obtain ⟨hlow, hhigh⟩ : 65 ≤ c.toNat ∧ c.toNat ≤ 70 := hrange
    obtain rfl : 10 + (c.toNat - 65) = d := by rw [← Option.some.inj h]; omega
    refine ⟨by omega, .inr ?_⟩
    rw [← hcapital ⟨c.toNat - 65, by omega⟩, ofNat_add_sub hlow]
  · omega

/-! ### A list of digits -/

theorem digitsFrom?_eq_some_iff (h : radix ≤ 16) {acc n : Nat} {cs : List Char} :
    digitsFrom? radix acc cs = some n ↔
      ∃ ds, List.Forall₂ (Digit radix) cs ds ∧ ds.foldl (fun v d => radix * v + d) acc = n := by
  induction cs generalizing acc with
  | nil => simp
  | cons c cs ih =>
    constructor
    · intro hc
      cases hd : digit? radix c with
      | none => simp [digitsFrom?, hd] at hc
      | some d =>
        rw [digitsFrom?_cons hd, ih] at hc
        obtain ⟨ds, hds, hn⟩ := hc
        exact ⟨d :: ds, .cons (digit_of_digit? hd) hds, hn⟩
    · rintro ⟨ds, hds, hn⟩
      cases hds with
      | @cons _ d _ ds hd hds =>
        rw [digitsFrom?_cons (digit?_of_digit h hd), ih]
        exact ⟨ds, hds, hn⟩

theorem ofDigits_reverse (ds : List Nat) :
    Nat.ofDigits radix ds.reverse = ds.foldl (fun v d => radix * v + d) 0 := by
  rw [Nat.ofDigits_eq_foldr, List.foldr_reverse]
  simp only [Nat.cast_id, Nat.add_comm]

theorem digits?_eq_some_iff (h : radix ≤ 16) {n : Nat} {cs : List Char} :
    digits? radix cs = some n ↔
      ∃ ds, ds ≠ [] ∧ List.Forall₂ (Digit radix) cs ds ∧ Nat.ofDigits radix ds.reverse = n := by
  cases cs with
  | nil => simp [digits?]
  | cons c cs =>
    simp only [digits?, List.isEmpty_cons, Bool.false_eq_true, if_false,
      digitsFrom?_eq_some_iff h, ofDigits_reverse]
    refine exists_congr fun ds => (and_iff_right_of_imp ?_).symm
    rintro ⟨hds, -⟩ rfl
    cases hds

/-! ### The whole text -/

theorem exists_sign (cs : List Char) :
    ∃ sign, cs = sign ++ dropPlus cs ∧ (sign = [] ∨ sign = ['+']) := by
  fun_cases dropPlus cs with
  | case1 cs => exact ⟨['+'], rfl, .inr rfl⟩
  | case2 cs => exact ⟨[], rfl, .inl rfl⟩

theorem digit?_plus : digit? radix '+' = none := if_neg (Nat.lt_irrefl radix)

theorem dropPlus_digits (h : radix ≤ 16) {sign cs : List Char} {ds : List Nat}
    (hsign : sign = [] ∨ sign = ['+']) (hds : List.Forall₂ (Digit radix) cs ds) :
    dropPlus (sign ++ cs) = cs := by
  rcases hsign with rfl | rfl
  · rw [List.nil_append, dropPlus]
    rintro cs' rfl
    cases hds with
    | cons hd _ =>
      have hplus := digit?_of_digit h hd
      rw [digit?_plus] at hplus
      cases hplus
  · rfl

theorem read?_eq_some_iff (h : radix ≤ 16) {limit n : Nat} {text : String} :
    read? radix limit text = some n ↔ Spells radix text n ∧ n ≤ limit := by
  rw [read?, Option.filter_eq_some_iff, digits?_eq_some_iff h, decide_eq_true_eq]
  refine and_congr_left' ⟨?_, ?_⟩
  · rintro ⟨ds, hne, hds, hn⟩
    obtain ⟨sign, htext, hsign⟩ := exists_sign text.toList
    exact ⟨sign, _, ds, htext, hsign, hne, hds, hn⟩
  · rintro ⟨sign, cs, ds, htext, hsign, hne, hds, hn⟩
    rw [htext, dropPlus_digits h hsign hds]
    exact ⟨ds, hne, hds, hn⟩

/-- No numeral at all, or one of a number that is too large. -/
theorem read?_eq_none_iff (h : radix ≤ 16) {limit : Nat} {text : String} :
    read? radix limit text = none ↔ ∀ n, Spells radix text n → limit < n := by
  simp only [Option.eq_none_iff_forall_ne_some, ne_eq, read?_eq_some_iff h, not_and, not_le]

/-! ### Zeros in front -/

theorem eq_of_digit_zero {c : Char} (h : Digit radix c 0) : c = '0' := by
  rcases h.2 with rfl | rfl <;> rfl

theorem zeros_of_digits {cs : List Char} {ds : List Nat} (h : List.Forall₂ (Digit radix) cs ds)
    (hne : ds ≠ []) (hlt : Nat.ofDigits radix ds.reverse < radix) :
    ∃ zeros c, cs = List.replicate zeros '0' ++ [c] ∧
      Digit radix c (Nat.ofDigits radix ds.reverse) := by
  induction h with
  | nil => exact absurd rfl hne
  | @cons c d cs ds hd hds ih =>
    cases ds with
    | nil =>
      cases hds
      refine ⟨0, c, rfl, ?_⟩
      rw [List.reverse_singleton, Nat.ofDigits_singleton]
      exact hd
    | cons d' ds =>
      rw [Nat.ofDigits_reverse_cons] at hlt ⊢
      obtain rfl : d = 0 := by
        by_contra hpos
        have hpow : radix ≤ radix ^ (d' :: ds).length := Nat.le_self_pow (by simp) radix
        have hmul := Nat.le_mul_of_pos_right (radix ^ (d' :: ds).length) (Nat.pos_of_ne_zero hpos)
        omega
      rw [Nat.mul_zero, Nat.add_zero] at hlt ⊢
      obtain ⟨zeros, last, hcs, hlast⟩ := ih (List.cons_ne_nil _ _) hlt
      refine ⟨zeros + 1, last, ?_, hlast⟩
      rw [eq_of_digit_zero hd, hcs, List.replicate_succ, List.cons_append]

theorem digits_of_zeros {c : Char} {d : Nat} (h : Digit radix c d) (zeros : Nat) :
    List.Forall₂ (Digit radix) (List.replicate zeros '0' ++ [c]) (List.replicate zeros 0 ++ [d]) := by
  induction zeros with
  | zero => exact .cons h .nil
  | succ zeros ih => exact .cons ⟨Nat.zero_lt_of_lt h.1, .inl rfl⟩ ih

/-- A numeral of a number below the radix is its digit behind zeros. -/
theorem spells_digit_iff {text : String} {d : Nat} (hd : d < radix) :
    Spells radix text d ↔
      ∃ sign zeros c, text.toList = sign ++ (List.replicate zeros '0' ++ [c]) ∧
        (sign = [] ∨ sign = ['+']) ∧ Digit radix c d := by
  constructor
  · rintro ⟨sign, cs, ds, htext, hsign, hne, hds, hn⟩
    obtain ⟨zeros, c, rfl, hc⟩ := zeros_of_digits hds hne (hn ▸ hd)
    exact ⟨sign, zeros, c, htext, hsign, hn ▸ hc⟩
  · rintro ⟨sign, zeros, c, htext, hsign, hc⟩
    refine ⟨sign, _, _, htext, hsign, by simp, digits_of_zeros hc zeros, ?_⟩
    rw [List.reverse_append, List.reverse_singleton, List.reverse_replicate,
      Nat.ofDigits_append_replicate_zero, Nat.ofDigits_singleton]

end ChipEight.Numeral
