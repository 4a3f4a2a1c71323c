import Mathlib.Data.List.TakeWhile
import Mathlib.Data.Nat.Digits.Defs

/-!
# `strtol` with base 0

The number at the start of a text: blanks, a sign, and digits whose base is 16 behind `0x`, 8 behind
`0` and 10 otherwise. `Numeral` are the texts that are such a number as a whole.
-/

namespace Sockperf.Strtol

set_option autoImplicit false

/-! ## Reading a number -/

def between (lo hi c : Char) : Bool := lo.toNat ≤ c.toNat && c.toNat ≤ hi.toNat

def isSpace (c : Char) : Bool := c == ' ' || between '\t' '\r' c

/-- The digit that a character stands for; 36 if it is none. -/
def digit (c : Char) : Nat :=
  if between '0' '9' c then c.toNat - 48
  else if between 'a' 'z' c then c.toNat - 87
  else if between 'A' 'Z' c then c.toNat - 55
  else 36

def isDigit (base : Nat) (c : Char) : Bool := digit c < base

def number (base : Nat) (cs : List Char) : Nat := Nat.ofDigits base (cs.map digit).reverse

/-- The base, and where the digits begin. -/
def radix : List Char → Nat × List Char
  | '0' :: x :: c :: cs =>
    if (x = 'x' ∨ x = 'X') ∧ isDigit 16 c = true then (16, c :: cs) else (8, '0' :: x :: c :: cs)
  | '0' :: cs => (8, '0' :: cs)
  | cs => (10, cs)

/-- The number without its sign, and what is behind it. -/
def magnitude (s : List Char) : Option (Nat × List Char) :=
  let digits := (radix s).2.takeWhile (isDigit (radix s).1)
  if digits = [] then none
  else some (number (radix s).1 digits, (radix s).2.dropWhile (isDigit (radix s).1))

def signed : List Char → Option (Int × List Char)
  | '-' :: cs => (magnitude cs).map fun r => (-(r.1 : Int), r.2)
  | '+' :: cs => (magnitude cs).map fun r => ((r.1 : Int), r.2)
  | cs => (magnitude cs).map fun r => ((r.1 : Int), r.2)

/-- The number, however large, and what `endptr` points to; `none` if there is no number. -/
def strtol (s : List Char) : Option (Int × List Char) := signed (s.dropWhile isSpace)

/-! ## Numerals -/

inductive Unsigned : List Char → Nat → Prop
  | decimal {c : Char} {cs : List Char} (first : c ≠ '0')
      (digits : ∀ d ∈ c :: cs, isDigit 10 d = true) : Unsigned (c :: cs) (number 10 (c :: cs))
  | octal {cs : List Char} (digits : ∀ d ∈ cs, isDigit 8 d = true) :
      Unsigned ('0' :: cs) (number 8 ('0' :: cs))
  | hex {x c : Char} {cs : List Char} (mark : x = 'x' ∨ x = 'X')
      (digits : ∀ d ∈ c :: cs, isDigit 16 d = true) :
      Unsigned ('0' :: x :: c :: cs) (number 16 (c :: cs))

inductive Numeral : List Char → Int → Prop
  | plain {blanks cs : List Char} {n : Nat} (space : ∀ c ∈ blanks, isSpace c = true)
      (unsigned : Unsigned cs n) : Numeral (blanks ++ cs) n
  | plus {blanks cs : List Char} {n : Nat} (space : ∀ c ∈ blanks, isSpace c = true)
      (unsigned : Unsigned cs n) : Numeral (blanks ++ '+' :: cs) n
  | minus {blanks cs : List Char} {n : Nat} (space : ∀ c ∈ blanks, isSpace c = true)
      (unsigned : Unsigned cs n) : Numeral (blanks ++ '-' :: cs) (-n)

variable {s rest cs : List Char} {n : Int} {k base : Nat} {c : Char}

theorem between_eq_true {lo hi : Char} :
    between lo hi c = true ↔ lo.toNat ≤ c.toNat ∧ c.toNat ≤ hi.toNat := by
  simp only [between, Bool.and_eq_true, decide_eq_true_eq]

theorem isSpace_eq_false (h : isDigit 16 c = true) : isSpace c = false := by
  by_contra hspace
  rw [Bool.not_eq_false] at hspace
  simp only [isSpace, Bool.or_eq_true, beq_iff_eq, between_eq_true] at hspace
  rcases hspace with rfl | ⟨-, hle⟩
  · revert h
    decide
  · have hcr : ('\r' : Char).toNat = 13 := rfl
    have h0 : ('0' : Char).toNat = 48 := rfl
    have ha : ('a' : Char).toNat = 97 := rfl
    have hA : ('A' : Char).toNat = 65 := rfl
    have hdigit : digit c = 36 := by
      unfold digit
      simp only [between_eq_true]
      rw [if_neg (by omega), if_neg (by omega), if_neg (by omega)]
    rw [isDigit, hdigit] at h
    revert h
    decide

theorem isDigit_ne {d : Char} (h : isDigit 16 c = true) (hd : isDigit 16 d = false) : c ≠ d := by
  rintro rfl
  rw [h] at hd
  cases hd

theorem isDigit_mono {base base' : Nat} (hle : base ≤ base') (h : isDigit base c = true) :
    isDigit base' c = true := by
  unfold isDigit at h ⊢
  rw [decide_eq_true_eq] at h ⊢
  exact h.trans_le hle

theorem radix_cases (s : List Char) :
    (∃ x c cs, s = '0' :: x :: c :: cs ∧ (x = 'x' ∨ x = 'X') ∧ isDigit 16 c = true ∧
      radix s = (16, c :: cs)) ∨
    (∃ cs, s = '0' :: cs ∧ radix s = (8, s)) ∨
    ((∀ cs, s ≠ '0' :: cs) ∧ radix s = (10, s)) := by
  unfold radix
  split
  · next x c cs =>
    split
    · next h => exact Or.inl ⟨x, c, cs, rfl, h.1, h.2, rfl⟩
    · exact Or.inr (Or.inl ⟨x :: c :: cs, rfl, rfl⟩)
  · next cs _ => exact Or.inr (Or.inl ⟨cs, rfl, rfl⟩)
  · next hlong hshort =>
    refine Or.inr (Or.inr ⟨fun cs heq => ?_, rfl⟩)
    exact hshort cs heq

theorem magnitude_eq_some (h : magnitude s = some (k, rest)) :
    ∃ pre, Unsigned pre k ∧ s = pre ++ rest := by
  unfold magnitude at h
  rcases radix_cases s with ⟨x, c, cs, rfl, hx, hc, hradix⟩ | ⟨cs, rfl, hradix⟩ | ⟨hfirst, hradix⟩
  · rw [hradix] at h
    dsimp only at h
    rw [List.takeWhile_cons_of_pos hc, List.dropWhile_cons_of_pos hc, if_neg (List.cons_ne_nil _ _)]
      at h
    cases h
    refine ⟨'0' :: x :: c :: cs.takeWhile (isDigit 16), .hex hx ?_, ?_⟩
    · intro d hd
      rcases List.mem_cons.mp hd with rfl | hd
      · exact hc
      · exact List.mem_takeWhile_imp hd
    · simp only [List.cons_append, List.takeWhile_append_dropWhile]
  · rw [hradix] at h
    dsimp only at h
    have hzero : isDigit 8 '0' = true := by decide
    rw [List.takeWhile_cons_of_pos hzero, List.dropWhile_cons_of_pos hzero,
      if_neg (List.cons_ne_nil _ _)] at h
    cases h
    refine ⟨'0' :: cs.takeWhile (isDigit 8), .octal fun d => List.mem_takeWhile_imp, ?_⟩
    simp only [List.cons_append, List.takeWhile_append_dropWhile]
  · rw [hradix] at h
    dsimp only at h
    split at h
    · cases h
    · next hsome =>
      cases h
      refine ⟨s.takeWhile (isDigit 10), ?_, List.takeWhile_append_dropWhile.symm⟩
      cases s with
      | nil => exact absurd rfl hsome
      | cons c cs =>
        have hc : isDigit 10 c = true := by
          by_contra hc
          exact hsome (List.takeWhile_cons_of_neg hc)
        rw [List.takeWhile_cons_of_pos hc]
        refine .decimal (fun heq => hfirst cs (by rw [heq])) ?_
        intro d hd
        rcases List.mem_cons.mp hd with rfl | hd
        · exact hc
        · exact List.mem_takeWhile_imp hd

theorem magnitude_unsigned (h : Unsigned s k) : magnitude s = some (k, []) := by
  have hall : ∀ {base : Nat} {c : Char} {cs : List Char},
      (∀ d ∈ c :: cs, isDigit base d = true) →
        (c :: cs).takeWhile (isDigit base) = c :: cs ∧ (c :: cs).dropWhile (isDigit base) = [] :=
    fun h => ⟨List.takeWhile_eq_self_iff.mpr h, List.dropWhile_eq_nil_iff.mpr h⟩
  unfold magnitude
  cases h with
  | @decimal c cs hfirst hdigits =>
    have hradix : radix (c :: cs) = (10, c :: cs) := by
      rcases radix_cases (c :: cs) with ⟨_, _, _, heq, -⟩ | ⟨_, heq, -⟩ | ⟨-, hradix⟩
      · exact absurd (List.cons_eq_cons.mp heq).1 hfirst
      · exact absurd (List.cons_eq_cons.mp heq).1 hfirst
      · exact hradix
    rw [hradix]
    dsimp only
    rw [(hall hdigits).1, (hall hdigits).2, if_neg (List.cons_ne_nil _ _)]
  | @octal cs hdigits =>
    have hradix : radix ('0' :: cs) = (8, '0' :: cs) := by
      rcases radix_cases ('0' :: cs) with ⟨x, c, cs', heq, hx, -⟩ | ⟨_, -, hradix⟩ | ⟨hne, -⟩
      · -- the mark of base 16 is not a digit
        cases heq
        have hmark := hdigits x List.mem_cons_self
        rcases hx with rfl | rfl <;> exact absurd hmark (by decide)
      · exact hradix
      · exact absurd rfl (hne cs)
    have hdigits' : ∀ d ∈ '0' :: cs, isDigit 8 d = true := by
      intro d hd
      rcases List.mem_cons.mp hd with rfl | hd
      · decide
      · exact hdigits d hd
    rw [hradix]
    dsimp only
    rw [(hall hdigits').1, (hall hdigits').2, if_neg (List.cons_ne_nil _ _)]
  | @hex x c cs hmark hdigits =>
    have hradix : radix ('0' :: x :: c :: cs) = (16, c :: cs) :=
      if_pos ⟨hmark, hdigits c List.mem_cons_self⟩
    rw [hradix]
    dsimp only
    rw [(hall hdigits).1, (hall hdigits).2, if_neg (List.cons_ne_nil _ _)]

theorem Unsigned.first (h : Unsigned s k) : ∃ c cs, s = c :: cs ∧ isDigit 16 c = true := by
  cases h with
  | decimal _ hdigits =>
    exact ⟨_, _, rfl, isDigit_mono (by decide) (hdigits _ List.mem_cons_self)⟩
  | octal => exact ⟨_, _, rfl, by decide⟩
  | hex => exact ⟨_, _, rfl, by decide⟩

theorem signed_unsigned (h : Unsigned s k) :
    signed s = (magnitude s).map fun r => ((r.1 : Int), r.2) := by
  obtain ⟨c, cs, rfl, hc⟩ := h.first
  unfold signed
  split
  · next heq => exact absurd (List.cons_eq_cons.mp heq).1 (isDigit_ne hc (by decide))
  · next heq => exact absurd (List.cons_eq_cons.mp heq).1 (isDigit_ne hc (by decide))
  · rfl

theorem strtol_blanks {blanks : List Char} (hblanks : ∀ c ∈ blanks, isSpace c = true)
    (hc : isSpace c = false) : strtol (blanks ++ c :: cs) = signed (c :: cs) := by
  have hc' : ¬ isSpace c = true := by rw [hc]; nofun
  unfold strtol
  rw [List.dropWhile_append_of_pos hblanks, List.dropWhile_cons_of_neg hc']

theorem strtol_numeral (h : Numeral s n) : strtol s = some (n, []) := by
  cases h with
  | plain hblanks hunsigned =>
    have hsigned := signed_unsigned hunsigned
    rw [magnitude_unsigned hunsigned] at hsigned
    obtain ⟨c, cs, rfl, hc⟩ := hunsigned.first
    rw [strtol_blanks hblanks (isSpace_eq_false hc), hsigned]
    rfl
  | plus hblanks hunsigned =>
    rw [strtol_blanks hblanks (by decide), signed, magnitude_unsigned hunsigned]
    rfl
  | minus hblanks hunsigned =>
    rw [strtol_blanks hblanks (by decide), signed, magnitude_unsigned hunsigned]
    rfl

theorem strtol_eq_some (h : strtol s = some (n, rest)) :
    ∃ pre, Numeral pre n ∧ s = pre ++ rest := by
  have hsplit := (List.takeWhile_append_dropWhile (p := isSpace) (l := s)).symm
  have hblanks : ∀ c ∈ s.takeWhile isSpace, isSpace c = true := fun c => List.mem_takeWhile_imp
  unfold strtol signed at h
  split at h
  · next cs hcs =>
    obtain ⟨⟨k, _⟩, hmagnitude, heq⟩ := Option.map_eq_some_iff.mp h
    cases heq
    obtain ⟨pre, hpre, rfl⟩ := magnitude_eq_some hmagnitude
    refine ⟨s.takeWhile isSpace ++ '-' :: pre, .minus hblanks hpre, ?_⟩
    rw [List.append_assoc, List.cons_append, ← hcs]
    exact hsplit
  · next cs hcs =>
    obtain ⟨⟨k, _⟩, hmagnitude, heq⟩ := Option.map_eq_some_iff.mp h
    cases heq
    obtain ⟨pre, hpre, rfl⟩ := magnitude_eq_some hmagnitude
    refine ⟨s.takeWhile isSpace ++ '+' :: pre, .plus hblanks hpre, ?_⟩
    rw [List.append_assoc, List.cons_append, ← hcs]
    exact hsplit
  · obtain ⟨⟨k, _⟩, hmagnitude, heq⟩ := Option.map_eq_some_iff.mp h
    cases heq
    obtain ⟨pre, hpre, hcs⟩ := magnitude_eq_some hmagnitude
    refine ⟨s.takeWhile isSpace ++ pre, .plain hblanks hpre, ?_⟩
    rw [List.append_assoc, ← hcs]
    exact hsplit

theorem strtol_whole_iff : strtol s = some (n, []) ↔ Numeral s n := by
  constructor
  · intro h
    obtain ⟨pre, hpre, rfl⟩ := strtol_eq_some h
    rwa [List.append_nil]
  · exact strtol_numeral

instance (s : List Char) (n : Int) : Decidable (Numeral s n) := decidable_of_iff _ strtol_whole_iff

def isNumeralChar (c : Char) : Bool :=
  isSpace c || c == '+' || c == '-' || c == 'x' || c == 'X' || isDigit 16 c

theorem isNumeralChar_of_isDigit (h : isDigit 16 c = true) : isNumeralChar c = true := by
  rw [isNumeralChar, h, Bool.or_true]

theorem isNumeralChar_of_isSpace (h : isSpace c = true) : isNumeralChar c = true := by
  simp only [isNumeralChar, h, Bool.true_or]

theorem Unsigned.chars (h : Unsigned s k) (hc : c ∈ s) : isNumeralChar c = true := by
  cases h with
  | decimal _ hdigits =>
    exact isNumeralChar_of_isDigit (isDigit_mono (by decide) (hdigits c hc))
  | octal hdigits =>
    rcases List.mem_cons.mp hc with rfl | hc
    · decide
    · exact isNumeralChar_of_isDigit (isDigit_mono (by decide) (hdigits c hc))
  | hex hmark hdigits =>
    rcases List.mem_cons.mp hc with rfl | hc
    · decide
    · rcases List.mem_cons.mp hc with rfl | hc
      · rcases hmark with rfl | rfl <;> decide
      · exact isNumeralChar_of_isDigit (hdigits c hc)

theorem Numeral.chars (h : Numeral s n) (hc : c ∈ s) : isNumeralChar c = true := by
  cases h with
  | plain hblanks hunsigned =>
    rcases List.mem_append.mp hc with hc | hc
    · exact isNumeralChar_of_isSpace (hblanks c hc)
    · exact hunsigned.chars hc
  | plus hblanks hunsigned =>
    rcases List.mem_append.mp hc with hc | hc
    · exact isNumeralChar_of_isSpace (hblanks c hc)
    · rcases List.mem_cons.mp hc with rfl | hc
      · decide
      · exact hunsigned.chars hc
  | minus hblanks hunsigned =>
    rcases List.mem_append.mp hc with hc | hc
    · exact isNumeralChar_of_isSpace (hblanks c hc)
    · rcases List.mem_cons.mp hc with rfl | hc
      · decide
      · exact hunsigned.chars hc

theorem Numeral.nonneg (h : Numeral s n) (hminus : '-' ∉ s) : 0 ≤ n := by
  cases h with
  | plain => exact Int.natCast_nonneg _
  | plus => exact Int.natCast_nonneg _
  | minus => exact absurd (List.mem_append_right _ List.mem_cons_self) hminus

end Sockperf.Strtol
