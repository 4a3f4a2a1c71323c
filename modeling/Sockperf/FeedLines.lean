import Mathlib.Data.List.Basic
import Mathlib.Tactic.Ring
import Sockperf.Lib.Regex
import Sockperf.Lib.Strtol

/-!
# The lines of the feed file

`set_sockets_from_feedfile` matches a line as `fgets` gives it, with its end, against the pattern of
an address and a port, and if that fails against the one of a path. A line of the documented form
has one decomposition once it is known whether it begins with a type, and a type is tried first.
-/

namespace Sockperf

open Regex Strtol
set_option autoImplicit false

/-! ## The patterns -/

/-- `[UuTt]` -/
def typeChar (c : Char) : Bool := c == 'U' || c == 'u' || c == 'T' || c == 't'

/-- `[a-zA-Z0-9\.\-]` -/
def hostChar (c : Char) : Bool :=
  between 'a' 'z' c || between 'A' 'Z' c || between '0' '9' c || c == '.' || c == '-'

/-- `[a-fA-F0-9.:]` -/
def v6Char (c : Char) : Bool :=
  between 'a' 'f' c || between 'A' 'F' c || between '0' '9' c || c == '.' || c == ':'

/-- `[0-9a-zA-z]` -/
def scopeChar (c : Char) : Bool := between '0' '9' c || between 'a' 'z' c || between 'A' 'z' c

/-- `[\r\n]` -/
def eolChar (c : Char) : Bool := c == '\r' || c == '\n'

/-- `([UuTt]:)` -/
def typeRe : Regex := group 1 (seq (class' typeChar) (char ':'))

/-- `([a-zA-Z0-9\.\-]+|\[([a-fA-F0-9.:]+(%[0-9a-zA-z])?)\])` -/
def addrRe : Regex :=
  group 2 (alt (plus hostChar)
    (seq (char '[')
      (seq
        (group 3 (seq (plus v6Char) (opt (group 4 (seq (char '%') (class' scopeChar))))))
        (char ']'))))

/-- `6553[0-5]|655[0-2][0-9]|65[0-4][0-9]{2}|6[0-4][0-9]{3}|[0-5]?[0-9]{1,4}` -/
def portRe : Regex :=
  alt (seq (char '6') (seq (char '5') (seq (char '5') (seq (char '3') (class' (between '0' '5'))))))
  (alt (seq (char '6') (seq (char '5') (seq (char '5')
    (seq (class' (between '0' '2')) (class' (between '0' '9'))))))
  (alt (seq (char '6') (seq (char '5')
    (seq (class' (between '0' '4')) (run (between '0' '9') 2 (some 2)))))
  (alt (seq (char '6') (seq (class' (between '0' '4')) (run (between '0' '9') 3 (some 3))))
    (seq (opt (class' (between '0' '5'))) (run (between '0' '9') 1 (some 4))))))

/-- `(:([a-zA-Z0-9\.\-]+|\[([a-fA-F0-9.:]+)\]))` -/
def sourceRe : Regex :=
  group 6 (seq (char ':')
    (group 7 (alt (plus hostChar) (seq (char '[') (seq (group 8 (plus v6Char)) (char ']'))))))

/-- `IP_PORT_FORMAT_REG_EXP` behind the type -/
def bodyRe : Regex :=
  seq addrRe (seq (char ':') (seq (group 5 portRe) (seq (opt sourceRe) (class' eolChar))))

/-- `IP_PORT_FORMAT_REG_EXP` -/
def regexprIp : Regex := seq (opt typeRe) bodyRe

/-- `UNIX_DOMAIN_SOCKET_FORMAT_REG_EXP`: `^[UuTt]:(/.+)[\r\n]` -/
def regexprUnix : Regex :=
  seq (class' typeChar) (seq (char ':')
    (seq (group 1 (seq (char '/') (plus fun c => !eolChar c))) (class' eolChar)))

/-- What is taken from a line. Of the type the code looks at the first character only. -/
structure FeedFields where
  type : Option Char
  addr : List Char
  port : List Char
  mcSrcIp : List Char
  deriving DecidableEq, Repr

/-- `m[i]`, which is empty for a group that was not matched. -/
def subMatch (m : Groups) (i : Nat) : List Char := (m.lookup i).getD []

def ipFields (m : Groups) : FeedFields where
  type := (subMatch m 1).head?
  addr := if subMatch m 3 = [] then subMatch m 2 else subMatch m 3
  port := subMatch m 5
  mcSrcIp := if subMatch m 8 = [] then subMatch m 7 else subMatch m 8

inductive FeedRead where
  /-- empty lines and comments -/
  | skipped
  | fields (f : FeedFields)
  /-- "Invalid input in line %s: each line must have the following format: .." -/
  | invalid
  deriving DecidableEq, Repr

def maxMcfileLineLength : Nat := 1024

/-- At most `k` characters, with the end of the line, and what is left. -/
def takeLine : Nat → List Char → List Char × List Char
  | 0, file => ([], file)
  | _ + 1, [] => ([], [])
  | k + 1, c :: file =>
    if c = '\n' then ([c], file) else (c :: (takeLine k file).1, (takeLine k file).2)

/-- `fgets` into a buffer of this size, which keeps one character for the terminator. -/
def fgets (size : Nat) (file : List Char) : Option (List Char × List Char) :=
  if file = [] then none else some (takeLine (size - 1) file)

/-- A line of the loop of `set_sockets_from_feedfile`, up to the fields. -/
def readFeedLine (line : List Char) : FeedRead :=
  if line.head? ∈ [some ' ', some '\r', some '\n', some '#'] then .skipped
  else
    match regexprIp.fullMatch line with
    | some m => .fields (ipFields m)
    | none =>
      match regexprUnix.fullMatch line with
      | some m => .fields ⟨line.head?, subMatch m 1, [], []⟩
      | none => .invalid

/-! ## Ports -/

section Ports
variable {c d : Char} {t : List Char} {gs : Groups}

theorem between_iff {h : Char} (hh : between '0' '9' h = true) :
    between '0' h c = true ↔ digit c ≤ digit h := by
  obtain ⟨h0, h9⟩ := between_eq_true.mp hh
  have e0 : ('0' : Char).toNat = 48 := rfl
  have e9 : ('9' : Char).toNat = 57 := rfl
  have ea : ('a' : Char).toNat = 97 := rfl
  have eA : ('A' : Char).toNat = 65 := rfl
  have hdigit : digit h = h.toNat - 48 := if_pos hh
  rw [hdigit]
  unfold digit
  simp only [between_eq_true]
  split_ifs <;> omega

theorem between_widen {h : Char} (hh : between '0' '9' h = true) (hc : between '0' h c = true) :
    between '0' '9' c = true := by
  obtain ⟨h0, hle⟩ := between_eq_true.mp hc
  exact between_eq_true.mpr ⟨h0, hle.trans (between_eq_true.mp hh).2⟩

theorem eq_of_digit_eq (hc : between '0' '9' c = true) (hd : between '0' '9' d = true)
    (h : digit c = digit d) : c = d := by
  have e0 : ('0' : Char).toNat = 48 := rfl
  unfold digit at h
  rw [if_pos hc, if_pos hd] at h
  rw [between_eq_true] at hc hd
  apply Char.toNat_inj.mp
  omega

structure PortText (t : List Char) : Prop where
  nonempty : t ≠ []
  digits : ∀ c ∈ t, between '0' '9' c = true
  length : t.length ≤ 5
  le : number 10 t ≤ 65535

theorem number_cons (c : Char) (t : List Char) :
    number 10 (c :: t) = digit c * 10 ^ t.length + number 10 t := by
  unfold number
  rw [List.map_cons, List.reverse_cons, Nat.ofDigits_append, List.length_reverse, List.length_map,
    Nat.ofDigits_singleton]
  ring

theorem number_nil : number 10 [] = 0 := rfl

theorem parses_run_digits {k : Nat} {lo : Nat} :
    Parses (run (between '0' '9') lo (some k)) t gs ↔
      (∀ c ∈ t, between '0' '9' c = true) ∧ lo ≤ t.length ∧ t.length ≤ k ∧ gs = [] := by
  unfold Parses
  refine and_congr_right fun _ => and_congr_right fun _ => and_congr_left fun _ => ?_
  exact ⟨fun h => h k rfl, fun h j hj => by cases hj; exact h⟩

theorem number_lt (h : ∀ c ∈ t, between '0' '9' c = true) : number 10 t < 10 ^ t.length := by
  induction t with
  | nil => decide
  | cons c t ih =>
    have hc : digit c ≤ 9 := (between_iff rfl).mp (h c List.mem_cons_self)
    have ht := ih fun d hd => h d (List.mem_cons_of_mem c hd)
    have hmul : digit c * 10 ^ t.length ≤ 9 * 10 ^ t.length := Nat.mul_le_mul_right _ hc
    rw [number_cons, List.length_cons, Nat.pow_succ]
    omega

theorem number_five (a b c d e : Char) : number 10 [a, b, c, d, e] =
    10000 * digit a + 1000 * digit b + 100 * digit c + 10 * digit d + digit e := by
  simp only [number_cons, number_nil, List.length_cons, List.length_nil]
  ring

theorem portText_five {a b c d e : Char} (hall : ∀ x ∈ [a, b, c, d, e], between '0' '9' x = true)
    (hle : 10000 * digit a + 1000 * digit b + 100 * digit c + 10 * digit d + digit e ≤ 65535) :
    PortText [a, b, c, d, e] :=
  ⟨List.cons_ne_nil _ _, hall, le_refl 5, by rwa [number_five]⟩

theorem eq_five_of_length (h : t.length = 5) : ∃ a b c d e, t = [a, b, c, d, e] := by
  match t, h with
  | [a, b, c, d, e], _ => exact ⟨a, b, c, d, e, rfl⟩

theorem forall_mem_five {p : Char → Bool} {a b c d e : Char} (ha : p a = true) (hb : p b = true)
    (hc : p c = true) (hd : p d = true) (he : p e = true) :
    ∀ x ∈ [a, b, c, d, e], p x = true := by
  simp only [List.forall_mem_cons, ha, hb, hc, hd, he, List.not_mem_nil, false_implies,
    implies_true, and_self]

theorem digits_literals : digit '0' = 0 ∧ digit '2' = 2 ∧ digit '3' = 3 ∧ digit '4' = 4 ∧
    digit '5' = 5 ∧ digit '6' = 6 ∧ digit '9' = 9 := by
  decide

theorem portText_of_parses (h : Parses portRe t gs) : PortText t ∧ gs = [] := by
  obtain ⟨-, e2, e3, e4, e5, e6, e9⟩ := digits_literals
  rcases h with h | h | h | h | h
  · simp only [parses_char_seq] at h
    obtain ⟨_, rfl, _, rfl, _, rfl, _, rfl, h⟩ := h
    obtain ⟨e, he, rfl, rfl⟩ := parses_class.mp h
    have he' := (between_iff rfl).mp he
    refine ⟨portText_five (forall_mem_five rfl rfl rfl rfl (between_widen rfl he)) ?_, rfl⟩
    omega
  · simp only [parses_char_seq, parses_class_seq] at h
    obtain ⟨_, rfl, _, rfl, _, rfl, d, _, hd, rfl, h⟩ := h
    obtain ⟨e, he, rfl, rfl⟩ := parses_class.mp h
    have hd' := (between_iff rfl).mp hd
    have he' := (between_iff rfl).mp he
    refine ⟨portText_five (forall_mem_five rfl rfl rfl (between_widen rfl hd) he) ?_, rfl⟩
    omega
  · simp only [parses_char_seq, parses_class_seq, parses_run_digits] at h
    obtain ⟨_, rfl, _, rfl, c, _, hc, rfl, hall, hlo, hhi, rfl⟩ := h
    obtain ⟨d, e, rfl⟩ := List.length_eq_two.mp (Nat.le_antisymm hhi hlo)
    simp only [List.forall_mem_cons] at hall
    have hc' := (between_iff rfl).mp hc
    have hd' := (between_iff rfl).mp hall.1
    have he' := (between_iff rfl).mp hall.2.1
    have hc9 := between_widen rfl hc
    refine ⟨portText_five (forall_mem_five rfl rfl hc9 hall.1 hall.2.1) ?_, rfl⟩
    omega
  · simp only [parses_char_seq, parses_class_seq, parses_run_digits] at h
    obtain ⟨_, rfl, b, _, hb, rfl, hall, hlo, hhi, rfl⟩ := h
    obtain ⟨c, d, e, rfl⟩ := List.length_eq_three.mp (Nat.le_antisymm hhi hlo)
    simp only [List.forall_mem_cons] at hall
    have hb' := (between_iff rfl).mp hb
    have hc' := (between_iff rfl).mp hall.1
    have hd' := (between_iff rfl).mp hall.2.1
    have he' := (between_iff rfl).mp hall.2.2.1
    have hb9 := between_widen rfl hb
    refine ⟨portText_five (forall_mem_five rfl hb9 hall.1 hall.2.1 hall.2.2.1) ?_, rfl⟩
    omega
  · obtain ⟨t₁, gs₁, t₂, gs₂, hfirst, hrest, rfl, rfl⟩ := h
    obtain ⟨hall, hlo, hhi, rfl⟩ := parses_run_digits.mp hrest
    have hlt := number_lt hall
    have hpow : 10 ^ t₂.length ≤ 10 ^ 4 := Nat.pow_le_pow_right (by decide) hhi
    rcases hfirst with hfirst | ⟨rfl, rfl⟩
    · obtain ⟨a, ha, rfl, rfl⟩ := parses_class.mp hfirst
      have ha' := (between_iff rfl).mp ha
      have hmul : digit a * 10 ^ t₂.length ≤ 5 * 10 ^ 4 := Nat.mul_le_mul (by omega) hpow
      refine ⟨⟨List.cons_ne_nil _ _, ?_, ?_, ?_⟩, rfl⟩
      · intro c hc
        rcases List.mem_cons.mp hc with rfl | hc
        · exact between_widen rfl ha
        · exact hall c hc
      · rw [List.singleton_append, List.length_cons]
        omega
      · rw [List.singleton_append, number_cons]
        omega
    · refine ⟨⟨?_, hall, by rw [List.nil_append]; omega, by rw [List.nil_append]; omega⟩, rfl⟩
      rintro rfl
      exact absurd hlo (by decide)

theorem parses_of_portText (h : PortText t) : Parses portRe t [] := by
  obtain ⟨-, e2, e3, e4, e5, e6, e9⟩ := digits_literals
  obtain ⟨hne, hall, hlength, hle⟩ := h
  have hpos : 1 ≤ t.length := List.length_pos_iff.mpr hne
  by_cases hfour : t.length ≤ 4
  · right; right; right; right
    have hrun := parses_run_digits.mpr ⟨hall, hpos, hfour, rfl⟩
    exact ⟨[], [], t, [], Or.inr ⟨rfl, rfl⟩, hrun, rfl, rfl⟩
  obtain ⟨a, b, c, d, e, rfl⟩ := eq_five_of_length (show t.length = 5 by omega)
  rw [number_five] at hle
  simp only [List.forall_mem_cons] at hall
  obtain ⟨ha, hb, hc, hd, he, -⟩ := hall
  -- by the first digit that is below the one of 65535
  by_cases ha5 : digit a ≤ 5
  · right; right; right; right
    refine ⟨[a], [], [b, c, d, e], [], Or.inl ?_, parses_run_digits.mpr ?_, rfl, rfl⟩
    · exact parses_class.mpr ⟨a, (between_iff rfl).mpr (by omega), rfl, rfl⟩
    · refine ⟨?_, Nat.le_add_left 1 3, le_refl 4, rfl⟩
      simp only [List.forall_mem_cons, hb, hc, hd, he, List.not_mem_nil, false_implies,
        implies_true, and_self]
  obtain rfl : a = '6' := eq_of_digit_eq ha rfl (by omega)
  by_cases hb4 : digit b ≤ 4
  · right; right; right; left
    refine parses_char_seq.mpr ⟨_, rfl, parses_class_seq.mpr ⟨b, _, ?_, rfl, ?_⟩⟩
    · exact (between_iff rfl).mpr (by omega)
    refine parses_run_digits.mpr ⟨?_, le_refl 3, le_refl 3, rfl⟩
    simp only [List.forall_mem_cons, hc, hd, he, List.not_mem_nil, false_implies,
      implies_true, and_self]
  obtain rfl : b = '5' := eq_of_digit_eq hb rfl (by omega)
  by_cases hc4 : digit c ≤ 4
  · right; right; left
    refine parses_char_seq.mpr ⟨_, rfl, parses_char_seq.mpr ⟨_, rfl, ?_⟩⟩
    refine parses_class_seq.mpr ⟨c, _, (between_iff rfl).mpr (by omega), rfl, ?_⟩
    refine parses_run_digits.mpr ⟨?_, le_refl 2, le_refl 2, rfl⟩
    simp only [List.forall_mem_cons, hd, he, List.not_mem_nil, false_implies,
      implies_true, and_self]
  obtain rfl : c = '5' := eq_of_digit_eq hc rfl (by omega)
  by_cases hd2 : digit d ≤ 2
  · right; left
    simp only [parses_char_seq, parses_class_seq]
    refine ⟨_, rfl, _, rfl, _, rfl, d, _, (between_iff rfl).mpr (by omega), rfl, ?_⟩
    exact parses_class.mpr ⟨e, he, rfl, rfl⟩
  · obtain rfl : d = '3' := eq_of_digit_eq hd rfl (by omega)
    left
    simp only [parses_char_seq]
    refine ⟨_, rfl, _, rfl, _, rfl, _, rfl, ?_⟩
    exact parses_class.mpr ⟨e, (between_iff rfl).mpr (by omega), rfl, rfl⟩

theorem portRe_parses : Parses portRe t gs ↔ PortText t ∧ gs = [] := by
  constructor
  · exact portText_of_parses
  · rintro ⟨h, rfl⟩
    exact parses_of_portText h

theorem le_number_of_length (hall : ∀ c ∈ t, between '0' '9' c = true)
    (hzero : ∀ rest, t = '0' :: rest → rest = []) (hlength : 6 ≤ t.length) :
    100000 ≤ number 10 t := by
  cases t with
  | nil => exact absurd hlength (by decide)
  | cons c rest =>
    have hrest : 5 ≤ rest.length := Nat.le_of_succ_le_succ hlength
    have hne : digit c ≠ 0 := by
      intro h0
      obtain rfl : c = '0' := eq_of_digit_eq (hall c List.mem_cons_self) rfl h0
      rw [hzero rest rfl] at hrest
      exact absurd hrest (by decide)
    have hpow : 10 ^ 5 ≤ 10 ^ rest.length := Nat.pow_le_pow_right (by decide) hrest
    have hmul : 1 * 10 ^ rest.length ≤ digit c * 10 ^ rest.length :=
      Nat.mul_le_mul_right _ (Nat.one_le_iff_ne_zero.mpr hne)
    rw [number_cons]
    omega

theorem portText_iff (hne : t ≠ []) (hall : ∀ c ∈ t, between '0' '9' c = true)
    (hzero : ∀ rest, t = '0' :: rest → rest = []) : PortText t ↔ number 10 t ≤ 65535 := by
  constructor
  · exact PortText.le
  · intro hle
    refine ⟨hne, hall, ?_, hle⟩
    by_contra hlength
    have := le_number_of_length hall hzero (by omega)
    omega

end Ports

/-! ## Addresses -/

/-- An address as it is written. The scope is empty if there is none. -/
inductive AddrText where
  | host (name : List Char)
  | v6 (addr scope : List Char)
  deriving DecidableEq, Repr

def alnum (c : Char) : Bool := between 'a' 'z' c || between 'A' 'Z' c || between '0' '9' c

namespace AddrText

def scopeText : List Char → List Char
  | [] => []
  | c :: scope => '%' :: c :: scope

def inner : AddrText → List Char
  | host name => name
  | v6 addr scope => addr ++ scopeText scope

def text : AddrText → List Char
  | host name => name
  | v6 addr scope => '[' :: (addr ++ scopeText scope ++ [']'])

inductive Documented : AddrText → Prop
  | host {name : List Char} (nonempty : name ≠ []) (chars : ∀ c ∈ name, hostChar c = true) :
      Documented (host name)
  | v6 {addr scope : List Char} (nonempty : addr ≠ []) (chars : ∀ c ∈ addr, v6Char c = true)
      (scopeChars : ∀ c ∈ scope, alnum c = true) : Documented (v6 addr scope)

inductive Accepted : AddrText → Prop
  | host {name : List Char} (nonempty : name ≠ []) (chars : ∀ c ∈ name, hostChar c = true) :
      Accepted (host name)
  | v6 {addr : List Char} (nonempty : addr ≠ []) (chars : ∀ c ∈ addr, v6Char c = true) :
      Accepted (v6 addr [])
  | withScope {addr : List Char} {c : Char} (nonempty : addr ≠ [])
      (chars : ∀ c ∈ addr, v6Char c = true) (scopeChar : scopeChar c = true) :
      Accepted (v6 addr [c])

def scope : AddrText → List Char
  | host _ => []
  | v6 _ scope => scope

def hasScope : AddrText → Bool
  | v6 _ (_ :: _) => true
  | _ => false

def scopeGroups : List Char → Groups
  | [] => []
  | c :: scope => [(4, '%' :: c :: scope)]

def addrGroups : AddrText → Groups
  | host name => [(2, name)]
  | v6 addr scope =>
    (2, (v6 addr scope).text) :: (3, (v6 addr scope).inner) :: scopeGroups scope

def sourceGroups : AddrText → Groups
  | host name => [(6, ':' :: name), (7, name)]
  | v6 addr scope => [(6, ':' :: (v6 addr scope).text), (7, (v6 addr scope).text), (8, addr)]

variable {a a' : AddrText} {t u v : List Char} {gs : Groups}

theorem addrRe_parses :
    Parses addrRe t gs ↔ ∃ a : AddrText, a.Accepted ∧ t = a.text ∧ gs = a.addrGroups := by
  constructor
  · rintro ⟨gs₁, hhost | hv6, rfl⟩
    · obtain ⟨hne, hchars, rfl⟩ := parses_plus.mp hhost
      exact ⟨host t, .host hne hchars, rfl, rfl⟩
    · obtain ⟨_, rfl, _, _, _, _, ⟨_, ⟨addr, _, _, _, haddr, hopt, rfl, rfl⟩, rfl⟩, hclose, rfl,
        rfl⟩ := parses_char_seq.mp hv6
      obtain ⟨rfl, rfl⟩ := parses_char.mp hclose
      obtain ⟨hne, hchars, rfl⟩ := parses_plus.mp haddr
      rcases hopt with ⟨_, hscope, rfl⟩ | ⟨rfl, rfl⟩
      · obtain ⟨_, rfl, hclass⟩ := parses_char_seq.mp hscope
        obtain ⟨c, hc, rfl, rfl⟩ := parses_class.mp hclass
        exact ⟨v6 addr [c], .withScope hne hchars hc, rfl, rfl⟩
      · exact ⟨v6 addr [], .v6 hne hchars, rfl, rfl⟩
  · rintro ⟨a, ha, rfl, rfl⟩
    have hclose : Parses (char ']') [']'] [] := parses_char.mpr ⟨rfl, rfl⟩
    cases ha with
    | host hne hchars => exact ⟨[], Or.inl (parses_plus.mpr ⟨hne, hchars, rfl⟩), rfl⟩
    | @v6 addr hne hchars =>
      have haddr : Parses (plus v6Char) addr [] := parses_plus.mpr ⟨hne, hchars, rfl⟩
      refine ⟨_, Or.inr (parses_char_seq.mpr ⟨_, rfl, _, _, _, _, ⟨[], ?_, rfl⟩, hclose, rfl, rfl⟩),
        rfl⟩
      exact ⟨addr, [], [], [], haddr, Or.inr ⟨rfl, rfl⟩, rfl, rfl⟩
    | @withScope addr c hne hchars hc =>
      have haddr : Parses (plus v6Char) addr [] := parses_plus.mpr ⟨hne, hchars, rfl⟩
      have hscope : Parses (seq (char '%') (class' scopeChar)) ['%', c] [] :=
        parses_char_seq.mpr ⟨_, rfl, parses_class.mpr ⟨c, hc, rfl, rfl⟩⟩
      refine ⟨_, Or.inr (parses_char_seq.mpr ⟨_, rfl, _, _, _, _, ⟨[(4, ['%', c])], ?_, rfl⟩,
        hclose, rfl, rfl⟩), rfl⟩
      exact ⟨addr, [], ['%', c], [(4, ['%', c])], haddr, Or.inl ⟨[], hscope, rfl⟩, rfl, rfl⟩

theorem sourceRe_parses : Parses sourceRe t gs ↔
    ∃ a : AddrText, a.Accepted ∧ a.hasScope = false ∧ t = ':' :: a.text ∧ gs = a.sourceGroups := by
  constructor
  · rintro ⟨_, h, rfl⟩
    obtain ⟨addr, rfl, _, hhost | hv6, rfl⟩ := parses_char_seq.mp h
    · obtain ⟨hne, hchars, rfl⟩ := parses_plus.mp hhost
      exact ⟨host addr, .host hne hchars, rfl, rfl, rfl⟩
    · obtain ⟨_, rfl, inner, _, _, _, ⟨_, hinner, rfl⟩, hclose, rfl, rfl⟩ := parses_char_seq.mp hv6
      obtain ⟨rfl, rfl⟩ := parses_char.mp hclose
      obtain ⟨hne, hchars, rfl⟩ := parses_plus.mp hinner
      have htext : (v6 inner []).text = '[' :: (inner ++ [']']) := by
        rw [text, scopeText, List.append_nil]
      refine ⟨v6 inner [], .v6 hne hchars, rfl, by rw [htext], ?_⟩
      rw [sourceGroups, htext]
      rfl
  · rintro ⟨a, ha, hscope, rfl, rfl⟩
    cases ha with
    | @host name hne hchars =>
      have hname : Parses (plus hostChar) name [] := parses_plus.mpr ⟨hne, hchars, rfl⟩
      exact ⟨_, parses_char_seq.mpr ⟨_, rfl, _, Or.inl hname, rfl⟩, rfl⟩
    | @v6 addr hne hchars =>
      have haddr : Parses (plus v6Char) addr [] := parses_plus.mpr ⟨hne, hchars, rfl⟩
      have hclose : Parses (char ']') [']'] [] := parses_char.mpr ⟨rfl, rfl⟩
      have htext : (v6 addr []).text = '[' :: (addr ++ [']']) := by
        rw [text, scopeText, List.append_nil]
      rw [sourceGroups, htext]
      refine ⟨_, parses_char_seq.mpr ⟨_, rfl, _, Or.inr (parses_char_seq.mpr ⟨_, rfl, ?_⟩), rfl⟩,
        rfl⟩
      exact ⟨addr, [(8, addr)], [']'], [], ⟨[], haddr, rfl⟩, hclose, rfl, rfl⟩
    | withScope => cases hscope

theorem scopeChar_of_alnum {c : Char} (h : alnum c = true) : scopeChar c = true := by
  have hZz : ('Z' : Char).toNat ≤ ('z' : Char).toNat := by decide
  simp only [alnum, scopeChar, Bool.or_eq_true, between_eq_true] at h ⊢
  rcases h with (h | ⟨h, hZ⟩) | h
  · exact Or.inl (Or.inr h)
  · exact Or.inr ⟨h, hZ.trans hZz⟩
  · exact Or.inl (Or.inl h)

theorem Documented.accepted_iff (h : a.Documented) : a.Accepted ↔ a.scope.length ≤ 1 := by
  constructor
  · intro ha
    cases ha with
    | host => exact Nat.zero_le 1
    | v6 => exact Nat.zero_le 1
    | withScope => exact le_refl 1
  · intro hlength
    cases h with
    | host hne hchars => exact .host hne hchars
    | @v6 addr scope hne hchars hscope =>
      match scope, hlength with
      | [], _ => exact .v6 hne hchars
      | [c], _ => exact .withScope hne hchars (scopeChar_of_alnum (hscope c List.mem_cons_self))

theorem scope_eq_nil (h : a.hasScope = false) : a.scope = [] := by
  match a, h with
  | host _, _ => rfl
  | v6 _ [], _ => rfl

/-! ### Where an address ends -/

theorem head_of_chars {p : Char → Bool} {x : List Char} {c : Char} (hne : x ≠ [])
    (hchars : ∀ c ∈ x, p c = true) (h : x ++ u = c :: v) : p c = true := by
  cases x with
  | nil => exact absurd rfl hne
  | cons d x =>
    obtain ⟨rfl, -⟩ := List.cons_eq_cons.mp h
    exact hchars d List.mem_cons_self

theorem head_scopeText (scope : List Char) {c : Char}
    (hc : c ∈ (scopeText scope ++ ']' :: u).head?) :
    c = '%' ∧ scope ≠ [] ∨ c = ']' ∧ scope = [] := by
  cases scope with
  | nil =>
    cases hc
    exact Or.inr ⟨rfl, rfl⟩
  | cons d scope =>
    cases hc
    exact Or.inl ⟨rfl, List.cons_ne_nil d scope⟩

theorem v6_unique {addr addr' scope scope' : List Char} (hchars : ∀ c ∈ addr, v6Char c = true)
    (hchars' : ∀ c ∈ addr', v6Char c = true) (hscope : scope.length ≤ 1)
    (hscope' : ∀ c ∈ scope', alnum c = true)
    (h : (v6 addr scope).text ++ u = (v6 addr' scope').text ++ v) :
    v6 addr scope = v6 addr' scope' ∧ u = v := by
  have hend : ∀ (scope u : List Char), ∀ c ∈ (scopeText scope ++ ']' :: u).head?,
      v6Char c = false := by
    intro scope u c hc
    rcases head_scopeText scope hc with ⟨rfl, -⟩ | ⟨rfl, -⟩ <;> rfl
  have htext : ∀ addr scope u : List Char,
      (v6 addr scope).text ++ u = '[' :: (addr ++ (scopeText scope ++ ']' :: u)) := by
    intro addr scope u
    simp only [text, List.cons_append, List.append_assoc, List.nil_append]
  rw [htext, htext] at h
  obtain ⟨rfl, htail⟩ := run_unique hchars hchars' (hend scope u) (hend scope' v)
    (List.cons_eq_cons.mp h).2
  match scope, scope', hscope, hscope' with
  | [], [], _, _ => exact ⟨rfl, (List.cons_eq_cons.mp htail).2⟩
  | [], _ :: _, _, _ => exact absurd (List.cons_eq_cons.mp htail).1 (by decide)
  | _ :: _, [], _, _ => exact absurd (List.cons_eq_cons.mp htail).1 (by decide)
  | [c], [c'], _, _ =>
    cases htail
    exact ⟨rfl, rfl⟩
  | [c], c' :: d :: rest, _, hscope' =>
    -- the pattern has one character before the bracket
    cases htail
    have hbracket := hscope' ']' (List.mem_cons_of_mem _ List.mem_cons_self)
    exact absurd hbracket (by decide)
  | _ :: _ :: _, _, hscope, _ => simp at hscope

theorem Accepted.unique (ha : a.Accepted) (ha' : a'.Documented)
    (hu : ∀ c ∈ u.head?, hostChar c = false) (hv : ∀ c ∈ v.head?, hostChar c = false)
    (h : a.text ++ u = a'.text ++ v) : a = a' ∧ u = v := by
  cases ha' with
  | @host name' hne' hchars' =>
    cases ha with
    | @host name hne hchars =>
      obtain ⟨rfl, rfl⟩ := run_unique hchars hchars' hu hv h
      exact ⟨rfl, rfl⟩
    | v6 => exact absurd (head_of_chars hne' hchars' h.symm) (by decide)
    | withScope => exact absurd (head_of_chars hne' hchars' h.symm) (by decide)
  | @v6 addr' scope' hne' hchars' hscope' =>
    cases ha with
    | host hne hchars => exact absurd (head_of_chars hne hchars h) (by decide)
    | v6 _ hchars => exact v6_unique hchars hchars' (Nat.zero_le 1) hscope' h
    | withScope _ hchars => exact v6_unique hchars hchars' (le_refl 1) hscope' h

end AddrText

/-! ## Lines -/

def sourceText : Option AddrText → List Char
  | none => []
  | some a => ':' :: a.text

structure BodyText where
  addr : AddrText
  port : List Char
  source : Option AddrText
  eol : List Char

namespace BodyText

def text (b : BodyText) : List Char :=
  b.addr.text ++ ':' :: (b.port ++ (sourceText b.source ++ b.eol))

structure Accepted (b : BodyText) : Prop where
  addr : b.addr.Accepted
  port : PortText b.port
  source : ∀ a ∈ b.source, a.Accepted ∧ a.hasScope = false
  eol : ∃ c, eolChar c = true ∧ b.eol = [c]

/-- The bodies of the documentation. The number of the port has no leading zeros; whether it is
small enough is left open. The line ends with LF, CR LF or the end of the file. -/
structure Documented (b : BodyText) : Prop where
  addr : b.addr.Documented
  nonempty : b.port ≠ []
  digits : ∀ c ∈ b.port, between '0' '9' c = true
  zero : ∀ rest, b.port = '0' :: rest → rest = []
  source : ∀ a ∈ b.source, a.Documented ∧ a.hasScope = false
  eol : b.eol = ['\n'] ∨ b.eol = ['\r', '\n'] ∨ b.eol = []

def groups (b : BodyText) : Groups :=
  b.addr.addrGroups ++ (5, b.port) :: (b.source.map AddrText.sourceGroups).getD []

def fields (type : Option Char) (b : BodyText) : FeedFields :=
  ⟨type, b.addr.inner, b.port, (b.source.map AddrText.inner).getD []⟩

variable {b d : BodyText} {t : List Char} {gs : Groups} {c : Char}

theorem bodyRe_parses :
    Parses bodyRe t gs ↔ ∃ b : BodyText, b.Accepted ∧ t = b.text ∧ gs = b.groups := by
  constructor
  · rintro ⟨_, _, _, _, haddr, hrest, rfl, rfl⟩
    obtain ⟨_, rfl, port, _, _, _, ⟨_, hport, rfl⟩, hend, rfl, rfl⟩ := parses_char_seq.mp hrest
    obtain ⟨a, ha, rfl, rfl⟩ := AddrText.addrRe_parses.mp haddr
    obtain ⟨hport', rfl⟩ := portRe_parses.mp hport
    obtain ⟨_, _, _, _, hsource, heol, rfl, rfl⟩ := hend
    obtain ⟨c, hc, rfl, rfl⟩ := parses_class.mp heol
    rcases hsource with hsource | ⟨rfl, rfl⟩
    · obtain ⟨src, hsrc, hscope, rfl, rfl⟩ := AddrText.sourceRe_parses.mp hsource
      refine ⟨⟨a, port, some src, [c]⟩, ⟨ha, hport', ?_, c, hc, rfl⟩, rfl, ?_⟩
      · rintro _ ⟨⟩
        exact ⟨hsrc, hscope⟩
      · rw [List.append_nil]
        rfl
    · exact ⟨⟨a, port, none, [c]⟩, ⟨ha, hport', nofun, c, hc, rfl⟩, rfl, rfl⟩
  · rintro ⟨⟨a, port, source, eol⟩, ⟨ha, hport, hsource, c, hc, heol⟩, rfl, rfl⟩
    dsimp only at ha hport hsource heol
    subst heol
    have hend : Parses (class' eolChar) [c] [] := parses_class.mpr ⟨c, hc, rfl, rfl⟩
    have hopt : Parses (opt sourceRe) (sourceText source)
        ((source.map AddrText.sourceGroups).getD []) := by
      cases source with
      | none => exact Or.inr ⟨rfl, rfl⟩
      | some src =>
        obtain ⟨hsrc, hscope⟩ := hsource src rfl
        exact Or.inl (AddrText.sourceRe_parses.mpr ⟨src, hsrc, hscope, rfl, rfl⟩)
    refine ⟨_, _, _, _, AddrText.addrRe_parses.mpr ⟨a, ha, rfl, rfl⟩,
      parses_char_seq.mpr ⟨_, rfl, port, [(5, port)], _, _,
        ⟨[], parses_of_portText hport, rfl⟩, ⟨_, _, _, _, hopt, hend, rfl, rfl⟩, rfl, rfl⟩, rfl, ?_⟩
    rw [List.append_nil]
    rfl

/-! ### What follows an address or a port -/

theorem hostChar_of_digit (h : between '0' '9' c = true) : hostChar c = true := by
  simp only [hostChar, h, Bool.or_true, Bool.true_or]

theorem hostChar_of_typeChar (h : typeChar c = true) : hostChar c = true := by
  simp only [typeChar, Bool.or_eq_true, beq_iff_eq] at h
  rcases h with ((rfl | rfl) | rfl) | rfl <;> rfl

theorem not_hostChar_of_eolChar (h : eolChar c = true) : hostChar c = false := by
  simp only [eolChar, Bool.or_eq_true, beq_iff_eq] at h
  rcases h with rfl | rfl <;> rfl

theorem not_digit (h : hostChar c = false) : between '0' '9' c = false := by
  by_contra hdigit
  rw [hostChar_of_digit (Bool.not_eq_false _ ▸ hdigit)] at h
  cases h

theorem colon_tail {u : List Char} : ∀ c ∈ (':' :: u).head?, hostChar c = false := by
  rintro c ⟨⟩
  rfl

theorem tail_head {source : Option AddrText} {eol : List Char}
    (heol : ∀ c ∈ eol, eolChar c = true) :
    ∀ c ∈ (sourceText source ++ eol).head?, hostChar c = false := by
  intro c hc
  cases source with
  | some a =>
    cases hc
    rfl
  | none => exact not_hostChar_of_eolChar (heol c (List.mem_of_mem_head? hc))

theorem Accepted.eolChars (h : b.Accepted) : ∀ c ∈ b.eol, eolChar c = true := by
  obtain ⟨e, he, heq⟩ := h.eol
  intro c hc
  rw [heq] at hc
  rw [List.mem_singleton.mp hc]
  exact he

theorem Documented.eolChars (h : d.Documented) : ∀ c ∈ d.eol, eolChar c = true := by
  rcases h.eol with heq | heq | heq <;> rw [heq] <;> exact List.all_eq_true.mp rfl

theorem eol_head {eol : List Char} (heol : ∀ c ∈ eol, eolChar c = true) :
    ∀ c ∈ eol.head?, hostChar c = false :=
  fun c hc => not_hostChar_of_eolChar (heol c (List.mem_of_mem_head? hc))

theorem colon_ne_eol {eol u : List Char} (heol : ∀ c ∈ eol, eolChar c = true) : ':' :: u ≠ eol := by
  rintro rfl
  exact absurd (heol ':' List.mem_cons_self) (by decide)

theorem tail_unique {source source' : Option AddrText} {eol eol' : List Char}
    (hsource : ∀ a ∈ source, a.Accepted) (hsource' : ∀ a ∈ source', a.Documented)
    (heol : ∀ c ∈ eol, eolChar c = true) (heol' : ∀ c ∈ eol', eolChar c = true)
    (h : sourceText source ++ eol = sourceText source' ++ eol') :
    source = source' ∧ eol = eol' := by
  cases source with
  | none =>
    cases source' with
    | none => exact ⟨rfl, h⟩
    | some a' => exact absurd h.symm (colon_ne_eol heol)
  | some a =>
    cases source' with
    | none => exact absurd h (colon_ne_eol heol')
    | some a' =>
      obtain ⟨rfl, heq⟩ := (hsource a rfl).unique (hsource' a' rfl) (eol_head heol) (eol_head heol')
        (List.cons_eq_cons.mp h).2
      exact ⟨rfl, heq⟩

theorem Accepted.unique (hb : b.Accepted) (hd : d.Documented) (h : b.text = d.text) : b = d := by
  obtain ⟨haddr, hrest⟩ := hb.addr.unique hd.addr colon_tail colon_tail h
  obtain ⟨hport, htail⟩ := run_unique hb.port.digits hd.digits
    (fun c hc => not_digit (tail_head hb.eolChars c hc))
    (fun c hc => not_digit (tail_head hd.eolChars c hc)) (List.cons_eq_cons.mp hrest).2
  obtain ⟨hsource, heol⟩ := tail_unique (fun a ha => (hb.source a ha).1)
    (fun a ha => (hd.source a ha).1) hb.eolChars hd.eolChars htail
  obtain ⟨addr, port, source, eol⟩ := b
  obtain ⟨addr', port', source', eol'⟩ := d
  dsimp only at haddr hport hsource heol
  subst haddr hport hsource heol
  rfl

theorem host_singleton (hc : typeChar c = true) : ∀ e ∈ [c], hostChar e = true := by
  intro e he
  rw [List.mem_singleton.mp he]
  exact hostChar_of_typeChar hc

theorem host_digits (h : ∀ c ∈ t, between '0' '9' c = true) : ∀ c ∈ t, hostChar c = true :=
  fun c hc => hostChar_of_digit (h c hc)

theorem eol_eq_lf (hb : b.Accepted) (hd : d.Documented) (h : b.eol = d.eol) : d.eol = ['\n'] := by
  obtain ⟨c, -, hc⟩ := hb.eol
  rcases hd.eol with heq | heq | heq
  · exact heq
  · rw [← h, hc] at heq
    cases heq
  · rw [← h, hc] at heq
    cases heq

theorem eolChar_lf : ∃ c, eolChar c = true ∧ ['\n'] = [c] := ⟨'\n', rfl, rfl⟩

/-! ### Types and addresses -/

/-- A type and a body that are read as a body: the type becomes the address, the address the port
and the port the source. -/
theorem typed_as_body_iff (hd : d.Documented) (hc : typeChar c = true) :
    (∃ b : BodyText, b.Accepted ∧ c :: ':' :: d.text = b.text) ↔
      (∃ a, d.addr = .host a ∧ PortText a) ∧ d.source = none ∧ d.eol = ['\n'] := by
  obtain ⟨addr, port, source, eol⟩ := d
  have hport := host_digits hd.digits
  constructor
  · rintro ⟨b, hb, heq⟩
    obtain ⟨-, hrest⟩ := hb.addr.unique (.host (List.cons_ne_nil c []) (host_singleton hc))
      colon_tail colon_tail heq.symm
    have htext : b.port ++ (sourceText b.source ++ b.eol) =
        addr.text ++ ':' :: (port ++ (sourceText source ++ eol)) := (List.cons_eq_cons.mp hrest).2
    obtain ⟨haddr, hsource⟩ := (AddrText.Accepted.host hb.port.nonempty
      (host_digits hb.port.digits)).unique hd.addr (tail_head hb.eolChars) colon_tail htext
    refine ⟨⟨b.port, haddr.symm, hb.port⟩, ?_⟩
    -- the port of the line stands where the body has its source
    cases hs : b.source with
    | none =>
      rw [hs] at hsource
      exact absurd hsource.symm (colon_ne_eol hb.eolChars)
    | some a =>
      rw [hs] at hsource
      obtain ⟨-, htail⟩ := (hb.source a hs).1.unique (.host hd.nonempty hport)
        (eol_head hb.eolChars) (tail_head hd.eolChars) (List.cons_eq_cons.mp hsource).2
      cases source with
      | none => exact ⟨rfl, eol_eq_lf hb hd htail⟩
      | some a' => exact absurd htail.symm (colon_ne_eol hb.eolChars)
  · rintro ⟨⟨a, rfl, ha⟩, rfl, rfl⟩
    refine ⟨⟨.host [c], a, some (.host port), ['\n']⟩, ⟨?_, ha, ?_, eolChar_lf⟩, rfl⟩
    · exact .host (List.cons_ne_nil c []) (host_singleton hc)
    · rintro _ ⟨⟩
      exact ⟨.host hd.nonempty hport, rfl⟩

/-- A body that is read as a type and a body: the address becomes the type, the port the address and
the source the port. -/
theorem body_as_typed_iff (hd : d.Documented) (hc : typeChar c = true) :
    (∃ b : BodyText, b.Accepted ∧ d.text = c :: ':' :: b.text) ↔
      d.addr = .host [c] ∧ (∃ h, d.source = some (.host h) ∧ PortText h) ∧ d.eol = ['\n'] := by
  obtain ⟨addr, port, source, eol⟩ := d
  have hport := host_digits hd.digits
  constructor
  · rintro ⟨b, hb, heq⟩
    obtain ⟨haddr, hrest⟩ := (AddrText.Accepted.host (List.cons_ne_nil c [])
      (host_singleton hc)).unique hd.addr colon_tail colon_tail heq.symm
    obtain ⟨-, hsource⟩ := hb.addr.unique (.host hd.nonempty hport) colon_tail
      (tail_head hd.eolChars) (List.cons_eq_cons.mp hrest).2
    refine ⟨haddr.symm, ?_⟩
    -- the source of the line stands where the body has its port
    cases source with
    | none => exact absurd hsource (colon_ne_eol hd.eolChars)
    | some a =>
      obtain ⟨rfl, htail⟩ := (AddrText.Accepted.host hb.port.nonempty
        (host_digits hb.port.digits)).unique (hd.source a rfl).1 (tail_head hb.eolChars)
        (eol_head hd.eolChars) (List.cons_eq_cons.mp hsource).2
      refine ⟨⟨b.port, rfl, hb.port⟩, ?_⟩
      cases hs : b.source with
      | none =>
        rw [hs] at htail
        exact eol_eq_lf hb hd htail
      | some a' =>
        rw [hs] at htail
        exact absurd htail (colon_ne_eol hd.eolChars)
  · rintro ⟨rfl, ⟨h, rfl, hh⟩, rfl⟩
    exact ⟨⟨.host port, h, none, ['\n']⟩, ⟨.host hd.nonempty hport, hh, nofun, eolChar_lf⟩, rfl⟩

/-! ### What is taken from a line -/

theorem Documented.accepted_iff (hd : d.Documented) :
    d.Accepted ↔ d.eol = ['\n'] ∧ d.addr.scope.length ≤ 1 ∧ number 10 d.port ≤ 65535 := by
  constructor
  · intro h
    exact ⟨eol_eq_lf h hd rfl, hd.addr.accepted_iff.mp h.addr, h.port.le⟩
  · rintro ⟨heol, hscope, hport⟩
    refine ⟨hd.addr.accepted_iff.mpr hscope, (portText_iff hd.nonempty hd.digits hd.zero).mpr hport,
      fun a ha => ?_, heol ▸ eolChar_lf⟩
    obtain ⟨hdoc, hno⟩ := hd.source a ha
    refine ⟨hdoc.accepted_iff.mpr ?_, hno⟩
    rw [AddrText.scope_eq_nil hno]
    exact Nat.zero_le 1

theorem typed_parses : Parses (seq typeRe bodyRe) t gs ↔
    ∃ c, typeChar c = true ∧ ∃ b : BodyText, b.Accepted ∧ t = c :: ':' :: b.text ∧
      gs = (1, [c, ':']) :: b.groups := by
  constructor
  · rintro ⟨_, _, _, _, ⟨_, htype, rfl⟩, hbody, rfl, rfl⟩
    obtain ⟨c, _, hc, rfl, hcolon⟩ := parses_class_seq.mp htype
    obtain ⟨rfl, rfl⟩ := parses_char.mp hcolon
    obtain ⟨b, hb, rfl, rfl⟩ := bodyRe_parses.mp hbody
    exact ⟨c, hc, b, hb, rfl, rfl⟩
  · rintro ⟨c, hc, b, hb, rfl, rfl⟩
    have hcolon : Parses (char ':') [':'] [] := parses_char.mpr ⟨rfl, rfl⟩
    exact ⟨[c, ':'], [(1, [c, ':'])], b.text, b.groups,
      ⟨[], parses_class_seq.mpr ⟨c, [':'], hc, rfl, hcolon⟩, rfl⟩,
      bodyRe_parses.mpr ⟨b, hb, rfl, rfl⟩, rfl, rfl⟩

theorem subMatch_addrGroups (a : AddrText) (m : Groups) {i : Nat} (hi : 4 < i ∨ i = 1) :
    subMatch (a.addrGroups ++ m) i = subMatch m i := by
  have h2 : (i == 2) = false := beq_eq_false_iff_ne.mpr (by omega)
  have h3 : (i == 3) = false := beq_eq_false_iff_ne.mpr (by omega)
  have h4 : (i == 4) = false := beq_eq_false_iff_ne.mpr (by omega)
  unfold subMatch
  cases a with
  | host name =>
    simp only [AddrText.addrGroups, List.cons_append, List.nil_append, List.lookup_cons, h2]
  | v6 addr scope =>
    cases scope with
    | nil =>
      simp only [AddrText.addrGroups, AddrText.scopeGroups, List.cons_append, List.nil_append,
        List.lookup_cons, h2, h3]
    | cons c scope =>
      simp only [AddrText.addrGroups, AddrText.scopeGroups, List.cons_append, List.nil_append,
        List.lookup_cons, h2, h3, h4]

/-- The groups of a body behind those of its address. -/
def tailGroups (b : BodyText) : Groups :=
  (5, b.port) :: (b.source.map AddrText.sourceGroups).getD []

theorem subMatch_tailGroups (b : BodyText) :
    subMatch b.tailGroups 1 = [] ∧ subMatch b.tailGroups 3 = [] := by
  unfold tailGroups
  cases b.source with
  | none => exact ⟨rfl, rfl⟩
  | some a => cases a <;> exact ⟨rfl, rfl⟩

theorem addr_of_groups (hb : b.Accepted) :
    (if subMatch b.groups 3 = [] then subMatch b.groups 2 else subMatch b.groups 3) =
      b.addr.inner := by
  obtain ⟨addr, port, source, eol⟩ := b
  cases hb.addr with
  | host => exact if_pos (subMatch_tailGroups _).2
  | v6 hne => exact if_neg fun h => hne (List.append_eq_nil_iff.mp h).1
  | withScope hne => exact if_neg fun h => hne (List.append_eq_nil_iff.mp h).1

theorem source_of_groups (hb : b.Accepted) :
    (if subMatch b.tailGroups 8 = [] then subMatch b.tailGroups 7 else subMatch b.tailGroups 8) =
      (b.source.map AddrText.inner).getD [] := by
  obtain ⟨addr, port, source, eol⟩ := b
  cases source with
  | none => rfl
  | some a =>
    obtain ⟨ha, hno⟩ := hb.source a rfl
    cases ha with
    | host => exact if_pos rfl
    | v6 hne => exact (if_neg hne).trans (List.append_nil _).symm
    | withScope => cases hno

theorem ipFields_groups (hb : b.Accepted) : ipFields b.groups = b.fields none := by
  have htail : ∀ i, 4 < i ∨ i = 1 → subMatch b.groups i = subMatch b.tailGroups i :=
    fun i => subMatch_addrGroups b.addr b.tailGroups
  unfold ipFields fields
  rw [addr_of_groups hb, htail 1 (Or.inr rfl), htail 5 (Or.inl (by decide)),
    htail 7 (Or.inl (by decide)), htail 8 (Or.inl (by decide)), source_of_groups hb,
    (subMatch_tailGroups b).1]
  rfl

theorem ipFields_typed (hb : b.Accepted) :
    ipFields ((1, [c, ':']) :: b.groups) = b.fields (some c) := by
  have htype : ipFields ((1, [c, ':']) :: b.groups) = { ipFields b.groups with type := some c } :=
    rfl
  rw [htype, ipFields_groups hb]
  rfl

end BodyText

/-- A line of the documented form, with or without a type. -/
structure FeedEntry extends BodyText where
  type : Option Char
  typeOk : ∀ c ∈ type, typeChar c = true
  documented : toBodyText.Documented

namespace FeedEntry

def typeText : Option Char → List Char
  | none => []
  | some c => [c, ':']

def line (e : FeedEntry) : List Char := typeText e.type ++ e.toBodyText.text

def fields (e : FeedEntry) : FeedFields := e.toBodyText.fields e.type

/-- The address is taken for the type: `u:80:10` is not read as address, port and source. -/
def AddrForType (e : FeedEntry) : Prop :=
  e.type = none ∧ (∃ c, typeChar c = true ∧ e.addr = .host [c]) ∧
    (∃ h, e.source = some (.host h) ∧ PortText h) ∧ e.eol = ['\n']

/-- The type can be taken for the address: `T:5:70000` has a reading with a source. -/
def TypeForAddr (e : FeedEntry) : Prop :=
  e.type ≠ none ∧ (∃ a, e.addr = .host a ∧ PortText a) ∧ e.source = none ∧ e.eol = ['\n']

variable {e : FeedEntry}

/-! ### Reading the file -/

theorem takeLine_lf {l : List Char} {k : Nat} (hl : ∀ c ∈ l, c ≠ '\n') (hk : l.length < k)
    (rest : List Char) : takeLine k (l ++ '\n' :: rest) = (l ++ ['\n'], rest) := by
  induction l generalizing k with
  | nil =>
    cases k with
    | zero => exact absurd hk (Nat.not_lt_zero _)
    | succ k => rfl
  | cons c l ih =>
    cases k with
    | zero => exact absurd hk (Nat.not_lt_zero _)
    | succ k =>
      rw [List.cons_append, takeLine, if_neg (hl c List.mem_cons_self),
        ih (fun d hd => hl d (List.mem_cons_of_mem c hd)) (Nat.lt_of_succ_lt_succ hk)]
      rfl

theorem takeLine_eof {l : List Char} {k : Nat} (hl : ∀ c ∈ l, c ≠ '\n') (hk : l.length ≤ k) :
    takeLine k l = (l, []) := by
  induction l generalizing k with
  | nil => cases k <;> rfl
  | cons c l ih =>
    cases k with
    | zero => exact absurd hk (Nat.not_succ_le_zero _)
    | succ k =>
      rw [takeLine, if_neg (hl c List.mem_cons_self),
        ih (fun d hd => hl d (List.mem_cons_of_mem c hd)) (Nat.le_of_succ_le_succ hk)]

theorem ne_lf_of_class {p : Char → Bool} (hp : p '\n' = false) {t : List Char}
    (h : ∀ c ∈ t, p c = true) : ∀ c ∈ t, c ≠ '\n' := by
  rintro c hc rfl
  rw [h _ hc] at hp
  cases hp

theorem addr_ne_lf {a : AddrText} (ha : a.Documented) : ∀ c ∈ a.text, c ≠ '\n' := by
  cases ha with
  | host hne hchars => exact ne_lf_of_class rfl hchars
  | @v6 addr scope hne hchars hscope =>
    have hscope' : ∀ c ∈ AddrText.scopeText scope, c ≠ '\n' := by
      cases scope with
      | nil => nofun
      | cons d scope =>
        rw [AddrText.scopeText, List.forall_mem_cons]
        exact ⟨by decide, ne_lf_of_class rfl hscope⟩
    rw [AddrText.text, List.forall_mem_cons, List.forall_mem_append, List.forall_mem_append,
      List.forall_mem_singleton]
    exact ⟨by decide, ⟨ne_lf_of_class rfl hchars, hscope'⟩, by decide⟩

def front (e : FeedEntry) : List Char :=
  typeText e.type ++ (e.addr.text ++ ':' :: (e.port ++ sourceText e.source))

theorem line_eq (e : FeedEntry) : e.line = e.front ++ e.eol := by
  simp only [line, front, BodyText.text, List.append_assoc, List.cons_append]

theorem front_ne_lf (e : FeedEntry) : ∀ c ∈ e.front, c ≠ '\n' := by
  have htype : ∀ c ∈ typeText e.type, c ≠ '\n' := by
    cases h : e.type with
    | none => nofun
    | some c =>
      rw [typeText, List.forall_mem_cons, List.forall_mem_singleton]
      refine ⟨?_, by decide⟩
      rintro rfl
      exact absurd (e.typeOk _ h) (by decide)
  have hsource : ∀ c ∈ sourceText e.source, c ≠ '\n' := by
    cases h : e.source with
    | none => nofun
    | some a =>
      rw [sourceText, List.forall_mem_cons]
      exact ⟨by decide, addr_ne_lf (e.documented.source a h).1⟩
  rw [front, List.forall_mem_append, List.forall_mem_append, List.forall_mem_cons,
    List.forall_mem_append]
  exact ⟨htype, addr_ne_lf e.documented.addr, by decide, ne_lf_of_class rfl e.documented.digits,
    hsource⟩

theorem fgets_line (e : FeedEntry) {rest : List Char} {size : Nat} (hshort : e.line.length < size)
    (heof : e.eol = [] → rest = []) : fgets size (e.line ++ rest) = some (e.line, rest) := by
  have hfront := e.front_ne_lf
  have hne : e.line ++ rest ≠ [] := by
    intro h
    have hline := (List.append_eq_nil_iff.mp h).1
    rw [line, BodyText.text] at hline
    exact absurd (List.append_eq_nil_iff.mp (List.append_eq_nil_iff.mp hline).2).2
      (List.cons_ne_nil _ _)
  rw [fgets, if_neg hne]
  rw [e.line_eq] at hshort ⊢
  rcases e.documented.eol with heol | heol | heol
  · rw [heol] at hshort ⊢
    rw [List.length_append, List.length_singleton] at hshort
    rw [List.append_assoc, List.singleton_append, takeLine_lf hfront (by omega)]
  · rw [heol] at hshort ⊢
    have hcr : ∀ c ∈ e.front ++ ['\r'], c ≠ '\n' := by
      rw [List.forall_mem_append, List.forall_mem_singleton]
      exact ⟨hfront, by decide⟩
    have hlength : (e.front ++ ['\r']).length < size - 1 := by
      simp only [List.length_append, List.length_cons, List.length_nil] at hshort ⊢
      omega
    have hsplit : ∀ rest : List Char,
        e.front ++ ['\r', '\n'] ++ rest = e.front ++ ['\r'] ++ '\n' :: rest := by
      intro rest
      simp only [List.append_assoc, List.cons_append, List.nil_append]
    have hline := hsplit []
    rw [List.append_nil] at hline
    rw [hsplit, takeLine_lf hcr hlength, hline]
  · rw [heof heol, heol, List.append_nil, List.append_nil]
    rw [heol, List.append_nil] at hshort
    rw [takeLine_eof hfront (by omega)]

/-! ### Reading a line -/

def headChar (c : Char) : Bool := hostChar c || c == '['

theorem addr_head {a : AddrText} (ha : a.Documented) (u : List Char) :
    ∃ c t, a.text ++ u = c :: t ∧ headChar c = true := by
  cases ha with
  | @host name hne hchars =>
    cases name with
    | nil => exact absurd rfl hne
    | cons c name =>
      refine ⟨c, name ++ u, rfl, ?_⟩
      rw [headChar, hchars c List.mem_cons_self, Bool.true_or]
  | v6 => exact ⟨'[', _, rfl, rfl⟩

theorem line_head (e : FeedEntry) : ∃ c t, e.line = c :: t ∧ headChar c = true := by
  unfold line
  cases h : e.type with
  | none => exact addr_head e.documented.addr _
  | some c =>
    refine ⟨c, ':' :: e.text, rfl, ?_⟩
    rw [headChar, BodyText.hostChar_of_typeChar (e.typeOk c h), Bool.true_or]

theorem not_skipped (e : FeedEntry) :
    e.line.head? ∉ [some ' ', some '\r', some '\n', some '#'] := by
  obtain ⟨c, t, heq, hc⟩ := e.line_head
  rw [heq, List.head?_cons]
  intro hmem
  simp only [List.mem_cons, Option.some.injEq, List.not_mem_nil, or_false] at hmem
  rcases hmem with rfl | rfl | rfl | rfl <;> cases hc

theorem not_unix (e : FeedEntry) : regexprUnix.fullMatch e.line = none := by
  rw [fullMatch_eq_none]
  intro gs hparses
  obtain ⟨c, _, hc, hline, hrest⟩ := parses_class_seq.mp hparses
  obtain ⟨_, rfl, _, _, _, _, ⟨_, hpath, rfl⟩, -, rfl, -⟩ := parses_char_seq.mp hrest
  obtain ⟨path, rfl, -⟩ := parses_char_seq.mp hpath
  unfold line at hline
  cases h : e.type with
  | none =>
    -- the port would begin with the slash
    rw [h] at hline
    obtain ⟨-, hport⟩ := (AddrText.Accepted.host (List.cons_ne_nil c [])
      (BodyText.host_singleton hc)).unique e.documented.addr BodyText.colon_tail BodyText.colon_tail
      hline.symm
    exact absurd (AddrText.head_of_chars e.documented.nonempty e.documented.digits
      (List.cons_eq_cons.mp hport).2.symm) (by decide)
  | some d =>
    -- the address would begin with the slash
    rw [h] at hline
    obtain ⟨x, t, heq, hx⟩ := addr_head e.documented.addr
      (':' :: (e.port ++ (sourceText e.source ++ e.eol)))
    have hslash := (List.cons_eq_cons.mp (List.cons_eq_cons.mp hline).2).2
    obtain ⟨rfl, -⟩ := List.cons_eq_cons.mp (heq.symm.trans hslash)
    cases hx

theorem readFeedLine_line (e : FeedEntry) : readFeedLine e.line =
    (((seq typeRe bodyRe).fullMatch e.line).or (bodyRe.fullMatch e.line)).elim .invalid
      fun m => .fields (ipFields m) := by
  rw [readFeedLine, if_neg e.not_skipped, not_unix, regexprIp, fullMatch_opt_seq]
  cases ((seq typeRe bodyRe).fullMatch e.line).or (bodyRe.fullMatch e.line) <;> rfl

/-! ### With a type and without -/

variable {gs : Groups} {c : Char}

theorem line_untyped (h : e.type = none) : e.line = e.toBodyText.text := by
  rw [line, h, typeText, List.nil_append]

theorem line_typed (h : e.type = some c) : e.line = c :: ':' :: e.toBodyText.text := by
  rw [line, h]
  rfl

theorem body_parses_iff (h : e.type = none) :
    Parses bodyRe e.line gs ↔ e.toBodyText.Accepted ∧ gs = e.toBodyText.groups := by
  rw [line_untyped h, BodyText.bodyRe_parses]
  constructor
  · rintro ⟨b, hb, heq, rfl⟩
    obtain rfl := hb.unique e.documented heq.symm
    exact ⟨hb, rfl⟩
  · rintro ⟨hacc, rfl⟩
    exact ⟨_, hacc, rfl, rfl⟩

theorem typed_parses_iff (h : e.type = some c) : Parses (seq typeRe bodyRe) e.line gs ↔
    e.toBodyText.Accepted ∧ gs = (1, [c, ':']) :: e.toBodyText.groups := by
  rw [line_typed h, BodyText.typed_parses]
  constructor
  · rintro ⟨_, -, b, hb, heq, rfl⟩
    obtain ⟨rfl, hrest⟩ := List.cons_eq_cons.mp heq
    obtain rfl := hb.unique e.documented (List.cons_eq_cons.mp hrest).2.symm
    exact ⟨hb, rfl⟩
  · rintro ⟨hacc, rfl⟩
    exact ⟨c, e.typeOk c h, _, hacc, rfl, rfl⟩

theorem addrForType_iff (h : e.type = none) :
    e.AddrForType ↔ ∃ gs, Parses (seq typeRe bodyRe) e.line gs := by
  rw [line_untyped h]
  constructor
  · rintro ⟨-, ⟨c, hc, haddr⟩, hsource, heol⟩
    obtain ⟨b, hb, heq⟩ := (BodyText.body_as_typed_iff e.documented hc).mpr ⟨haddr, hsource, heol⟩
    exact ⟨_, BodyText.typed_parses.mpr ⟨c, hc, b, hb, heq, rfl⟩⟩
  · rintro ⟨gs, hparses⟩
    obtain ⟨c, hc, b, hb, heq, -⟩ := BodyText.typed_parses.mp hparses
    obtain ⟨haddr, hsource, heol⟩ := (BodyText.body_as_typed_iff e.documented hc).mp ⟨b, hb, heq⟩
    exact ⟨h, ⟨c, hc, haddr⟩, hsource, heol⟩

theorem typeForAddr_iff (h : e.type = some c) :
    e.TypeForAddr ↔ ∃ gs, Parses bodyRe e.line gs := by
  have hiff := BodyText.typed_as_body_iff e.documented (e.typeOk c h)
  rw [line_typed h]
  constructor
  · rintro ⟨-, hmis⟩
    obtain ⟨b, hb, heq⟩ := hiff.mpr hmis
    exact ⟨_, BodyText.bodyRe_parses.mpr ⟨b, hb, heq, rfl⟩⟩
  · rintro ⟨gs, hparses⟩
    obtain ⟨b, hb, heq, -⟩ := BodyText.bodyRe_parses.mp hparses
    refine ⟨?_, hiff.mp ⟨b, hb, heq⟩⟩
    rw [h]
    exact Option.some_ne_none c

theorem type_of_body {t : List Char} (h : Parses bodyRe t gs) : (ipFields gs).type = none := by
  obtain ⟨b, hb, -, rfl⟩ := BodyText.bodyRe_parses.mp h
  rw [BodyText.ipFields_groups hb]
  rfl

theorem type_of_typed {t : List Char} (h : Parses (seq typeRe bodyRe) t gs) :
    (ipFields gs).type ≠ none := by
  obtain ⟨c, -, b, hb, -, rfl⟩ := BodyText.typed_parses.mp h
  rw [BodyText.ipFields_typed hb]
  exact Option.some_ne_none c

theorem readFeedLine_untyped (h : e.type = none) :
    (e.AddrForType → ∃ f, readFeedLine e.line = .fields f ∧ f.type ≠ none) ∧
    (¬ e.AddrForType → (e.toBodyText.Accepted → readFeedLine e.line = .fields e.fields) ∧
      (¬ e.toBodyText.Accepted → readFeedLine e.line = .invalid)) := by
  obtain ⟨hsome, hnone⟩ := fullMatch_of_iff fun _ => body_parses_iff h
  rw [e.readFeedLine_line, addrForType_iff h]
  cases hm : (seq typeRe bodyRe).fullMatch e.line with
  | some m =>
    have hparses := parses_of_fullMatch hm
    exact ⟨fun _ => ⟨ipFields m, rfl, type_of_typed hparses⟩, fun hno => absurd ⟨m, hparses⟩ hno⟩
  | none =>
    refine ⟨fun ⟨gs, hparses⟩ => absurd hparses (fullMatch_eq_none.mp hm gs), fun _ => ⟨?_, ?_⟩⟩
    · intro hacc
      rw [hsome hacc, Option.none_or, Option.elim_some, BodyText.ipFields_groups hacc, fields, h]
    · intro hacc
      rw [hnone hacc]
      rfl

theorem readFeedLine_typed (h : e.type = some c) :
    (e.toBodyText.Accepted → readFeedLine e.line = .fields e.fields) ∧
    (¬ e.toBodyText.Accepted →
      (e.TypeForAddr → ∃ f, readFeedLine e.line = .fields f ∧ f.type = none) ∧
      (¬ e.TypeForAddr → readFeedLine e.line = .invalid)) := by
  obtain ⟨hsome, hnone⟩ := fullMatch_of_iff fun _ => typed_parses_iff h
  rw [e.readFeedLine_line, typeForAddr_iff h]
  constructor
  · intro hacc
    rw [hsome hacc, Option.some_or, Option.elim_some, BodyText.ipFields_typed hacc, fields, h]
  · intro hacc
    rw [hnone hacc, Option.none_or]
    cases hm : bodyRe.fullMatch e.line with
    | some m =>
      have hparses := parses_of_fullMatch hm
      exact ⟨fun _ => ⟨ipFields m, rfl, type_of_body hparses⟩, fun hno => absurd ⟨m, hparses⟩ hno⟩
    | none =>
      exact ⟨fun ⟨gs, hparses⟩ => absurd hparses (fullMatch_eq_none.mp hm gs), fun _ => rfl⟩

theorem readFeedLine_fields_iff (e : FeedEntry) : readFeedLine e.line = .fields e.fields ↔
    e.toBodyText.Accepted ∧ ¬ e.AddrForType := by
  cases h : e.type with
  | none =>
    obtain ⟨hmis, hown⟩ := readFeedLine_untyped h
    constructor
    · intro heq
      have hno : ¬ e.AddrForType := by
        intro hm
        obtain ⟨f, hf, htype⟩ := hmis hm
        cases heq.symm.trans hf
        exact htype h
      refine ⟨?_, hno⟩
      by_contra hacc
      cases heq.symm.trans ((hown hno).2 hacc)
    · rintro ⟨hacc, hno⟩
      exact (hown hno).1 hacc
  | some c =>
    obtain ⟨hown, hmis⟩ := readFeedLine_typed h
    have hno : ¬ e.AddrForType := by
      rintro ⟨hnone, -⟩
      cases h.symm.trans hnone
    refine ⟨fun heq => ⟨?_, hno⟩, fun hacc => hown hacc.1⟩
    by_contra hacc
    by_cases hm : e.TypeForAddr
    · obtain ⟨f, hf, htype⟩ := (hmis hacc).1 hm
      cases heq.symm.trans hf
      cases h.symm.trans htype
    · cases heq.symm.trans ((hmis hacc).2 hm)

theorem readFeedLine_invalid_iff (e : FeedEntry) : readFeedLine e.line = .invalid ↔
    ¬ e.toBodyText.Accepted ∧ ¬ e.AddrForType ∧ ¬ e.TypeForAddr := by
  cases h : e.type with
  | none =>
    obtain ⟨hmis, hown⟩ := readFeedLine_untyped h
    constructor
    · intro heq
      have hno : ¬ e.AddrForType := by
        intro hm
        obtain ⟨f, hf, -⟩ := hmis hm
        cases heq.symm.trans hf
      refine ⟨fun hacc => ?_, hno, fun hm => hm.1 h⟩
      cases heq.symm.trans ((hown hno).1 hacc)
    · rintro ⟨hacc, hno, -⟩
      exact (hown hno).2 hacc
  | some c =>
    obtain ⟨hown, hmis⟩ := readFeedLine_typed h
    constructor
    · intro heq
      have hacc : ¬ e.toBodyText.Accepted := by
        intro hacc
        cases heq.symm.trans (hown hacc)
      refine ⟨hacc, fun hm => ?_, fun hm => ?_⟩
      · cases h.symm.trans hm.1
      · obtain ⟨f, hf, -⟩ := (hmis hacc).1 hm
        cases heq.symm.trans hf
    · rintro ⟨hacc, -, hno⟩
      exact (hmis hacc).2 hno

end FeedEntry

/-- A documented line of a port up to 65535 is read as what it says exactly if it ends with LF, its
scope has at most one character and its address is not taken for a type. With a larger port it is
rejected unless its parts are shifted. -/
theorem feed_lines_iff (e : FeedEntry) (rest : List Char)
    (hshort : e.line.length < maxMcfileLineLength) (heof : e.eol = [] → rest = []) :
    fgets maxMcfileLineLength (e.line ++ rest) = some (e.line, rest) ∧
    (number 10 e.port ≤ 65535 →
      (readFeedLine e.line = .fields e.fields ↔
        e.eol = ['\n'] ∧ e.addr.scope.length ≤ 1 ∧ ¬ e.AddrForType)) ∧
    (65535 < number 10 e.port →
      (readFeedLine e.line = .invalid ↔ ¬ e.AddrForType ∧ ¬ e.TypeForAddr)) := by
  have hacc := e.documented.accepted_iff
  refine ⟨e.fgets_line hshort heof, fun hport => ?_, fun hport => ?_⟩
  · rw [e.readFeedLine_fields_iff, hacc, and_assoc, and_assoc]
    refine and_congr_right fun _ => and_congr_right fun _ => ?_
    exact and_iff_right hport
  · rw [e.readFeedLine_invalid_iff]
    apply and_iff_right
    intro h
    exact absurd (hacc.mp h).2.2 (Nat.not_le.mpr hport)

theorem typeChar_of_some {c : Char} (h : typeChar c = true) :
    ∀ d ∈ some c, typeChar d = true := by
  rintro d ⟨⟩
  exact h

theorem zero_of_head {t : List Char} (h : t.head? ≠ some '0') :
    ∀ rest, t = '0' :: rest → rest = [] := by
  rintro rest rfl
  exact absurd rfl h

def hostEntry (type : Char) (name port eol : List Char) (htype : typeChar type = true)
    (hname : name ≠ []) (hchars : name.all hostChar = true) (hport : port ≠ [])
    (hdigits : port.all (between '0' '9') = true) (hzero : port.head? ≠ some '0')
    (heol : eol = ['\n'] ∨ eol = ['\r', '\n'] ∨ eol = []) : FeedEntry where
  addr := .host name
  port := port
  source := none
  eol := eol
  type := some type
  typeOk := typeChar_of_some htype
  documented :=
    ⟨.host hname (List.all_eq_true.mp hchars), hport, List.all_eq_true.mp hdigits,
      zero_of_head hzero, nofun, heol⟩

/-- `U:192.168.1.4:1125` -/
def plainEntry : FeedEntry :=
  hostEntry 'U' "192.168.1.4".toList "1125".toList ['\n'] rfl (by decide) rfl (by decide) rfl
    (by decide) (by decide)

theorem plain_line_read : plainEntry.line.length < maxMcfileLineLength ∧
    number 10 plainEntry.port ≤ 65535 ∧
    readFeedLine plainEntry.line = .fields plainEntry.fields := by
  have hport : number 10 plainEntry.port ≤ 65535 := by decide
  refine ⟨by decide, hport, ?_⟩
  apply ((feed_lines_iff plainEntry [] (by decide) nofun).2.1 hport).mpr
  refine ⟨rfl, by decide, ?_⟩
  rintro ⟨htype, -⟩
  cases htype

theorem source_ten :
    ∀ a ∈ some (AddrText.host "10".toList), a.Documented ∧ a.hasScope = false := by
  rintro a ⟨⟩
  exact ⟨.host (by decide) (List.all_eq_true.mp rfl), rfl⟩

/-- The line with a scope is from the comment of `set_sockets_from_feedfile`. -/
theorem documented_lines_misread :
    (∃ e : FeedEntry, e.line = "U:[fe80::9a03:9bff:fea3:b01c%enp3s0f0]:1131\n".toList ∧
      number 10 e.port ≤ 65535 ∧ readFeedLine e.line = .invalid) ∧
    (∃ e : FeedEntry, e.line = "T:localhost:1120\r\n".toList ∧
      number 10 e.port ≤ 65535 ∧ readFeedLine e.line = .invalid) ∧
    (∃ e : FeedEntry, e.line = "T:localhost:1120".toList ∧
      number 10 e.port ≤ 65535 ∧ readFeedLine e.line = .invalid) ∧
    (∃ e : FeedEntry, e.line = "u:80:10\n".toList ∧ e.fields.type = none ∧
      readFeedLine e.line = .fields ⟨some 'u', "80".toList, "10".toList, []⟩) ∧
    ∃ e : FeedEntry, e.line = "T:5:70000\n".toList ∧ 65535 < number 10 e.port ∧
      readFeedLine e.line = .fields ⟨none, "T".toList, "5".toList, "70000".toList⟩ := by
  refine ⟨?_, ?_, ?_, ?_, ?_⟩
  · exact ⟨⟨⟨.v6 "fe80::9a03:9bff:fea3:b01c".toList "enp3s0f0".toList, "1131".toList, none, ['\n']⟩,
      some 'U', typeChar_of_some rfl,
      .v6 (by decide) (List.all_eq_true.mp rfl) (List.all_eq_true.mp rfl), by decide,
      List.all_eq_true.mp rfl, zero_of_head (by decide), nofun, Or.inl rfl⟩,
      by decide, by decide, by decide +kernel⟩
  · exact ⟨hostEntry 'T' "localhost".toList "1120".toList ['\r', '\n'] rfl (by decide) rfl (by decide)
      rfl (by decide) (by decide), by decide, by decide, by decide +kernel⟩
  · exact ⟨hostEntry 'T' "localhost".toList "1120".toList [] rfl (by decide) rfl (by decide) rfl
      (by decide) (by decide), by decide, by decide, by decide +kernel⟩
  · exact ⟨⟨⟨.host "u".toList, "80".toList, some (.host "10".toList), ['\n']⟩, none, nofun,
      .host (by decide) (List.all_eq_true.mp rfl), by decide, List.all_eq_true.mp rfl,
      zero_of_head (by decide), source_ten, Or.inl rfl⟩, by decide, rfl, by decide +kernel⟩
  · exact ⟨hostEntry 'T' "5".toList "70000".toList ['\n'] rfl (by decide) rfl (by decide) rfl
      (by decide) (by decide), by decide, by decide, by decide +kernel⟩

end Sockperf
