import Mathlib.Algebra.GroupWithZero.Nat
import Mathlib.Data.List.Nodup
import Mathlib.Data.List.Flatten
import Mathlib.Data.List.Pairwise

/-!
# Options of the command line

`aopt_init` reads the options of one table from an argument vector and passes over the rest.
`argv` is taken without the program or mode name in front.
-/

namespace Sockperf

set_option autoImplicit false

abbrev Token := List Char

/-- A line of an option table. A table ends before the first line with the key 0. -/
structure AoptDesc where
  key : Nat
  /-- `AOPT_REPEAT` -/
  repeats : Bool
  arg : Bool
  optarg : Bool
  shorts : List Char
  longs : List Token
  deriving DecidableEq, Repr

structure AoptObject where
  key : Nat
  arg : Option Token
  deriving DecidableEq, Repr

/-! ## Parsing -/

/-- The tokens "-o..." and "--...", with `token_opt` and whether `token_type` is 2. -/
def tokenOpt : Token → Option (Bool × Token)
  | '-' :: '-' :: opt => some (true, opt)
  | '-' :: c :: opt => some (false, c :: opt)
  | _ => none

namespace AoptDesc
variable (d : AoptDesc)

def shortArg : Token → Option Token
  | [] => none
  | c :: rest => if c ∈ d.shorts then some rest else none

def longArg (opt : Token) : Option Token :=
  d.longs.findSome? fun name =>
    if name <+: opt ∧
        (opt.drop name.length = [] ∨ (opt.drop name.length).head? = some '=') then
      some (opt.drop name.length)
    else none

def tokenArg (long : Bool) (opt : Token) : Option Token :=
  if long then d.longArg opt else d.shortArg opt

/-- The argument of an option, and whether it is the next token. There is none if the argument is
missing or not allowed. -/
def takeArg (tokenArg : Token) (next : Option Token) : Option (Option Token × Bool) :=
  if d.arg || d.optarg then
    match tokenArg with
    | '=' :: c :: v => some (some (c :: v), false)
    | c :: v => some (some (c :: v), false)
    | [] =>
      match next with
      | some v =>
        if v.head? ≠ some '-' then some (some v, true)
        else if d.arg then none else some (none, false)
      | none => if d.arg then none else some (none, false)
  else if tokenArg = [] then some (none, false)
  else none

end AoptDesc

def findDesc (desc : List AoptDesc) (long : Bool) (opt : Token) : Option (AoptDesc × Token) :=
  desc.findSome? fun d => (d.tokenArg long opt).map fun a => (d, a)

structure AoptScan where
  /-- `status` -/
  failed : Bool
  argc : Nat
  objs : List AoptObject
  deriving DecidableEq, Repr

namespace AoptScan

/-- One token; true if the next token is its argument. -/
def token (desc : List AoptDesc) (tok : Token) (next : Option Token) (s : AoptScan) :
    AoptScan × Bool :=
  match tokenOpt tok with
  | none => (s, false)
  | some (long, opt) =>
    if opt = [] then ({ s with failed := true }, false)
    else if s.failed then (s, false)
    else
      match findDesc desc long opt with
      | none => (s, false)
      | some (d, tokenArg) =>
        if d.repeats = false ∧ (s.objs.any fun o => o.key == d.key) = true then
          ({ s with failed := true }, false)
        else
          match d.takeArg tokenArg next with
          | none => ({ s with failed := true }, false)
          | some (arg, consumed) =>
            ({ s with
                argc := s.argc + if consumed then 2 else 1
                objs := s.objs ++ [⟨d.key, arg⟩] }, consumed)

def scan (desc : List AoptDesc) : List Token → AoptScan → AoptScan
  | [], s => s
  | tok :: rest, s =>
    match s.token desc tok rest.head? with
    | (s', false) => scan desc rest s'
    | (s', true) =>
      match rest with
      | [] => s'
      | _ :: rest => scan desc rest s'

end AoptScan

/-- The object, which is `NULL` after an error, and the new `*argc`. -/
def aoptInit (argc : Nat) (tokens : List Token) (desc : List AoptDesc) :
    Option (List AoptObject) × Nat :=
  if argc = 0 then (none, argc)
  else if (tokens.head?.any fun tok => tok.head? != some '-') = true then (none, 0)
  else if tokens.countP (fun tok => (tokenOpt tok).isSome) = 0 then (none, argc)
  else
    let s := AoptScan.scan desc tokens ⟨false, 0, []⟩
    (if s.failed then none else some s.objs, s.argc)

def aoptCheck (obj : Option (List AoptObject)) (key : Nat) : Nat :=
  (obj.getD []).countP fun o => o.key == key

def aoptValue (obj : Option (List AoptObject)) (key : Nat) : Option Token :=
  ((obj.getD []).find? fun o => o.key == key).bind AoptObject.arg

/-! ## Spellings -/

inductive OptName where
  | short (c : Char)
  | long (name : Token)
  deriving DecidableEq, Repr

def OptName.text : OptName → Token
  | short c => ['-', c]
  | long name => '-' :: '-' :: name

/-- How the argument is written: not at all, "-oV", "-o=V" or "--opt=V", "-o V" or "--opt V". -/
inductive Written where
  | bare
  | attached (v : Token)
  | equals (v : Token)
  | next (v : Token)
  deriving DecidableEq, Repr

namespace Written

def value : Written → Option Token
  | bare => none
  | attached v | equals v | next v => some v

def rest : Written → Token
  | bare | next _ => []
  | attached v => v
  | equals v => '=' :: v

def tokens (name : OptName) : Written → List Token
  | next v => [name.text, v]
  | w => [name.text ++ w.rest]

end Written

/-- A piece of a command line: an option of the table, or one of another table. -/
inductive Piece where
  | own (d : AoptDesc) (name : OptName) (w : Written)
  | foreign (name : OptName) (w : Written)
  deriving DecidableEq, Repr

namespace Piece

def tokens : Piece → List Token
  | own _ name w => w.tokens name
  | foreign name w => w.tokens name

def object : Piece → Option AoptObject
  | own d _ w => some ⟨d.key, w.value⟩
  | foreign _ _ => none

def width : Piece → Nat
  | own _ name w => (w.tokens name).length
  | foreign _ _ => 0

def isOf (key : Nat) : Piece → Bool
  | own d _ _ => d.key == key
  | foreign _ _ => false

def value : Piece → Option Token
  | own _ _ w => w.value
  | foreign _ _ => none

end Piece

def AoptDesc.HasName (d : AoptDesc) : OptName → Prop
  | .short c => c ∈ d.shorts
  | .long name => name ∈ d.longs

/-- No long name has a "=", no name is empty, no short name is "-". -/
def OptName.Plain : OptName → Prop
  | .short c => c ≠ '-'
  | .long name => name ≠ [] ∧ '=' ∉ name

/-- "-oV" is for short names. -/
def Written.Fits : OptName → Written → Prop
  | .long _, .attached _ => False
  | _, _ => True

def IsValue (v : Token) : Prop := v ≠ [] ∧ v.head? ≠ some '-'

def Written.Suits (d : AoptDesc) : Written → Prop
  | .bare => d.arg = false
  | .attached v => (d.arg || d.optarg) = true ∧ IsValue v ∧ v.head? ≠ some '='
  | .equals v | .next v => (d.arg || d.optarg) = true ∧ IsValue v

def Written.SingleToken : Written → Prop
  | .next _ => False
  | _ => True

def Piece.Legal (desc : List AoptDesc) : Piece → Prop
  | own d name w => d ∈ desc ∧ d.HasName name ∧ w.Fits name ∧ w.Suits d
  | foreign name w => name.Plain ∧ (∀ d ∈ desc, ¬ d.HasName name) ∧ w.Fits name ∧ w.SingleToken

/-- A table whose options can be told apart by their names. -/
structure AoptTable (desc : List AoptDesc) : Prop where
  keys : (desc.map AoptDesc.key).Nodup
  nonzero : ∀ d ∈ desc, d.key ≠ 0
  shorts : (desc.flatMap AoptDesc.shorts).Nodup
  longs : (desc.flatMap AoptDesc.longs).Nodup
  plain : ∀ d ∈ desc, ∀ name ∈ d.longs, name ≠ [] ∧ '=' ∉ name

/-- An option that may not be repeated occurs once. -/
def LegallyRepeated (pieces : List Piece) : Prop :=
  ∀ before d name w after, pieces = before ++ .own d name w :: after →
    d.repeats = true ∨ ∀ x ∈ before, x.isOf d.key = false

namespace Piece

theorem tokens_eq_cons (x : Piece) :
    ∃ name a rest, x.tokens = (OptName.text name ++ a) :: rest := by
  cases x with
  | own d name w | foreign name w =>
    cases w with
    | next v => exact ⟨name, [], [v], by simp [tokens, Written.tokens]⟩
    | bare | attached v | equals v => exact ⟨name, _, [], rfl⟩

theorem head_text (name : OptName) (a : Token) : (name.text ++ a).head? = some '-' := by
  cases name <;> rfl

theorem head_flatMap_tokens {pieces : List Piece} :
    ∀ tok ∈ (pieces.flatMap tokens).head?, tok.head? = some '-' := by
  cases pieces with
  | nil => exact nofun
  | cons x pieces =>
    obtain ⟨name, a, rest, hx⟩ := x.tokens_eq_cons
    intro tok htok
    rw [List.flatMap_cons, hx] at htok
    obtain rfl := Option.some.inj htok
    exact head_text name a

theorem key_ne_of_isOf {x : Piece} {key : Nat} (h : x.isOf key = false) {o : AoptObject}
    (ho : x.object = some o) : o.key ≠ key := by
  cases x with
  | own d name w =>
    obtain rfl := Option.some.inj ho
    exact beq_eq_false_iff_ne.mp h
  | foreign name w => cases ho

end Piece

/-! ## A piece is read back -/

section Names
variable {desc : List AoptDesc} {d : AoptDesc} {name : OptName} {w : Written}

theorem takeWhile_name {n a : Token} (hn : '=' ∉ n) (ha : a = [] ∨ a.head? = some '=') :
    (n ++ a).takeWhile (· ≠ '=') = n := by
  rw [List.takeWhile_append_of_pos]
  · rcases ha with rfl | ha
    · simp
    · cases a with
      | nil => simp
      | cons c a =>
        obtain rfl : c = '=' := Option.some.inj ha
        simp
  · intro c hc
    simp only [ne_eq, decide_not, Bool.not_eq_eq_eq_not, Bool.not_true, decide_eq_false_iff_not]
    rintro rfl
    exact hn hc

theorem longArg_cases {n a b : Token} (hplain : ∀ n ∈ d.longs, '=' ∉ n) (hn : '=' ∉ n)
    (ha : a = [] ∨ a.head? = some '=') (h : d.longArg (n ++ a) = some b) :
    n ∈ d.longs ∧ b = a := by
  obtain ⟨m, hm, hb⟩ := List.exists_of_findSome?_eq_some h
  split at hb
  · next hmatch =>
    obtain ⟨⟨b', hb'⟩, hend⟩ := hmatch
    rw [← hb', List.drop_left] at hend hb
    obtain rfl := Option.some.inj hb
    have hname : m = n := by
      rw [← takeWhile_name (hplain m hm) hend, hb', takeWhile_name hn ha]
    subst hname
    exact ⟨hm, List.append_cancel_left hb'⟩
  · cases hb

theorem longArg_of_mem {n a : Token} (hplain : ∀ n ∈ d.longs, '=' ∉ n) (hn : n ∈ d.longs)
    (ha : a = [] ∨ a.head? = some '=') : d.longArg (n ++ a) = some a := by
  cases h : d.longArg (n ++ a) with
  | none =>
    have hnone := List.findSome?_eq_none_iff.mp h n hn
    rw [List.drop_left, if_pos ⟨⟨a, rfl⟩, ha⟩] at hnone
    cases hnone
  | some b => rw [(longArg_cases hplain (hplain n hn) ha h).2]

theorem owner_unique {α : Type} {f : AoptDesc → List α} (h : (desc.flatMap f).Nodup)
    {d' : AoptDesc} (hd : d ∈ desc) (hd' : d' ∈ desc) {x : α} (hx : x ∈ f d) (hx' : x ∈ f d') :
    d' = d := by
  by_contra hne
  have hsymm : Std.Symm (Function.onFun List.Disjoint f) := ⟨fun _ _ h _ hx hx' => h hx' hx⟩
  exact (List.nodup_flatMap.mp h).2.forall hd' hd hne hx' hx

theorem findDesc_eq_some {long : Bool} {opt a : Token} (hd : d ∈ desc)
    (ha : d.tokenArg long opt = some a)
    (hother : ∀ d' ∈ desc, ∀ b, d'.tokenArg long opt = some b → d' = d) :
    findDesc desc long opt = some (d, a) := by
  unfold findDesc
  cases h : desc.findSome? fun d => (d.tokenArg long opt).map fun a => (d, a) with
  | none =>
    have hnone := List.findSome?_eq_none_iff.mp h d hd
    rw [ha] at hnone
    cases hnone
  | some r =>
    obtain ⟨d', hd', hr⟩ := List.exists_of_findSome?_eq_some h
    obtain ⟨b, hb, rfl⟩ := Option.map_eq_some_iff.mp hr
    obtain rfl := hother d' hd' b hb
    rw [Option.some.inj (ha.symm.trans hb)]

theorem findDesc_eq_none {long : Bool} {opt : Token}
    (h : ∀ d ∈ desc, d.tokenArg long opt = none) : findDesc desc long opt = none := by
  apply List.findSome?_eq_none_iff.mpr
  intro d hd
  rw [h d hd]
  rfl

def OptName.isLong : OptName → Bool
  | short _ => false
  | long _ => true

def OptName.bareText : OptName → Token
  | short c => [c]
  | long name => name

theorem tokenOpt_text (hname : name.Plain) (a : Token) :
    tokenOpt (name.text ++ a) = some (name.isLong, name.bareText ++ a) := by
  cases name with
  | short c =>
    have hc : c ≠ '-' := hname
    simp [tokenOpt, OptName.text, OptName.isLong, OptName.bareText]
  | long name => rfl

theorem bareText_ne_nil (hname : name.Plain) (a : Token) : name.bareText ++ a ≠ [] := by
  cases name with
  | short c => exact List.cons_ne_nil c a
  | long name => exact List.append_ne_nil_of_left_ne_nil hname.1 a

theorem Written.Fits.rest (h : w.Fits name) :
    name.isLong = true → w.rest = [] ∨ w.rest.head? = some '=' := by
  intro hlong
  cases name with
  | short c => cases hlong
  | long name =>
    cases w with
    | bare => exact Or.inl rfl
    | attached v => exact h.elim
    | equals v => exact Or.inr rfl
    | next v => exact Or.inl rfl

theorem tokenArg_iff (hplain : ∀ n ∈ d.longs, '=' ∉ n) (hname : name.Plain) {a b : Token}
    (ha : name.isLong = true → a = [] ∨ a.head? = some '=') :
    d.tokenArg name.isLong (name.bareText ++ a) = some b ↔ d.HasName name ∧ b = a := by
  cases name with
  | short c =>
    simp only [AoptDesc.tokenArg, OptName.isLong, OptName.bareText, List.cons_append,
      List.nil_append, AoptDesc.shortArg, AoptDesc.HasName, Bool.false_eq_true, if_false]
    split
    · next hc => simp [hc, eq_comm]
    · next hc => simp [hc]
  | long n =>
    have ha := ha rfl
    simp only [AoptDesc.tokenArg, OptName.isLong, OptName.bareText, AoptDesc.HasName, if_true]
    constructor
    · exact longArg_cases hplain hname.2 ha
    · rintro ⟨hn, rfl⟩
      exact longArg_of_mem hplain hn ha

end Names

theorem takeArg_written (name : OptName) {d : AoptDesc} {w : Written} (h : w.Suits d)
    {after : List Token} (hafter : ∀ tok ∈ after.head?, tok.head? = some '-') :
    d.takeArg w.rest ((w.tokens name).tail ++ after).head? =
      some (w.value, decide ((w.tokens name).length = 2)) := by
  cases w with
  | bare =>
    have harg : d.arg = false := h
    cases after with
    | nil => simp [AoptDesc.takeArg, Written.rest, Written.tokens, Written.value, harg]
    | cons tok after =>
      have htok := hafter tok rfl
      simp [AoptDesc.takeArg, Written.rest, Written.tokens, Written.value, harg, htok]
  | attached v =>
    obtain ⟨harg, ⟨hv, -⟩, heq⟩ := h
    cases v with
    | nil => exact absurd rfl hv
    | cons c v =>
      have hc : c ≠ '=' := fun hc => heq (congrArg some hc)
      simp only [AoptDesc.takeArg, Written.rest, harg, if_true]
      split
      · next heq' => exact absurd (List.cons.inj heq').1 hc
      · next heq' => rw [← heq']; rfl
      · next heq' => cases heq'
  | equals v =>
    obtain ⟨harg, hv, -⟩ := h
    cases v with
    | nil => exact absurd rfl hv
    | cons c v => simp [AoptDesc.takeArg, Written.rest, harg, Written.tokens, Written.value]
  | next v =>
    obtain ⟨harg, -, hdash⟩ := h
    simp [AoptDesc.takeArg, Written.rest, harg, Written.tokens, Written.value, hdash]

namespace AoptScan
variable {desc : List AoptDesc} {s : AoptScan}

theorem scan_cons (tok : Token) (rest : List Token) (s : AoptScan) :
    scan desc (tok :: rest) s =
      scan desc (if (s.token desc tok rest.head?).2 then rest.tail else rest)
        (s.token desc tok rest.head?).1 := by
  rw [scan]
  split
  · next s' hs => rw [hs]; rfl
  · next s' hs =>
    rw [hs]
    cases rest <;> rfl

def add (s : AoptScan) (x : Piece) : AoptScan :=
  { s with argc := s.argc + x.width, objs := s.objs ++ x.object.toList }

theorem token_foreign {name : OptName} {a : Token} (hname : name.Plain)
    (hnone : findDesc desc name.isLong (name.bareText ++ a) = none) (next : Option Token) :
    s.token desc (name.text ++ a) next = (s, false) := by
  simp only [token, tokenOpt_text hname, bareText_ne_nil hname, if_false, hnone]
  split <;> rfl

theorem token_own {name : OptName} {a : Token} {d : AoptDesc} {next : Option Token}
    {arg : Option Token} {consumed : Bool} (hname : name.Plain) (hs : s.failed = false)
    (hfind : findDesc desc name.isLong (name.bareText ++ a) = some (d, a))
    (hrep : d.repeats = true ∨ ∀ o ∈ s.objs, o.key ≠ d.key)
    (harg : d.takeArg a next = some (arg, consumed)) :
    s.token desc (name.text ++ a) next =
      ({ s with argc := s.argc + if consumed then 2 else 1
                objs := s.objs ++ [⟨d.key, arg⟩] }, consumed) := by
  have honce : ¬ (d.repeats = false ∧ (s.objs.any fun o => o.key == d.key) = true) := by
    rintro ⟨hno, hany⟩
    rcases hrep with hyes | hnew
    · cases hno.symm.trans hyes
    · obtain ⟨o, ho, hkey⟩ := List.any_eq_true.mp hany
      exact hnew o ho (eq_of_beq hkey)
  simp only [token, tokenOpt_text hname, bareText_ne_nil hname, if_false, hs, Bool.false_eq_true,
    hfind, honce, harg]

variable (hd : AoptTable desc) (hdash : ∀ d ∈ desc, '-' ∉ d.shorts)
include hd hdash

theorem plain_of_hasName {d : AoptDesc} (hmem : d ∈ desc) {name : OptName}
    (h : d.HasName name) : name.Plain := by
  cases name with
  | short c =>
    intro hc
    exact hdash d hmem (hc ▸ h)
  | long name => exact hd.plain d hmem name h

omit hdash in
theorem hasName_unique {d d' : AoptDesc} (hmem : d ∈ desc) (hmem' : d' ∈ desc) {name : OptName}
    (h : d.HasName name) (h' : d'.HasName name) : d' = d := by
  cases name with
  | short c => exact owner_unique hd.shorts hmem hmem' h h'
  | long name => exact owner_unique hd.longs hmem hmem' h h'

theorem scan_piece {x : Piece} (hx : x.Legal desc) {after : List Token}
    (hafter : ∀ tok ∈ after.head?, tok.head? = some '-') (hs : s.failed = false)
    (hrep : ∀ d name w, x = .own d name w → d.repeats = true ∨ ∀ o ∈ s.objs, o.key ≠ d.key) :
    scan desc (x.tokens ++ after) s = scan desc after (s.add x) := by
  have hlongs : ∀ d ∈ desc, ∀ n ∈ d.longs, '=' ∉ n := fun d hd' n hn => (hd.plain d hd' n hn).2
  cases x with
  | foreign name w =>
    obtain ⟨hname, hnot, hfits, hsingle⟩ := hx
    have hnone : findDesc desc name.isLong (name.bareText ++ w.rest) = none := by
      apply findDesc_eq_none
      intro d hmem
      cases h : d.tokenArg name.isLong (name.bareText ++ w.rest) with
      | none => rfl
      | some b =>
        exact absurd ((tokenArg_iff (hlongs d hmem) hname hfits.rest).mp h).1 (hnot d hmem)
    have htokens : w.tokens name = [name.text ++ w.rest] := by
      cases w with
      | next v => exact hsingle.elim
      | bare | attached v | equals v => rfl
    rw [Piece.tokens, htokens, List.singleton_append, scan_cons, token_foreign hname hnone]
    simp [add, Piece.width, Piece.object]
  | own d name w =>
    obtain ⟨hmem, hhas, hfits, hsuits⟩ := hx
    have hname := plain_of_hasName hd hdash hmem hhas
    have hfind : findDesc desc name.isLong (name.bareText ++ w.rest) = some (d, w.rest) := by
      apply findDesc_eq_some hmem
      · exact (tokenArg_iff (hlongs d hmem) hname hfits.rest).mpr ⟨hhas, rfl⟩
      · intro d' hmem' b hb
        have hhas' := ((tokenArg_iff (hlongs d' hmem') hname hfits.rest).mp hb).1
        exact hasName_unique hd hmem hmem' hhas hhas'
    have htokens : w.tokens name = (name.text ++ w.rest) :: (w.tokens name).tail := by
      cases w with
      | next v => simp [Written.tokens, Written.rest]
      | bare | attached v | equals v => rfl
    have harg := takeArg_written name hsuits hafter
    rw [Piece.tokens, htokens, List.cons_append, scan_cons,
      token_own hname hs hfind (hrep d name w rfl) harg]
    cases w with
    | next v => simp [add, Piece.width, Piece.object, Written.tokens]
    | bare | attached v | equals v => simp [add, Piece.width, Piece.object, Written.tokens]

theorem scan_pieces (pre : List Piece) {pieces : List Piece} (hlegal : ∀ x ∈ pieces, x.Legal desc)
    (hrep : LegallyRepeated (pre ++ pieces)) (hs : s.failed = false)
    (hobjs : s.objs = pre.filterMap Piece.object) :
    scan desc (pieces.flatMap Piece.tokens) s =
      ⟨false, s.argc + (pieces.map Piece.width).sum, (pre ++ pieces).filterMap Piece.object⟩ := by
  induction pieces generalizing pre s with
  | nil =>
    cases s
    simp_all [scan]
  | cons x pieces ih =>
    have hafter : ∀ tok ∈ (pieces.flatMap Piece.tokens).head?, tok.head? = some '-' :=
      Piece.head_flatMap_tokens
    have hx : ∀ d name w, x = .own d name w →
        d.repeats = true ∨ ∀ o ∈ s.objs, o.key ≠ d.key := by
      rintro d name w rfl
      refine (hrep pre d name w pieces rfl).imp_right fun hnew o ho => ?_
      rw [hobjs] at ho
      obtain ⟨y, hy, hyo⟩ := List.mem_filterMap.mp ho
      exact Piece.key_ne_of_isOf (hnew y hy) hyo
    have hs' : (s.add x).failed = false := hs
    have hobjs' : (s.add x).objs = (pre ++ [x]).filterMap Piece.object := by
      rw [add, hobjs, List.filterMap_append]
      cases hobject : x.object <;> simp [hobject]
    rw [List.flatMap_cons, scan_piece hd hdash (hlegal x List.mem_cons_self) hafter hs hx,
      ih (pre ++ [x]) (fun y hy => hlegal y (List.mem_cons_of_mem x hy))
        (by rwa [List.append_assoc]) hs' hobjs']
    simp [add, Nat.add_assoc]

end AoptScan

/-! ## Parsing inverts printing -/

/-- What `aopt_init`, `aopt_check` and `aopt_value` are to give for a command line. -/
structure ReadBack (pieces : List Piece) (r : Option (List AoptObject) × Nat) : Prop where
  objects : r.1.getD [] = pieces.filterMap Piece.object
  argc : r.2 = (pieces.map Piece.width).sum
  check : ∀ key, aoptCheck r.1 key = pieces.countP (Piece.isOf key)
  value : ∀ key, aoptValue r.1 key = (pieces.find? (Piece.isOf key)).bind Piece.value

theorem Piece.any_object (x : Piece) (key : Nat) :
    (x.object.any fun o => o.key == key) = x.isOf key := by
  cases x <;> rfl

theorem Piece.arg_object (x : Piece) : x.object.bind AoptObject.arg = x.value := by
  cases x <;> rfl

theorem countP_objects (pieces : List Piece) (key : Nat) :
    ((pieces.filterMap Piece.object).countP fun o => o.key == key) =
      pieces.countP (Piece.isOf key) := by
  rw [List.countP_filterMap]
  apply List.countP_congr
  intro x hx
  cases x <;> rfl

theorem find?_objects (pieces : List Piece) (key : Nat) :
    ((pieces.filterMap Piece.object).find? fun o => o.key == key).bind AoptObject.arg =
      (pieces.find? (Piece.isOf key)).bind Piece.value := by
  rw [List.find?_filterMap, Option.bind_assoc]
  simp only [Piece.any_object, Piece.arg_object]

theorem readBack_of_eq {pieces : List Piece} {r : Option (List AoptObject) × Nat}
    (hobjects : r.1.getD [] = pieces.filterMap Piece.object)
    (hargc : r.2 = (pieces.map Piece.width).sum) : ReadBack pieces r where
  objects := hobjects
  argc := hargc
  check key := by rw [aoptCheck, hobjects, countP_objects]
  value key := by rw [aoptValue, hobjects, find?_objects]

theorem tokenOpt_isSome (name : OptName) (a : Token) :
    (tokenOpt (name.text ++ a)).isSome = true := by
  cases name with
  | short c =>
    by_cases hc : c = '-'
    · subst hc
      rfl
    · simp [tokenOpt, OptName.text]
  | long name => rfl

theorem aoptInit_pieces {pieces : List Piece} (hne : pieces ≠ []) (desc : List AoptDesc)
    {argc : Nat} (hargc : argc ≠ 0) :
    aoptInit argc (pieces.flatMap Piece.tokens) desc =
      let s := AoptScan.scan desc (pieces.flatMap Piece.tokens) ⟨false, 0, []⟩
      (if s.failed then none else some s.objs, s.argc) := by
  obtain ⟨x, rest, rfl⟩ := List.exists_cons_of_ne_nil hne
  obtain ⟨name, a, after, hx⟩ := x.tokens_eq_cons
  have htokens : (x :: rest).flatMap Piece.tokens =
      (name.text ++ a) :: (after ++ rest.flatMap Piece.tokens) := by
    rw [List.flatMap_cons, hx, List.cons_append]
  rw [htokens, aoptInit, if_neg hargc, if_neg, if_neg]
  · apply Nat.ne_of_gt
    apply List.countP_pos_iff.mpr
    exact ⟨name.text ++ a, List.mem_cons_self, tokenOpt_isSome name a⟩
  · rw [List.head?_cons, Option.any_some, Piece.head_text]
    decide

/-- The options of a table are read back from any command line they are written on, unless nothing
is: then `*argc` is left as it was. -/
theorem options_read_back_iff (desc : List AoptDesc) (hd : AoptTable desc)
    (hdash : ∀ d ∈ desc, '-' ∉ d.shorts) (pieces : List Piece)
    (hlegal : ∀ x ∈ pieces, x.Legal desc) (hrep : LegallyRepeated pieces) :
    ReadBack pieces (aoptInit ((pieces.flatMap Piece.tokens).length + 1)
      (pieces.flatMap Piece.tokens) desc) ↔ pieces ≠ [] := by
  constructor
  · rintro h rfl
    have hargc : 1 = 0 := h.argc
    cases hargc
  · intro hne
    rw [aoptInit_pieces hne desc (Nat.succ_ne_zero _),
      AoptScan.scan_pieces hd hdash [] hlegal hrep rfl rfl]
    apply readBack_of_eq
    · rfl
    · simp

section Example

/-- "-p", "--port", with an argument. -/
def portDesc : AoptDesc := ⟨112, false, true, false, ['p'], ["port".toList]⟩

theorem portTable : AoptTable [portDesc] where
  keys := by decide
  nonzero := by decide
  shorts := by decide
  longs := by decide
  plain := by decide

def msgSizeDesc : AoptDesc := ⟨109, false, true, false, ['m'], ["msg-size".toList]⟩

/-- "--tls", whose argument may be left out. -/
def tlsDesc : AoptDesc := ⟨300, false, false, true, [], ["tls".toList]⟩

theorem mixedTable : AoptTable [portDesc, msgSizeDesc, tlsDesc] where
  keys := by decide
  nonzero := by decide
  shorts := by decide
  longs := by decide
  plain := by decide

theorem legallyRepeated_of_nodup {pieces : List Piece}
    (h : ((pieces.filterMap Piece.object).map AoptObject.key).Nodup) : LegallyRepeated pieces := by
  rintro before d name w after rfl
  right
  intro x hx
  by_contra hsame
  rw [Bool.not_eq_false] at hsame
  rw [List.filterMap_append, List.map_append] at h
  have hkey : d.key ∈ (before.filterMap Piece.object).map AoptObject.key := by
    cases x with
    | own e name w =>
      rw [← show e.key = d.key from eq_of_beq hsame]
      have hobject : ⟨e.key, w.value⟩ ∈ before.filterMap Piece.object :=
        List.mem_filterMap.mpr ⟨_, hx, rfl⟩
      exact List.mem_map_of_mem hobject
    | foreign name w => cases hsame
  exact (List.disjoint_of_nodup_append h) hkey List.mem_cons_self

/-- "-p11111 --ip=10.0.0.1 --tls --msg-size 14", where "--ip" is an option of another table. -/
theorem options_read_back_port :
    ReadBack [.own portDesc (.short 'p') (.attached "11111".toList),
        .foreign (.long "ip".toList) (.equals "10.0.0.1".toList),
        .own tlsDesc (.long "tls".toList) .bare,
        .own msgSizeDesc (.long "msg-size".toList) (.next "14".toList)]
      (aoptInit 6 ["-p11111".toList, "--ip=10.0.0.1".toList, "--tls".toList,
        "--msg-size".toList, "14".toList] [portDesc, msgSizeDesc, tlsDesc]) := by
  refine (options_read_back_iff _ mixedTable (by decide) _ ?_
    (legallyRepeated_of_nodup (by decide))).mpr (List.cons_ne_nil _ _)
  intro x hx
  simp only [List.mem_cons, List.not_mem_nil, or_false] at hx
  rcases hx with rfl | rfl | rfl | rfl
  · exact ⟨by decide, List.mem_singleton_self 'p', trivial, rfl, ⟨by decide, by decide⟩, by decide⟩
  · exact ⟨⟨by decide, by decide⟩, show ∀ d ∈ [portDesc, msgSizeDesc, tlsDesc],
      "ip".toList ∉ d.longs by decide, trivial, trivial⟩
  · exact ⟨by decide, List.mem_singleton_self "tls".toList, trivial, rfl⟩
  · exact ⟨by decide, List.mem_singleton_self "msg-size".toList, trivial, rfl, by decide,
      by decide⟩

/-- Without a token nothing is written to `*argc`. -/
theorem no_tokens_miscounted :
    AoptTable [portDesc] ∧ LegallyRepeated [] ∧ aoptInit 1 [] [portDesc] = (none, 1) ∧
      ¬ ReadBack [] (aoptInit 1 [] [portDesc]) := by
  refine ⟨portTable, ?_, rfl, fun h => nomatch h.argc⟩
  intro before d name w after h
  cases before <;> cases h

end Example

end Sockperf
