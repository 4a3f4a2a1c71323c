import Mathlib.Algebra.BigOperators.Group.List.Basic
import Mathlib.Algebra.Order.BigOperators.Group.List
import Sockperf.Aopt

/-!
# The command line of a mode

Every mode reads the tokens after its name once for each of its option tables, and accepts them if
the passes have counted enough of them.
-/

namespace Sockperf

set_option autoImplicit false

/-! ## The tables -/

/-- The option keys that are not characters, in the order of the source. -/
inductive OptKey where
  | rxMcIf
  | txMcIf
  | selectTimeout
  | threadsNum
  | clientCycleDuration
  | bufferSize
  | dataIntegrity
  | daemonize
  | nonblocked
  | dontwarmup
  | prewarmupwait
  | rxfiltercb
  | zcopyread
  | socketxtreme
  | mcLoopbackEnable
  | clientWorkWithSrvNum
  | forceUcReply
  | mps
  | replyEvery
  | noRdtsc
  | senderAffinity
  | receiverAffinity
  | loadVma
  | fullLog
  | gigaSize
  | playbackData
  | tcp
  | tcpNodelayOff
  | nonblockedSend
  | ipMulticastTtl
  | sockAccl
  | threadsAffinity
  | dontReply
  | recvLooping
  | outputPrecision
  | clientport
  | clientaddr
  | tos
  | lls
  | mcSourceIp
  | dummySend
  | rateLimit
  | ucReuseaddr
  | fullRtt
  | ciSigLvl
  | histogram
  | loadXlio
  | tcpNbConnTimeoutMs
  | tls
  deriving DecidableEq, Repr

inductive ArgType where
  | noArg
  | arg
  | optArg
  deriving DecidableEq, Repr

/-- A line of an option table, without the help text. No option of the program may be
repeated. -/
structure OptLine where
  key : Nat
  type : ArgType
  shorts : List Char
  longs : List String
  deriving DecidableEq, Repr

def charOpt (key : Char) (type : ArgType) (shorts : List Char) (longs : List String) : OptLine :=
  ⟨key.toNat, type, shorts, longs⟩

def longOpt (key : OptKey) (type : ArgType) (longs : List String) : OptLine :=
  ⟨key.ctorIdx + 1, type, [], longs⟩

def OptLine.desc (l : OptLine) : AoptDesc :=
  ⟨l.key, false, l.type = .arg, l.type = .optArg, l.shorts, l.longs.map String.toList⟩

/-- `common_opt_desc`, with `--tls` if that is compiled in. -/
def commonOptDesc (tls : Bool) : List OptLine :=
  [charOpt 'h' .noArg ['h', '?'] ["help", "usage"],
    longOpt .tcp .noArg ["tcp", "stream"],
    charOpt 'i' .arg ['i'] ["addr", "ip"],
    charOpt 'p' .arg ['p'] ["port"],
    charOpt 'f' .arg ['f'] ["file"],
    charOpt 'F' .arg ['F'] ["iomux-type"],
    longOpt .selectTimeout .arg ["timeout"],
    charOpt 'a' .arg ['a'] ["activity"],
    charOpt 'A' .arg ['A'] ["Activity"],
    longOpt .tcpNodelayOff .noArg ["tcp-avoid-nodelay"],
    longOpt .nonblockedSend .noArg ["tcp-skip-blocking-send"],
    longOpt .tos .arg ["tos"],
    longOpt .rxMcIf .arg ["mc-rx-ip", "mc-rx-if"],
    longOpt .txMcIf .arg ["mc-tx-ip", "mc-tx-if"],
    longOpt .mcLoopbackEnable .noArg ["mc-loopback-enable"],
    longOpt .ipMulticastTtl .arg ["mc-ttl"],
    longOpt .mcSourceIp .arg ["mc-source-filter"],
    longOpt .ucReuseaddr .noArg ["uc-reuseaddr"],
    longOpt .lls .arg ["lls"],
    longOpt .bufferSize .arg ["buffer-size"],
    longOpt .nonblocked .noArg ["nonblocked"],
    longOpt .recvLooping .arg ["recv_looping_num"],
    longOpt .dontwarmup .noArg ["dontwarmup"],
    longOpt .prewarmupwait .arg ["pre-warmup-wait"],
    longOpt .zcopyread .noArg ["zcopyread"],
    longOpt .daemonize .noArg ["daemonize"],
    longOpt .noRdtsc .noArg ["no-rdtsc"],
    longOpt .loadVma .optArg ["load-vma"],
    longOpt .loadXlio .optArg ["load-xlio"],
    longOpt .rateLimit .arg ["rate-limit"],
    longOpt .sockAccl .noArg ["set-sock-accl"]] ++
  (if tls then [longOpt .tls .optArg ["tls"]] else []) ++
  [charOpt 'd' .noArg ['d'] ["debug"]]

def clientOptDesc : List OptLine :=
  [longOpt .senderAffinity .arg ["sender-affinity"],
    longOpt .receiverAffinity .arg ["receiver-affinity"],
    longOpt .fullLog .arg ["full-log"],
    longOpt .fullRtt .noArg ["full-rtt"],
    longOpt .gigaSize .noArg ["giga-size"],
    longOpt .outputPrecision .noArg ["increase_output_precision"],
    longOpt .tcpNbConnTimeoutMs .arg ["tcp_nb_connect_timeout_ms"],
    longOpt .dummySend .optArg ["dummy-send"]]

def underLoadOptDesc : List OptLine :=
  [charOpt 't' .arg ['t'] ["time"],
    longOpt .clientport .arg ["client_port"],
    longOpt .clientaddr .arg ["client_ip", "client_addr"],
    charOpt 'b' .arg ['b'] ["burst"],
    longOpt .replyEvery .arg ["reply-every"],
    longOpt .mps .arg ["mps"],
    longOpt .mps .arg ["pps"],
    charOpt 'm' .arg ['m'] ["msg-size"],
    charOpt 'r' .arg ['r'] ["range"],
    longOpt .ciSigLvl .optArg ["ci_sig_level"],
    longOpt .histogram .arg ["histogram"]]

def pingPongOptDesc : List OptLine :=
  [charOpt 't' .arg ['t'] ["time"],
    charOpt 'n' .arg ['n'] ["number-of-packets"],
    longOpt .clientport .arg ["client_port"],
    longOpt .clientaddr .arg ["client_ip", "client_addr"],
    charOpt 'b' .arg ['b'] ["burst"],
    longOpt .mps .arg ["mps"],
    longOpt .mps .arg ["pps"],
    charOpt 'm' .arg ['m'] ["msg-size"],
    charOpt 'r' .arg ['r'] ["range"],
    longOpt .dataIntegrity .noArg ["data-integrity"],
    longOpt .ciSigLvl .optArg ["ci_sig_level"],
    longOpt .histogram .arg ["histogram"]]

def throughputOptDesc : List OptLine :=
  [charOpt 't' .arg ['t'] ["time"],
    longOpt .clientport .arg ["client_port"],
    longOpt .clientaddr .arg ["client_ip", "client_addr"],
    charOpt 'b' .arg ['b'] ["burst"],
    longOpt .mps .arg ["mps"],
    longOpt .mps .arg ["pps"],
    charOpt 'm' .arg ['m'] ["msg-size"],
    charOpt 'r' .arg ['r'] ["range"]]

def playbackOptDesc : List OptLine :=
  [longOpt .replyEvery .arg ["reply-every"],
    longOpt .playbackData .arg ["data-file"],
    longOpt .ciSigLvl .optArg ["ci_sig_level"],
    longOpt .histogram .arg ["histogram"]]

def serverOptDesc : List OptLine :=
  [longOpt .threadsNum .arg ["threads-num"],
    longOpt .threadsAffinity .arg ["cpu-affinity"],
    longOpt .rxfiltercb .noArg ["rxfiltercb"],
    longOpt .forceUcReply .noArg ["force-unicast-reply"],
    longOpt .dontReply .noArg ["dont-reply"],
    charOpt 'm' .arg ['m'] ["msg-size"],
    charOpt 'g' .noArg ['g'] ["gap-detection"]]

inductive AppMode where
  | underLoad
  | pingPong
  | playback
  | throughput
  | server
  deriving DecidableEq, Repr

/-- The tables of a mode, in the order they are read. -/
def AppMode.lines (tls : Bool) : AppMode → List (List OptLine)
  | underLoad => [commonOptDesc tls, clientOptDesc, underLoadOptDesc]
  | pingPong => [commonOptDesc tls, clientOptDesc, pingPongOptDesc]
  | playback => [commonOptDesc tls, clientOptDesc, playbackOptDesc]
  | throughput => [commonOptDesc tls, clientOptDesc, throughputOptDesc]
  | server => [commonOptDesc tls, serverOptDesc]

def AppMode.tables (tls : Bool) (mode : AppMode) : List (List AoptDesc) :=
  (mode.lines tls).map (List.map OptLine.desc)

/-- `valid_argc`; the mode name is not one of the tokens. -/
def validArgc (tables : List (List AoptDesc)) (tokens : List Token) : Nat :=
  (tables.map fun desc => (aoptInit (tokens.length + 1) tokens desc).2).sum

/-- The test a mode makes: not `valid_argc < argc - 1`. -/
def Accepted (tables : List (List AoptDesc)) (tokens : List Token) : Prop :=
  ¬ validArgc tables tokens < tokens.length

instance (tables : List (List AoptDesc)) (tokens : List Token) :
    Decidable (Accepted tables tokens) :=
  inferInstanceAs (Decidable (¬ _))

/-! ## Tokens that are accounted for -/

namespace AoptDesc
variable (d : AoptDesc)

/-- The token is a name of the option with `a` behind it. -/
def Spells (tok a : Token) : Prop :=
  (∃ c ∈ d.shorts, c ≠ '-' ∧ tok = '-' :: c :: a) ∨
    ∃ name ∈ d.longs, tok = '-' :: '-' :: (name ++ a) ∧ (a = [] ∨ a.head? = some '=')

/-- What may stand behind the name if no other token is the argument. -/
def LegalArg (a : Token) : Prop :=
  if (d.arg || d.optarg) = true then a ≠ [] ∨ d.arg = false else a = []

end AoptDesc

/-- `tok` spells an option of one of the tables only. -/
structure RecognisedOnce (tables : List (List AoptDesc)) (tok : Token) (d : AoptDesc) (a : Token) :
    Prop where
  spells : d.Spells tok a
  once : ∃ before desc after, tables = before ++ desc :: after ∧ d ∈ desc ∧
    ∀ desc' ∈ before ++ after, ∀ d' ∈ desc', ∀ a', ¬ d'.Spells tok a'

/-- Every token is an option that one table knows, with a legal argument, or the argument of the
option before it. -/
inductive Explained (tables : List (List AoptDesc)) : List Token → Prop
  | nil : Explained tables []
  | option {tok : Token} {rest : List Token} {d : AoptDesc} {a : Token}
      (known : RecognisedOnce tables tok d a) (legal : d.LegalArg a)
      (others : Explained tables rest) : Explained tables (tok :: rest)
  | value {tok v : Token} {rest : List Token} {d : AoptDesc}
      (known : RecognisedOnce tables tok d []) (takes : (d.arg || d.optarg) = true)
      (plain : v.head? ≠ some '-') (others : Explained tables rest) :
      Explained tables (tok :: v :: rest)

structure Separate (desc desc' : List AoptDesc) : Prop where
  shorts : ∀ d ∈ desc, ∀ d' ∈ desc', d.shorts.Disjoint d'.shorts
  longs : ∀ d ∈ desc, ∀ d' ∈ desc', d.longs.Disjoint d'.longs

def PlainNames (desc : List AoptDesc) : Prop := ∀ d ∈ desc, ∀ name ∈ d.longs, '=' ∉ name

theorem Separate.symm {desc desc' : List AoptDesc} (h : Separate desc desc') :
    Separate desc' desc where
  shorts d hd d' hd' _ hx hx' := h.shorts d' hd' d hd hx' hx
  longs d hd d' hd' _ hx hx' := h.longs d' hd' d hd hx' hx

theorem Separate.spells {desc desc' : List AoptDesc} (h : Separate desc desc')
    (hplain : PlainNames desc) (hplain' : PlainNames desc') {d d' : AoptDesc} (hd : d ∈ desc)
    (hd' : d' ∈ desc') {tok a a' : Token} (hs : d.Spells tok a) : ¬ d'.Spells tok a' := by
  intro hs'
  rcases hs with ⟨c, hc, hdash, rfl⟩ | ⟨name, hname, rfl, ha⟩
  · rcases hs' with ⟨c', hc', -, heq⟩ | ⟨name', -, heq, -⟩
    · obtain ⟨rfl, -⟩ := List.cons.inj (List.cons.inj heq).2
      exact h.shorts d hd d' hd' hc hc'
    · exact hdash (List.cons.inj (List.cons.inj heq).2).1
  · rcases hs' with ⟨c', hc', hdash, heq⟩ | ⟨name', hname', heq, ha'⟩
    · exact hdash (List.cons.inj (List.cons.inj heq).2).1.symm
    · have heq' : name ++ a = name' ++ a' := (List.cons.inj (List.cons.inj heq).2).2
      have hsame : name = name' := by
        rw [← takeWhile_name (hplain d hd name hname) ha, heq',
          takeWhile_name (hplain' d' hd' name' hname') ha']
      exact h.longs d hd d' hd' hname (hsame ▸ hname')

/-! ## What the passes count -/

section Passes
variable {desc : List AoptDesc} {tok : Token} {next : Option Token} {s : AoptScan}

theorem spells_of_tokenArg {d : AoptDesc} {long : Bool} {opt a : Token}
    (htok : tokenOpt tok = some (long, opt)) (h : d.tokenArg long opt = some a) :
    d.Spells tok a := by
  unfold tokenOpt at htok
  split at htok
  · next opt' =>
    cases htok
    obtain ⟨name, hname, hb⟩ := List.exists_of_findSome?_eq_some h
    split at hb
    · next hmatch =>
      obtain ⟨⟨b, rfl⟩, hend⟩ := hmatch
      rw [List.drop_left] at hend hb
      obtain rfl := Option.some.inj hb
      exact Or.inr ⟨name, hname, rfl, hend⟩
    · cases hb
  · next c opt' hdash =>
    cases htok
    simp only [AoptDesc.tokenArg, Bool.false_eq_true, if_false, AoptDesc.shortArg] at h
    split at h
    · next hc =>
      obtain rfl := Option.some.inj h
      refine Or.inl ⟨c, hc, ?_, rfl⟩
      rintro rfl
      exact hdash rfl
    · cases h
  · cases htok

inductive TokenOutcome (desc : List AoptDesc) (tok : Token) (next : Option Token) (s : AoptScan) :
    AoptScan × Bool → Prop
  | passed {s' : AoptScan} (argc : s'.argc = s.argc) : TokenOutcome desc tok next s (s', false)
  | taken {s' : AoptScan} {d : AoptDesc} {a : Token} {arg : Option Token} {consumed : Bool}
      (known : d ∈ desc) (spells : d.Spells tok a) (takes : d.takeArg a next = some (arg, consumed))
      (argc : s'.argc = s.argc + if consumed then 2 else 1) :
      TokenOutcome desc tok next s (s', consumed)

variable (desc tok next s) in
theorem AoptScan.token_outcome : TokenOutcome desc tok next s (s.token desc tok next) := by
  unfold token
  split
  · exact .passed rfl
  · next long opt htok =>
    split
    · exact .passed rfl
    split
    · exact .passed rfl
    split
    · exact .passed rfl
    next d a hfind =>
    split
    · exact .passed rfl
    split
    · exact .passed rfl
    next arg consumed htakes =>
    obtain ⟨d', hd', hr⟩ := List.exists_of_findSome?_eq_some hfind
    obtain ⟨a', ha', heq⟩ := Option.map_eq_some_iff.mp hr
    cases heq
    exact .taken hd' (spells_of_tokenArg htok ha') htakes rfl

theorem takeArg_next {d : AoptDesc} {a : Token} {arg : Option Token}
    (h : d.takeArg a next = some (arg, true)) :
    a = [] ∧ (d.arg || d.optarg) = true ∧ ∃ v, next = some v ∧ v.head? ≠ some '-' := by
  unfold AoptDesc.takeArg at h
  split at h
  · next htakes =>
    split at h
    · cases h
    · cases h
    · split at h
      · next v =>
        split at h
        · next hv => exact ⟨rfl, htakes, v, rfl, hv⟩
        · split at h <;> cases h
      · split at h <;> cases h
  · split at h <;> cases h

theorem legalArg_of_takeArg {d : AoptDesc} {a : Token} {arg : Option Token}
    (h : d.takeArg a next = some (arg, false)) : d.LegalArg a := by
  unfold AoptDesc.takeArg at h
  unfold AoptDesc.LegalArg
  split at h
  · next htakes =>
    rw [if_pos htakes]
    split at h
    · exact Or.inl (List.cons_ne_nil _ _)
    · exact Or.inl (List.cons_ne_nil _ _)
    · right
      cases harg : d.arg with
      | false => rfl
      | true =>
        simp only [harg, if_true] at h
        split at h
        · split at h <;> cases h
        · cases h
  · next htakes =>
    rw [if_neg htakes]
    split at h
    · assumption
    · cases h

theorem AoptScan.scan_value {v : Token} (hv : v.head? ≠ some '-') (rest : List Token) :
    scan desc (v :: rest) s = scan desc rest s := by
  have hnone : tokenOpt v = none := by
    unfold tokenOpt
    split
    · exact absurd rfl hv
    · exact absurd rfl hv
    · rfl
  rw [scan_cons]
  simp only [token, hnone, Bool.false_eq_true, if_false]

def countAll (ps : List (List AoptDesc × AoptScan)) : Nat := (ps.map fun p => p.2.argc).sum

def scanAll (tokens : List Token) (ps : List (List AoptDesc × AoptScan)) :
    List (List AoptDesc × AoptScan) :=
  ps.map fun p => (p.1, AoptScan.scan p.1 tokens p.2)

def tokenAll (tok : Token) (next : Option Token) (ps : List (List AoptDesc × AoptScan)) :
    List (List AoptDesc × AoptScan) :=
  ps.map fun p => (p.1, (p.2.token p.1 tok next).1)

def PassesOver (tok : Token) (next : Option Token) (p : List AoptDesc × AoptScan) : Prop :=
  (p.2.token p.1 tok next).1.argc = p.2.argc ∧ (p.2.token p.1 tok next).2 = false

theorem passesOver_of_not_spells {p : List AoptDesc × AoptScan}
    (h : ∀ d ∈ p.1, ∀ a, ¬ d.Spells tok a) : PassesOver tok next p := by
  unfold PassesOver
  have hout := AoptScan.token_outcome p.1 tok next p.2
  generalize p.2.token p.1 tok next = r at hout
  cases hout with
  | passed hargc => exact ⟨hargc, rfl⟩
  | taken hd hs _ _ => exact absurd hs (h _ hd _)

theorem countAll_passesOver {ps : List (List AoptDesc × AoptScan)}
    (h : ∀ p ∈ ps, PassesOver tok next p) : countAll (tokenAll tok next ps) = countAll ps := by
  unfold countAll tokenAll
  rw [List.map_map]
  congr 1
  apply List.map_congr_left
  intro p hp
  exact (h p hp).1

variable (tok next) in
theorem tokenAll_tables (ps : List (List AoptDesc × AoptScan)) :
    (tokenAll tok next ps).map Prod.fst = ps.map Prod.fst := by
  unfold tokenAll
  rw [List.map_map]
  rfl

structure TablesApart (tables : List (List AoptDesc)) : Prop where
  separate : tables.Pairwise Separate
  plain : ∀ desc ∈ tables, PlainNames desc

theorem TablesApart.others {tables before after : List (List AoptDesc)} (h : TablesApart tables)
    (hsplit : tables = before ++ desc :: after) {d : AoptDesc} (hd : d ∈ desc) {a : Token}
    (hs : d.Spells tok a) : ∀ desc' ∈ before ++ after, ∀ d' ∈ desc', ∀ a', ¬ d'.Spells tok a' := by
  subst hsplit
  obtain ⟨hsep, hplain⟩ := h
  obtain ⟨-, hafter, hbefore⟩ := List.pairwise_append.mp hsep
  have hdesc := hplain desc (List.mem_append_right _ List.mem_cons_self)
  intro desc' hmem d' hd' a'
  rcases List.mem_append.mp hmem with hleft | hright
  · have hsep' := (hbefore desc' hleft desc List.mem_cons_self).symm
    exact hsep'.spells hdesc (hplain desc' (List.mem_append_left _ hleft)) hd hd' hs
  · have hsep' := (List.pairwise_cons.mp hafter).1 desc' hright
    have hright' := List.mem_append_right before (List.mem_cons_of_mem desc hright)
    exact hsep'.spells hdesc (hplain desc' hright') hd hd' hs

structure TakenBy (ps : List (List AoptDesc × AoptScan)) (tok : Token) (next : Option Token)
    (d : AoptDesc) (a : Token) (consumed : Bool) : Prop where
  known : RecognisedOnce (ps.map Prod.fst) tok d a
  takes : ∃ arg, d.takeArg a next = some (arg, consumed)
  count : countAll (tokenAll tok next ps) = countAll ps + if consumed then 2 else 1
  others : ∀ p ∈ ps, PassesOver tok next p ∨ (p.2.token p.1 tok next).2 = consumed

theorem TablesApart.token {ps : List (List AoptDesc × AoptScan)}
    (h : TablesApart (ps.map Prod.fst)) (tok : Token) (next : Option Token) :
    (∀ p ∈ ps, PassesOver tok next p) ∨ ∃ d a consumed, TakenBy ps tok next d a consumed := by
  by_cases hall : ∀ p ∈ ps, PassesOver tok next p
  · exact Or.inl hall
  right
  push Not at hall
  obtain ⟨p, hp, htaken⟩ := hall
  obtain ⟨before, after, rfl⟩ := List.append_of_mem hp
  have hsplit : (before ++ p :: after).map Prod.fst =
      before.map Prod.fst ++ p.1 :: after.map Prod.fst := by
    rw [List.map_append, List.map_cons]
  cases hout : p.2.token p.1 tok next with
  | mk s' consumed =>
  have houtcome := AoptScan.token_outcome p.1 tok next p.2
  rw [hout] at houtcome
  cases houtcome with
  | passed hargc =>
    unfold PassesOver at htaken
    rw [hout] at htaken
    exact absurd ⟨hargc, rfl⟩ htaken
  | @taken _ d a arg _ hd hs htakes hargc =>
    have hspells := h.others hsplit hd hs
    have hother : ∀ q ∈ before ++ after, PassesOver tok next q := by
      intro q hq
      apply passesOver_of_not_spells
      apply hspells
      rw [← List.map_append]
      exact List.mem_map_of_mem hq
    refine ⟨d, a, consumed, ⟨hs, _, _, _, hsplit, hd, hspells⟩, ⟨arg, htakes⟩, ?_, ?_⟩
    · have hb := countAll_passesOver fun q hq => hother q (List.mem_append_left after hq)
      have ha := countAll_passesOver fun q hq => hother q (List.mem_append_right before hq)
      simp only [countAll, tokenAll, List.map_append, List.map_cons, List.sum_append,
        List.sum_cons] at hb ha ⊢
      rw [hb, ha, hout]
      dsimp only
      rw [hargc]
      omega
    · intro q hq
      rcases List.mem_append.mp hq with hleft | hright
      · exact Or.inl (hother q (List.mem_append_left after hleft))
      · rcases List.mem_cons.mp hright with rfl | hright
        · exact Or.inr (congrArg Prod.snd hout)
        · exact Or.inl (hother q (List.mem_append_right before hright))

theorem scanAll_cons {ps : List (List AoptDesc × AoptScan)} {rest : List Token}
    (h : ∀ p ∈ ps, (p.2.token p.1 tok rest.head?).2 = false) :
    scanAll (tok :: rest) ps = scanAll rest (tokenAll tok rest.head? ps) := by
  unfold scanAll tokenAll
  rw [List.map_map]
  apply List.map_congr_left
  intro p hp
  rw [AoptScan.scan_cons, h p hp]
  rfl

/-- A token that is the argument of the one before is passed over by the other passes. -/
theorem scanAll_cons_value {ps : List (List AoptDesc × AoptScan)} {v : Token} {rest : List Token}
    (hv : v.head? ≠ some '-') :
    scanAll (tok :: v :: rest) ps = scanAll rest (tokenAll tok (some v) ps) := by
  unfold scanAll tokenAll
  rw [List.map_map]
  apply List.map_congr_left
  intro p hp
  rw [AoptScan.scan_cons, List.head?_cons, List.tail_cons]
  split
  · rfl
  · rw [AoptScan.scan_value hv]
    rfl

/-- The passes together count a token once at most, and all of them only if all are accounted
for. -/
theorem countAll_scanAll (tokens : List Token) (ps : List (List AoptDesc × AoptScan))
    (h : TablesApart (ps.map Prod.fst)) :
    countAll (scanAll tokens ps) ≤ countAll ps + tokens.length ∧
      (countAll (scanAll tokens ps) = countAll ps + tokens.length →
        Explained (ps.map Prod.fst) tokens) := by
  match tokens with
  | [] =>
    have hsame : scanAll [] ps = ps := List.map_id' ps
    rw [hsame]
    exact ⟨Nat.le_add_right _ _, fun _ => .nil⟩
  | tok :: rest =>
    have htables := tokenAll_tables tok rest.head? ps
    have hapart : TablesApart ((tokenAll tok rest.head? ps).map Prod.fst) := htables.symm ▸ h
    rcases h.token tok rest.head? with hover | ⟨d, a, consumed, htaken⟩
    · obtain ⟨hle, -⟩ := countAll_scanAll rest (tokenAll tok rest.head? ps) hapart
      rw [countAll_passesOver hover] at hle
      rw [scanAll_cons fun p hp => (hover p hp).2, List.length_cons]
      exact ⟨by omega, fun heq => by omega⟩
    · have hcount := htaken.count
      obtain ⟨arg, htakes⟩ := htaken.takes
      cases consumed with
      | false =>
        rw [if_neg Bool.false_ne_true] at hcount
        obtain ⟨hle, hall⟩ := countAll_scanAll rest (tokenAll tok rest.head? ps) hapart
        rw [hcount] at hle hall
        rw [htables] at hall
        rw [scanAll_cons fun p hp => (htaken.others p hp).elim And.right id, List.length_cons]
        refine ⟨by omega, fun heq => ?_⟩
        exact .option htaken.known (legalArg_of_takeArg htakes) (hall (by omega))
      | true =>
        rw [if_pos rfl] at hcount
        obtain ⟨rfl, htakes', v, hnext, hv⟩ := takeArg_next htakes
        obtain ⟨rest, rfl⟩ : ∃ rest', rest = v :: rest' := by
          cases rest with
          | nil => cases hnext
          | cons w rest => exact ⟨rest, by rw [Option.some.inj hnext]⟩
        obtain ⟨hle, hall⟩ := countAll_scanAll rest (tokenAll tok (some v) ps) hapart
        rw [List.head?_cons] at hcount htables
        rw [hcount] at hle hall
        rw [htables] at hall
        rw [scanAll_cons_value hv, List.length_cons, List.length_cons]
        refine ⟨by omega, fun heq => ?_⟩
        exact .value htaken.known htakes' hv (hall (by omega))
termination_by tokens.length

end Passes

/-! ## What is accepted -/

/-- Only "-" and tokens that are no options: no pass looks at them. -/
def Unchecked (tokens : List Token) : Prop :=
  tokens.head? = some ['-'] ∧ ∀ tok ∈ tokens, tokenOpt tok = none

section Acceptance
variable {tables : List (List AoptDesc)} {tokens : List Token}

theorem not_spells_dash (d : AoptDesc) (a : Token) : ¬ d.Spells ['-'] a := by
  rintro (⟨c, -, -, h⟩ | ⟨name, -, h, -⟩)
  · cases h
  · cases h

theorem Unchecked.not_explained (h : Unchecked tokens) : ¬ Explained tables tokens := by
  intro hex
  cases hex with
  | nil => cases h.1
  | option hknown _ _ =>
    obtain rfl := Option.some.inj h.1
    exact not_spells_dash _ _ hknown.spells
  | value hknown _ _ _ =>
    obtain rfl := Option.some.inj h.1
    exact not_spells_dash _ _ hknown.spells

theorem aoptInit_unchecked (h : Unchecked tokens) (desc : List AoptDesc) :
    (aoptInit (tokens.length + 1) tokens desc).2 = tokens.length + 1 := by
  have hcount : tokens.countP (fun tok => (tokenOpt tok).isSome) = 0 := by
    rw [List.countP_eq_zero]
    intro tok htok
    rw [h.2 tok htok]
    exact Bool.false_ne_true
  rw [aoptInit, if_neg (Nat.succ_ne_zero _), h.1, if_neg (by decide), if_pos hcount]

theorem Unchecked.accepted (h : Unchecked tokens) (hne : tables ≠ []) :
    Accepted tables tokens := by
  obtain ⟨desc, rest, rfl⟩ := List.exists_cons_of_ne_nil hne
  unfold Accepted validArgc
  rw [List.map_cons, List.sum_cons, aoptInit_unchecked h]
  omega

theorem eq_dash_of_tokenOpt {tok : Token} (hdash : tok.head? = some '-')
    (h : tokenOpt tok = none) : tok = ['-'] := by
  cases tok with
  | nil => cases hdash
  | cons c tok =>
    obtain rfl : c = '-' := Option.some.inj hdash
    cases tok with
    | nil => rfl
    | cons c tok =>
      unfold tokenOpt at h
      split at h
      · cases h
      · cases h
      · next hno => exact absurd rfl (hno c tok)

theorem explained_of_accepted (htables : TablesApart tables) (hchecked : ¬ Unchecked tokens)
    (h : Accepted tables tokens) : Explained tables tokens := by
  unfold Accepted validArgc at h
  by_cases hhead : (tokens.head?.any fun tok => tok.head? != some '-') = true
  · -- no pass counts anything
    have hzero : ∀ desc, (aoptInit (tokens.length + 1) tokens desc).2 = 0 := by
      intro desc
      rw [aoptInit, if_neg (Nat.succ_ne_zero _), if_pos hhead]
    rw [List.sum_eq_zero (by simp [hzero])] at h
    obtain rfl := List.length_eq_zero_iff.mp (Nat.eq_zero_of_not_pos h)
    exact .nil
  by_cases hcount : tokens.countP (fun tok => (tokenOpt tok).isSome) = 0
  · cases tokens with
    | nil => exact .nil
    | cons tok rest =>
      have hnone : ∀ t ∈ tok :: rest, tokenOpt t = none := by
        intro t ht
        exact Option.not_isSome_iff_eq_none.mp (List.countP_eq_zero.mp hcount t ht)
      have hdash : tok.head? = some '-' := by simpa using hhead
      refine absurd ⟨?_, hnone⟩ hchecked
      rw [List.head?_cons, eq_dash_of_tokenOpt hdash (hnone tok List.mem_cons_self)]
  · let ps := tables.map fun desc => (desc, (⟨false, 0, []⟩ : AoptScan))
    have hfst : ps.map Prod.fst = tables := by
      simp only [ps, List.map_map]
      exact List.map_id' tables
    have hscan : (tables.map fun desc => (aoptInit (tokens.length + 1) tokens desc).2).sum =
        countAll (scanAll tokens ps) := by
      simp only [countAll, scanAll, ps, List.map_map]
      congr 1
      apply List.map_congr_left
      intro desc _
      rw [aoptInit, if_neg (Nat.succ_ne_zero _), if_neg hhead, if_neg hcount]
      rfl
    have hzero : countAll ps = 0 := by
      apply List.sum_eq_zero
      simp [ps]
    obtain ⟨hle, hall⟩ := countAll_scanAll tokens ps (hfst.symm ▸ htables)
    rw [hscan] at h
    rw [hfst] at hall
    exact hall (by omega)

theorem accepted_explained_iff_checked (htables : TablesApart tables) (hne : tables ≠ []) :
    (Accepted tables tokens → Explained tables tokens) ↔ ¬ Unchecked tokens := by
  constructor
  · intro h hunchecked
    exact hunchecked.not_explained (h (hunchecked.accepted hne))
  · exact explained_of_accepted htables

end Acceptance

/-! ## The modes -/

structure NamesApart (ls ls' : List OptLine) : Prop where
  shorts : ∀ c ∈ ls.flatMap OptLine.shorts, c ∉ ls'.flatMap OptLine.shorts
  longs : ∀ n ∈ ls.flatMap OptLine.longs, n ∉ ls'.flatMap OptLine.longs

theorem NamesApart.separate {ls ls' : List OptLine} (h : NamesApart ls ls') :
    Separate (ls.map OptLine.desc) (ls'.map OptLine.desc) where
  shorts d hd d' hd' c hc hc' := by
    obtain ⟨l, hl, rfl⟩ := List.mem_map.mp hd
    obtain ⟨l', hl', rfl⟩ := List.mem_map.mp hd'
    exact h.shorts c (List.mem_flatMap_of_mem hl hc) (List.mem_flatMap_of_mem hl' hc')
  longs d hd d' hd' n hn hn' := by
    obtain ⟨l, hl, rfl⟩ := List.mem_map.mp hd
    obtain ⟨l', hl', rfl⟩ := List.mem_map.mp hd'
    obtain ⟨name, hname, rfl⟩ := List.mem_map.mp hn
    obtain ⟨name', hname', heq⟩ := List.mem_map.mp hn'
    obtain rfl := String.toList_injective heq
    exact h.longs name' (List.mem_flatMap_of_mem hl hname) (List.mem_flatMap_of_mem hl' hname')

theorem commonOptDesc_subset (tls : Bool) : commonOptDesc tls ⊆ commonOptDesc true := by
  cases tls with
  | true => exact fun _ => id
  | false =>
    intro l hl
    simp only [commonOptDesc, Bool.false_eq_true, if_false, if_true, List.append_nil] at hl ⊢
    rcases List.mem_append.mp hl with hl | hl
    · exact List.mem_append_left _ (List.mem_append_left _ hl)
    · exact List.mem_append_right _ hl

theorem NamesApart.common {ls : List OptLine} (h : NamesApart (commonOptDesc true) ls)
    (tls : Bool) : NamesApart (commonOptDesc tls) ls := by
  have hsub := commonOptDesc_subset tls
  refine ⟨fun c hc => ?_, fun n hn => ?_⟩
  · obtain ⟨l, hl, hcl⟩ := List.mem_flatMap.mp hc
    exact h.shorts c (List.mem_flatMap_of_mem (hsub hl) hcl)
  · obtain ⟨l, hl, hnl⟩ := List.mem_flatMap.mp hn
    exact h.longs n (List.mem_flatMap_of_mem (hsub hl) hnl)

def namesDisjoint (ls ls' : List OptLine) : Bool :=
  (ls.flatMap OptLine.shorts).all (fun c => !(ls'.flatMap OptLine.shorts).elem c) &&
    (ls.flatMap OptLine.longs).all fun n => !(ls'.flatMap OptLine.longs).elem n

theorem NamesApart.of_namesDisjoint {ls ls' : List OptLine} (h : namesDisjoint ls ls' = true) :
    NamesApart ls ls' := by
  obtain ⟨hshorts, hlongs⟩ := (Bool.and_eq_true _ _).mp h
  refine ⟨fun c hc hc' => ?_, fun n hn hn' => ?_⟩
  · have hnot := List.all_eq_true.mp hshorts c hc
    rw [List.elem_iff.mpr hc'] at hnot
    cases hnot
  · have hnot := List.all_eq_true.mp hlongs n hn
    rw [List.elem_iff.mpr hn'] at hnot
    cases hnot

theorem common_apart : ∀ ls ∈ [clientOptDesc, underLoadOptDesc, pingPongOptDesc, playbackOptDesc,
    throughputOptDesc, serverOptDesc], NamesApart (commonOptDesc true) ls := by
  have hcheck : [clientOptDesc, underLoadOptDesc, pingPongOptDesc, playbackOptDesc,
      throughputOptDesc, serverOptDesc].all (namesDisjoint (commonOptDesc true)) = true := by
    decide +kernel
  exact fun ls hls => .of_namesDisjoint (List.all_eq_true.mp hcheck ls hls)

theorem client_apart : ∀ ls ∈ [underLoadOptDesc, pingPongOptDesc, playbackOptDesc,
    throughputOptDesc], NamesApart clientOptDesc ls := by
  have hcheck : [underLoadOptDesc, pingPongOptDesc, playbackOptDesc, throughputOptDesc].all
      (namesDisjoint clientOptDesc) = true := by
    decide +kernel
  exact fun ls hls => .of_namesDisjoint (List.all_eq_true.mp hcheck ls hls)

def allLines : List OptLine :=
  commonOptDesc true ++ clientOptDesc ++ underLoadOptDesc ++ pingPongOptDesc ++ playbackOptDesc ++
    throughputOptDesc ++ serverOptDesc

theorem plain_names : ∀ l ∈ allLines, ∀ n ∈ l.longs, '=' ∉ n.toList := by
  decide +kernel

theorem mem_allLines {mode : AppMode} {tls : Bool} {ls : List OptLine} (hls : ls ∈ mode.lines tls)
    {l : OptLine} (hl : l ∈ ls) : l ∈ allLines := by
  simp only [allLines, List.mem_append]
  cases mode with
  | server =>
    rcases List.mem_pair.mp hls with rfl | rfl
    · simp only [commonOptDesc_subset tls hl, true_or]
    · simp only [hl, or_true]
  | underLoad | pingPong | playback | throughput =>
    simp only [AppMode.lines, List.mem_cons, List.not_mem_nil, or_false] at hls
    rcases hls with rfl | rfl | rfl
    · simp only [commonOptDesc_subset tls hl, true_or]
    · simp only [hl, true_or, or_true]
    · simp only [hl, true_or, or_true]

theorem lines_apart (mode : AppMode) (tls : Bool) : (mode.lines tls).Pairwise NamesApart := by
  have hcommon := fun ls hls => (common_apart ls hls).common tls
  cases mode with
  | server =>
    apply List.pairwise_pair.mpr
    exact hcommon _ (by simp)
  | underLoad | pingPong | playback | throughput =>
    simp only [AppMode.lines, List.pairwise_cons, List.mem_cons, List.not_mem_nil, or_false,
      forall_eq_or_imp, forall_eq, List.Pairwise.nil, and_true, IsEmpty.forall_iff, implies_true]
    exact ⟨⟨hcommon _ (by simp), hcommon _ (by simp)⟩, client_apart _ (by simp)⟩

theorem AppMode.tablesApart (mode : AppMode) (tls : Bool) : TablesApart (mode.tables tls) where
  separate := by
    unfold tables
    rw [List.pairwise_map]
    exact (lines_apart mode tls).imp NamesApart.separate
  plain desc hdesc d hd name hname := by
    obtain ⟨ls, hls, rfl⟩ := List.mem_map.mp hdesc
    obtain ⟨l, hl, rfl⟩ := List.mem_map.mp hd
    obtain ⟨n, hn, rfl⟩ := List.mem_map.mp hname
    exact plain_names l (mem_allLines hls hl) n hn

/-- In every mode, what is accepted is accounted for, unless it is "-" with no option behind. -/
theorem accepted_tokens_explained_iff (mode : AppMode) (tls : Bool) (tokens : List Token) :
    (Accepted (mode.tables tls) tokens → Explained (mode.tables tls) tokens) ↔
      ¬ Unchecked tokens := by
  apply accepted_explained_iff_checked (mode.tablesApart tls)
  cases mode <;> exact List.cons_ne_nil _ _

/-- "sockperf server - 8192" is accepted; nothing looks at the two tokens. -/
theorem tokens_ignored :
    Accepted (AppMode.server.tables false) ["-".toList, "8192".toList] ∧
      ¬ Explained (AppMode.server.tables false) ["-".toList, "8192".toList] := by
  have hunchecked : Unchecked ["-".toList, "8192".toList] := ⟨by decide, by decide⟩
  exact ⟨hunchecked.accepted (List.cons_ne_nil _ _), hunchecked.not_explained⟩

end Sockperf
