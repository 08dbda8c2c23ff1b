import Wirecat.Coherence

/-!
# The order of the options

Options may be given in any order: as long as none of them is given twice, under one spelling or
another, and no two of them contradict each other, every arrangement of them is accepted with the
same configuration, or refused (`Wirecat.wcatParseArgs_perm`).

Every option either refuses its argument, whatever was set before, or sets something, and what it
sets does not depend on what was set before either (`Wirecat.OptionGroup.set_eq`). The settings are
listed by `Wirecat.OptionSetting`, with the two families as the values of one setting and the two
ways to verify a certificate as the values of another; settings of different kinds commute
(`Wirecat.OptionSetting.apply_comm`), although several of them turn on TLS. A scan of the options is
the fold of what they set (`Wirecat.parseOptions_groups`), and the fold of a list whose members
commute does not depend on their order.

What comes behind the options is read by index. The scan has moved by the same number of entries,
whichever came first, and the vectors agree from there on (`Wirecat.SameBehind`).
-/

namespace Wirecat

open CString

variable {argv argv' : List Bytes} {cfg : Config}

/-! ### What the options set -/

/-- What an option sets. -/
inductive OptionSetting
  | udp | keepOpen | multi | verbose | json | hex | chat | unixSocket | sctp | vsock | tls | quic
  | pty | requireClientCert
  | family (f : Family)
  | tlsVerify (b : Bool)
  | timeout (t : ℤ)
  | cert (v : Bytes)
  | key (v : Bytes)
  | clientCert (v : Bytes)
  | clientKey (v : Bytes)
  | caFile (v : Bytes)
  | sni (v : Bytes)
  | alpn (v : Bytes)
  | proxy (v : Bytes)
  | exec (v : Bytes)
  | maxClients (n : ℤ)
  | brokerBuffer (n : ℤ)
  | allow (v : Bytes)
  | deny (v : Bytes)

namespace OptionSetting

/-- The configuration after a setting. -/
def apply : OptionSetting → Config → Config
  | udp, cfg => { cfg with udp := true }
  | keepOpen, cfg => { cfg with keepOpen := true }
  | multi, cfg => { cfg with multi := true }
  | verbose, cfg => { cfg with verbose := true }
  | json, cfg => { cfg with json := true }
  | hex, cfg => { cfg with hex := true }
  | chat, cfg => { cfg with chat := true }
  | unixSocket, cfg => { cfg with unixSocket := true }
  | sctp, cfg => { cfg with sctp := true }
  | vsock, cfg => { cfg with vsock := true }
  | tls, cfg => { cfg with tls := true }
  | quic, cfg => { cfg with quic := true, tls := true }
  | pty, cfg => { cfg with pty := true }
  | requireClientCert, cfg => { cfg with tls := true, tlsRequireClientCert := true }
  | family f, cfg => { cfg with family := f }
  | tlsVerify b, cfg => { cfg with tls := true, tlsVerify := b }
  | timeout t, cfg => { cfg with timeoutMs := t }
  | cert v, cfg => { cfg with certFile := some v }
  | key v, cfg => { cfg with keyFile := some v }
  | clientCert v, cfg => { cfg with clientCertFile := some v, tls := true }
  | clientKey v, cfg => { cfg with clientKeyFile := some v, tls := true }
  | caFile v, cfg => { cfg with caFile := some v }
  | sni v, cfg => { cfg with sni := some v }
  | alpn v, cfg => { cfg with alpn := v }
  | proxy v, cfg => { cfg with proxyUrl := some v }
  | exec v, cfg => { cfg with execPath := some v }
  | maxClients n, cfg => { cfg with brokerMaxClients := n }
  | brokerBuffer n, cfg => { cfg with brokerBufferBytes := n }
  | allow v, cfg => { cfg with allowList := some v }
  | deny v, cfg => { cfg with denyList := some v }

/-- The spellings of the options for a setting, whatever its value. -/
def words : OptionSetting → List String
  | udp => ["-u", "--udp"]
  | keepOpen => ["-k", "--keep-open"]
  | multi => ["--multi"]
  | verbose => ["-v", "--verbose"]
  | json => ["--json"]
  | hex => ["--hex"]
  | chat => ["--chat"]
  | unixSocket => ["-U", "--unix"]
  | sctp => ["--sctp"]
  | vsock => ["--vsock"]
  | tls => ["--tls"]
  | quic => ["--quic"]
  | pty => ["--pty"]
  | requireClientCert => ["--require-client-cert"]
  | family _ => ["-4", "-6"]
  | tlsVerify _ => ["--tls-insecure", "--tls-verify"]
  | timeout _ => ["--timeout"]
  | cert _ => ["--cert"]
  | key _ => ["--key"]
  | clientCert _ => ["--client-cert"]
  | clientKey _ => ["--client-key"]
  | caFile _ => ["--ca-file"]
  | sni _ => ["--sni"]
  | alpn _ => ["--alpn"]
  | proxy _ => ["--proxy"]
  | exec _ => ["--exec"]
  | maxClients _ => ["--max-clients"]
  | brokerBuffer _ => ["--broker-buffer"]
  | allow _ => ["--allow"]
  | deny _ => ["--deny"]

/-- **Settings of different kinds commute**: they set different fields, or both turn on TLS. -/
theorem apply_comm {s t : OptionSetting} (hne : s.words ≠ t.words) (cfg : Config) :
    t.apply (s.apply cfg) = s.apply (t.apply cfg) := by
  cases s <;> cases t <;> first | rfl | exact absurd rfl hne

end OptionSetting

/-! ### Groups -/

/-- **An option group**: an option, by one of its spellings, and its argument if it takes one. -/
inductive OptionGroup
  /-- An option that stands alone. -/
  | flag (row : List String × (Config → Config)) (hrow : row ∈ flagTable) (word : String)
      (hword : word ∈ row.1)
  /-- An option and its argument. -/
  | value (row : String × (Bytes → Config → Option Config)) (hrow : row ∈ valueTable) (v : Bytes)

namespace OptionGroup

/-- The spelling of the option. -/
def name : OptionGroup → String
  | flag _ _ word _ => word
  | value row _ _ => row.1

/-- The entries of the vector. -/
def args : OptionGroup → List Bytes
  | flag _ _ word _ => [lit word]
  | value row _ v => [lit row.1, v]

/-- What the option sets, `none` when its argument is refused. -/
def set : OptionGroup → Config → Option Config
  | flag row _ _ _, cfg => some (row.2 cfg)
  | value row _ v, cfg => row.2 v cfg

end OptionGroup

/-- The spellings that may not occur together: those of one option, and those that contradict each
other. -/
def synonyms : List (List String) :=
  flagTable.map (·.1) ++ valueTable.map (fun row => [row.1]) ++
    [["-4", "-6"], ["--tls-insecure", "--tls-verify"]]

/-- **A clash**: two spellings of one option, or of two that contradict each other. -/
def Clash (w w' : String) : Prop := ∃ c ∈ synonyms, w ∈ c ∧ w' ∈ c

instance (w w' : String) : Decidable (Clash w w') :=
  inferInstanceAs (Decidable (∃ c ∈ synonyms, w ∈ c ∧ w' ∈ c))

theorem OptionSetting.words_mem (s : OptionSetting) : s.words ∈ synonyms := by
  cases s <;> simp only [words] <;> decide +kernel

/-- Options whose spellings do not clash are for settings of different kinds. -/
theorem words_ne_of_not_clash {w w' : String} {s t : OptionSetting} (hw : w ∈ s.words)
    (hw' : w' ∈ t.words) (hn : ¬Clash w w') : s.words ≠ t.words := by
  intro heq
  exact hn ⟨s.words, s.words_mem, hw, heq ▸ hw'⟩

/-- **An option settles**: it is refused, or makes one setting for its spelling, whatever the
configuration is. -/
def Settles (w : String) (f : Config → Option Config) : Prop :=
  (∀ cfg, f cfg = none) ∨ ∃ s : OptionSetting, w ∈ s.words ∧ ∀ cfg, f cfg = some (s.apply cfg)

section
variable {w : String}

theorem settles_apply (s : OptionSetting) (hw : w ∈ s.words) :
    Settles w fun cfg => some (s.apply cfg) := .inr ⟨s, hw, fun _ => rfl⟩

/-- An option with a number. -/
theorem settles_map (n : Option ℤ) (s : ℤ → OptionSetting) (hw : ∀ n, w ∈ (s n).words) :
    Settles w fun cfg => n.map fun n => (s n).apply cfg := by
  cases n with
  | none => exact .inl fun _ => rfl
  | some n => exact settles_apply (s n) (hw n)

end

theorem settles_flagTable {row : List String × (Config → Config)} (hrow : row ∈ flagTable)
    {w : String} (hw : w ∈ row.1) : Settles w fun cfg => some (row.2 cfg) := by
  -- the spelling of one of two options that contradict each other
  have hleft : ∀ {a b : String}, w ∈ [a] → w ∈ [a, b] := fun h => by simp_all
  have hright : ∀ {a b : String}, w ∈ [b] → w ∈ [a, b] := fun h => by simp_all
  simp only [flagTable, List.mem_cons, List.not_mem_nil, or_false] at hrow
  rcases hrow with rfl | rfl | rfl | rfl | rfl | rfl | rfl | rfl | rfl | rfl | rfl | rfl | rfl |
    rfl | rfl | rfl | rfl | rfl
  exacts [settles_apply .udp hw, settles_apply (.family .inet) (hleft hw),
    settles_apply (.family .inet6) (hright hw), settles_apply .keepOpen hw,
    settles_apply .multi hw, settles_apply .verbose hw, settles_apply .json hw,
    settles_apply .hex hw, settles_apply .chat hw, settles_apply .unixSocket hw,
    settles_apply .sctp hw, settles_apply .vsock hw, settles_apply .tls hw,
    settles_apply .quic hw, settles_apply (.tlsVerify false) (hleft hw),
    settles_apply (.tlsVerify true) (hright hw), settles_apply .pty hw,
    settles_apply .requireClientCert hw]

theorem settles_valueTable {row : String × (Bytes → Config → Option Config)}
    (hrow : row ∈ valueTable) (v : Bytes) : Settles row.1 (row.2 v) := by
  have hself : ∀ {w : String}, w ∈ [w] := List.mem_singleton_self _
  simp only [valueTable, List.mem_cons, List.not_mem_nil, or_false] at hrow
  rcases hrow with rfl | rfl | rfl | rfl | rfl | rfl | rfl | rfl | rfl | rfl | rfl | rfl | rfl | rfl
  case inr.inr.inr.inr.inr.inr.inr.inl =>
    by_cases hlen : v.length = 0 ∨ 255 < v.length
    · exact .inl fun cfg => if_pos hlen
    · exact .inr ⟨.alpn v, hself, fun cfg => if_neg hlen⟩
  exacts [settles_map _ .timeout fun _ => hself, settles_apply (.cert v) hself,
    settles_apply (.key v) hself, settles_apply (.clientCert v) hself,
    settles_apply (.clientKey v) hself, settles_apply (.caFile v) hself,
    settles_apply (.sni v) hself, settles_apply (.proxy v) hself, settles_apply (.exec v) hself,
    settles_map _ .maxClients fun _ => hself, settles_map _ .brokerBuffer fun _ => hself,
    settles_apply (.allow v) hself, settles_apply (.deny v) hself]

namespace OptionGroup

/-- **Every group settles.** -/
theorem settles (g : OptionGroup) : Settles g.name g.set := by
  cases g with
  | flag row hrow word hword => exact settles_flagTable hrow hword
  | value row hrow v => exact settles_valueTable hrow v

/-- Groups commute: one may come before the other. -/
def Commute (g g' : OptionGroup) : Prop :=
  ∀ cfg : Option Config, (cfg.bind g.set).bind g'.set = (cfg.bind g'.set).bind g.set

instance : Std.Symm Commute := ⟨fun _ _ hc cfg => (hc cfg).symm⟩

/-- **Groups that do not clash commute**, also when one of them is refused. -/
theorem commute_of_not_clash {g g' : OptionGroup} (hn : ¬Clash g.name g'.name) : Commute g g' := by
  rintro (_ | cfg)
  · rfl
  simp only [Option.bind_some]
  rcases g.settles with hg | ⟨s, hs, hg⟩ <;> rcases g'.settles with hg' | ⟨t, ht, hg'⟩
  · simp [hg, hg']
  · simp [hg, hg']
  · simp [hg, hg']
  · simp only [hg, hg', Option.bind_some]
    rw [OptionSetting.apply_comm (words_ne_of_not_clash hs ht hn)]

/-- What the groups set, one after the other. -/
def setAll (gs : List OptionGroup) (cfg : Option Config) : Option Config :=
  gs.foldl (fun cfg g => cfg.bind g.set) cfg

/-- **The groups set the same in every order.** -/
theorem setAll_perm {gs gs' : List OptionGroup} (hp : gs.Perm gs')
    (hn : gs.Pairwise fun g g' => ¬Clash g.name g'.name) (cfg : Option Config) :
    setAll gs cfg = setAll gs' cfg := by
  have hcommute : ∀ ⦃g⦄, g ∈ gs → ∀ ⦃g'⦄, g' ∈ gs → Commute g g' :=
    (hn.imp commute_of_not_clash).forall_of_forall fun _ _ _ => rfl
  exact hp.foldl_eq' (fun g hg g' hg' cfg => hcommute hg hg' cfg) cfg

theorem setAll_none (gs : List OptionGroup) : setAll gs none = none := by
  induction gs with
  | nil => rfl
  | cons g gs ih => exact ih

end OptionGroup

/-! ### The scan of a list of groups -/

/-- The first element that is found, where no two are found together. -/
theorem find?_eq_some_of_pairwise {α : Type} {p : α → Bool} {l : List α} {a : α}
    (hl : l.Pairwise fun a b => ¬(p a = true ∧ p b = true)) (ha : a ∈ l) (hp : p a = true) :
    l.find? p = some a := by
  induction hl with
  | nil => cases ha
  | cons hb _ ih =>
    rw [List.find?_cons]
    rcases List.mem_cons.mp ha with rfl | ha
    · rw [hp]
    · rw [Bool.eq_false_iff.mpr fun hb' => hb _ ha ⟨hb', hp⟩]
      exact ih ha

/-- The row of a flag: no spelling is in two rows. -/
theorem flagTable_find {row : List String × (Config → Config)} (hrow : row ∈ flagTable)
    {w : String} (hw : w ∈ row.1) :
    (flagTable.find? fun row => row.1.any fun s => lit w = lit s) = some row := by
  have hdistinct : flagTable.Pairwise fun row row' => ∀ s ∈ row.1, ∀ t ∈ row'.1, lit s ≠ lit t := by
    decide +kernel
  refine find?_eq_some_of_pairwise (hdistinct.imp fun hd => ?_) hrow ?_
  · simp only [List.any_eq_true, decide_eq_true_eq]
    rintro ⟨⟨s, hs, heq⟩, t, ht, heq'⟩
    exact hd s hs t ht (heq.symm.trans heq')
  · exact List.any_eq_true.mpr ⟨w, hw, by simp⟩

/-- The row of an option with an argument: its spelling is no flag, and in no other row. -/
theorem valueTable_find {row : String × (Bytes → Config → Option Config)} (hrow : row ∈ valueTable) :
    (flagTable.find? fun r => r.1.any fun s => lit row.1 = lit s) = none ∧
      (valueTable.find? fun r => lit row.1 = lit r.1) = some row := by
  have hflags : ∀ row ∈ valueTable, ∀ r ∈ flagTable, ∀ s ∈ r.1, lit row.1 ≠ lit s := by
    decide +kernel
  have hdistinct : valueTable.Pairwise fun row row' => lit row.1 ≠ lit row'.1 := by
    decide +kernel
  constructor
  · simpa [List.find?_eq_none] using hflags row hrow
  · refine find?_eq_some_of_pairwise (hdistinct.imp fun hd => ?_) hrow (by simp)
    simp only [decide_eq_true_eq]
    rintro ⟨heq, heq'⟩
    exact hd (heq.symm.trans heq')

/-- An option is one: it starts with a dash, and is neither `-` nor `--`. -/
theorem OptionGroup.isOption (g : OptionGroup) :
    (lit g.name).head? = some (chr '-') ∧ lit g.name ≠ lit "-" ∧ lit g.name ≠ lit "--" := by
  have hflags : ∀ r ∈ flagTable, ∀ w ∈ r.1,
      (lit w).head? = some (chr '-') ∧ lit w ≠ lit "-" ∧ lit w ≠ lit "--" := by
    decide +kernel
  have hvalues : ∀ r ∈ valueTable,
      (lit r.1).head? = some (chr '-') ∧ lit r.1 ≠ lit "-" ∧ lit r.1 ≠ lit "--" := by
    decide +kernel
  cases g with
  | flag row hrow word hword => exact hflags row hrow word hword
  | value row hrow v => exact hvalues row hrow

/-- Reading the entry behind the others. -/
theorem arg_append_bind {pre post : List Bytes} {a : Bytes} {α : Type}
    (f : Bytes → Except ParseError α) : (arg (pre ++ a :: post) pre.length >>= f) = f a := by
  simp [arg, bind, Except.bind]

/-- What an option is read as, and the index of the last entry used. -/
theorem parseCommon_group (pre post : List Bytes) (g : OptionGroup) (cfg : Config) :
    parseCommon (pre ++ (g.args ++ post)) pre.length cfg =
      match g.set cfg with
      | some c => .ok (pre.length + g.args.length - 1, c)
      | none => .error .invalid := by
  cases g with
  | flag row hrow word hword =>
    change (arg (pre ++ lit word :: post) pre.length >>= _) = _
    rw [arg_append_bind, flagTable_find hrow hword]
    rfl
  | value row hrow v =>
    obtain ⟨hflag, hvalue⟩ := valueTable_find hrow
    simp only [OptionGroup.args, OptionGroup.set, List.cons_append, List.nil_append]
    rw [parseCommon, arg_append_bind, hflag, hvalue]
    have hmore : ¬(pre ++ lit row.1 :: v :: post).length ≤ pre.length + 1 := by
      simp only [List.length_append, List.length_cons]
      omega
    have hread := fun f : Bytes → Except ParseError (ℕ × Config) =>
      @arg_append_bind (pre ++ [lit row.1]) post v _ f
    simp only [List.append_assoc, List.singleton_append, List.length_append,
      List.length_singleton] at hread
    simp only [if_neg hmore, hread]
    rfl

/-- **One round of the scan reads one group.** -/
theorem parseOptions_group (pre post : List Bytes) (g : OptionGroup) (fuel : ℕ) (cfg : Config) :
    parseOptions (pre ++ (g.args ++ post)) (fuel + 1) pre.length cfg =
      match g.set cfg with
      | some c => parseOptions (pre ++ (g.args ++ post)) fuel (pre ++ g.args).length c
      | none => .error .invalid := by
  obtain ⟨hdash, hne, hne'⟩ := g.isOption
  have hargs : ∃ rest, g.args = lit g.name :: rest := by
    cases g <;> exact ⟨_, rfl⟩
  obtain ⟨rest, hargs⟩ := hargs
  have hlt : pre.length < (pre ++ (g.args ++ post)).length := by
    simp only [hargs, List.length_append, List.length_cons]
    omega
  rw [parseOptions, if_pos hlt, parseCommon_group]
  rw [hargs, List.cons_append, arg_append_bind, if_neg (by simp [hdash, hne]), if_neg hne']
  cases g.set cfg with
  | none => rfl
  | some c =>
    change parseOptions _ fuel (pre.length + (lit g.name :: rest).length - 1 + 1) c = _
    rw [List.length_append, Nat.sub_add_cancel (by simp only [List.length_cons]; omega)]

/-- **The scan of a list of groups** is the fold of what they set. -/
theorem parseOptions_groups (pre post : List Bytes) (gs : List OptionGroup) (fuel : ℕ)
    (cfg : Config) :
    parseOptions (pre ++ (gs.flatMap OptionGroup.args ++ post)) (gs.length + fuel) pre.length cfg =
      match OptionGroup.setAll gs (some cfg) with
      | some c => parseOptions (pre ++ (gs.flatMap OptionGroup.args ++ post)) fuel
          (pre ++ gs.flatMap OptionGroup.args).length c
      | none => .error .invalid := by
  induction gs generalizing pre cfg with
  | nil => simp [OptionGroup.setAll]
  | cons g gs ih =>
    rw [List.flatMap_cons, List.append_assoc, List.length_cons, Nat.add_right_comm,
      parseOptions_group]
    change _ = match OptionGroup.setAll gs (g.set cfg) with | some c => _ | none => _
    cases g.set cfg with
    | none => rw [OptionGroup.setAll_none]
    | some c =>
      have hgs := ih (pre ++ g.args) c
      rw [List.append_assoc] at hgs
      exact hgs.trans (by rw [List.append_assoc pre])

/-! ### What comes behind the options -/

/-- **Two vectors that agree** from an entry on. -/
def SameBehind (argv argv' : List Bytes) (idx : ℕ) : Prop :=
  argv.length = argv'.length ∧ ∀ k, idx ≤ k → arg argv k = arg argv' k

theorem sameBehind_append {pre pre' : List Bytes} (hlen : pre.length = pre'.length)
    (post : List Bytes) : SameBehind (pre ++ post) (pre' ++ post) pre.length := by
  refine ⟨by simp [hlen], fun k hk => ?_⟩
  rw [arg, arg, List.getElem?_append_right hk, List.getElem?_append_right (hlen ▸ hk), hlen]

theorem SameBehind.mono {idx idx' : ℕ} (ha : SameBehind argv argv' idx) (hle : idx ≤ idx') :
    SameBehind argv argv' idx' := ⟨ha.1, fun k hk => ha.2 k (hle.trans hk)⟩

theorem SameBehind.parseOperands_eq {i : ℕ} (ha : SameBehind argv argv' i) (cfg : Config) :
    parseOperands argv i cfg = parseOperands argv' i cfg := by
  obtain ⟨hlen, harg⟩ := ha
  simp only [parseOperands, hlen, harg i le_rfl, harg (i + 1) (Nat.le_add_right i 1),
    harg (i + 2) (Nat.le_add_right i 2)]

theorem SameBehind.parseCommon_eq {idx : ℕ} (ha : SameBehind argv argv' idx) (cfg : Config) :
    parseCommon argv idx cfg = parseCommon argv' idx cfg := by
  obtain ⟨hlen, harg⟩ := ha
  simp only [parseCommon, hlen, harg idx le_rfl, harg (idx + 1) (Nat.le_add_right idx 1)]

/-- The options from an entry on, and then the operands. -/
def optionsOperands (argv : List Bytes) (fuel idx : ℕ) (cfg : Config) : Except ParseError Config :=
  parseOptions argv fuel idx cfg >>= fun r => parseOperands argv r.1 r.2

/-- **What is read from where the vectors agree** is the same. -/
theorem SameBehind.optionsOperands_eq {idx fuel : ℕ} (ha : SameBehind argv argv' idx) (cfg : Config) :
    optionsOperands argv fuel idx cfg = optionsOperands argv' fuel idx cfg := by
  induction fuel generalizing idx cfg with
  | zero =>
    simp only [optionsOperands, parseOptions, ha.1]
    split_ifs
    · rfl
    · exact ha.parseOperands_eq cfg
  | succ fuel ih =>
    simp only [optionsOperands] at ih ⊢
    rw [parseOptions, parseOptions, ha.1, ha.2 idx le_rfl, ha.parseCommon_eq]
    by_cases hlt : idx < argv'.length
    · rw [if_pos hlt, if_pos hlt]
      cases arg argv' idx with
      | error e => rfl
      | ok a =>
        simp only [bind, Except.bind]
        split_ifs
        · exact ha.parseOperands_eq cfg
        · exact (ha.mono (Nat.le_succ idx)).parseOperands_eq cfg
        · -- an option does not move the index back
          have hread := parses_parseCommon hlt cfg
          cases hcommon : parseCommon argv' idx cfg with
          | error e => rfl
          | ok r =>
            rw [hcommon] at hread
            exact ih (ha.mono (Nat.le_succ_of_le hread.1)) r.2
    · rw [if_neg hlt, if_neg hlt]
      exact ha.parseOperands_eq cfg

/-! ### The command line -/

/-- A command line: the name of the program, the subcommand, the option groups, and the rest. -/
def commandLine (prog sub : Bytes) (gs : List OptionGroup) (positional : List Bytes) : List Bytes :=
  [prog, sub] ++ (gs.flatMap OptionGroup.args ++ positional)

section
variable (prog sub : Bytes) (gs : List OptionGroup) (positional : List Bytes)

/-- What is made of the arguments behind the subcommand. -/
theorem wcatParseArgs_commandLine : wcatParseArgs (commandLine prog sub gs positional) =
    if sub = lit "-h" ∨ sub = lit "--help" then .error .help
    else match parseMode sub with
      | none => .error .invalid
      | some mode =>
          optionsOperands (commandLine prog sub gs positional)
              (commandLine prog sub gs positional).length 2 { wcatConfigInit with mode } >>= fun cfg =>
            if refused cfg then .error .invalid else .ok cfg := by
  have hlen : ¬(commandLine prog sub gs positional).length < 2 := by
    rw [commandLine, List.length_append]
    exact Nat.not_lt.mpr (Nat.le_add_right 2 _)
  rw [wcatParseArgs, if_neg hlen]
  change (if sub = lit "-h" ∨ sub = lit "--help" then _ else _) = _
  congr 1
  cases parseMode sub with
  | none => rfl
  | some mode =>
    dsimp only
    rw [optionsOperands, bind_assoc]

/-- The groups are read first, one round for each. -/
theorem optionsOperands_commandLine (cfg : Config) :
    optionsOperands (commandLine prog sub gs positional)
        (commandLine prog sub gs positional).length 2 cfg =
      match OptionGroup.setAll gs (some cfg) with
      | some c =>
          optionsOperands (commandLine prog sub gs positional)
            ((commandLine prog sub gs positional).length - gs.length)
            ([prog, sub] ++ gs.flatMap OptionGroup.args).length c
      | none => .error .invalid := by
  have hlen : gs.length ≤ (commandLine prog sub gs positional).length := by
    have hargs : gs.length ≤ (gs.flatMap OptionGroup.args).length := by
      induction gs with
      | nil => exact le_rfl
      | cons g gs ih =>
        rw [List.flatMap_cons, List.length_append, List.length_cons]
        cases g <;> simp only [OptionGroup.args, List.length_cons, List.length_nil] <;> omega
    simp only [commandLine, List.length_append]
    omega
  have hscan := parseOptions_groups [prog, sub] positional gs
    ((commandLine prog sub gs positional).length - gs.length) cfg
  rw [Nat.add_sub_cancel' hlen] at hscan
  refine (congrArg (· >>= _) hscan).trans ?_
  cases OptionGroup.setAll gs (some cfg) <;> rfl

end

/-- **The order of the options does not matter**: arranged in another way, options that do not clash
give the same configuration, or are refused as before. -/
theorem wcatParseArgs_perm (prog sub : Bytes) {gs gs' : List OptionGroup} (positional : List Bytes)
    (hp : gs.Perm gs') (hn : gs.Pairwise fun g g' => ¬Clash g.name g'.name) :
    wcatParseArgs (commandLine prog sub gs positional) =
      wcatParseArgs (commandLine prog sub gs' positional) := by
  have hargs : (gs.flatMap OptionGroup.args).length = (gs'.flatMap OptionGroup.args).length :=
    (hp.flatMap_right _).length_eq
  have hagree := @sameBehind_append ([prog, sub] ++ gs.flatMap OptionGroup.args)
    ([prog, sub] ++ gs'.flatMap OptionGroup.args) (by simp [hargs]) positional
  rw [List.append_assoc, List.append_assoc] at hagree
  have hread : ∀ cfg, optionsOperands (commandLine prog sub gs positional)
      (commandLine prog sub gs positional).length 2 cfg =
        optionsOperands (commandLine prog sub gs' positional)
          (commandLine prog sub gs' positional).length 2 cfg := by
    intro cfg
    rw [optionsOperands_commandLine, optionsOperands_commandLine, OptionGroup.setAll_perm hp hn]
    cases OptionGroup.setAll gs' (some cfg) with
    | none => rfl
    | some c =>
      have hlen : ([prog, sub] ++ gs'.flatMap OptionGroup.args).length =
          ([prog, sub] ++ gs.flatMap OptionGroup.args).length := by
        rw [List.length_append, List.length_append, hargs]
      have hfuel := hagree.1
      dsimp only
      rw [hlen, ← hp.length_eq, ← show (commandLine prog sub gs positional).length =
        (commandLine prog sub gs' positional).length from hfuel]
      exact hagree.optionsOperands_eq c
  rw [wcatParseArgs_commandLine, wcatParseArgs_commandLine]
  congr 1
  cases parseMode sub with
  | none => rfl
  | some mode => exact congrArg (· >>= _) (hread _)

/-- Two options that both turn on TLS. -/
theorem wcatParseArgs_quic_sni :
    wcatParseArgs (["wcat", "connect", "--quic", "--sni", "a", "::1", "80"].map lit) =
      wcatParseArgs (["wcat", "connect", "--sni", "a", "--quic", "::1", "80"].map lit) := by
  let quic : OptionGroup := .flag (["--quic"], fun cfg => { cfg with quic := true, tls := true })
    (by simp [flagTable]) "--quic" (by simp)
  let sni : OptionGroup := .value ("--sni", fun v cfg => some { cfg with sni := some v })
    (by simp [valueTable]) (lit "a")
  have hn : ¬Clash quic.name sni.name := by
    show ¬Clash "--quic" "--sni"
    decide +kernel
  exact wcatParseArgs_perm (lit "wcat") (lit "connect") (["::1", "80"].map lit)
    (List.Perm.swap sni quic []) (by simp [hn])

end Wirecat
