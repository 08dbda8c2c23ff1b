import Wirecat.Cli

/-!
# What a command line asks for

The scan of the options goes from one entry to the next, or over the argument of an option to
the one behind it. So which entries of a vector are options, and which are operands, is decided by the
vector alone (`Wirecat.optionsOf`, `Wirecat.operandsOf`): what the configuration is while it is
scanned does not matter, as long as nothing is refused.

A flag that one row of the table sets, and nothing clears, is then set exactly when one of the spellings
of that row is among the options (`Wirecat.Raised.eq_asked`). This is how a statement about an
accepted configuration is turned into one about the words of the operator.
-/

namespace Wirecat

open CString

variable {argv : List Bytes} {cfg cfg' : Config}

/-! ### Options and operands -/

/-- Whether an entry is read as an option where one may stand. -/
def readsOption (a : Bytes) : Bool := a.head? = some (chr '-') && a ≠ lit "-" && a ≠ lit "--"

/-- Whether an option takes the entry behind it. -/
def takesNext (a : Bytes) : Bool := valueTable.any fun row => a = lit row.1

/-- **The options of a command line**, of the entries from where the options begin. -/
def optionsOf : List Bytes → List Bytes
  | [] => []
  | [a] => if readsOption a then [a] else []
  | a :: v :: rest =>
      if readsOption a then a :: (if takesNext a then optionsOf rest else optionsOf (v :: rest))
      else []

/-- **The operands of a command line**: what is behind the options, and behind `--`. -/
def operandsOf : List Bytes → List Bytes
  | [] => []
  | [a] => if readsOption a ∨ a = lit "--" then [] else [a]
  | a :: v :: rest =>
      if readsOption a then if takesNext a then operandsOf rest else operandsOf (v :: rest)
      else if a = lit "--" then v :: rest else a :: v :: rest

/-- Whether one of the spellings is among the options. -/
def AmongOptions (words : List String) (entries : List Bytes) : Bool :=
  (optionsOf entries).any fun a => words.any fun w => a = lit w

/-- The mode that is named first. -/
def modeOf (argv : List Bytes) : Option Mode := argv[1]?.bind parseMode

/-! ### What a round reads -/

theorem optionsOf_of_not {a : Bytes} {rest : List Bytes} (ha : readsOption a = false) :
    optionsOf (a :: rest) = [] := by
  cases rest <;> simp [optionsOf, ha]

theorem operandsOf_of_not {a : Bytes} {rest : List Bytes} (ha : readsOption a = false) :
    operandsOf (a :: rest) = if a = lit "--" then rest else a :: rest := by
  cases rest <;> simp [operandsOf, ha]

/-- An option that stands alone. -/
theorem optionsOf_flag {a : Bytes} {rest : List Bytes} (ha : readsOption a = true)
    (ht : takesNext a = false) :
    optionsOf (a :: rest) = a :: optionsOf rest ∧ operandsOf (a :: rest) = operandsOf rest := by
  cases rest <;> simp [optionsOf, operandsOf, ha, ht]

/-- An option and its argument. -/
theorem optionsOf_value {a v : Bytes} {rest : List Bytes} (ha : readsOption a = true)
    (ht : takesNext a = true) :
    optionsOf (a :: v :: rest) = a :: optionsOf rest ∧
      operandsOf (a :: v :: rest) = operandsOf rest := by
  simp [optionsOf, operandsOf, ha, ht]

/-- No option of the first table takes an argument. -/
theorem takesNext_of_flag {row : List String × (Config → Config)} (hrow : row ∈ flagTable) {w : String}
    (hw : w ∈ row.1) : takesNext (lit w) = false := by
  have hall : ∀ row ∈ flagTable.map Prod.fst, ∀ w ∈ row, takesNext (lit w) = false := by decide +kernel
  exact hall _ (List.mem_map_of_mem hrow) w hw

theorem takesNext_of_value {row : String × (Bytes → Config → Option Config)} (hrow : row ∈ valueTable) :
    takesNext (lit row.1) = true :=
  List.any_eq_true.mpr ⟨row, hrow, by simp⟩

theorem drop_of_getElem? {k : ℕ} {a : Bytes} (ha : argv[k]? = some a) :
    argv.drop k = a :: argv.drop (k + 1) := by
  obtain ⟨hk, rfl⟩ := List.getElem?_eq_some_iff.mp ha
  exact List.drop_eq_getElem_cons hk

theorem arg_eq_ok {k : ℕ} {a : Bytes} : arg argv k = .ok a ↔ argv[k]? = some a := by
  rw [arg]
  cases argv[k]? <;> simp

/-- **What a round of the scan reads**: an option that stands alone, or one and its argument. -/
inductive CommonRead (argv : List Bytes) (idx : ℕ) (cfg : Config) : ℕ → Config → Prop
  | flag {row : List String × (Config → Config)} (hrow : row ∈ flagTable) {w : String} (hw : w ∈ row.1)
      (ha : argv[idx]? = some (lit w)) : CommonRead argv idx cfg idx (row.2 cfg)
  | value {row : String × (Bytes → Config → Option Config)} (hrow : row ∈ valueTable) {v : Bytes}
      {cfg' : Config} (ha : argv[idx]? = some (lit row.1)) (hv : argv[idx + 1]? = some v)
      (hset : row.2 v cfg = some cfg') : CommonRead argv idx cfg (idx + 1) cfg'

theorem parseCommon_read {idx idx' : ℕ} (hp : parseCommon argv idx cfg = .ok (idx', cfg')) :
    CommonRead argv idx cfg idx' cfg' := by
  obtain ⟨a, ha, hp⟩ := bind_eq_ok hp
  rw [arg_eq_ok] at ha
  split at hp
  · rename_i row hrow
    obtain ⟨rfl, rfl⟩ := Prod.mk.inj (Except.ok.inj hp)
    have hspelled := List.find?_some hrow
    simp only [List.any_eq_true, decide_eq_true_eq] at hspelled
    obtain ⟨w, hw, rfl⟩ := hspelled
    exact .flag (List.mem_of_find?_eq_some hrow) hw ha
  · split at hp
    · rename_i row hrow
      split_ifs at hp
      obtain ⟨v, hv, hp⟩ := bind_eq_ok hp
      split at hp
      · rename_i c hset
        obtain ⟨rfl, rfl⟩ := Prod.mk.inj (Except.ok.inj hp)
        have hspelled := List.find?_some hrow
        simp only [decide_eq_true_eq] at hspelled
        subst hspelled
        exact .value (List.mem_of_find?_eq_some hrow) ha (arg_eq_ok.mp hv) hset
      · exact absurd hp (by simp)
    · exact absurd hp (by simp)

/-! ### Flags -/

/-- **A flag that only one row sets**, the one of these spellings, and nothing clears. -/
structure Raised (words : List String) (f : Config → Bool) : Prop where
  flag : ∀ row ∈ flagTable, ∀ cfg, f (row.2 cfg) = (f cfg || row.1 = words)
  value : ∀ row ∈ valueTable, ∀ v cfg cfg', row.2 v cfg = some cfg' → f cfg' = f cfg
  spelled : ∀ row ∈ flagTable, ∀ w ∈ row.1, (words.any fun w' => lit w = lit w') = (row.1 = words : Bool)
  unspelled : ∀ row ∈ valueTable, (words.any fun w' => lit row.1 = lit w') = false

/-- **The scan of the options** leaves the operands, and a flag is set when it was asked for. -/
theorem Raised.parseOptions {words : List String} {f : Config → Bool} (hf : Raised words f)
    {fuel idx idx' : ℕ} (hp : parseOptions argv fuel idx cfg = .ok (idx', cfg')) :
    argv.drop idx' = operandsOf (argv.drop idx) ∧
      f cfg' = (f cfg || AmongOptions words (argv.drop idx)) := by
  induction fuel generalizing idx cfg with
  | zero =>
    simp only [Wirecat.parseOptions] at hp
    split_ifs at hp with hidx
    obtain ⟨rfl, rfl⟩ := Prod.mk.inj (Except.ok.inj hp)
    rw [List.drop_eq_nil_of_le (by omega)]
    simp [operandsOf, AmongOptions, optionsOf]
  | succ fuel ih =>
    simp only [Wirecat.parseOptions] at hp
    split_ifs at hp with hidx
    swap
    · obtain ⟨rfl, rfl⟩ := Prod.mk.inj (Except.ok.inj hp)
      rw [List.drop_eq_nil_of_le (by omega)]
      simp [operandsOf, AmongOptions, optionsOf]
    obtain ⟨a, ha, hp⟩ := bind_eq_ok hp
    have hdrop : argv.drop idx = a :: argv.drop (idx + 1) := drop_of_getElem? (arg_eq_ok.mp ha)
    split_ifs at hp with hoperand hend
    · -- an operand
      obtain ⟨rfl, rfl⟩ := Prod.mk.inj (Except.ok.inj hp)
      have hnot : readsOption a = false := by rcases hoperand with h | h <;> simp [readsOption, h]
      have hend : a ≠ lit "--" := by
        rintro rfl
        revert hoperand
        decide
      rw [hdrop, operandsOf_of_not hnot, if_neg hend, AmongOptions, optionsOf_of_not hnot]
      simp
    · -- the end of the options
      obtain ⟨rfl, rfl⟩ := Prod.mk.inj (Except.ok.inj hp)
      have hnot : readsOption a = false := by simp [readsOption, hend]
      rw [hdrop, operandsOf_of_not hnot, if_pos hend, AmongOptions, optionsOf_of_not hnot]
      simp
    · have hreads : readsOption a = true := by
        simp only [not_or, not_not] at hoperand
        simp [readsOption, hoperand, hend]
      obtain ⟨⟨i, c⟩, hcommon, hp⟩ := bind_eq_ok hp
      obtain ⟨hrest, hset⟩ := ih hp
      cases parseCommon_read hcommon with
      | flag hrow hw ha' =>
        obtain rfl := Option.some.inj ((arg_eq_ok.mp ha).symm.trans ha')
        obtain ⟨hopts, hops⟩ := @optionsOf_flag _ (argv.drop (idx + 1)) hreads
          (takesNext_of_flag hrow hw)
        rw [hdrop, hops, AmongOptions, hopts, List.any_cons, hf.spelled _ hrow _ hw, ← Bool.or_assoc,
          ← hf.flag _ hrow]
        exact ⟨hrest, hset⟩
      | value hrow ha' hv hvalue =>
        obtain rfl := Option.some.inj ((arg_eq_ok.mp ha).symm.trans ha')
        obtain ⟨hopts, hops⟩ := @optionsOf_value _ _ (argv.drop (idx + 1 + 1)) hreads
          (takesNext_of_value hrow)
        rw [hdrop, drop_of_getElem? hv, hops, AmongOptions, hopts, List.any_cons, hf.unspelled _ hrow,
          Bool.false_or, ← hf.value _ hrow _ _ _ hvalue]
        exact ⟨hrest, hset⟩

/-! ### The transports an operator names -/

/-- The transports an operator can name. -/
inductive NamedTransport
  | tcp | udp | sctp | unix | vsock | quic
  deriving DecidableEq

namespace NamedTransport

/-- The spellings of the option for a transport. There is none for TCP. -/
def words : NamedTransport → List String
  | .tcp => []
  | .udp => ["-u", "--udp"]
  | .sctp => ["--sctp"]
  | .unix => ["-U", "--unix"]
  | .vsock => ["--vsock"]
  | .quic => ["--quic"]

/-- Whether a transport is selected in a configuration. -/
def selectedIn (cfg : Config) : NamedTransport → Bool
  | .tcp => false
  | .udp => cfg.udp
  | .sctp => cfg.sctp
  | .unix => cfg.unixSocket
  | .vsock => cfg.vsock
  | .quic => cfg.quic

/-- **Whether the operator names a transport**, by an option. -/
def NamedIn (argv : List Bytes) (t : NamedTransport) : Prop := AmongOptions t.words (argv.drop 2) = true

instance (argv : List Bytes) (t : NamedTransport) : Decidable (t.NamedIn argv) :=
  inferInstanceAs (Decidable (_ = true))

/-- There is no option for TCP. -/
theorem not_namedIn_tcp (argv : List Bytes) : ¬NamedTransport.tcp.NamedIn argv := by
  simp [NamedIn, AmongOptions, words]

theorem raised (t : NamedTransport) : Raised t.words fun cfg => t.selectedIn cfg where
  flag row hrow cfg := by
    simp only [flagTable, List.mem_cons, List.not_mem_nil, or_false] at hrow
    rcases hrow with rfl | rfl | rfl | rfl | rfl | rfl | rfl | rfl | rfl | rfl | rfl | rfl | rfl |
      rfl | rfl | rfl | rfl | rfl <;> cases t <;> simp [selectedIn, words]
  value row hrow v cfg cfg' hv := by
    simp only [valueTable, List.mem_cons, List.not_mem_nil, or_false] at hrow
    rcases hrow with rfl | rfl | rfl | rfl | rfl | rfl | rfl | rfl | rfl | rfl | rfl | rfl | rfl | rfl
    all_goals
      simp only [Option.map_eq_some_iff, Option.some.injEq, Option.ite_none_left_eq_some] at hv
      first
        | obtain rfl := hv
        | obtain ⟨_, rfl⟩ := hv
        | obtain ⟨_, _, rfl⟩ := hv
      cases t <;> rfl
  spelled row hrow w hw := by
    have hall : ∀ row ∈ flagTable.map Prod.fst, ∀ w ∈ row,
        (t.words.any fun w' => lit w = lit w') = (row = t.words : Bool) := by
      cases t <;> decide +kernel
    exact hall _ (List.mem_map_of_mem hrow) w hw
  unspelled row hrow := by
    have hall : ∀ w ∈ valueTable.map Prod.fst, (t.words.any fun w' => lit w = lit w') = false := by
      cases t <;> decide +kernel
    exact hall _ (List.mem_map_of_mem hrow)

end NamedTransport

/-- **What the operator asked for** is what an accepted configuration says. -/
structure AskedFor (argv : List Bytes) (cfg : Config) : Prop where
  mode : modeOf argv = some cfg.mode
  selected : ∀ t : NamedTransport, t.selectedIn cfg = true ↔ t.NamedIn argv
  endpoints : cfg.mode = .relay →
    operandsOf (argv.drop 2) = [cfg.left.getD [], cfg.right.getD []]

/-- The operands of a relay are its endpoints, and all of them are. -/
theorem endpoints_of_parseOperands {i : ℕ} (hp : parseOperands argv i cfg = .ok cfg')
    (hmode : cfg.mode = .relay) : argv.drop i = [cfg'.left.getD [], cfg'.right.getD []] := by
  rw [parseOperands, if_neg (by simp [hmode]), if_pos hmode] at hp
  split_ifs at hp with hlen
  obtain ⟨left, hleft, hp⟩ := bind_eq_ok hp
  obtain ⟨right, hright, hp⟩ := bind_eq_ok hp
  obtain rfl := Except.ok.inj hp
  rw [drop_of_getElem? (arg_eq_ok.mp hleft), drop_of_getElem? (arg_eq_ok.mp hright),
    List.drop_eq_nil_of_le (by omega)]
  rfl

theorem askedFor_of_ok (hp : wcatParseArgs argv = .ok cfg) : AskedFor argv cfg := by
  simp only [wcatParseArgs] at hp
  split_ifs at hp
  obtain ⟨a, ha, hp⟩ := bind_eq_ok hp
  split_ifs at hp
  split at hp
  · exact absurd hp (by simp)
  rename_i mode hmode
  obtain ⟨⟨i, c⟩, hopts, hp⟩ := bind_eq_ok hp
  obtain ⟨c', hops, hp⟩ := bind_eq_ok hp
  split_ifs at hp
  obtain rfl := Except.ok.inj hp
  have hscan : Scanned mode c := scanned_parseOptions ⟨rfl, by simp [wcatConfigInit]⟩ hopts
  have hmodeOf : modeOf argv = some c.mode := by
    rw [modeOf, arg_eq_ok.mp ha, hscan.mode_eq]
    exact hmode
  have hselected : ∀ t : NamedTransport, t.selectedIn c = true ↔ t.NamedIn argv := by
    intro t
    rw [(t.raised.parseOptions hopts).2, NamedTransport.NamedIn]
    cases t <;> simp [NamedTransport.selectedIn, wcatConfigInit]
  have hends := fun hrelay => endpoints_of_parseOperands hops hrelay
  obtain ⟨⟨file, host, port, left, right, rfl⟩, -⟩ := parseOperands_eq_ok hops
  refine ⟨hmodeOf, fun t => ?_, fun hrelay => ?_⟩
  · rw [← hselected t]
    cases t <;> rfl
  · rw [← ((NamedTransport.tcp).raised.parseOptions hopts).1]
    exact hends hrelay

end Wirecat
