import Wirecat.Access
import Wirecat.Util

/-!
# The command line

`src/cli.c`. `Wirecat.wcatParseArgs` reads the mode, the options and the operands
into a configuration, and then turns away the combinations no mode can serve.
`Wirecat.Accepted` collects what a configuration that passed is known to satisfy;
it is all the rest of the development uses of the parser.

## Reading the arguments

The vector is read by index, as the source reads it, and a read past its end is an
outcome of its own (`Wirecat.ParseError.outOfBounds`) rather than something the
types exclude. The scan of the options is given as many rounds as the vector has
entries, and running out of them is another (`Wirecat.ParseError.outOfFuel`).

The options are two tables, `Wirecat.flagTable` of those that stand alone and
`Wirecat.valueTable` of those that take the next argument, in the order of the
chain of comparisons in `parse_common`; no spelling occurs twice.
-/

namespace Wirecat

open CString

/-! ### Options -/

/-- `parse_range_int`. -/
def parseRangeInt (s : Bytes) (min max : ℤ) : Option ℤ :=
  if s.isEmpty then none
  else
    let c := strtol s
    if ¬c.converted ∨ ¬c.rest.isEmpty ∨ c.value < min ∨ max < c.value then none
    else some c.value

/-- The options that stand alone: their spellings, and what they set. -/
def flagTable : List (List String × (Config → Config)) :=
  [(["-u", "--udp"], fun cfg => { cfg with udp := true }),
   (["-4"], fun cfg => { cfg with family := .inet }),
   (["-6"], fun cfg => { cfg with family := .inet6 }),
   (["-k", "--keep-open"], fun cfg => { cfg with keepOpen := true }),
   (["--multi"], fun cfg => { cfg with multi := true }),
   (["-v", "--verbose"], fun cfg => { cfg with verbose := true }),
   (["--json"], fun cfg => { cfg with json := true }),
   (["--hex"], fun cfg => { cfg with hex := true }),
   (["--chat"], fun cfg => { cfg with chat := true }),
   (["-U", "--unix"], fun cfg => { cfg with unixSocket := true }),
   (["--sctp"], fun cfg => { cfg with sctp := true }),
   (["--vsock"], fun cfg => { cfg with vsock := true }),
   (["--tls"], fun cfg => { cfg with tls := true }),
   (["--quic"], fun cfg => { cfg with quic := true, tls := true }),
   (["--tls-insecure"], fun cfg => { cfg with tls := true, tlsVerify := false }),
   (["--tls-verify"], fun cfg => { cfg with tls := true, tlsVerify := true }),
   (["--pty"], fun cfg => { cfg with pty := true }),
   (["--require-client-cert"], fun cfg => { cfg with tls := true, tlsRequireClientCert := true })]

/-- The options that take an argument: their spelling, and what the argument sets,
`none` when it is refused. -/
def valueTable : List (String × (Bytes → Config → Option Config)) :=
  [("--timeout", fun v cfg => (wcatParseTimeoutMs v).map fun t => { cfg with timeoutMs := t }),
   ("--cert", fun v cfg => some { cfg with certFile := some v }),
   ("--key", fun v cfg => some { cfg with keyFile := some v }),
   ("--client-cert", fun v cfg => some { cfg with clientCertFile := some v, tls := true }),
   ("--client-key", fun v cfg => some { cfg with clientKeyFile := some v, tls := true }),
   ("--ca-file", fun v cfg => some { cfg with caFile := some v }),
   ("--sni", fun v cfg => some { cfg with sni := some v }),
   ("--alpn", fun v cfg =>
      if v.length = 0 ∨ 255 < v.length then none else some { cfg with alpn := v }),
   ("--proxy", fun v cfg => some { cfg with proxyUrl := some v }),
   ("--exec", fun v cfg => some { cfg with execPath := some v }),
   ("--max-clients", fun v cfg =>
      (parseRangeInt v 1 256).map fun n => { cfg with brokerMaxClients := n }),
   ("--broker-buffer", fun v cfg =>
      (parseRangeInt v 1024 1048576).map fun n => { cfg with brokerBufferBytes := n }),
   ("--allow", fun v cfg => some { cfg with allowList := some v }),
   ("--deny", fun v cfg => some { cfg with denyList := some v })]

/-- Why a command line is not accepted. -/
inductive ParseError
  /-- The help text is asked for, or the first argument is missing: result `1`. -/
  | help
  /-- The command line is refused: result `-1`. -/
  | invalid
  /-- An entry past the end of the vector is read. -/
  | outOfBounds (k : ℕ)
  /-- The scan of the options did not end. -/
  | outOfFuel
  deriving DecidableEq

variable (argv : List Bytes)

/-- Read `argv[k]`. -/
def arg (k : ℕ) : Except ParseError Bytes :=
  match argv[k]? with
  | some a => .ok a
  | none => .error (.outOfBounds k)

/-- `parse_common`: set what the option at index `idx` says. The result is the
configuration and the index of the last argument used; an option that is not known
is refused by the caller. -/
def parseCommon (idx : ℕ) (cfg : Config) : Except ParseError (ℕ × Config) := do
  let a ← arg argv idx
  match flagTable.find? fun row => row.1.any fun s => a = lit s with
  | some row => .ok (idx, row.2 cfg)
  | none =>
      match valueTable.find? fun row => a = lit row.1 with
      | some row =>
          if argv.length ≤ idx + 1 then .error .invalid
          else
            let v ← arg argv (idx + 1)
            match row.2 v cfg with
            | some cfg => .ok (idx + 1, cfg)
            | none => .error .invalid
      | none => .error .invalid

/-- `parse_options`: the options from index `idx` on, up to the first argument that
is not one, or past `--`. -/
def parseOptions : ℕ → ℕ → Config → Except ParseError (ℕ × Config)
  | 0, idx, cfg => if idx < argv.length then .error .outOfFuel else .ok (idx, cfg)
  | fuel + 1, idx, cfg =>
      if idx < argv.length then do
        let a ← arg argv idx
        if a.head? ≠ some (chr '-') ∨ a = lit "-" then .ok (idx, cfg)
        else if a = lit "--" then .ok (idx + 1, cfg)
        else
          let (idx, cfg) ← parseCommon argv idx cfg
          parseOptions fuel (idx + 1) cfg
      else .ok (idx, cfg)

/-! ### Operands and checks -/

/-- The subcommands. -/
def parseMode (a : Bytes) : Option Mode :=
  if a = lit "connect" then some .connect
  else if a = lit "listen" then some .listen
  else if a = lit "send" then some .send
  else if a = lit "recv" then some .recv
  else if a = lit "relay" then some .relay
  else if a = lit "broker" then some .broker
  else if a = lit "proxy" then some .proxy
  else none

/-- The operands from index `i` on: how many there have to be depends on the mode. -/
def parseOperands (i : ℕ) (cfg : Config) : Except ParseError Config :=
  if cfg.mode = .send ∨ cfg.mode = .recv then
    if (argv.length : ℤ) - i ≠ 3 then .error .invalid
    else do
      let file ← arg argv i
      let host ← arg argv (i + 1)
      let port ← arg argv (i + 2)
      .ok { cfg with file := some file, host := some host, port := some port }
  else if cfg.mode = .relay then
    if (argv.length : ℤ) - i ≠ 2 then .error .invalid
    else do
      let left ← arg argv i
      let right ← arg argv (i + 1)
      .ok { cfg with left := some left, right := some right }
  else if cfg.unixSocket ∧ (cfg.mode = .connect ∨ cfg.mode = .listen ∨ cfg.mode = .broker) then
    if (argv.length : ℤ) - i ≠ 1 then .error .invalid
    else do
      let host ← arg argv i
      .ok { cfg with host := some host, port := some (lit "0") }
  else
    if (argv.length : ℤ) - i ≠ 2 then .error .invalid
    else do
      let host ← arg argv i
      let port ← arg argv (i + 1)
      .ok { cfg with host := some host, port := some port }

/-- One, if the flag is set. -/
def flag (b : Bool) : ℕ := if b then 1 else 0

/-- The checks at the end of `wcat_parse_args`, in their order: whether the
configuration is refused. -/
def refused (cfg : Config) : Bool :=
  (!cfg.unixSocket && cfg.port.any fun port => (wcatParsePort port).isNone) ||
  (cfg.tls && cfg.udp) ||
  (1 < flag cfg.udp + flag cfg.sctp + flag cfg.unixSocket + flag cfg.vsock) ||
  (cfg.quic && cfg.proxyUrl.isSome) ||
  (cfg.quic && cfg.mode ≠ .connect && cfg.mode ≠ .listen) ||
  ((cfg.sctp || cfg.unixSocket || cfg.vsock) && cfg.mode ≠ .connect && cfg.mode ≠ .listen &&
    cfg.mode ≠ .broker && cfg.mode ≠ .relay) ||
  ((cfg.sctp || cfg.unixSocket || cfg.vsock) && cfg.proxyUrl.isSome) ||
  (cfg.pty && cfg.execPath.isNone) ||
  (cfg.chat && cfg.mode ≠ .broker) ||
  (cfg.multi && (cfg.mode ≠ .listen || cfg.udp || cfg.tls || cfg.quic || cfg.execPath.isSome ||
    cfg.keepOpen)) ||
  (cfg.clientCertFile.isNone != cfg.clientKeyFile.isNone) ||
  (cfg.tlsRequireClientCert && cfg.caFile.isNone) ||
  !wcatAccessValidateList cfg.allowList || !wcatAccessValidateList cfg.denyList

/-- `wcat_parse_args`. -/
def wcatParseArgs : Except ParseError Config :=
  if argv.length < 2 then .error .help
  else do
    let a ← arg argv 1
    if a = lit "-h" ∨ a = lit "--help" then .error .help
    else
      match parseMode a with
      | none => .error .invalid
      | some mode => do
          let (i, cfg) ← parseOptions argv argv.length 2 { wcatConfigInit with mode := mode }
          let cfg ← parseOperands argv i cfg
          if refused cfg then .error .invalid else .ok cfg

/-! ### What an accepted command line satisfies -/

variable {argv}

/-- What the scan of the options keeps: the mode, that QUIC implies TLS, and that no
operand has been read yet. -/
structure Scanned (mode : Mode) (cfg : Config) : Prop where
  mode_eq : cfg.mode = mode
  quic_tls : cfg.quic = true → cfg.tls = true

/-- **What is known of an accepted configuration**, as far as the modes rely on it. -/
structure Accepted (cfg : Config) : Prop where
  mode_ne : cfg.mode ≠ .none
  quic_tls : cfg.quic = true → cfg.tls = true
  tls_udp : cfg.tls = true → cfg.udp = false
  quic_mode : cfg.quic = true → cfg.mode = .connect ∨ cfg.mode = .listen
  quic_proxy : cfg.quic = true → cfg.proxyUrl = none
  transport_proxy : cfg.sctp = true ∨ cfg.unixSocket = true ∨ cfg.vsock = true →
    cfg.proxyUrl = none
  multi_tls : cfg.multi = true → cfg.tls = false
  operands : cfg.mode ≠ .relay → cfg.host.isSome ∧ cfg.port.isSome
  file_operand : cfg.mode = .send ∨ cfg.mode = .recv → cfg.file.isSome
  endpoints : cfg.mode = .relay → cfg.left.isSome ∧ cfg.right.isSome
  allow_valid : wcatAccessValidateList cfg.allowList = true
  deny_valid : wcatAccessValidateList cfg.denyList = true

theorem bind_eq_ok {α β : Type} {x : Except ParseError α} {f : α → Except ParseError β} {b : β}
    (h : (x >>= f) = .ok b) : ∃ a, x = .ok a ∧ f a = .ok b := by
  cases x with
  | error e => cases h
  | ok a => exact ⟨a, rfl, h⟩

section
variable {I : Config → Prop}
  (hflag : ∀ row ∈ flagTable, ∀ cfg, I cfg → I (row.2 cfg))
  (hvalue : ∀ row ∈ valueTable, ∀ v cfg cfg', I cfg → row.2 v cfg = some cfg' → I cfg')

include hflag hvalue

theorem parseCommon_invariant {idx idx' : ℕ} {cfg cfg' : Config} (hc : I cfg)
    (hp : parseCommon argv idx cfg = .ok (idx', cfg')) : I cfg' := by
  obtain ⟨a, -, hp⟩ := bind_eq_ok hp
  split at hp
  · rename_i row hrow
    obtain ⟨-, rfl⟩ := Prod.mk.inj (Except.ok.inj hp)
    exact hflag row (List.mem_of_find?_eq_some hrow) cfg hc
  · split at hp
    · rename_i row hrow
      split_ifs at hp
      obtain ⟨v, -, hp⟩ := bind_eq_ok hp
      split at hp
      · rename_i c hv
        obtain ⟨-, rfl⟩ := Prod.mk.inj (Except.ok.inj hp)
        exact hvalue row (List.mem_of_find?_eq_some hrow) v cfg c hc hv
      · exact absurd hp (by simp)
    · exact absurd hp (by simp)

/-- **What every option keeps**, the scan of the options keeps. -/
theorem parseOptions_invariant {fuel idx idx' : ℕ} {cfg cfg' : Config} (hc : I cfg)
    (hp : parseOptions argv fuel idx cfg = .ok (idx', cfg')) : I cfg' := by
  induction fuel generalizing idx cfg with
  | zero =>
    simp only [parseOptions] at hp
    split_ifs at hp
    obtain ⟨-, rfl⟩ := Prod.mk.inj (Except.ok.inj hp)
    exact hc
  | succ fuel ih =>
    simp only [parseOptions] at hp
    split_ifs at hp with hlt
    · obtain ⟨a, -, hp⟩ := bind_eq_ok hp
      split_ifs at hp
      · obtain ⟨-, rfl⟩ := Prod.mk.inj (Except.ok.inj hp)
        exact hc
      · obtain ⟨-, rfl⟩ := Prod.mk.inj (Except.ok.inj hp)
        exact hc
      · obtain ⟨⟨i, c⟩, hcommon, hp⟩ := bind_eq_ok hp
        exact ih (parseCommon_invariant hflag hvalue hc hcommon) hp
    · obtain ⟨-, rfl⟩ := Prod.mk.inj (Except.ok.inj hp)
      exact hc

end

theorem scanned_flagTable {mode : Mode} (row : List String × (Config → Config))
    (hrow : row ∈ flagTable) (cfg : Config) (hc : Scanned mode cfg) : Scanned mode (row.2 cfg) := by
  obtain ⟨hm, hq⟩ := hc
  simp only [flagTable, List.mem_cons, List.not_mem_nil, or_false] at hrow
  rcases hrow with rfl | rfl | rfl | rfl | rfl | rfl | rfl | rfl | rfl | rfl | rfl | rfl | rfl |
    rfl | rfl | rfl | rfl | rfl <;> exact ⟨hm, by first | exact hq | exact fun _ => rfl⟩

theorem scanned_valueTable {mode : Mode} (row : String × (Bytes → Config → Option Config))
    (hrow : row ∈ valueTable) (v : Bytes) (cfg cfg' : Config) (hc : Scanned mode cfg)
    (hv : row.2 v cfg = some cfg') : Scanned mode cfg' := by
  obtain ⟨hm, hq⟩ := hc
  simp only [valueTable, List.mem_cons, List.not_mem_nil, or_false] at hrow
  rcases hrow with rfl | rfl | rfl | rfl | rfl | rfl | rfl | rfl | rfl | rfl | rfl | rfl | rfl | rfl
  all_goals
    simp only [Option.map_eq_some_iff, Option.some.injEq, Option.ite_none_left_eq_some] at hv
    first
      | obtain rfl := hv
      | obtain ⟨_, rfl⟩ := hv
      | obtain ⟨_, _, rfl⟩ := hv
    exact ⟨hm, by first | exact hq | exact fun _ => rfl⟩

theorem scanned_parseOptions {mode : Mode} {fuel idx idx' : ℕ} {cfg cfg' : Config}
    (hc : Scanned mode cfg) (hp : parseOptions argv fuel idx cfg = .ok (idx', cfg')) :
    Scanned mode cfg' :=
  parseOptions_invariant scanned_flagTable scanned_valueTable hc hp

/-- The operands are set, and nothing else changes. -/
theorem parseOperands_eq_ok {i : ℕ} {cfg cfg' : Config} (hp : parseOperands argv i cfg = .ok cfg') :
    (∃ file host port left right, cfg' = { cfg with file, host, port, left, right }) ∧
      (cfg.mode ≠ .relay → cfg'.host.isSome ∧ cfg'.port.isSome) ∧
      (cfg.mode = .send ∨ cfg.mode = .recv → cfg'.file.isSome) ∧
      (cfg.mode = .relay → cfg'.left.isSome ∧ cfg'.right.isSome) := by
  simp only [parseOperands] at hp
  split_ifs at hp with hfile hn hrelay hn hunix hn hn
  · obtain ⟨file, -, hp⟩ := bind_eq_ok hp
    obtain ⟨host, -, hp⟩ := bind_eq_ok hp
    obtain ⟨port, -, hp⟩ := bind_eq_ok hp
    obtain rfl := Except.ok.inj hp
    refine ⟨⟨_, _, _, _, _, rfl⟩, fun _ => ⟨rfl, rfl⟩, fun _ => rfl, fun hr => ?_⟩
    simp [hr] at hfile
  · obtain ⟨left, -, hp⟩ := bind_eq_ok hp
    obtain ⟨right, -, hp⟩ := bind_eq_ok hp
    obtain rfl := Except.ok.inj hp
    exact ⟨⟨_, _, _, _, _, rfl⟩, fun hr => absurd hrelay hr, fun hf => absurd hf hfile,
      fun _ => ⟨rfl, rfl⟩⟩
  · obtain ⟨host, -, hp⟩ := bind_eq_ok hp
    obtain rfl := Except.ok.inj hp
    exact ⟨⟨_, _, _, _, _, rfl⟩, fun _ => ⟨rfl, rfl⟩, fun hf => absurd hf hfile,
      fun hr => absurd hr hrelay⟩
  · obtain ⟨host, -, hp⟩ := bind_eq_ok hp
    obtain ⟨port, -, hp⟩ := bind_eq_ok hp
    obtain rfl := Except.ok.inj hp
    exact ⟨⟨_, _, _, _, _, rfl⟩, fun _ => ⟨rfl, rfl⟩, fun hf => absurd hf hfile,
      fun hr => absurd hr hrelay⟩

theorem parseMode_ne_none {a : Bytes} {mode : Mode} (hm : parseMode a = some mode) :
    mode ≠ .none := by
  simp only [parseMode] at hm
  split_ifs at hm <;> simp [← Option.some.inj hm]

/-- **What an accepted command line satisfies.** -/
theorem wcatParseArgs_accepted {cfg : Config} (hp : wcatParseArgs argv = .ok cfg) :
    Accepted cfg := by
  simp only [wcatParseArgs] at hp
  split_ifs at hp
  obtain ⟨a, -, hp⟩ := bind_eq_ok hp
  split_ifs at hp
  split at hp
  · exact absurd hp (by simp)
  rename_i mode hmode
  obtain ⟨⟨i, c⟩, hopts, hp⟩ := bind_eq_ok hp
  obtain ⟨c', hops, hp⟩ := bind_eq_ok hp
  split_ifs at hp with href
  obtain rfl := Except.ok.inj hp
  have hscan : Scanned mode c := scanned_parseOptions ⟨rfl, by simp [wcatConfigInit]⟩ hopts
  obtain ⟨⟨file, host, port, left, right, rfl⟩, hhost, hfile, hends⟩ := parseOperands_eq_ok hops
  simp only [refused, Bool.or_eq_true, not_or, Bool.and_eq_true, not_and] at href
  obtain ⟨⟨⟨⟨⟨⟨⟨⟨⟨⟨⟨⟨⟨-, hudp⟩, -⟩, hqp⟩, hqm⟩, -⟩, htp⟩, -⟩, -⟩, hmulti⟩, -⟩, -⟩, hallow⟩, hdeny⟩ := href
  refine ⟨hscan.mode_eq ▸ parseMode_ne_none hmode, hscan.quic_tls, fun h => by simpa using hudp h,
    fun hq => ?_, fun hq => by simpa using hqp hq, fun ht => ?_, fun hm => ?_, hhost, hfile, hends,
    by simpa using hallow, by simpa using hdeny⟩
  · by_contra hne
    exact hqm ⟨hq, by simpa using (not_or.mp hne).1⟩ (by simpa using (not_or.mp hne).2)
  · simpa using htp (by simpa [or_assoc] using ht)
  · have htls := (hmulti hm).1.1.1.2
    simpa using htls

end Wirecat
