import Wirecat.Cli

/-!
# Coherent configurations

What the modes may rely on: a configuration that `wcat_parse_args` accepts has the operands its
mode reads, numbers in their ranges, and options that go together (`Wirecat.Coherent`). The parser
gets there safely: it ends, and reads no entry past the end of the vector. Both are said by one
judgement (`Wirecat.Parses`), which is put together as the parser is.

The ranges are kept by every option, whichever were given before and however often
(`Wirecat.Ranges`, by `Wirecat.parseOptions_invariant`). What goes together is checked once, when all
options are read. That the scan of the options ends is that it has enough fuel: every round uses
up an entry (`Wirecat.parses_parseOptions`).
-/

namespace Wirecat

open CString

variable {argv : List Bytes} {α β : Type} {Q : α → Prop} {Q' : β → Prop}

/-! ### Reading within the vector -/

/-- **A safe parse**: it gives a value with the property, or asks for the help text, or refuses. It
does not read past the end of the vector, and does not run out of fuel. -/
def Parses (Q : α → Prop) : Except ParseError α → Prop
  | .ok a => Q a
  | .error e => e = .help ∨ e = .invalid

theorem Parses.bind {r : Except ParseError α} {f : α → Except ParseError β} (hr : Parses Q r)
    (hf : ∀ a, Q a → Parses Q' (f a)) : Parses Q' (r >>= f) := by
  cases r with
  | error e => exact hr
  | ok a => exact hf a hr

/-- What is known of every value that is given. -/
theorem Parses.and_ok {r : Except ParseError α} (hr : Parses Q r) {P : α → Prop}
    (hP : ∀ a, r = .ok a → P a) : Parses (fun a => Q a ∧ P a) r := by
  cases r with
  | error e => exact hr
  | ok a => exact ⟨hr, hP a rfl⟩

theorem parses_invalid : Parses Q (.error .invalid) := .inr rfl

theorem parses_arg {k : ℕ} (hk : k < argv.length) : Parses (fun _ => True) (arg argv k) := by
  rw [arg, List.getElem?_eq_getElem hk]
  trivial

/-- What follows a read within the vector. -/
theorem Parses.read {k : ℕ} (hk : k < argv.length) {f : Bytes → Except ParseError β}
    (hf : ∀ a, Parses Q' (f a)) : Parses Q' (arg argv k >>= f) :=
  (parses_arg hk).bind fun a _ => hf a

/-- An option uses up an entry at least, and none past the end. -/
theorem parses_parseCommon {idx : ℕ} (hidx : idx < argv.length) (cfg : Config) :
    Parses (fun r => idx ≤ r.1 ∧ r.1 < argv.length) (parseCommon argv idx cfg) := by
  refine Parses.read hidx fun a => ?_
  split
  · exact ⟨le_rfl, hidx⟩
  split
  · split_ifs with hend
    · exact parses_invalid
    refine Parses.read (by omega) fun v => ?_
    split
    · exact ⟨Nat.le_succ idx, by omega⟩
    · exact parses_invalid
  · exact parses_invalid

/-- **The scan of the options ends within the vector**: there is fuel for every entry that is left,
and a round uses up one at least. -/
theorem parses_parseOptions {fuel idx : ℕ} (hidx : idx ≤ argv.length)
    (hfuel : argv.length ≤ idx + fuel) (cfg : Config) :
    Parses (fun r => r.1 ≤ argv.length) (parseOptions argv fuel idx cfg) := by
  induction fuel generalizing idx cfg with
  | zero =>
    rw [parseOptions, if_neg (by omega)]
    exact hidx
  | succ fuel ih =>
    rw [parseOptions]
    split_ifs with hlt
    · refine Parses.read hlt fun a => ?_
      split_ifs
      · exact hidx
      · exact hlt
      · refine (parses_parseCommon hlt cfg).bind fun r hr => ?_
        exact ih hr.2 (by omega) r.2
    · exact hidx

/-- The operands are read within the vector: as many as were counted. -/
theorem parses_parseOperands (i : ℕ) (cfg : Config) :
    Parses (fun _ => True) (parseOperands argv i cfg) := by
  rw [parseOperands]
  split_ifs
  any_goals exact parses_invalid
  · exact .read (by omega) fun _ => .read (by omega) fun _ => .read (by omega) fun _ => trivial
  · exact .read (by omega) fun _ => .read (by omega) fun _ => trivial
  · exact .read (by omega) fun _ => trivial
  · exact .read (by omega) fun _ => .read (by omega) fun _ => trivial

/-! ### Numbers in their ranges -/

theorem parseRangeInt_bounds {s : Bytes} {min max n : ℤ} (hn : parseRangeInt s min max = some n) :
    min ≤ n ∧ n ≤ max := by
  simp only [parseRangeInt] at hn
  split_ifs at hn with hempty hbad
  obtain rfl := Option.some.inj hn
  push Not at hbad
  exact ⟨hbad.2.2.1, hbad.2.2.2⟩

theorem wcatParseTimeoutMs_bounds {s : Bytes} {t : ℤ} (ht : wcatParseTimeoutMs s = some t) :
    ∃ n, 0 ≤ n ∧ t = n * 1000 ∧ t ≤ intMax := by
  simp only [wcatParseTimeoutMs] at ht
  split_ifs at ht with hempty hbad
  obtain rfl := Option.some.inj ht
  push Not at hbad
  obtain ⟨-, -, -, hlow, hhigh⟩ := hbad
  refine ⟨_, hlow, rfl, ?_⟩
  rw [intMax] at hhigh ⊢
  omega

/-- A timeout: none, or a number of seconds that is an `int` in milliseconds. -/
def TimeoutOk (t : ℤ) : Prop := t = -1 ∨ ∃ n, 0 ≤ n ∧ t = n * 1000 ∧ t ≤ intMax

/-- **The ranges** of what the options set. -/
structure Ranges (cfg : Config) : Prop where
  clients : 1 ≤ cfg.brokerMaxClients ∧ cfg.brokerMaxClients ≤ 256
  buffer : 1024 ≤ cfg.brokerBufferBytes ∧ cfg.brokerBufferBytes ≤ 1048576
  timeout : TimeoutOk cfg.timeoutMs
  alpn : 1 ≤ cfg.alpn.length ∧ cfg.alpn.length ≤ 255

theorem ranges_init (mode : Mode) : Ranges { wcatConfigInit with mode := mode } where
  clients := by simp [wcatConfigInit]
  buffer := by simp [wcatConfigInit]
  timeout := .inl rfl
  alpn := by
    show 1 ≤ (lit "wcat/1").length ∧ (lit "wcat/1").length ≤ 255
    decide

theorem ranges_flagTable (row : List String × (Config → Config)) (hrow : row ∈ flagTable)
    (cfg : Config) (hc : Ranges cfg) : Ranges (row.2 cfg) := by
  obtain ⟨hclients, hbuffer, htimeout, halpn⟩ := hc
  simp only [flagTable, List.mem_cons, List.not_mem_nil, or_false] at hrow
  rcases hrow with rfl | rfl | rfl | rfl | rfl | rfl | rfl | rfl | rfl | rfl | rfl | rfl | rfl |
    rfl | rfl | rfl | rfl | rfl <;> exact ⟨hclients, hbuffer, htimeout, halpn⟩

theorem ranges_valueTable (row : String × (Bytes → Config → Option Config))
    (hrow : row ∈ valueTable) (v : Bytes) (cfg cfg' : Config) (hc : Ranges cfg)
    (hv : row.2 v cfg = some cfg') : Ranges cfg' := by
  obtain ⟨hclients, hbuffer, htimeout, halpn⟩ := hc
  have hsame : ∀ {c}, some c = some cfg' → Ranges c → Ranges cfg' := by
    rintro _ ⟨⟩ hc
    exact hc
  simp only [valueTable, List.mem_cons, List.not_mem_nil, or_false] at hrow
  rcases hrow with rfl | rfl | rfl | rfl | rfl | rfl | rfl | rfl | rfl | rfl | rfl | rfl | rfl | rfl
  case inl =>
    obtain ⟨t, ht, rfl⟩ := Option.map_eq_some_iff.mp hv
    exact ⟨hclients, hbuffer, .inr (wcatParseTimeoutMs_bounds ht), halpn⟩
  case inr.inr.inr.inr.inr.inr.inr.inl =>
    dsimp only at hv
    split_ifs at hv with hlen
    push Not at hlen
    exact hsame hv ⟨hclients, hbuffer, htimeout, Nat.pos_of_ne_zero hlen.1, hlen.2⟩
  case inr.inr.inr.inr.inr.inr.inr.inr.inr.inr.inl =>
    obtain ⟨n, hn, rfl⟩ := Option.map_eq_some_iff.mp hv
    exact ⟨parseRangeInt_bounds hn, hbuffer, htimeout, halpn⟩
  case inr.inr.inr.inr.inr.inr.inr.inr.inr.inr.inr.inl =>
    obtain ⟨n, hn, rfl⟩ := Option.map_eq_some_iff.mp hv
    exact ⟨hclients, parseRangeInt_bounds hn, htimeout, halpn⟩
  all_goals exact hsame hv ⟨hclients, hbuffer, htimeout, halpn⟩

theorem ranges_parseOptions {fuel idx idx' : ℕ} {cfg cfg' : Config} (hc : Ranges cfg)
    (hp : parseOptions argv fuel idx cfg = .ok (idx', cfg')) : Ranges cfg' :=
  parseOptions_invariant ranges_flagTable ranges_valueTable hc hp

/-! ### What goes together -/

/-- **A coherent configuration**: all that the modes may rely on. -/
structure Coherent (cfg : Config) : Prop where
  operands : cfg.mode ≠ .relay → cfg.host.isSome ∧ cfg.port.isSome
  endpoints : cfg.mode = .relay → cfg.left.isSome ∧ cfg.right.isSome
  file : cfg.mode = .send ∨ cfg.mode = .recv → cfg.file.isSome
  port : cfg.unixSocket = false → cfg.mode ≠ .relay →
    ∃ s p, cfg.port = some s ∧ wcatParsePort s = some p ∧ 1 ≤ p ∧ p ≤ 65535
  ranges : Ranges cfg
  allowList : wcatAccessValidateList cfg.allowList = true
  denyList : wcatAccessValidateList cfg.denyList = true
  pty : cfg.pty = true → cfg.execPath.isSome
  chat : cfg.chat = true → cfg.mode = .broker
  multi : cfg.multi = true → cfg.mode = .listen ∧ cfg.udp = false ∧ cfg.tls = false ∧
    cfg.quic = false ∧ cfg.execPath = none ∧ cfg.keepOpen = false
  quic : cfg.quic = true → cfg.tls = true ∧ (cfg.mode = .connect ∨ cfg.mode = .listen)
  clientCert : cfg.clientCertFile.isSome = cfg.clientKeyFile.isSome
  clientCa : cfg.tlsRequireClientCert = true → cfg.caFile.isSome

/-- What the checks at the end leave. -/
structure Checked (cfg : Config) : Prop where
  port : cfg.unixSocket = false → ∀ s ∈ cfg.port, (wcatParsePort s).isSome
  pty : cfg.pty = true → cfg.execPath.isSome
  chat : cfg.chat = true → cfg.mode = .broker
  multi : cfg.multi = true → cfg.mode = .listen ∧ cfg.udp = false ∧ cfg.tls = false ∧
    cfg.quic = false ∧ cfg.execPath = none ∧ cfg.keepOpen = false
  clientCert : cfg.clientCertFile.isSome = cfg.clientKeyFile.isSome
  clientCa : cfg.tlsRequireClientCert = true → cfg.caFile.isSome
  quic : cfg.quic = true → cfg.mode = .connect ∨ cfg.mode = .listen
  allowList : wcatAccessValidateList cfg.allowList = true
  denyList : wcatAccessValidateList cfg.denyList = true

theorem checked_of_not_refused {cfg : Config} (hr : refused cfg = false) : Checked cfg := by
  simp only [refused, Bool.or_eq_false_iff] at hr
  obtain ⟨⟨⟨⟨⟨⟨⟨⟨⟨⟨⟨⟨⟨hport, -⟩, -⟩, -⟩, hquic⟩, -⟩, -⟩, hpty⟩, hchat⟩, hmulti⟩, hcert⟩, hca⟩,
    hallow⟩, hdeny⟩ := hr
  refine ⟨fun hunix s hs => ?_, fun h => ?_, fun h => ?_, fun h => ?_, ?_, fun h => ?_, fun h => ?_,
    by simpa using hallow, by simpa using hdeny⟩
  · rw [hunix, Option.mem_def.mp hs] at hport
    cases hp : wcatParsePort s with
    | none => simp [hp] at hport
    | some p => rfl
  · rw [h, Bool.true_and] at hpty
    simpa [Option.isSome_iff_ne_none] using hpty
  · simpa [h] using hchat
  · simpa [h, and_assoc] using hmulti
  · cases hc : cfg.clientCertFile <;> cases hk : cfg.clientKeyFile <;> simp [hc, hk] at hcert ⊢
  · rw [h, Bool.true_and] at hca
    simpa [Option.isSome_iff_ne_none] using hca
  · rw [h, Bool.true_and, Bool.and_eq_false_iff] at hquic
    simpa using hquic

theorem refused_of_ok {cfg : Config} (hp : wcatParseArgs argv = .ok cfg) : refused cfg = false := by
  simp only [wcatParseArgs] at hp
  split_ifs at hp
  obtain ⟨a, -, hp⟩ := bind_eq_ok hp
  split_ifs at hp
  split at hp
  · cases hp
  obtain ⟨r, -, hp⟩ := bind_eq_ok hp
  obtain ⟨c, -, hp⟩ := bind_eq_ok hp
  split_ifs at hp with hrefused
  obtain rfl := Except.ok.inj hp
  exact Bool.not_eq_true _ ▸ hrefused

/-- **A configuration that is accepted is coherent**, and the parser gets there safely. -/
theorem parses_coherent (argv : List Bytes) : Parses Coherent (wcatParseArgs argv) := by
  rw [wcatParseArgs]
  split_ifs with hlen
  · exact .inl rfl
  refine Parses.read (by omega) fun a => ?_
  split_ifs
  · exact .inl rfl
  split
  · exact parses_invalid
  rename_i mode hmode
  have hoptions := (@parses_parseOptions argv argv.length 2 (by omega) (by omega)
    { wcatConfigInit with mode := mode }).and_ok (P := fun r => Ranges r.2 ∧ Scanned mode r.2)
    fun r hr => ⟨ranges_parseOptions (ranges_init mode) hr,
      scanned_parseOptions ⟨rfl, by simp [wcatConfigInit]⟩ hr⟩
  refine hoptions.bind ?_
  rintro ⟨i, cfg⟩ ⟨-, hranges, hscanned⟩
  refine ((parses_parseOperands i cfg).and_ok fun _ hc => parseOperands_eq_ok hc).bind ?_
  rintro c ⟨-, ⟨file, host, port, left, right, rfl⟩, hoperands, hfile, hends⟩
  split_ifs with hrefused
  · exact parses_invalid
  have hchecked := checked_of_not_refused (Bool.not_eq_true _ ▸ hrefused)
  refine ⟨hoperands, hends, hfile, fun hunix hrelay => ?_, ⟨hranges.1, hranges.2, hranges.3, hranges.4⟩,
    hchecked.allowList, hchecked.denyList, hchecked.pty, hchecked.chat, hchecked.multi,
    fun hquic => ⟨hscanned.quic_tls hquic, hchecked.quic hquic⟩, hchecked.clientCert, hchecked.clientCa⟩
  · obtain ⟨s, hs⟩ := Option.isSome_iff_exists.mp (hoperands hrelay).2
    obtain ⟨p, hp⟩ := Option.isSome_iff_exists.mp (hchecked.port hunix s hs)
    exact ⟨s, p, hs, hp, wcatParsePort_bounds hp⟩

/-- A command line that is accepted. -/
example : (wcatParseArgs (["wcat", "listen", "--timeout", "3", "::", "80"].map lit)).toOption.map
    (·.timeoutMs) = some 3000 := by decide +kernel

end Wirecat
