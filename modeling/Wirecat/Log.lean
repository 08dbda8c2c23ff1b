import Mathlib.Data.List.TakeWhile
import Wirecat.JsonString
import Wirecat.System
import Wirecat.Utf8

/-!
# The log

`src/log.c`: what an event of the log becomes on standard error. With `--json` it is one object
on one line, and its texts – the names of hosts, what a library has to say – are escaped, since
they come from anywhere.

The message is formatted into an array of 1024 bytes first and escaped afterwards, so a long
message is cut before anything else is done with it (`Wirecat.logMessage`). Escaping undoes nothing
of that: the value that a reader of the record gets is the message up to the cut, and the record
ends where the code says it ends, whatever the texts are (`Wirecat.logRecord_sound`). But the cut
counts bytes. Where it falls into a character of several bytes, its first half stays behind, and the
record is not UTF-8 any more (`Wirecat.logRecord_utf8_iff`).

The texts are C strings. A `%s` never brings a NUL into a message.
-/

namespace Wirecat

open CString JsonString

/-- A C string: bytes without a NUL. -/
abbrev CStr := {s : Bytes // 0 ∉ s}

/-! ### The record -/

/-- `level_name`. -/
def levelName : LogLevel → Bytes
  | .error => lit "error"
  | .warn => lit "warn"
  | .info => lit "info"
  | .debug => lit "debug"

/-- `iscntrl` of the C locale. -/
def isCntrl (c : UInt8) : Bool := c < 32 || c = 127

/-- What `%04x` prints of a byte. -/
def hex4 (c : UInt8) : Bytes := lit "00" ++ [hexChar (c.toNat / 16), hexChar (c.toNat % 16)]

/-- What `%ld` prints. -/
def signedDecimal (n : ℤ) : Bytes :=
  if n < 0 then chr '-' :: decimal n.natAbs else decimal n.natAbs

/-- One byte in `json_escape`. -/
def jsonEscapeByte (c : UInt8) : Bytes :=
  if c = chr '"' ∨ c = chr '\\' then [chr '\\', c]
  else if c = chr '\n' then lit "\\n"
  else if c = chr '\r' then lit "\\r"
  else if c = chr '\t' then lit "\\t"
  else if isCntrl c then lit "\\u" ++ hex4 c
  else [c]

/-- `json_escape`. -/
def jsonEscape (s : CStr) : Bytes := s.1.flatMap jsonEscapeByte

/-- `vsnprintf` into `msg`: what there is room for beside the NUL. -/
def logMessage (message : CStr) : CStr :=
  ⟨message.1.take 1023, fun h => message.2 (List.mem_of_mem_take h)⟩

/-- What precedes the event in a record. -/
def recordHead (now : ℤ) (level : LogLevel) : Bytes :=
  lit "\x7b\"ts\":" ++ signedDecimal now ++ lit ",\"level\":\"" ++ levelName level ++
    lit "\",\"event\":\""

/-- `wcat_log`, for a message that has been formatted: what is written to standard error, or
`none` when nothing is. -/
def wcatLog (json verbose : Bool) (now : ℤ) (level : LogLevel) (event message : CStr) :
    Option Bytes :=
  if level = .debug ∧ !verbose then none
  else
    let msg := logMessage message
    if json then some (recordHead now level ++ jsonEscape event ++ lit "\",\"message\":\"" ++
      jsonEscape msg ++ lit "\"\x7d\n")
    else some (lit "wcat: " ++ levelName level ++ lit ": " ++ msg.1 ++ [chr '\n'])

/-! ### Reading a record -/

/-- A record as a reader of the log sees it. -/
structure LogRecord where
  ts : Bytes
  level : Bytes
  event : Bytes
  message : Bytes
  deriving DecidableEq

/-- What follows `piece`. -/
def expect (piece text : Bytes) : Option Bytes :=
  if piece.isPrefixOf text then some (text.drop piece.length) else none

/-- Reading a line of the log. -/
def readRecord (line : Bytes) : Option LogRecord := do
  let text ← expect (lit "\x7b\"ts\":") line
  let ts := text.takeWhile fun c => c = chr '-' || isDigit c
  let text ← expect (lit ",\"level\":\"") (text.drop ts.length)
  let (level, text) ← read text
  let text ← expect (lit ",\"event\":\"") text
  let (event, text) ← read text
  let text ← expect (lit ",\"message\":\"") text
  let (message, text) ← read text
  if text = lit "\x7d\n" then some ⟨ts, level, event, message⟩ else none

/-! ### Escaping -/

theorem isCntrl_eq_false {c : UInt8} : isCntrl c = false ↔ 32 ≤ c ∧ c ≠ 127 := by
  rw [isCntrl, Bool.or_eq_false_iff, decide_eq_false_iff_not, decide_eq_false_iff_not, UInt8.not_lt]

theorem hexDigit_hexChar : ∀ n < 16, hexDigit (hexChar n) = some n := by decide

theorem hexChar_clean : ∀ n < 16, isCntrl (hexChar n) = false := by decide

/-- A control byte is in ASCII. -/
theorem lt_of_isCntrl {c : UInt8} (hc : isCntrl c = true) : c.toNat < 128 := by
  rw [isCntrl, Bool.or_eq_true, decide_eq_true_eq, decide_eq_true_eq] at hc
  rcases hc with hc | rfl
  · have := UInt8.lt_iff_toNat_lt.mp hc
    have h32 : (32 : UInt8).toNat = 32 := rfl
    omega
  · decide

/-- The number of a control byte spells it. -/
theorem unicodeByte_hex4 {c : UInt8} (hc : isCntrl c = true) :
    unicodeByte (chr '0') (chr '0') (hexChar (c.toNat / 16)) (hexChar (c.toNat % 16)) = some c := by
  have hlt := lt_of_isCntrl hc
  have hzero : hexDigit (chr '0') = some 0 := rfl
  rw [unicodeByte, if_pos ⟨hzero, hzero⟩, hexDigit_hexChar _ (by omega),
    hexDigit_hexChar _ (by omega), Option.bind_some, Option.bind_some, if_pos (by omega),
    Nat.div_add_mod, Nat.toUInt8_eq, UInt8.ofNat_toNat]

/-- **A byte that is escaped** spells itself. -/
theorem spells_jsonEscapeByte (c : UInt8) : Spells (jsonEscapeByte c) [c] := by
  rw [jsonEscapeByte]
  split_ifs with hquote hlf hcr htab hctrl
  · refine .short ?_ .nil
    rcases hquote with rfl | rfl <;> decide
  · exact hlf ▸ .short (by decide) .nil
  · exact hcr ▸ .short (by decide) .nil
  · exact htab ▸ .short (by decide) .nil
  · exact .unicode (unicodeByte_hex4 hctrl) .nil
  · obtain ⟨hq, hb⟩ := not_or.mp hquote
    exact .plain ⟨(isCntrl_eq_false.mp (by simpa using hctrl)).1, hq, hb⟩ .nil

/-- **Escaped text spells the text.** -/
theorem spells_flatMap (s : Bytes) : Spells (s.flatMap jsonEscapeByte) s := by
  induction s with
  | nil => exact .nil
  | cons c s ih => exact (spells_jsonEscapeByte c).append ih

/-- No control byte is left. -/
theorem clean_jsonEscapeByte (c : UInt8) : ∀ b ∈ jsonEscapeByte c, isCntrl b = false := by
  have hlt : c.toNat < 256 := c.toNat_lt
  rw [jsonEscapeByte]
  split_ifs with hquote hlf hcr htab hctrl
  · rcases hquote with rfl | rfl <;> decide +kernel
  · decide +kernel
  · decide +kernel
  · decide +kernel
  · have hopen : ∀ b ∈ lit "\\u00", isCntrl b = false := by decide +kernel
    intro b hb
    rw [hex4, ← List.append_assoc, List.mem_append] at hb
    rcases hb with hb | hb
    · exact hopen b hb
    · simp only [List.mem_cons, List.not_mem_nil, or_false] at hb
      rcases hb with rfl | rfl
      · exact hexChar_clean _ (by omega)
      · exact hexChar_clean _ (by omega)
  · simpa using hctrl

theorem clean_jsonEscape (s : CStr) : ∀ b ∈ jsonEscape s, isCntrl b = false := by
  intro b hb
  obtain ⟨c, -, hbc⟩ := List.mem_flatMap.mp hb
  exact clean_jsonEscapeByte c b hbc

/-! ### The rest of a record -/

theorem clean_of_isDigit {c : UInt8} (hc : isDigit c = true) : isCntrl c = false := by
  rw [isDigit, Bool.and_eq_true, decide_eq_true_eq, decide_eq_true_eq, UInt8.le_iff_toNat_le,
    UInt8.le_iff_toNat_le] at hc
  have h48 : (48 : UInt8).toNat = 48 := rfl
  have h57 : (57 : UInt8).toNat = 57 := rfl
  refine isCntrl_eq_false.mpr ⟨UInt8.le_iff_toNat_le.mpr ?_, ?_⟩
  · have h32 : (32 : UInt8).toNat = 32 := rfl
    omega
  · rintro rfl
    have h127 : (127 : UInt8).toNat = 127 := rfl
    omega

/-- What is printed of a number is digits, with a sign. -/
theorem signedDecimal_chars (n : ℤ) :
    ∀ c ∈ signedDecimal n, (c = chr '-' || isDigit c) = true := by
  intro c hc
  rw [signedDecimal] at hc
  split_ifs at hc
  · rcases List.mem_cons.mp hc with rfl | hc
    · rfl
    · rw [isDigit_decimal _ c hc, Bool.or_true]
  · rw [isDigit_decimal _ c hc, Bool.or_true]

theorem clean_signedDecimal (n : ℤ) : ∀ c ∈ signedDecimal n, isCntrl c = false := by
  intro c hc
  rcases Bool.or_eq_true_iff.mp (signedDecimal_chars n c hc) with hsign | hdigit
  · rw [of_decide_eq_true hsign]
    rfl
  · exact clean_of_isDigit hdigit

theorem spells_levelName (level : LogLevel) : Spells (levelName level) (levelName level) := by
  have hplain : ∀ s : Bytes, (∀ c ∈ s, Plain c) → Spells s s := by
    intro s hs
    induction s with
    | nil => exact .nil
    | cons c s ih =>
      exact .plain (hs c List.mem_cons_self) (ih fun d hd => hs d (List.mem_cons_of_mem c hd))
  refine hplain _ ?_
  cases level <;> decide +kernel

theorem clean_recordHead (now : ℤ) (level : LogLevel) :
    ∀ c ∈ recordHead now level, isCntrl c = false := by
  have hopen : ∀ c ∈ lit "\x7b\"ts\":", isCntrl c = false := by decide +kernel
  have hlevel : ∀ c ∈ lit ",\"level\":\"", isCntrl c = false := by decide +kernel
  have hname : ∀ c ∈ levelName level, isCntrl c = false := by cases level <;> decide +kernel
  have hevent : ∀ c ∈ lit "\",\"event\":\"", isCntrl c = false := by decide +kernel
  simp only [recordHead, List.forall_mem_append]
  exact ⟨⟨⟨⟨hopen, clean_signedDecimal now⟩, hlevel⟩, hname⟩, hevent⟩

/-! ### What a reader gets -/

theorem expect_append (piece rest : Bytes) : expect piece (piece ++ rest) = some rest := by
  rw [expect, if_pos (List.isPrefixOf_iff_prefix.mpr (List.prefix_append _ _)), List.drop_left]

/-- Reading the number at the front. -/
theorem takeWhile_number {ts rest : Bytes} {x : UInt8}
    (hts : ∀ c ∈ ts, (c = chr '-' || isDigit c) = true) (hx : (x = chr '-' || isDigit x) = false) :
    (ts ++ x :: rest).takeWhile (fun c => c = chr '-' || isDigit c) = ts := by
  rw [List.takeWhile_append_of_pos hts, List.takeWhile_cons_of_neg (by simpa using hx),
    List.append_nil]

/-- **A record is read back**: the level, the event and the message are what they were. -/
theorem readRecord_record (now : ℤ) (level : LogLevel) (event message : CStr) :
    readRecord (recordHead now level ++ jsonEscape event ++ lit "\",\"message\":\"" ++
        jsonEscape message ++ lit "\"\x7d\n") =
      some ⟨signedDecimal now, levelName level, event.1, message.1⟩ := by
  have hlevel := read_of_spells (spells_levelName level)
  have hevent := read_of_spells (spells_flatMap event.1)
  have hmessage := read_of_spells (spells_flatMap message.1)
  -- the quotes that end the strings come off the literals behind them
  have hquote₁ : lit "\",\"event\":\"" = chr '"' :: lit ",\"event\":\"" := rfl
  have hquote₂ : lit "\",\"message\":\"" = chr '"' :: lit ",\"message\":\"" := rfl
  have hquote₃ : lit "\"\x7d\n" = chr '"' :: lit "\x7d\n" := rfl
  have hcomma : lit ",\"level\":\"" = chr ',' :: lit "\"level\":\"" := rfl
  simp only [recordHead, List.append_assoc, hquote₁, hquote₂, hquote₃, List.cons_append]
  rw [readRecord, expect_append]
  dsimp only [Option.bind_eq_bind, Option.bind_some]
  rw [hcomma, List.cons_append, takeWhile_number (signedDecimal_chars now) rfl, List.drop_left,
    ← List.cons_append, ← hcomma, expect_append]
  dsimp only [Option.bind_some]
  rw [hlevel]
  dsimp only [Option.bind_some]
  rw [expect_append]
  dsimp only [Option.bind_some]
  rw [jsonEscape, hevent]
  dsimp only [Option.bind_some]
  rw [expect_append]
  dsimp only [Option.bind_some]
  rw [jsonEscape, hmessage]
  dsimp only [Option.bind_some]
  rw [if_pos rfl]

/-- **A record that cannot be forged or split**, of a message and an event that are any strings. -/
structure RecordSound (now : ℤ) (level : LogLevel) (event message : CStr) (record : Bytes) :
    Prop where
  /-- It is one line. -/
  line : ∃ body, record = body ++ [chr '\n'] ∧ ∀ c ∈ body, isCntrl c = false
  /-- The values are text that spells the event and the message, the message up to the cut. -/
  values : ∃ e m, record = recordHead now level ++ e ++ lit "\",\"message\":\"" ++ m ++
    lit "\"\x7d\n" ∧ Spells e event.1 ∧ Spells m (message.1.take 1023)
  /-- A reader gets them. -/
  read : readRecord record =
    some ⟨signedDecimal now, levelName level, event.1, message.1.take 1023⟩

/-- **What is written with `--json`** is a sound record, whenever something is written. -/
theorem logRecord_sound {verbose : Bool} {now : ℤ} {level : LogLevel} {event message : CStr}
    {record : Bytes} (hw : wcatLog true verbose now level event message = some record) :
    RecordSound now level event message record := by
  rw [wcatLog] at hw
  split_ifs at hw with hquiet hjson
  · obtain rfl := Option.some.inj hw
    have hmid : ∀ c ∈ lit "\",\"message\":\"", isCntrl c = false := by decide +kernel
    have hend : ∀ c ∈ lit "\"\x7d", isCntrl c = false := by decide +kernel
    have hlast : lit "\"\x7d\n" = lit "\"\x7d" ++ [chr '\n'] := rfl
    refine ⟨⟨_, by rw [hlast, ← List.append_assoc], ?_⟩, ⟨_, _, rfl, spells_flatMap _,
      spells_flatMap _⟩, readRecord_record now level event (logMessage message)⟩
    simp only [List.forall_mem_append]
    exact ⟨⟨⟨⟨clean_recordHead now level, clean_jsonEscape event⟩, hmid⟩, clean_jsonEscape _⟩, hend⟩
  · exact absurd rfl hjson

/-- The event of the log for a name that is not resolved. -/
def resolveEvent : CStr := ⟨lit "resolve", by decide⟩

/-- A message with a quote, a backslash and a line feed in it. -/
theorem logRecord_sound_quoted : ∃ record,
    wcatLog true false 7 .warn resolveEvent ⟨lit "a\"\\\n", by decide⟩ = some record ∧
      RecordSound 7 .warn resolveEvent ⟨lit "a\"\\\n", by decide⟩ record :=
  ⟨_, rfl, @logRecord_sound false _ _ _ _ _ rfl⟩

/-! ### UTF-8 -/

theorem lt_128_of_clean : ∀ n < 128, ∀ b ∈ jsonEscapeByte n.toUInt8, b < 128 := by decide +kernel

/-- ASCII is escaped in ASCII. -/
theorem ascii_jsonEscapeByte {c : UInt8} (hc : c < 128) : ∀ b ∈ jsonEscapeByte c, b < 128 := by
  have hall := lt_128_of_clean c.toNat (UInt8.lt_iff_toNat_lt.mp hc)
  rwa [Nat.toUInt8_eq, UInt8.ofNat_toNat] at hall

/-- Other bytes are not escaped. -/
theorem jsonEscapeByte_of_le {c : UInt8} (hc : 128 ≤ c) : jsonEscapeByte c = [c] := by
  have hge := UInt8.le_iff_toNat_le.mp hc
  have hne : ∀ x : UInt8, x < 128 → c ≠ x := by
    rintro x hx rfl
    have := UInt8.lt_iff_toNat_lt.mp hx
    omega
  have hctrl : ¬isCntrl c = true := fun h => by
    have := lt_of_isCntrl h
    have h128 : (128 : UInt8).toNat = 128 := rfl
    omega
  rw [jsonEscapeByte, if_neg (not_or.mpr ⟨hne _ (by decide), hne _ (by decide)⟩),
    if_neg (hne _ (by decide)), if_neg (hne _ (by decide)), if_neg (hne _ (by decide)), if_neg hctrl]

theorem flatMap_jsonEscapeByte_of_le {s : Bytes} (hs : ∀ c ∈ s, 128 ≤ c) :
    s.flatMap jsonEscapeByte = s := by
  induction s with
  | nil => rfl
  | cons c s ih =>
    rw [List.flatMap_cons, jsonEscapeByte_of_le (hs c List.mem_cons_self),
      ih fun d hd => hs d (List.mem_cons_of_mem c hd), List.singleton_append]

/-- What begins with an ASCII character does so when it is escaped. -/
theorem head_flatMap_jsonEscapeByte {s : Bytes} (hs : ∀ c ∈ s.head?, c < 128) :
    ∀ b ∈ (s.flatMap jsonEscapeByte).head?, b < 128 := by
  intro b hb
  cases s with
  | nil => simp at hb
  | cons c s =>
    have hascii := ascii_jsonEscapeByte (hs c rfl)
    rw [List.flatMap_cons] at hb
    cases hesc : jsonEscapeByte c with
    | nil =>
      have hspells := spells_jsonEscapeByte c
      rw [hesc] at hspells
      cases hspells
    | cons x text =>
      rw [hesc] at hb hascii
      obtain rfl := Option.some.inj hb
      exact hascii x List.mem_cons_self

/-- **Escaping keeps UTF-8**, and makes none of what is not: between two ASCII characters the text
is as it was. -/
theorem valid_flatMap_iff (s : Bytes) : Utf8.Valid (s.flatMap jsonEscapeByte) ↔ Utf8.Valid s := by
  induction hn : s.length using Nat.strong_induction_on generalizing s with
  | _ n ih =>
    cases s with
    | nil => rfl
    | cons c s =>
      rw [List.length_cons] at hn
      by_cases hc : c < 128
      · have hone : ∀ d ∈ [c], d < 128 := by simpa using hc
        rw [List.flatMap_cons, Utf8.valid_ascii_append (ascii_jsonEscapeByte hc),
          ih s.length (by omega) s rfl, ← Utf8.valid_ascii_append hone, List.singleton_append]
      · -- the bytes up to the next ASCII character are kept
        have hsplit := List.takeWhile_append_dropWhile (p := fun d => decide (128 ≤ d)) (l := c :: s)
        have hkept := flatMap_jsonEscapeByte_of_le (s := (c :: s).takeWhile fun d => decide (128 ≤ d))
          fun d hd => by simpa using List.mem_takeWhile_imp hd
        have hhead : ∀ d ∈ ((c :: s).dropWhile fun d => decide (128 ≤ d)).head?, d < 128 := by
          intro d hd
          have hnot := List.head?_dropWhile_not (fun d => decide (128 ≤ d)) (c :: s)
          rw [Option.mem_def.mp hd] at hnot
          simpa using hnot
        have hlt : ((c :: s).dropWhile fun d => decide (128 ≤ d)).length < n := by
          rw [List.dropWhile_cons_of_pos (by simpa using hc)]
          have := (List.dropWhile_suffix (l := s) fun d => decide (128 ≤ d)).length_le
          omega
        rw [← hsplit, List.flatMap_append, hkept,
          Utf8.valid_append_iff fun x hx =>
            Utf8.isFirst_of_lt (head_flatMap_jsonEscapeByte hhead x hx),
          Utf8.valid_append_iff fun x hx => Utf8.isFirst_of_lt (hhead x hx), ih _ hlt _ rfl]

theorem ascii_of_isDigit {c : UInt8} (hc : isDigit c = true) : c < 128 := by
  rw [isDigit, Bool.and_eq_true, decide_eq_true_eq, decide_eq_true_eq, UInt8.le_iff_toNat_le,
    UInt8.le_iff_toNat_le] at hc
  have h57 : (57 : UInt8).toNat = 57 := rfl
  refine UInt8.lt_iff_toNat_lt.mpr (hc.2.trans_lt ?_)
  decide

theorem ascii_recordHead (now : ℤ) (level : LogLevel) : ∀ c ∈ recordHead now level, c < 128 := by
  have hopen : ∀ c ∈ lit "\x7b\"ts\":", c < 128 := by decide +kernel
  have hnumber : ∀ c ∈ signedDecimal now, c < 128 := by
    intro c hc
    rcases Bool.or_eq_true_iff.mp (signedDecimal_chars now c hc) with hsign | hdigit
    · rw [of_decide_eq_true hsign]
      decide
    · exact ascii_of_isDigit hdigit
  have hlevel : ∀ c ∈ lit ",\"level\":\"", c < 128 := by decide +kernel
  have hname : ∀ c ∈ levelName level, c < 128 := by cases level <;> decide +kernel
  have hevent : ∀ c ∈ lit "\",\"event\":\"", c < 128 := by decide +kernel
  simp only [recordHead, List.forall_mem_append]
  exact ⟨⟨⟨⟨hopen, hnumber⟩, hlevel⟩, hname⟩, hevent⟩

/-- A record is UTF-8 when the message is that is left after the cut. -/
theorem valid_record_iff {verbose : Bool} {now : ℤ} {level : LogLevel} {event message : CStr}
    {record : Bytes} (hw : wcatLog true verbose now level event message = some record)
    (hevent : Utf8.Valid event.1) : Utf8.Valid record ↔ Utf8.Valid (message.1.take 1023) := by
  rw [wcatLog] at hw
  split_ifs at hw with hquiet hjson
  · obtain rfl := Option.some.inj hw
    have hmid : ∀ c ∈ lit "\",\"message\":\"", c < 128 := by decide +kernel
    have hend : ∀ c ∈ lit "\"\x7d\n", c < 128 := by decide +kernel
    have hfront : Utf8.Valid (recordHead now level ++ jsonEscape event ++
        lit "\",\"message\":\"") :=
      ((Utf8.valid_ascii (ascii_recordHead now level)).append
        ((valid_flatMap_iff event.1).mpr hevent)).append (Utf8.valid_ascii hmid)
    rw [Utf8.valid_append_ascii hend]
    refine ⟨fun h => ?_, fun h => hfront.append ((valid_flatMap_iff _).mpr h)⟩
    exact (valid_flatMap_iff _).mp (h.right hfront)
  · exact absurd rfl hjson

/-- **When a record is UTF-8**: exactly when the message is not cut inside a character. -/
theorem logRecord_utf8_iff {verbose : Bool} {now : ℤ} {level : LogLevel} {event message : CStr}
    {record : Bytes} (hw : wcatLog true verbose now level event message = some record)
    (hevent : Utf8.Valid event.1) (hmessage : Utf8.Valid message.1) :
    Utf8.Valid record ↔ ∀ x ∈ (message.1.drop 1023).head?, x.IsUTF8FirstByte := by
  rw [valid_record_iff hw hevent]
  exact Utf8.valid_left_iff (by rwa [List.take_append_drop])

theorem valid_resolveEvent : Utf8.Valid resolveEvent.1 := Utf8.valid_ascii (by decide +kernel)

/-- An `é`. -/
def letterE : CStr := ⟨[0xc3, 0xa9], by decide⟩

theorem valid_letterE : Utf8.Valid letterE.1 := ⟨[Char.ofNat 0xe9], by decide⟩

/-- A short message is not cut. -/
theorem logRecord_utf8_iff_short : ∃ record,
    wcatLog true false 7 .warn resolveEvent letterE = some record ∧ Utf8.Valid record := by
  obtain ⟨record, hw⟩ : ∃ record, wcatLog true false 7 .warn resolveEvent letterE = some record :=
    ⟨_, rfl⟩
  have hshort : letterE.1.drop 1023 = [] := List.drop_eq_nil_of_le (by decide)
  refine ⟨record, hw, (logRecord_utf8_iff hw valid_resolveEvent valid_letterE).mpr ?_⟩
  rw [hshort]
  simp

/-- The message for a host whose name is 1022 letters `a` and an `é`, when it is not resolved. -/
def longHost : CStr :=
  ⟨List.replicate 1022 (chr 'a') ++ (letterE.1 ++ lit ":80: Name or service not known"), by
    rw [List.mem_append, not_or]
    exact ⟨fun h => absurd (List.eq_of_mem_replicate h) (by decide), by decide⟩⟩

/-- **A character is cut in two**, and the record is not UTF-8. -/
theorem not_logRecord_utf8 : Utf8.Valid longHost.1 ∧ ∃ record,
    wcatLog true false 7 .error resolveEvent longHost = some record ∧ ¬Utf8.Valid record := by
  have hletters : ∀ c ∈ List.replicate 1022 (chr 'a'), c < 128 := by
    intro c hc
    rw [List.eq_of_mem_replicate hc]
    decide
  obtain ⟨record, hw⟩ : ∃ record, wcatLog true false 7 .error resolveEvent longHost = some record :=
    ⟨_, rfl⟩
  refine ⟨?_, record, hw, fun hvalid => ?_⟩
  · refine (Utf8.valid_ascii hletters).append (valid_letterE.append (Utf8.valid_ascii ?_))
    decide +kernel
  · rw [valid_record_iff hw valid_resolveEvent, longHost, List.take_append,
      List.take_of_length_le (by rw [List.length_replicate]; omega), List.length_replicate,
      Utf8.valid_ascii_append hletters] at hvalid
    have hcut := (Utf8.valid_left_iff (a := [0xc3]) (b := [0xa9]) valid_letterE).mp hvalid
    exact absurd (hcut 0xa9 rfl) (by decide)

end Wirecat
