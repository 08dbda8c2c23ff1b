import Mathlib.Data.List.TakeWhile
import Wirecat.Frames
import Wirecat.Numerals

/-!
# Commands for a session

Six commands of the prompt name a session by its number: `:use`, `:attach`, `:info`, `:kill`,
`:send` and `:rename` (`Wirecat.Verb`). Their arguments are read by `multi_parse_id_arg`, which
skips blanks, takes the digits it finds, and tells where they end. Whether something else
follows them is left to the caller, and the callers do not look.

What a command does to a session (`Wirecat.Verb.ActsOn`) is taken from its run: what it says
on the terminal, and what becomes of the table. The session is the one that the number at the
beginning of the argument names (`Wirecat.actsOn_iff`), so the commands are carried out only
for arguments that are a number exactly (`Wirecat.Exact`) when such an argument is never
followed by anything else: `Wirecat.exactCommands_iff`. A `:kill 1x` kills session 1.
-/

namespace Wirecat

open CString Interaction

/-! ### The words -/

/-- The commands that name a session. -/
inductive Verb
  | use
  | attach
  | info
  | kill
  | send
  | rename
  deriving DecidableEq

/-- What a line begins with for a command. -/
def Verb.words : Verb → List String
  | .use => [":use ", ":u "]
  | .attach => [":attach ", ":at "]
  | .info => [":info ", ":i "]
  | .kill => [":kill ", ":k "]
  | .send => [":send "]
  | .rename => [":rename "]

/-- Whether a text has to follow the number. -/
def Verb.takesText : Verb → Bool
  | .send | .rename => true
  | _ => false

/-- The function that carries a command out. -/
def Verb.carryOut (max : ℕ) (arg : Bytes) : Verb → MultiState → Proc MultiState
  | .use => multiUse max arg
  | .attach => multiAttach max (some arg)
  | .info => multiInfo max (some arg)
  | .kill => multiKill max arg
  | .send => multiSend max arg
  | .rename => multiRename max arg

/-- **The dispatcher** tells the words apart. -/
theorem multiCommand_word {v : Verb} {word : String} (hword : word ∈ v.words) (max : ℕ)
    (line arg : Bytes) (s : MultiState) :
    multiCommand max line (lit word ++ arg) s = v.carryOut max arg s := by
  cases v <;> simp only [Verb.words, List.mem_cons, List.not_mem_nil, or_false] at hword
  case use => rcases hword with rfl | rfl <;> rfl
  case attach => rcases hword with rfl | rfl <;> rfl
  case info => rcases hword with rfl | rfl <;> rfl
  case kill => rcases hword with rfl | rfl <;> rfl
  case send => subst hword; rfl
  case rename => subst hword; rfl

/-- The string of a buffer that begins with a word. -/
theorem ofBuffer_append {a : Bytes} (ha : 0 ∉ a) (b : Bytes) : ofBuffer (a ++ b) = a ++ ofBuffer b := by
  induction a with
  | nil => rfl
  | cons c a ih =>
    obtain ⟨hc, ha⟩ := not_or.mp (mt List.mem_cons.mpr ha)
    rw [List.cons_append, ofBuffer, List.takeWhile_cons_of_pos (by simpa using Ne.symm hc)]
    exact congrArg (c :: ·) (ih ha)

/-- A line that begins with a word is carried out as that command. -/
theorem multiHandleInputLine_word {v : Verb} {word : String} (hword : word ∈ v.words) (max : ℕ)
    {line arg : Bytes} (hline : multiLineTrim line = lit word ++ arg) (s : MultiState) :
    multiHandleInputLine max line s = v.carryOut max (ofBuffer arg) s := by
  have hword' : 0 ∉ lit word ∧ (lit word).head? = some (chr ':') := by
    cases v <;> simp only [Verb.words, List.mem_cons, List.not_mem_nil, or_false] at hword
    case use => rcases hword with rfl | rfl <;> decide
    case attach => rcases hword with rfl | rfl <;> decide
    case info => rcases hword with rfl | rfl <;> decide
    case kill => rcases hword with rfl | rfl <;> decide
    case send => subst hword; decide
    case rename => subst hword; decide
  have hcolon : line.head? = some (chr ':') := by
    have hpre : multiLineTrim line <+: line := by
      rw [multiLineTrim, ← List.reverse_suffix, List.reverse_reverse]
      exact List.dropWhile_suffix _
    obtain ⟨tail, htail⟩ := hpre
    rw [← htail, hline, List.head?_append, List.head?_append, hword'.2]
    rfl
  rw [multiHandleInputLine, if_pos hcolon, hline, ofBuffer_append hword'.1, multiCommand_word hword]

/-! ### Arguments -/

/-- The digits an argument begins with, behind blanks. -/
def numeralOf (arg : Bytes) : Bytes := (multiSkipSpace arg).takeWhile isDigit

/-- What follows them. -/
def afterNumeral (arg : Bytes) : Bytes := (multiSkipSpace arg).dropWhile isDigit

/-- **An argument that is a number exactly**: a decimal numeral of value `N` between blanks; or the
numeral, a blank, and a text. -/
def Exact (v : Verb) (arg : Bytes) (N : ℕ) : Prop :=
  0 < N ∧ N ≤ 0xffffffff ∧ ∃ lead digits rest, arg = lead ++ digits ++ rest ∧
    (∀ c ∈ lead, isBlank c = true) ∧ digits ≠ [] ∧ (∀ c ∈ digits, isDigit c = true) ∧
    digitsValue digits = N ∧
    if v.takesText then
      ∃ gap text, rest = gap ++ text ∧ gap ≠ [] ∧ (∀ c ∈ gap, isBlank c = true) ∧ text ≠ []
    else ∀ c ∈ rest, isBlank c = true

/-- Nothing but blanks follows the number; or a blank does, before a text. -/
def Ends (v : Verb) (arg : Bytes) : Prop :=
  if v.takesText then ∀ c ∈ (afterNumeral arg).head?, isBlank c = true
  else ∀ c ∈ afterNumeral arg, isBlank c = true

theorem not_isDigit_of_isBlank {c : UInt8} (hc : isBlank c = true) : isDigit c = false := by
  rw [isBlank, Bool.or_eq_true, decide_eq_true_eq, decide_eq_true_eq] at hc
  rcases hc with rfl | rfl <;> decide

/-- The parts of an argument. -/
theorem arg_split (arg : Bytes) : ∃ lead, arg = lead ++ numeralOf arg ++ afterNumeral arg ∧
    ∀ c ∈ lead, isBlank c = true := by
  refine ⟨arg.takeWhile isBlank, ?_, fun c hc => List.mem_takeWhile_imp hc⟩
  rw [List.append_assoc, numeralOf, afterNumeral, List.takeWhile_append_dropWhile]
  exact List.takeWhile_append_dropWhile.symm

/-- The numeral of an argument that is given in parts. -/
theorem numeral_parts {lead digits rest : Bytes} (hlead : ∀ c ∈ lead, isBlank c = true)
    (hne : digits ≠ []) (hdigits : ∀ c ∈ digits, isDigit c = true)
    (hrest : ∀ c ∈ rest.head?, isDigit c = false) :
    numeralOf (lead ++ digits ++ rest) = digits ∧ afterNumeral (lead ++ digits ++ rest) = rest := by
  have hskip : multiSkipSpace (lead ++ digits ++ rest) = digits ++ rest := by
    obtain ⟨d, digits, rfl⟩ := List.exists_cons_of_ne_nil hne
    have hd : isBlank d = false := by
      by_contra hb
      have hno := not_isDigit_of_isBlank (Bool.not_eq_false _ ▸ hb)
      rw [hdigits d List.mem_cons_self] at hno
      exact absurd hno (by simp)
    rw [List.append_assoc]
    change (lead ++ (d :: digits ++ rest)).dropWhile isBlank = _
    rw [List.dropWhile_append_of_pos hlead, List.cons_append, List.dropWhile_cons_of_neg (by simp [hd])]
  rw [numeralOf, afterNumeral, hskip, List.takeWhile_append_of_pos hdigits,
    List.dropWhile_append_of_pos hdigits]
  cases rest with
  | nil => exact ⟨List.append_nil _, rfl⟩
  | cons c rest =>
    have hc := hrest c rfl
    rw [List.takeWhile_cons_of_neg (by simp [hc]), List.dropWhile_cons_of_neg (by simp [hc])]
    exact ⟨List.append_nil _, rfl⟩

/-- Cutting a buffer at its first zero, and taking from its front what is not zero. -/
theorem while_ofBuffer {p : UInt8 → Bool} (hp : p 0 = false) (x : Bytes) :
    (ofBuffer x).takeWhile p = x.takeWhile p ∧ (ofBuffer x).dropWhile p = ofBuffer (x.dropWhile p) := by
  induction x with
  | nil => exact ⟨rfl, rfl⟩
  | cons c x ih =>
    rcases eq_or_ne c 0 with rfl | hc
    · rw [List.takeWhile_cons_of_neg (by simp [hp]), List.dropWhile_cons_of_neg (by simp [hp])]
      exact ⟨rfl, rfl⟩
    · have hcut : ofBuffer (c :: x) = c :: ofBuffer x := List.takeWhile_cons_of_pos (by simpa using hc)
      rw [hcut]
      cases hpc : p c with
      | true =>
        rw [List.takeWhile_cons_of_pos hpc, List.takeWhile_cons_of_pos hpc,
          List.dropWhile_cons_of_pos hpc, List.dropWhile_cons_of_pos hpc, ih.1]
        exact ⟨rfl, ih.2⟩
      | false =>
        rw [List.takeWhile_cons_of_neg (by simp [hpc]), List.takeWhile_cons_of_neg (by simp [hpc]),
          List.dropWhile_cons_of_neg (by simp [hpc]), List.dropWhile_cons_of_neg (by simp [hpc]), hcut]
        exact ⟨rfl, rfl⟩

theorem multiSkipSpace_ofBuffer (x : Bytes) :
    multiSkipSpace (ofBuffer x) = ofBuffer (multiSkipSpace x) := (while_ofBuffer (by decide) x).2

/-- A string has the numeral of its buffer. -/
theorem numeralOf_ofBuffer (arg : Bytes) : numeralOf (ofBuffer arg) = numeralOf arg ∧
    afterNumeral (ofBuffer arg) = ofBuffer (afterNumeral arg) := by
  rw [numeralOf, numeralOf, afterNumeral, afterNumeral, multiSkipSpace_ofBuffer]
  exact while_ofBuffer (by decide) _

/-- `strtoul` of a string that begins with a digit. -/
theorem strtoul_digit {d : UInt8} (hd : isDigit d = true) (x : Bytes) :
    (strtoul (d :: x)).value = min (digitsValue ((d :: x).takeWhile isDigit)) ulongMax ∧
      (strtoul (d :: x)).rest = (d :: x).dropWhile isDigit := by
  have hsome : ((d :: x).takeWhile isDigit).isEmpty = false := by
    rw [List.takeWhile_cons_of_pos hd]
    rfl
  rw [strtoul, scanNumber_digit hd]
  dsimp only
  generalize (d :: x).takeWhile isDigit = digits at hsome
  rw [hsome, if_neg (by simp)]
  by_cases hbig : ulongMax < digitsValue digits
  · rw [if_pos hbig]
    exact ⟨(Nat.min_eq_right hbig.le).symm, rfl⟩
  · rw [if_neg hbig]
    exact ⟨(Nat.min_eq_left (not_lt.mp hbig)).symm, rfl⟩

/-- **What `multi_parse_id_arg` finds**: the value of the numeral, and what follows it. -/
theorem multiParseIdArg_eq (arg : Bytes) : multiParseIdArg arg =
    if numeralOf arg = [] ∨ digitsValue (numeralOf arg) = 0 ∨
        0xffffffff < digitsValue (numeralOf arg) then none
    else some (digitsValue (numeralOf arg), multiSkipSpace (afterNumeral arg)) := by
  rw [multiParseIdArg, numeralOf, afterNumeral]
  dsimp only
  generalize multiSkipSpace arg = x
  cases x with
  | nil => rfl
  | cons d x =>
    cases hd : isDigit d with
    | false => simp [hd]
    | true =>
      obtain ⟨hvalue, hrest⟩ := strtoul_digit hd x
      have hsome : (d :: x).takeWhile isDigit ≠ [] := by
        rw [List.takeWhile_cons_of_pos hd]
        simp
      have hmax : ulongMax = 2 ^ 64 - 1 := rfl
      rw [hvalue, hrest, List.head?_cons, Option.any_some, hd, if_neg (by simp)]
      generalize (d :: x).takeWhile isDigit = digits at hsome
      generalize digitsValue digits = v
      by_cases hv : v = 0 ∨ 0xffffffff < v
      · rw [if_pos (by omega), if_pos (.inr hv)]
      · rw [if_neg (by omega), if_neg (not_or.mpr ⟨hsome, hv⟩), Nat.min_eq_left (by omega)]

/-! ### The session a command is for -/

/-- The number of the session a command is for: that of a live session, with a text behind it if the
command takes one. -/
def Verb.target (v : Verb) (max : ℕ) (s : MultiState) (arg : Bytes) : Option ℕ :=
  ((multiParseIdArg arg).filter fun p =>
    (multiFindById s max p.1).isSome && !(v.takesText && p.2.isEmpty)).map Prod.fst

theorem target_eq_some {v : Verb} {max N : ℕ} {s : MultiState} {arg : Bytes} :
    v.target max s arg = some N ↔ ∃ rest, multiParseIdArg arg = some (N, rest) ∧
      (multiFindById s max N).isSome ∧ (v.takesText = true → rest ≠ []) := by
  rw [Verb.target, Option.map_eq_some_iff]
  constructor
  · rintro ⟨⟨N, rest⟩, hfilter, rfl⟩
    obtain ⟨hparse, hp⟩ := Option.filter_eq_some_iff.mp hfilter
    rw [Bool.and_eq_true, Bool.not_eq_true', Bool.and_eq_false_iff] at hp
    refine ⟨rest, hparse, hp.1, ?_⟩
    rintro htext rfl
    simp [htext] at hp
  · rintro ⟨rest, hparse, hlive, hrest⟩
    refine ⟨(N, rest), Option.filter_eq_some_iff.mpr ⟨hparse, ?_⟩, rfl⟩
    rw [Bool.and_eq_true, Bool.not_eq_true', Bool.and_eq_false_iff]
    refine ⟨hlive, ?_⟩
    cases htext : v.takesText with
    | false => exact .inl rfl
    | true => exact .inr (by simpa using hrest htext)

/-- **Of an argument that names a session**: it is exact when its numeral ends. -/
theorem exact_iff_ends {v : Verb} {max N : ℕ} {s : MultiState} {arg : Bytes}
    (ht : v.target max s (ofBuffer arg) = some N) : Exact v arg N ↔ Ends v arg := by
  obtain ⟨after, hparse, -, htext⟩ := target_eq_some.mp ht
  obtain ⟨hnum, hafter⟩ := numeralOf_ofBuffer arg
  rw [multiParseIdArg_eq, hnum, hafter, multiSkipSpace_ofBuffer] at hparse
  split_ifs at hparse with hbad
  obtain ⟨hvalue, rfl⟩ := Prod.mk.inj (Option.some.inj hparse)
  obtain ⟨hne, hrange⟩ := not_or.mp hbad
  constructor
  · rintro ⟨-, -, lead, digits, rest, rfl, hlead, hdigits, hall, -, hrest⟩
    rw [Ends]
    split_ifs at hrest ⊢ with hv
    · obtain ⟨gap, text, rfl, hgap, hblank, -⟩ := hrest
      obtain ⟨g, gap, rfl⟩ := List.exists_cons_of_ne_nil hgap
      have hg := hblank g List.mem_cons_self
      obtain ⟨-, hparts⟩ := @numeral_parts lead digits (g :: gap ++ text) hlead hdigits hall
        (by rintro c ⟨⟩; exact not_isDigit_of_isBlank hg)
      rw [hparts]
      rintro c ⟨⟩
      exact hg
    · obtain ⟨-, hparts⟩ := @numeral_parts lead digits rest hlead hdigits hall
        (fun c hc => not_isDigit_of_isBlank (hrest c (List.mem_of_mem_head? hc)))
      rw [hparts]
      exact hrest
  · intro hends
    obtain ⟨lead, harg, hlead⟩ := arg_split arg
    refine ⟨by omega, by omega, lead, numeralOf arg, afterNumeral arg, harg, hlead, hne,
      fun c hc => List.mem_takeWhile_imp hc, hvalue, ?_⟩
    rw [Ends] at hends
    split_ifs at hends ⊢ with hv
    · have hsome : multiSkipSpace (afterNumeral arg) ≠ [] := fun h0 => htext hv (by rw [h0]; rfl)
      refine ⟨(afterNumeral arg).takeWhile isBlank, multiSkipSpace (afterNumeral arg),
        List.takeWhile_append_dropWhile.symm, ?_, fun c hc => List.mem_takeWhile_imp hc, hsome⟩
      cases hrest : afterNumeral arg with
      | nil => exact absurd (by rw [hrest]; rfl) hsome
      | cons c rest =>
        rw [List.takeWhile_cons_of_pos (hends c (by rw [hrest]; rfl))]
        simp
    · exact hends

/-! ### What a command does -/

/-- What the listener tells of a session on which a command was carried out. -/
def Verb.Reports (v : Verb) (N : ℕ) (out : Screen) : Prop :=
  match v with
  | .use => out = .active N
  | .attach => out = .attached N
  | .info => ∃ row active rxBytes txBytes, row.id = N ∧ out = .info row active rxBytes txBytes
  | .kill => ∃ row, row.id = N ∧ out = .killed row
  | .send => False
  | .rename => out = .renamed N

/-- What becomes of a session on which a command was carried out: it is chosen, or its entry in the
table is another. -/
def Verb.Changes (v : Verb) (max N : ℕ) (s s' : MultiState) : Prop :=
  match v with
  | .use | .attach => s'.activeId = N ∧ s.activeId ≠ N ∨ s'.attachedId = N ∧ s.attachedId ≠ N
  | .info => False
  | .kill | .send | .rename => ∃ i < max, (s.sessions i).live = true ∧ (s.sessions i).id = N ∧
      s'.sessions i ≠ s.sessions i

/-- **A command acts on session `N`** in a run: the run tells so, or changes what is kept of it. -/
def Verb.ActsOn (v : Verb) (max N : ℕ) (s s' : MultiState) (h h' : Hist) : Prop :=
  v.Changes max N s s' ∨
    ∃ out, v.Reports N out ∧ ∃ new, h' = new ++ h ∧ ∃ ev ∈ new, ev.1 = .tty out

section
variable {max N i : ℕ} {s s' : MultiState} {arg : Bytes} {h h' : Hist}

/-- The requests of a command that tell of no other session than the one it is for. -/
def Verb.TellsOf (v : Verb) (max : ℕ) (s : MultiState) (arg : Bytes) (e : Sys) : Prop :=
  ∀ N out, e = .tty out → v.Reports N out → v.target max s arg = some N

/-- A request that is not for the screen. -/
theorem Verb.tellsOf_of_ne {v : Verb} {e : Sys} (he : ∀ out, e ≠ .tty out) :
    v.TellsOf max s arg e := fun _ out h => absurd h (he out)

/-- What is said whenever a command was carried out, or was not. -/
theorem Verb.tellsOf_aside {v : Verb} {out : Screen} (hout : ∀ N, ¬v.Reports N out) :
    v.TellsOf max s arg (.tty out) := by
  rintro N _ ⟨⟩ hrep
  exact absurd hrep (hout N)

theorem Verb.not_reports_prompt (v : Verb) (id N : ℕ) : ¬v.Reports N (.prompt id) := by
  cases v <;> simp [Verb.Reports]

theorem Verb.not_reports_failure (v : Verb) (text : String) (N : ℕ) :
    ¬v.Reports N (.failure text) := by
  cases v <;> simp [Verb.Reports]

/-- The end of every command: the prompt, and nothing more is done. -/
theorem within_promptAfter {v : Verb} {id : ℕ} {t : MultiState} {Q : MultiState → Prop} (ht : Q t) :
    Within (v.TellsOf max s arg) (multiPrintPrompt id >>= fun _ => pure t) Q :=
  Within.step (Verb.tellsOf_aside (v.not_reports_prompt id)) fun _ => ht

/-- A command that is refused says so. -/
theorem within_notCarriedOut {v : Verb} {text : String} {p : Proc MultiState} {Q : MultiState → Prop}
    (hp : Within (v.TellsOf max s arg) p Q) :
    Within (v.TellsOf max s arg) (multiFailure text >>= fun _ => p) Q :=
  Within.step (Verb.tellsOf_aside (v.not_reports_failure text)) fun _ => hp

/-- Nothing is changed. -/
theorem Verb.not_changes_self (v : Verb) (max N : ℕ) (s : MultiState) : ¬v.Changes max N s s := by
  cases v <;> simp [Verb.Changes]

/-- A command that changes one entry of the table changes it for the session that was found. -/
theorem changes_set {v : Verb} (hfind : multiFindById s max N = some i)
    (hs' : ∀ j, j ≠ i → s'.sessions j = s.sessions j)
    (hv : v = .kill ∨ v = .send ∨ v = .rename) {M : ℕ} (hc : v.Changes max M s s') : M = N := by
  have hentry : ∃ j < max, (s.sessions j).live = true ∧ (s.sessions j).id = M ∧
      s'.sessions j ≠ s.sessions j := by
    rcases hv with rfl | rfl | rfl <;> exact hc
  obtain ⟨j, -, -, rfl, hne⟩ := hentry
  obtain rfl : j = i := by
    by_contra hj
    exact hne (hs' j hj)
  exact (multiFindById_eq_some hfind).2.2

/-- `:use` chooses the session it is for. -/
theorem within_multiUse : Within (Verb.use.TellsOf max s arg) (multiUse max arg s)
    fun s' => ∀ N, Verb.use.Changes max N s s' → Verb.use.target max s arg = some N := by
  rw [multiUse]
  cases hp : (multiParseIdArg arg).filter fun p => (multiFindById s max p.1).isSome with
  | none => exact within_notCarriedOut (within_promptAfter fun N hc => absurd hc (Verb.not_changes_self _ _ _ _))
  | some p =>
    obtain ⟨id, rest⟩ := p
    obtain ⟨hparse, hlive⟩ := Option.filter_eq_some_iff.mp hp
    have ht : Verb.use.target max s arg = some id :=
      target_eq_some.mpr ⟨rest, hparse, hlive, fun htext => absurd htext (by simp [Verb.takesText])⟩
    refine Within.step ?_ fun _ => within_promptAfter fun N hc => ?_
    · rintro N _ ⟨⟩ hrep
      exact ht.trans (congrArg some (Screen.active.inj hrep))
    · rcases hc with ⟨rfl, -⟩ | ⟨rfl, hne⟩
      · exact ht
      · exact absurd rfl hne

/-- The number that `:attach` and `:info` look for is that of the session they are for. -/
theorem target_of_getD {v : Verb} (hv : v.takesText = false)
    (hlive : (multiFindById s max (((multiParseIdArg arg).map Prod.fst).getD 0)).isSome)
    (hid : ((multiParseIdArg arg).map Prod.fst).getD 0 ≠ 0) :
    v.target max s arg = some (((multiParseIdArg arg).map Prod.fst).getD 0) := by
  cases hparse : multiParseIdArg arg with
  | none =>
    rw [hparse] at hid
    exact absurd rfl hid
  | some p =>
    rw [hparse] at hlive
    exact target_eq_some.mpr ⟨p.2, hparse, hlive, fun htext => absurd htext (by simp [hv])⟩

/-- `:attach` attaches the session it is for, and chooses it. -/
theorem within_multiAttach : Within (Verb.attach.TellsOf max s arg) (multiAttach max (some arg) s)
    fun s' => ∀ N, Verb.attach.Changes max N s s' → Verb.attach.target max s arg = some N := by
  refine Within.ite (fun hid => ?_) fun _ => within_notCarriedOut
    (within_promptAfter fun N hc => absurd hc (Verb.not_changes_self _ _ _ _))
  have ht := @target_of_getD max s arg .attach rfl hid.2 hid.1
  refine Within.step ?_ fun _ N hc => ?_
  · rintro N _ ⟨⟩ hrep
    exact ht.trans (congrArg some (Screen.attached.inj hrep))
  · rcases hc with ⟨rfl, -⟩ | ⟨rfl, -⟩ <;> exact ht

/-- `:info` shows the session it is for. -/
theorem within_multiInfo : Within (Verb.info.TellsOf max s arg) (multiInfo max (some arg) s)
    fun s' => ∀ N, Verb.info.Changes max N s s' → Verb.info.target max s arg = some N := by
  refine Within.next (Within.ite (fun hid => ?_) fun _ => ?_) fun _ =>
    within_promptAfter fun N hc => absurd hc (Verb.not_changes_self _ _ _ _)
  · rw [multiPrintInfo]
    cases hfind : multiFindById s max (((multiParseIdArg arg).map Prod.fst).getD 0) with
    | none => exact within_sys (Verb.tellsOf_aside (Verb.not_reports_failure _ _))
    | some i =>
      have ht := @target_of_getD max s arg .info rfl (by rw [hfind]; rfl) hid
      refine within_sys ?_
      rintro N _ ⟨⟩ ⟨row, active, rx, tx, rfl, hrep⟩
      rw [← (Screen.info.inj hrep).1]
      exact ht.trans (congrArg some (multiFindById_eq_some hfind).2.2.symm)
  · exact within_sys (Verb.tellsOf_aside (Verb.not_reports_failure _ _))


theorem target_of_multiTarget {v : Verb} {rest : Bytes}
    (ht : multiTarget s max arg = some (i, N, rest)) (hrest : v.takesText = true → rest ≠ []) :
    v.target max s arg = some N ∧ multiFindById s max N = some i := by
  obtain ⟨⟨N', rest'⟩, hparse, hmap⟩ := Option.bind_eq_some_iff.mp ht
  obtain ⟨i', hfind, ⟨⟩⟩ := Option.map_eq_some_iff.mp hmap
  exact ⟨target_eq_some.mpr ⟨rest', hparse, by rw [hfind]; rfl, hrest⟩, hfind⟩

/-- The slot of the session that a command is for. -/
theorem exists_multiTarget {v : Verb} (ht : v.target max s arg = some N) :
    ∃ i rest, multiTarget s max arg = some (i, N, rest) ∧ multiFindById s max N = some i ∧
      multiParseIdArg arg = some (N, rest) ∧ (v.takesText = true → rest ≠ []) := by
  obtain ⟨rest, hparse, hlive, htext⟩ := target_eq_some.mp ht
  obtain ⟨i, hfind⟩ := Option.isSome_iff_exists.mp hlive
  refine ⟨i, rest, ?_, hfind, hparse, htext⟩
  rw [multiTarget, hparse, Option.bind_some, hfind]
  rfl

/-- A command, and the prompt after it. -/
theorem within_beforePrompt {v : Verb} {p : Proc MultiState} {Q : MultiState → Prop}
    (hp : Within (v.TellsOf max s arg) p Q) : Within (v.TellsOf max s arg)
      (p >>= fun s' => multiPrintPrompt s'.activeId >>= fun _ => pure s') Q :=
  hp.bind' fun _ hs' => within_promptAfter hs'

theorem within_close {v : Verb} (s' : MultiState) : Within (v.TellsOf max s arg)
    (multiSessionClose s' i) fun s'' => s'' = s'.set i multiSessionInit := by
  refine Within.next ?_ fun _ => rfl
  cases (s'.sessions i).fd with
  | none => exact trivial
  | some fd => exact within_wcatCloseQuiet (Verb.tellsOf_of_ne (by simp))

/-- Another entry, and another session that is active. -/
theorem sessions_repairActive (s : MultiState) (id : ℕ) :
    (s.repairActive max id).sessions = s.sessions := by
  rw [MultiState.repairActive]
  split_ifs <;> rfl

/-- `:kill` closes the session it is for. -/
theorem within_multiKill : Within (Verb.kill.TellsOf max s arg) (multiKill max arg s)
    fun s' => ∀ N, Verb.kill.Changes max N s s' → Verb.kill.target max s arg = some N := by
  refine within_beforePrompt ?_
  cases hm : multiTarget s max arg with
  | none => exact within_notCarriedOut fun N hc => absurd hc (Verb.not_changes_self _ _ _ _)
  | some t =>
    obtain ⟨i, id, rest⟩ := t
    obtain ⟨ht, hfind⟩ := @target_of_multiTarget max id i s arg .kill rest hm
      fun htext => absurd htext (by simp [Verb.takesText])
    refine (within_close s).bind' ?_
    rintro _ rfl
    refine Within.step ?_ fun _ => Within.next (Within.ite (fun _ => ?_) fun _ => trivial)
      fun _ N hc => ?_
    · rintro N _ ⟨⟩ ⟨row, rfl, hrep⟩
      rw [← Screen.killed.inj hrep]
      exact ht.trans (congrArg some (multiFindById_eq_some hfind).2.2.symm)
    · exact within_sys (Verb.tellsOf_aside (by simp [Verb.Reports]))
    · rw [changes_set hfind (fun j hj => ?_) (.inl rfl) hc]
      · exact ht
      · rw [sessions_repairActive]
        exact Function.update_of_ne hj _ _

/-- `:rename` names the session it is for. -/
theorem within_multiRename : Within (Verb.rename.TellsOf max s arg) (multiRename max arg s)
    fun s' => ∀ N, Verb.rename.Changes max N s s' → Verb.rename.target max s arg = some N := by
  refine within_beforePrompt ?_
  cases hm : (multiTarget s max arg).filter fun t => !t.2.2.isEmpty with
  | none => exact within_notCarriedOut fun N hc => absurd hc (Verb.not_changes_self _ _ _ _)
  | some t =>
    obtain ⟨i, id, rest⟩ := t
    obtain ⟨hm, hrest⟩ := Option.filter_eq_some_iff.mp hm
    obtain ⟨ht, hfind⟩ := @target_of_multiTarget max id i s arg .rename rest hm
      fun _ => by simpa using hrest
    refine Within.step ?_ fun _ N hc => ?_
    · rintro N _ ⟨⟩ hrep
      exact ht.trans (congrArg some (Screen.renamed.inj hrep))
    · rw [changes_set hfind (fun j hj => Function.update_of_ne hj _ _) (.inr (.inr rfl)) hc]
      exact ht

/-- Sending counts what was sent. -/
theorem within_sendLine {v : Verb} (s' : MultiState) (line : Bytes) :
    Within (v.TellsOf max s arg) (multiSendLine s' i line) fun o => ∀ s'' ∈ o,
      s'' = s'.set i { s'.sessions i with
        txBytes := ((s'.sessions i).txBytes + line.length) % 2 ^ 64 } := by
  rw [multiSendLine]
  cases (s'.sessions i).fd with
  | none => exact fun _ hs'' => absurd hs'' (by simp)
  | some fd =>
    refine Within.next (within_wcatFullWrite (fun _ => Verb.tellsOf_of_ne (by simp)) _) fun n => ?_
    refine Within.ite (fun _ _ hs'' => absurd hs'' (by simp)) fun _ => ?_
    rintro s'' ⟨⟩
    rfl

/-- What `:send` makes of the table: the session counts the text and its end, or is closed. -/
def TextSent (i : ℕ) (text : Bytes) (s s' : MultiState) : Prop :=
  (∀ j, j ≠ i → s'.sessions j = s.sessions j) ∧
    ((s'.sessions i).txBytes = (((s.sessions i).txBytes + text.length) % 2 ^ 64 + 1) % 2 ^ 64 ∨
      s'.sessions i = multiSessionInit)

/-- The middle of `multi_send`: a text and its end. -/
theorem within_sendBoth {v : Verb} (text : Bytes) (id : ℕ) : Within (v.TellsOf max s arg)
    (multiSendLine s i text >>= fun sent => (match sent with
      | some s => multiSendLine s i [chr '\n']
      | none => pure none) >>= fun ended => match ended with
        | some s => pure s
        | none => multiFailure "send failed" >>= fun _ =>
          multiSessionClose (sent.getD s) i >>= fun s => pure (s.repairActive max id))
    (TextSent i text s) := by
  have hclosed : ∀ t : MultiState, (∀ j, j ≠ i → t.sessions j = s.sessions j) →
      Within (v.TellsOf max s arg) (multiFailure "send failed" >>= fun _ =>
        multiSessionClose t i >>= fun s => pure (s.repairActive max id)) (TextSent i text s) := by
    intro t ht
    refine within_notCarriedOut ((within_close t).bind' ?_)
    rintro _ rfl
    refine ⟨fun j hj => ?_, .inr ?_⟩
    · rw [sessions_repairActive]
      exact (Function.update_of_ne hj _ _).trans (ht j hj)
    · rw [sessions_repairActive]
      exact Function.update_self _ _ _
  refine (within_sendLine s text).bind' ?_
  rintro (_ | s₁) hs₁
  · exact hclosed s fun _ _ => rfl
  · obtain rfl := hs₁ s₁ rfl
    refine (within_sendLine _ [chr '\n']).bind' ?_
    rintro (_ | s₂) hs₂
    · exact hclosed _ fun j hj => Function.update_of_ne hj _ _
    · obtain rfl := hs₂ s₂ rfl
      refine ⟨fun j hj => ?_, .inl ?_⟩
      · exact (Function.update_of_ne hj _ _).trans (Function.update_of_ne hj _ _)
      · simp [MultiState.set]

/-- `:send` sends to the session it is for. -/
theorem within_multiSend : Within (Verb.send.TellsOf max s arg) (multiSend max arg s)
    fun s' => ∀ N, Verb.send.Changes max N s s' → Verb.send.target max s arg = some N := by
  refine within_beforePrompt ?_
  cases hm : (multiTarget s max arg).filter fun t => !t.2.2.isEmpty with
  | none => exact within_notCarriedOut fun N hc => absurd hc (Verb.not_changes_self _ _ _ _)
  | some t =>
    obtain ⟨i, id, rest⟩ := t
    obtain ⟨hm, hrest⟩ := Option.filter_eq_some_iff.mp hm
    obtain ⟨ht, hfind⟩ := @target_of_multiTarget max id i s arg .send rest hm
      fun _ => by simpa using hrest
    refine (within_sendBoth rest id).post_mono fun s' hsent N hc => ?_
    rw [changes_set hfind hsent.1 (.inr (.inl rfl)) hc]
    exact ht

/-- **No command acts on another session** than the one it is for. -/
theorem within_carryOut (v : Verb) : Within (v.TellsOf max s arg) (v.carryOut max arg s)
    fun s' => ∀ N, v.Changes max N s s' → v.target max s arg = some N := by
  cases v with
  | use => exact within_multiUse
  | attach => exact within_multiAttach
  | info => exact within_multiInfo
  | kill => exact within_multiKill
  | send => exact within_multiSend
  | rename => exact within_multiRename

/-- What was said in a run. -/
theorem actsOn_of_said {v : Verb} {out : Screen} {r : Resp (.tty out)} {g : Hist}
    (hrep : v.Reports N out) (hg : h <:+ g) (hr : ⟨.tty out, r⟩ :: g <:+ h') :
    v.ActsOn max N s s' h h' := by
  obtain ⟨new, rfl⟩ := hr
  obtain ⟨before, rfl⟩ := hg
  exact .inr ⟨out, hrep, new ++ ⟨.tty out, r⟩ :: before, by simp, ⟨.tty out, r⟩, by simp, rfl⟩

/-- The text that follows a number is no longer than the argument. -/
theorem length_rest {rest : Bytes} (hparse : multiParseIdArg arg = some (N, rest)) :
    rest.length ≤ arg.length := by
  rw [multiParseIdArg_eq] at hparse
  split_ifs at hparse
  obtain ⟨-, rfl⟩ := Prod.mk.inj (Option.some.inj hparse)
  exact ((List.dropWhile_suffix _).trans ((List.dropWhile_suffix _).trans
    (List.dropWhile_suffix _))).length_le

/-- **A command acts on the session it is for.** -/
theorem actsOn_target {v : Verb} (ht : v.target max s arg = some N)
    (hlen : arg.length ≤ multiInput) (hr : Runs Legal (v.carryOut max arg s) h h' (some s')) :
    v.ActsOn max N s s' h h' := by
  obtain ⟨i, rest, hm, hfind, hparse, htext⟩ := exists_multiTarget ht
  obtain ⟨hi, hlive, hid⟩ := multiFindById_eq_some hfind
  have hN : N ≠ 0 := multiParseIdArg_pos hparse
  have hsome : (multiFindById s max N).isSome := by rw [hfind]; rfl
  cases v with
  | use =>
    have hfilter : ((multiParseIdArg arg).filter fun p => (multiFindById s max p.1).isSome) =
        some (N, rest) := Option.filter_eq_some_iff.mpr ⟨hparse, hsome⟩
    rw [Verb.carryOut, multiUse, hfilter] at hr
    obtain ⟨_, -, hr⟩ := runs_ask.mp hr
    exact actsOn_of_said (v := .use) rfl (List.suffix_refl _) hr.suffix
  | attach =>
    rw [Verb.carryOut, multiAttach, hparse] at hr
    dsimp only [Option.map_some, Option.getD_some] at hr
    rw [if_pos ⟨hN, hsome⟩] at hr
    obtain ⟨_, -, hr⟩ := runs_ask.mp hr
    exact actsOn_of_said (v := .attach) (congrArg Screen.attached (by rw [hparse]; rfl))
      (List.suffix_refl _) hr.suffix
  | info =>
    rw [Verb.carryOut, multiInfo, hparse] at hr
    dsimp only [Option.map_some, Option.getD_some] at hr
    rw [if_pos hN, multiPrintInfo, hfind] at hr
    obtain ⟨_, -, hr⟩ := runs_ask.mp hr
    exact actsOn_of_said (v := .info) ⟨_, _, _, _, hid, rfl⟩ (List.suffix_refl _) hr.suffix
  | kill =>
    rw [Verb.carryOut, multiKill, hm] at hr
    obtain ⟨s₁, h₁, hr, hprompt⟩ := runs_bind_some'.mp hr
    obtain ⟨s₂, h₂, hclose, hr⟩ := runs_bind_some'.mp hr
    obtain ⟨_, -, hr⟩ := runs_ask.mp hr
    exact actsOn_of_said (v := .kill) ⟨_, hid, rfl⟩ hclose.suffix (hr.suffix.trans hprompt.suffix)
  | send =>
    have hne : rest ≠ [] := htext rfl
    have hfilter : ((multiTarget s max arg).filter fun t => !t.2.2.isEmpty) = some (i, N, rest) :=
      Option.filter_eq_some_iff.mpr ⟨hm, by simpa using hne⟩
    rw [Verb.carryOut, multiSend, hfilter] at hr
    obtain ⟨s₁, h₁, hr, hprompt⟩ := runs_bind_some'.mp hr
    obtain ⟨_, -, hret⟩ := runs_ask.mp hprompt
    obtain ⟨-, rfl⟩ := runs_pure.mp hret
    obtain ⟨-, hsent⟩ := (@within_sendBoth max i s arg .send rest N).result hr
    refine .inl ⟨i, hi, hlive, hid, fun heq => ?_⟩
    -- the text is too short for the counter to go round to where it was
    have hshort : rest.length ≤ multiInput := (length_rest hparse).trans hlen
    rcases hsent with htx | hinit
    · rw [heq] at htx
      have hmax : multiInput = 8192 := rfl
      omega
    · rw [← heq, hinit] at hlive
      exact absurd hlive (by decide)
  | rename =>
    have hfilter : ((multiTarget s max arg).filter fun t => !t.2.2.isEmpty) = some (i, N, rest) :=
      Option.filter_eq_some_iff.mpr ⟨hm, by simpa using htext rfl⟩
    rw [Verb.carryOut, multiRename, hfilter] at hr
    obtain ⟨s₁, h₁, hr, hprompt⟩ := runs_bind_some'.mp hr
    obtain ⟨_, -, hr⟩ := runs_ask.mp hr
    exact actsOn_of_said (v := .rename) rfl (List.suffix_refl _) (hr.suffix.trans hprompt.suffix)

/-- **The session that a command acts on**: the one that the number names with which the argument
begins. -/
theorem actsOn_iff {v : Verb} (hlen : arg.length ≤ multiInput)
    (hr : Runs Legal (v.carryOut max arg s) h h' (some s')) :
    v.ActsOn max N s s' h h' ↔ v.target max s arg = some N := by
  refine ⟨?_, fun ht => actsOn_target ht hlen hr⟩
  rintro (hchange | ⟨out, hrep, new, rfl, ev, hev, hout⟩)
  · exact (within_carryOut v).result hr N hchange
  · obtain ⟨new', hnew', htells⟩ := (within_carryOut v).events hr
    obtain rfl := List.append_cancel_right hnew'
    exact htells ev hev N out hout hrep

/-- **When a command acts on exact session numbers only**: when nothing follows the number of the
session it is for, or a blank does where a text has to follow. -/
theorem exactCommands_iff {v : Verb} {word : String} {line : Bytes} (hword : word ∈ v.words)
    (hline : multiLineTrim line = lit word ++ arg) (hlen : line.length ≤ multiInput)
    (hr : Runs Legal (multiHandleInputLine max line s) h h' (some s')) :
    (∀ N, v.ActsOn max N s s' h h' → Exact v arg N) ↔
      (v.target max s (ofBuffer arg) ≠ none → Ends v arg) := by
  rw [multiHandleInputLine_word hword max hline s] at hr
  have hshort : (ofBuffer arg).length ≤ multiInput := by
    have htrim : (multiLineTrim line).length ≤ line.length := by
      rw [multiLineTrim, List.length_reverse]
      exact (List.dropWhile_suffix _).length_le.trans List.length_reverse.le
    rw [hline, List.length_append] at htrim
    have hcut : (ofBuffer arg).length ≤ arg.length := (List.takeWhile_prefix _).length_le
    omega
  constructor
  · intro hall hsome
    obtain ⟨N, ht⟩ := Option.ne_none_iff_exists'.mp hsome
    exact (exact_iff_ends ht).mp (hall N ((actsOn_iff hshort hr).mpr ht))
  · intro hends N hacts
    have ht := (actsOn_iff hshort hr).mp hacts
    exact (exact_iff_ends ht).mpr (hends (by rw [ht]; simp))

end

/-- One live session, with the number 1, and active. -/
def oneLive : MultiState :=
  { multiInit.set 0 { multiSessionInit with fd := some (.conn .tcp 7), id := 1 } with
    activeId := 1, nextId := 2 }

/-- A `:use 1` is for session 1, and is exact. -/
theorem exactCommands_use : ∃ h' s',
    Runs Legal (multiHandleInputLine 1 (lit ":use 1\n") oneLive) [] h' (some s') ∧
      ∀ N, Verb.use.ActsOn 1 N oneLive s' [] h' → Exact .use (lit "1") N := by
  have hsome : (exec (lawful fun _ e => refuse e) 20
      (multiHandleInputLine 1 (lit ":use 1\n") oneLive) []).2.isSome = true := by decide +kernel
  obtain ⟨s', hs'⟩ := Option.isSome_iff_exists.mp hsome
  have hr := runs_of_exec (legal_lawful _) hs'
  have hword : ":use " ∈ Verb.use.words := by decide
  refine ⟨_, s', hr, (exactCommands_iff hword rfl (by decide +kernel) hr).mpr fun _ => ?_⟩
  show ∀ c ∈ afterNumeral (lit "1"), isBlank c = true
  decide +kernel

/-- **A `:kill 1x` kills session 1.** -/
theorem not_exactCommands : ∃ h' s',
    Runs Legal (multiHandleInputLine 1 (lit ":kill 1x\n") oneLive) [] h' (some s') ∧
      Verb.kill.ActsOn 1 1 oneLive s' [] h' ∧ ¬Exact .kill (lit "1x") 1 := by
  have hsome : (exec (lawful fun _ e => refuse e) 20
      (multiHandleInputLine 1 (lit ":kill 1x\n") oneLive) []).2.isSome = true := by decide +kernel
  obtain ⟨s', hs'⟩ := Option.isSome_iff_exists.mp hsome
  have hr := runs_of_exec (legal_lawful _) hs'
  have hword : ":kill " ∈ Verb.kill.words := by decide
  have htarget : Verb.kill.target 1 oneLive (ofBuffer (lit "1x")) = some 1 := by decide +kernel
  refine ⟨_, s', hr, ?_, fun hexact => ?_⟩
  · rw [multiHandleInputLine_word hword 1 rfl] at hr
    exact (actsOn_iff (by decide +kernel) hr).mpr htarget
  · have hends := (exact_iff_ends htarget).mp hexact
    have hx : chr 'x' ∈ afterNumeral (lit "1x") := by decide +kernel
    exact absurd (hends (chr 'x') hx) (by decide)

end Wirecat
