import Mathlib.Tactic

/-!
# C strings and the conversions of the C library

A C string is the list of its bytes, without the terminator: reading past the end
of the list is reading the NUL. This file holds the handful of library functions a
network tool applies to such strings, each following its documented behaviour
byte by byte:

* searching – `CString.splitFirst` and `CString.splitLast` for `strchr` and
  `strrchr`, `CString.isInfix` for `strstr`, and `CString.ofBuffer` for what a
  byte buffer is when it is read as a string;
* numbers – `CString.strtol` and `CString.strtoul` in base ten, with the leading
  white space, the sign and the saturation of the originals, and
  `CString.decimal` for what `%u` prints;
* addresses – `CString.inetPton4` and `CString.inetPton6` for `inet_pton`.

Every function is a structural recursion, so it evaluates.
-/

namespace CString

/-- A sequence of bytes. -/
abbrev Bytes := List UInt8

/-- The bytes of a string literal. -/
def lit (s : String) : Bytes := s.toList.map fun c => c.toNat.toUInt8

/-- The code of a character. -/
def chr (c : Char) : UInt8 := c.toNat.toUInt8

/-! ### Searching -/

/-- The text before and after the first `c`, as `strchr` finds it. -/
def splitFirst (c : UInt8) : Bytes → Option (Bytes × Bytes)
  | [] => none
  | x :: xs => if x = c then some ([], xs) else (splitFirst c xs).map fun p => (x :: p.1, p.2)

/-- The text before and after the last `c`, as `strrchr` finds it. -/
def splitLast (c : UInt8) : Bytes → Option (Bytes × Bytes)
  | [] => none
  | x :: xs => match splitLast c xs with
      | some p => some (x :: p.1, p.2)
      | none => if x = c then some ([], xs) else none

/-- Whether `needle` occurs in `hay`: `strstr (hay, needle) != NULL`. -/
def isInfix (needle : Bytes) : Bytes → Bool
  | [] => needle.isEmpty
  | x :: xs => needle.isPrefixOf (x :: xs) || isInfix needle xs

/-- The C string held in a buffer: its bytes before the first NUL. -/
def ofBuffer (buf : Bytes) : Bytes := buf.takeWhile (· ≠ 0)

theorem splitFirst_eq_none {c : UInt8} {s : Bytes} : splitFirst c s = none ↔ c ∉ s := by
  induction s with
  | nil => simp [splitFirst]
  | cons x s ih =>
    rw [splitFirst]
    split_ifs with hx
    · simp [hx]
    · simp [ih, Ne.symm hx]

theorem splitFirst_eq_some {c : UInt8} {s a t : Bytes} :
    splitFirst c s = some (a, t) ↔ s = a ++ c :: t ∧ c ∉ a := by
  induction s generalizing a with
  | nil => simp [splitFirst]
  | cons x s ih =>
    rw [splitFirst]
    split_ifs with hx
    · cases a with
      | nil => simp [hx, eq_comm]
      | cons y a =>
        simp only [Option.some.injEq, Prod.mk.injEq, List.cons_append, List.cons.injEq,
          List.mem_cons, not_or]
        exact ⟨fun h => absurd h.1 (by simp), fun h => absurd (hx.symm.trans h.1.1) h.2.1⟩
    · rw [Option.map_eq_some_iff]
      cases a with
      | nil =>
        simp only [List.nil_append, List.cons.injEq, List.not_mem_nil, not_false_eq_true, and_true]
        exact ⟨fun ⟨p, _, hp⟩ => absurd (congrArg Prod.fst hp) (by simp), fun h => absurd h.1 hx⟩
      | cons y a =>
        simp only [Prod.exists, Prod.mk.injEq, List.cons.injEq, List.cons_append, List.mem_cons,
          not_or]
        constructor
        · rintro ⟨a', t', hs, ⟨rfl, rfl⟩, rfl⟩
          obtain ⟨rfl, hnot⟩ := ih.mp hs
          exact ⟨⟨rfl, rfl⟩, Ne.symm hx, hnot⟩
        · rintro ⟨⟨rfl, rfl⟩, -, hnot⟩
          exact ⟨a, t, ih.mpr ⟨rfl, hnot⟩, ⟨rfl, rfl⟩, rfl⟩

theorem isInfix_iff {needle hay : Bytes} : isInfix needle hay = true ↔ needle <:+: hay := by
  induction hay with
  | nil => simp [isInfix]
  | cons x xs ih =>
    rw [isInfix, Bool.or_eq_true, ih, List.infix_cons_iff, List.isPrefixOf_iff_prefix]

/-- A buffer without a NUL is read as it is. -/
theorem ofBuffer_eq_self {buf : Bytes} (h : 0 ∉ buf) : ofBuffer buf = buf := by
  induction buf with
  | nil => rfl
  | cons c buf ih =>
    rw [List.mem_cons, not_or] at h
    have hc : c ≠ 0 := Ne.symm h.1
    rw [ofBuffer, List.takeWhile_cons_of_pos (by simpa using hc)]
    exact congrArg (c :: ·) (ih h.2)

theorem ofBuffer_isPrefix (buf : Bytes) : ofBuffer buf <+: buf := List.takeWhile_prefix _

theorem zero_not_mem_ofBuffer (buf : Bytes) : 0 ∉ ofBuffer buf := by
  induction buf with
  | nil => simp [ofBuffer]
  | cons c buf ih =>
    rw [ofBuffer, List.takeWhile_cons]
    split_ifs with hc
    · rw [List.mem_cons, not_or]
      exact ⟨fun h0 => of_decide_eq_true hc h0.symm, ih⟩
    · simp

/-! ### Numbers -/

/-- `isspace` of the C locale. -/
def isSpace (c : UInt8) : Bool := c = 32 || (9 ≤ c && c ≤ 13)

/-- `isdigit`. -/
def isDigit (c : UInt8) : Bool := 48 ≤ c && c ≤ 57

/-- The value of a string of decimal digits. -/
def digitsValue (ds : Bytes) : ℕ := ds.foldl (fun v d => v * 10 + (d.toNat - 48)) 0

/-- What `strtol` and `strtoul` find in front of the number: whether there is a
minus sign, the digits, and what follows them. -/
def scanNumber (s : Bytes) : Bool × Bytes × Bytes :=
  match s.dropWhile isSpace with
  | [] => (false, [], [])
  | c :: t =>
      let body := if c = chr '-' ∨ c = chr '+' then t else c :: t
      (c = chr '-', body.takeWhile isDigit, body.dropWhile isDigit)

/-- The outcome of a conversion: the value, the text from `*end` on, whether any
digit was converted (otherwise `end == s`), and whether `errno` became `ERANGE`. -/
structure Converted (α : Type) where
  value : α
  rest : Bytes
  converted : Bool
  range : Bool
  deriving DecidableEq

/-- `LONG_MAX`. -/
def longMax : ℤ := 2 ^ 63 - 1

/-- `LONG_MIN`. -/
def longMin : ℤ := -2 ^ 63

/-- `ULONG_MAX`. -/
def ulongMax : ℕ := 2 ^ 64 - 1

/-- `strtol (s, &end, 10)`: a value that does not fit saturates. -/
def strtol (s : Bytes) : Converted ℤ :=
  let (neg, ds, rest) := scanNumber s
  if ds.isEmpty then ⟨0, s, false, false⟩
  else
    let v : ℤ := if neg then -(digitsValue ds : ℤ) else digitsValue ds
    if v < longMin then ⟨longMin, rest, true, true⟩
    else if longMax < v then ⟨longMax, rest, true, true⟩
    else ⟨v, rest, true, false⟩

/-- `strtoul (s, &end, 10)`: a minus sign negates modulo the word, a magnitude
that does not fit saturates. -/
def strtoul (s : Bytes) : Converted ℕ :=
  let (neg, ds, rest) := scanNumber s
  if ds.isEmpty then ⟨0, s, false, false⟩
  else
    let v := digitsValue ds
    if ulongMax < v then ⟨ulongMax, rest, true, true⟩
    else ⟨if neg then (2 ^ 64 - v) % 2 ^ 64 else v, rest, true, false⟩

/-- The digits of a number, least significant first, at most `fuel` of them. -/
def digitsRev : ℕ → ℕ → Bytes
  | 0, _ => []
  | fuel + 1, n =>
      (48 + n % 10).toUInt8 :: if n < 10 then [] else digitsRev fuel (n / 10)

/-- What `%u`, `%d` and `%zu` print for a number that is not negative. -/
def decimal (n : ℕ) : Bytes := (digitsRev (n + 1) n).reverse

theorem isDigit_toUInt8 : ∀ d < 10, isDigit (48 + d).toUInt8 = true := by decide

theorem isDigit_digitsRev (fuel n : ℕ) : ∀ c ∈ digitsRev fuel n, isDigit c = true := by
  induction fuel generalizing n with
  | zero => simp [digitsRev]
  | succ fuel ih =>
    intro c hc
    rw [digitsRev] at hc
    rcases List.mem_cons.mp hc with rfl | hc
    · exact isDigit_toUInt8 _ (Nat.mod_lt _ (by decide))
    · split_ifs at hc
      · exact absurd hc List.not_mem_nil
      · exact ih _ c hc

/-- **A number is printed as digits.** -/
theorem isDigit_decimal (n : ℕ) : ∀ c ∈ decimal n, isDigit c = true := fun c hc =>
  isDigit_digitsRev _ _ c (List.mem_reverse.mp hc)

/-! ### Addresses -/

/-- The scan of `inet_pton` for a dotted quad: the octets finished so far, the one
being read, how many have been started, and whether the current one has a digit. -/
def inetPton4Scan : Bytes → Bool → ℕ → ℕ → Bytes → Option Bytes
  | [], _, octets, cur, tmp => if octets < 4 then none else some (tmp ++ [cur.toUInt8])
  | ch :: rest, sawDigit, octets, cur, tmp =>
      if isDigit ch then
        let new := cur * 10 + (ch.toNat - 48)
        if sawDigit && cur = 0 then none
        else if 255 < new then none
        else if sawDigit then inetPton4Scan rest true octets new tmp
        else if 4 < octets + 1 then none
        else inetPton4Scan rest true (octets + 1) new tmp
      else if ch = chr '.' && sawDigit then
        if octets = 4 then none else inetPton4Scan rest false octets 0 (tmp ++ [cur.toUInt8])
      else none

/-- `inet_pton (AF_INET, s, …)`: four decimal octets without leading zeros. -/
def inetPton4 (s : Bytes) : Option Bytes := inetPton4Scan s false 0 0 []

/-- The hexadecimal digit that `%x` prints. -/
def hexChar (n : ℕ) : UInt8 := if n < 10 then chr '0' + n.toUInt8 else chr 'a' + (n - 10).toUInt8

/-- The value of a hexadecimal digit. -/
def hexDigit (c : UInt8) : Option ℕ :=
  if isDigit c then some (c.toNat - 48)
  else if 97 ≤ c && c ≤ 102 then some (c.toNat - 87)
  else if 65 ≤ c && c ≤ 70 then some (c.toNat - 55)
  else none

/-- The two bytes of a group of an IPv6 address. -/
def groupBytes (val : ℕ) : Bytes := [(val / 256).toUInt8, (val % 256).toUInt8]

/-- The end of the scan of an IPv6 address: the last group is stored, and the gap
the `::` stands for is filled with zeros. -/
def inetPton6Finish (xdigits val : ℕ) (tmp : Bytes) (colonp : Option ℕ) : Option Bytes :=
  if 0 < xdigits ∧ 16 < tmp.length + 2 then none
  else
    let tmp := if 0 < xdigits then tmp ++ groupBytes val else tmp
    match colonp with
    | some c =>
        if 16 ≤ tmp.length then none
        else some (tmp.take c ++ List.replicate (16 - tmp.length) 0 ++ tmp.drop c)
    | none => if tmp.length = 16 then some tmp else none

/-- The scan of `inet_pton` for an IPv6 address: the text of the current group, the
number of its digits and its value, the bytes stored so far, and where the `::`
was. A dotted quad may take the place of the last two groups. -/
def inetPton6Scan : Bytes → Bytes → ℕ → ℕ → Bytes → Option ℕ → Option Bytes
  | [], _, xdigits, val, tmp, colonp => inetPton6Finish xdigits val tmp colonp
  | ch :: rest, curtok, xdigits, val, tmp, colonp =>
      match hexDigit ch with
      | some digit =>
          if xdigits = 4 then none
          else inetPton6Scan rest curtok (xdigits + 1) (val * 16 + digit) tmp colonp
      | none =>
          if ch = chr ':' then
            if xdigits = 0 then
              if colonp.isSome then none
              else inetPton6Scan rest rest 0 val tmp (some tmp.length)
            else if rest.isEmpty then none
            else if 16 < tmp.length + 2 then none
            else inetPton6Scan rest rest 0 0 (tmp ++ groupBytes val) colonp
          else if ch = chr '.' ∧ tmp.length + 4 ≤ 16 then
            match inetPton4 curtok with
            | some quad => inetPton6Finish 0 0 (tmp ++ quad) colonp
            | none => none
          else none

/-- `inet_pton (AF_INET6, s, …)`. A leading colon has to be the first of a `::`. -/
def inetPton6 (s : Bytes) : Option Bytes :=
  match s with
  | [] => none
  | c :: rest =>
      if c = chr ':' then
        match rest with
        | [] => none
        | d :: _ => if d = chr ':' then inetPton6Scan rest rest 0 0 [] none else none
      else inetPton6Scan s s 0 0 [] none

/-- The scan keeps one finished octet fewer than it has started while it reads
one, and as many while it waits for the next; it never waits for a fifth. -/
theorem length_inetPton4Scan {s : Bytes} {sawDigit : Bool} {octets cur : ℕ} {tmp a : Bytes}
    (hsaw : sawDigit = true → octets = tmp.length + 1 ∧ octets ≤ 4)
    (hwait : sawDigit = false → octets = tmp.length ∧ octets < 4)
    (h : inetPton4Scan s sawDigit octets cur tmp = some a) : a.length = 4 := by
  induction s generalizing sawDigit octets cur tmp with
  | nil =>
    rw [inetPton4Scan] at h
    split at h
    · exact absurd h (by simp)
    · obtain rfl := Option.some.inj h
      cases sawDigit with
      | false => exact absurd (hwait rfl).2 ‹_›
      | true =>
        have := hsaw rfl
        simp only [List.length_append, List.length_singleton]
        omega
  | cons ch rest ih =>
    simp only [inetPton4Scan] at h
    by_cases hd : isDigit ch = true
    · rw [if_pos hd] at h
      split_ifs at h with h0 hbig hs h5
      · exact ih (fun _ => hsaw hs) (by simp) h
      · have hw := hwait (by simpa using hs)
        exact ih (fun _ => ⟨by omega, by omega⟩) (by simp) h
    · rw [if_neg hd] at h
      split_ifs at h with hdot h4
      have hs := hsaw (by simp only [Bool.and_eq_true] at hdot; exact hdot.2)
      refine ih (by simp) (fun _ => ⟨?_, by omega⟩) h
      simp only [List.length_append, List.length_singleton]
      omega

/-- **A dotted quad has four octets.** -/
theorem length_inetPton4 {s a : Bytes} (h : inetPton4 s = some a) : a.length = 4 :=
  length_inetPton4Scan (by simp) (by simp) h

@[simp] theorem length_groupBytes (val : ℕ) : (groupBytes val).length = 2 := rfl

theorem length_inetPton6Finish {xdigits val : ℕ} {tmp a : Bytes} {colonp : Option ℕ}
    (htmp : tmp.length ≤ 16) (hcol : ∀ c, colonp = some c → c ≤ tmp.length)
    (h : inetPton6Finish xdigits val tmp colonp = some a) : a.length = 16 := by
  rw [inetPton6Finish] at h
  split at h
  · exact absurd h (by simp)
  rename_i hroom
  generalize ht : (if 0 < xdigits then tmp ++ groupBytes val else tmp) = t at h
  have hlen : tmp.length ≤ t.length ∧ t.length ≤ 16 := by
    rw [← ht]
    split
    · simp only [List.length_append, length_groupBytes]
      omega
    · omega
  cases colonp with
  | none =>
    simp only at h
    split at h
    · obtain rfl := Option.some.inj h
      assumption
    · exact absurd h (by simp)
  | some c =>
    have hc := hcol c rfl
    simp only at h
    split at h
    · exact absurd h (by simp)
    · obtain rfl := Option.some.inj h
      simp only [List.length_append, List.length_take, List.length_replicate, List.length_drop]
      omega

theorem length_inetPton6Scan {s curtok : Bytes} {xdigits val : ℕ} {tmp a : Bytes}
    {colonp : Option ℕ} (htmp : tmp.length ≤ 16) (hcol : ∀ c, colonp = some c → c ≤ tmp.length)
    (h : inetPton6Scan s curtok xdigits val tmp colonp = some a) : a.length = 16 := by
  induction s generalizing curtok xdigits val tmp colonp with
  | nil => exact length_inetPton6Finish htmp hcol h
  | cons ch rest ih =>
    rw [inetPton6Scan] at h
    cases hx : hexDigit ch with
    | some digit =>
      simp only [hx] at h
      split at h
      · exact absurd h (by simp)
      · exact ih htmp hcol h
    | none =>
      simp only [hx] at h
      split_ifs at h with hc hx0 hcn hr hfull hdot
      · refine ih htmp (fun c hc => ?_) h
        obtain rfl := Option.some.inj hc
        exact le_rfl
      · refine ih ?_ (fun c hc => ?_) h
        · simp only [List.length_append, length_groupBytes]
          omega
        · simp only [List.length_append, length_groupBytes]
          exact (hcol c hc).trans (by omega)
      · cases hq : inetPton4 curtok with
        | none => simp [hq] at h
        | some quad =>
          simp only [hq] at h
          have hlen := length_inetPton4 hq
          refine length_inetPton6Finish ?_ (fun c hc => ?_) h
          · simp only [List.length_append]
            omega
          · simp only [List.length_append]
            exact (hcol c hc).trans (by omega)

/-- **An IPv6 address has sixteen bytes.** -/
theorem length_inetPton6 {s a : Bytes} (h : inetPton6 s = some a) : a.length = 16 := by
  cases s with
  | nil => exact absurd h (by simp [inetPton6])
  | cons c rest =>
    simp only [inetPton6] at h
    split_ifs at h
    · cases rest with
      | nil => exact absurd h (by simp)
      | cons d rest =>
        simp only at h
        split_ifs at h
        exact length_inetPton6Scan (by simp) (by simp) h
    · exact length_inetPton6Scan (by simp) (by simp) h

end CString
