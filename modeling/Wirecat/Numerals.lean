import Mathlib.Data.List.TakeWhile
import Wirecat.Coherence
import Wirecat.Socketx

/-!
# Numeric arguments

Five functions read a number from an argument, all in the same way: they let `strtol` or `strtoul`
convert, and check that it got to the end of the string and that the value is in range. What they
are for is the decimal numerals in a range (`Wirecat.numeral`). What they take besides is what the
conversions skip: white space in front of the number, and a sign. `Wirecat.numerals_iff` says that
this is all, for each of them: on a string that does not disguise a number in this way
(`Wirecat.Disguised`), they read a numeral as they should and refuse everything else.

A minus sign is the worst of it. `strtoul` negates modulo the word, so a number just below its
size, with a minus sign in front, is a small number to `parse_u32_arg`.

The four functions on `strtol` are one, with ranges of their own (`Wirecat.readLong`). The strings
that a conversion reads to the end are `Wirecat.Spelled`.
-/

namespace Wirecat

open CString

/-! ### Spellings of a number -/

/-- **A decimal numeral**: digits, and one of them at least. -/
def IsDecimal (s : Bytes) : Prop := s ≠ [] ∧ ∀ c ∈ s, isDigit c = true

instance (s : Bytes) : Decidable (IsDecimal s) := inferInstanceAs (Decidable (_ ∧ _))

/-- **What a numeral in a range is worth**; every other string is none. -/
def numeral (min max : ℕ) (s : Bytes) : Option ℕ :=
  if IsDecimal s ∧ min ≤ digitsValue s ∧ digitsValue s ≤ max then some (digitsValue s) else none

/-- **What the conversions read to the end**: white space, at most one sign, and a numeral. -/
structure Spelled (s space sign digits : Bytes) : Prop where
  eq : s = space ++ sign ++ digits
  space : ∀ c ∈ space, isSpace c = true
  sign : sign = [] ∨ sign = [chr '-'] ∨ sign = [chr '+']
  digits : IsDecimal digits

variable {s space sign digits : Bytes}

theorem IsDecimal.spelled (hs : IsDecimal s) : Spelled s [] [] s :=
  ⟨rfl, by simp, .inl rfl, hs⟩

theorem IsDecimal.takeWhile_eq (hs : IsDecimal s) :
    s.takeWhile isDigit = s ∧ s.dropWhile isDigit = [] := by
  have htake : s.takeWhile isDigit = s := List.takeWhile_eq_self_iff.mpr hs.2
  exact ⟨htake, List.dropWhile_eq_nil_iff.mpr hs.2⟩

/-- A digit is no space and no sign. -/
theorem isSpace_of_isDigit {d : UInt8} (hd : isDigit d = true) :
    isSpace d = false ∧ d ≠ chr '-' ∧ d ≠ chr '+' := by
  rw [isDigit, Bool.and_eq_true, decide_eq_true_eq, decide_eq_true_eq] at hd
  have hlow : (48 : UInt8).toNat ≤ d.toNat := UInt8.le_iff_toNat_le.mp hd.1
  refine ⟨?_, ?_, ?_⟩
  · rw [isSpace, Bool.or_eq_false_iff, Bool.and_eq_false_iff, decide_eq_false_iff_not,
      decide_eq_false_iff_not, decide_eq_false_iff_not]
    refine ⟨?_, .inr fun hle => ?_⟩
    · rintro rfl
      exact absurd hlow (by decide)
    · have hhigh : (48 : UInt8).toNat ≤ (13 : UInt8).toNat :=
        hlow.trans (UInt8.le_iff_toNat_le.mp hle)
      exact absurd hhigh (by decide)
  · rintro rfl
    exact absurd hlow (by decide)
  · rintro rfl
    exact absurd hlow (by decide)

/-- A string that begins with a digit is scanned from its beginning. -/
theorem scanNumber_digit {d : UInt8} (hd : isDigit d = true) (x : Bytes) : scanNumber (d :: x) =
    (false, (d :: x).takeWhile isDigit, (d :: x).dropWhile isDigit) := by
  obtain ⟨hspace, hminus, hplus⟩ := isSpace_of_isDigit hd
  rw [scanNumber, List.dropWhile_cons_of_neg (by simp [hspace])]
  dsimp only
  rw [if_neg (not_or.mpr ⟨hminus, hplus⟩), decide_eq_false hminus]

/-- White space in front is skipped. -/
theorem scanNumber_space (hspace : ∀ c ∈ space, isSpace c = true) :
    scanNumber (space ++ s) = scanNumber s := by
  rw [scanNumber, scanNumber, List.dropWhile_append_of_pos hspace]

/-- **A spelling is scanned to its end.** -/
theorem scanNumber_spelled (h : Spelled s space sign digits) :
    scanNumber s = (decide (sign = [chr '-']), digits, []) := by
  obtain ⟨rfl, hspace, hsign, hdigits⟩ := h
  obtain ⟨htake, hdrop⟩ := hdigits.takeWhile_eq
  rw [List.append_assoc, scanNumber_space hspace]
  rcases hsign with rfl | rfl | rfl
  · cases digits with
    | nil => exact absurd rfl hdigits.1
    | cons d ds =>
      rw [List.nil_append, scanNumber_digit (hdigits.2 d List.mem_cons_self), htake, hdrop]
      rfl
  · rw [scanNumber, List.singleton_append, List.dropWhile_cons_of_neg (by decide)]
    dsimp only
    rw [if_pos (.inl rfl), htake, hdrop, decide_eq_true rfl, decide_eq_true rfl]
  · rw [scanNumber, List.singleton_append, List.dropWhile_cons_of_neg (by decide)]
    dsimp only
    rw [if_pos (.inr rfl), htake, hdrop]
    rfl

/-- **What is scanned to its end** is a spelling. -/
theorem spelled_of_scanNumber {neg : Bool} (h : scanNumber s = (neg, digits, []))
    (hne : digits ≠ []) : ∃ space sign, Spelled s space sign digits := by
  have hsplit : s = s.takeWhile isSpace ++ s.dropWhile isSpace :=
    List.takeWhile_append_dropWhile.symm
  have hspace : ∀ c ∈ s.takeWhile isSpace, isSpace c = true := fun c hc => List.mem_takeWhile_imp hc
  have hnumeral : ∀ body : Bytes, body.takeWhile isDigit = digits → body.dropWhile isDigit = [] →
      body = digits ∧ IsDecimal digits := by
    rintro body rfl hnil
    have hbody := List.takeWhile_append_dropWhile (p := isDigit) (l := body)
    rw [hnil, List.append_nil] at hbody
    exact ⟨hbody.symm, hne, fun c hc => List.mem_takeWhile_imp hc⟩
  rw [scanNumber] at h
  split at h
  · exact absurd (congrArg (·.2.1) h).symm hne
  rename_i c t hbody
  rw [hbody] at hsplit
  obtain ⟨-, hscan⟩ := Prod.mk.inj h
  obtain ⟨htake, hdrop⟩ := Prod.mk.inj hscan
  split_ifs at htake hdrop with hsign
  · obtain ⟨rfl, hdigits⟩ := hnumeral t htake hdrop
    refine ⟨s.takeWhile isSpace, [c], ?_, hspace, .inr ?_, hdigits⟩
    · rw [List.append_assoc]
      exact hsplit
    · rcases hsign with rfl | rfl
      · exact .inl rfl
      · exact .inr rfl
  · obtain ⟨hbody, hdigits⟩ := hnumeral (c :: t) htake hdrop
    refine ⟨s.takeWhile isSpace, [], ?_, hspace, .inl rfl, hdigits⟩
    rw [List.append_nil, ← hbody]
    exact hsplit

/-! ### The two conversions -/

/-- What a sign and the digits stand for, as `strtol` reads them. -/
def longWorth (sign : Bytes) (v : ℕ) : ℤ := if sign = [chr '-'] then -v else v

/-- What a sign and the digits stand for, as `strtoul` reads them: a minus sign negates a number
that fits, modulo the word. -/
def ulongWorth (sign : Bytes) (v : ℕ) : ℤ :=
  if sign = [chr '-'] ∧ v ≤ ulongMax then ((2 ^ 64 - v) % 2 ^ 64 : ℕ) else v

/-- **A disguised number**: with white space or a sign in front of its digits, it stands for a
number in the range. -/
def Disguised (worth : Bytes → ℕ → ℤ) (min max : ℕ) (s : Bytes) : Prop :=
  ∃ space sign digits, Spelled s space sign digits ∧ space ++ sign ≠ [] ∧
    (min : ℤ) ≤ worth sign (digitsValue digits) ∧ worth sign (digitsValue digits) ≤ max

/-- A reader that takes the spellings of the numbers in a range. -/
def ReadsSpellings (worth : Bytes → ℕ → ℤ) (min max : ℕ) (s : Bytes) (r : Option ℕ) : Prop :=
  ∀ n : ℕ, r = some n ↔ min ≤ n ∧ n ≤ max ∧
    ∃ space sign digits, Spelled s space sign digits ∧ worth sign (digitsValue digits) = n

/-- A spelling with a digit in front is the numeral itself. -/
theorem Spelled.eq_digits (h : Spelled s space sign digits) (hs : IsDecimal s) :
    space ++ sign = [] := by
  by_contra hne
  obtain ⟨c, hc⟩ := List.exists_mem_of_ne_nil _ hne
  have hmem : c ∈ s := by
    rw [h.eq]
    exact List.mem_append_left _ hc
  obtain ⟨hspace, hminus, hplus⟩ := isSpace_of_isDigit (hs.2 c hmem)
  rcases List.mem_append.mp hc with hc | hc
  · exact absurd (h.space c hc) (by simp [hspace])
  · rcases h.sign with rfl | rfl | rfl
    · exact absurd hc List.not_mem_nil
    · exact hminus (List.mem_singleton.mp hc)
    · exact hplus (List.mem_singleton.mp hc)

theorem numeral_eq_some {min max n : ℕ} : numeral min max s = some n ↔
    IsDecimal s ∧ digitsValue s = n ∧ min ≤ n ∧ n ≤ max := by
  rw [numeral]
  split_ifs with h
  · rw [Option.some.injEq]
    exact ⟨by rintro rfl; exact ⟨h.1, rfl, h.2⟩, fun hn => hn.2.1⟩
  · simp only [false_iff]
    rintro ⟨hs, rfl, hrange⟩
    exact h ⟨hs, hrange⟩

/-- **A reader of spellings reads numerals**, but for the disguised numbers. -/
theorem ReadsSpellings.eq_numeral_iff {worth : Bytes → ℕ → ℤ} {min max : ℕ} {r : Option ℕ}
    (hplain : ∀ v, worth [] v = v) (hr : ReadsSpellings worth min max s r) :
    r = numeral min max s ↔ ¬Disguised worth min max s := by
  constructor
  · rintro heq ⟨space, sign, digits, hspelled, hne, hmin, hmax⟩
    obtain ⟨n, hn⟩ := Int.eq_ofNat_of_zero_le ((Int.natCast_nonneg min).trans hmin)
    rw [hn] at hmin hmax
    have hsome := (hr n).mpr ⟨by omega, by omega, space, sign, digits, hspelled, hn⟩
    rw [heq] at hsome
    exact hne (hspelled.eq_digits (numeral_eq_some.mp hsome).1)
  · intro hplainly
    refine Option.ext fun n => ?_
    rw [hr, numeral_eq_some]
    constructor
    · rintro ⟨hmin, hmax, space, sign, digits, hspelled, hworth⟩
      have hnone : space ++ sign = [] := by
        by_contra hne
        exact hplainly ⟨space, sign, digits, hspelled, hne, by omega, by omega⟩
      obtain ⟨rfl, rfl⟩ := List.append_eq_nil_iff.mp hnone
      obtain rfl : s = digits := hspelled.eq
      rw [hplain] at hworth
      exact ⟨hspelled.digits, by omega, hmin, hmax⟩
    · rintro ⟨hs, rfl, hmin, hmax⟩
      exact ⟨hmin, hmax, [], [], s, hs.spelled, hplain _⟩

/-- A reader made of a conversion: it wants the end of the string, and a number in the range. -/
theorem readsSpellings_of {worth : Bytes → ℕ → ℤ} {min max : ℕ} {r : Option ℕ} {v : ℤ}
    {complete : Prop} (hcomplete : complete ↔ ∃ space sign digits, Spelled s space sign digits)
    (hvalue : ∀ space sign digits, Spelled s space sign digits → ∀ n : ℕ, n ≤ max →
      (v = n ↔ worth sign (digitsValue digits) = n))
    (hr : ∀ n : ℕ, r = some n ↔ complete ∧ min ≤ n ∧ n ≤ max ∧ v = n) :
    ReadsSpellings worth min max s r := by
  intro n
  rw [hr, hcomplete]
  constructor
  · rintro ⟨⟨space, sign, digits, hspelled⟩, hmin, hmax, hn⟩
    exact ⟨hmin, hmax, space, sign, digits, hspelled, (hvalue _ _ _ hspelled n hmax).mp hn⟩
  · rintro ⟨hmin, hmax, space, sign, digits, hspelled, hn⟩
    exact ⟨⟨space, sign, digits, hspelled⟩, hmin, hmax, (hvalue _ _ _ hspelled n hmax).mpr hn⟩

theorem strtol_spelled (h : Spelled s space sign digits) :
    (strtol s).converted = true ∧ (strtol s).rest = [] ∧
      (strtol s).value = max longMin (min longMax (longWorth sign (digitsValue digits))) := by
  have hne : digits.isEmpty = false := List.isEmpty_eq_false_iff.mpr h.digits.1
  have hworth : (if decide (sign = [chr '-']) = true then -(digitsValue digits : ℤ)
      else digitsValue digits) = longWorth sign (digitsValue digits) := by
    rw [longWorth]
    exact if_congr decide_eq_true_iff rfl rfl
  have hbounds : longMin ≤ longMax := by decide
  rw [strtol, scanNumber_spelled h]
  dsimp only
  rw [hworth, hne, if_neg (by simp)]
  generalize longWorth sign (digitsValue digits) = v
  split_ifs with hlow hhigh
  · exact ⟨rfl, rfl, by dsimp only; omega⟩
  · exact ⟨rfl, rfl, by dsimp only; omega⟩
  · exact ⟨rfl, rfl, by dsimp only; omega⟩

/-- **What `strtol` reads to the end.** -/
theorem strtol_complete_iff : (strtol s).converted = true ∧ (strtol s).rest = [] ↔
    ∃ space sign digits, Spelled s space sign digits := by
  constructor
  · rintro ⟨hconverted, hrest⟩
    rcases hscan : scanNumber s with ⟨neg, digits, rest⟩
    rw [strtol, hscan] at hconverted hrest
    dsimp only at hconverted hrest
    split_ifs at hconverted hrest with hempty hlow hhigh
    all_goals
      obtain rfl : rest = [] := hrest
      obtain ⟨space, sign, hspelled⟩ := spelled_of_scanNumber hscan (by simpa using hempty)
      exact ⟨space, sign, digits, hspelled⟩
  · rintro ⟨space, sign, digits, hspelled⟩
    exact ⟨(strtol_spelled hspelled).1, (strtol_spelled hspelled).2.1⟩

theorem strtoul_spelled (h : Spelled s space sign digits) :
    (strtoul s).converted = true ∧ (strtoul s).rest = [] ∧
      (((strtoul s).value : ℕ) : ℤ) = min (ulongMax : ℤ) (ulongWorth sign (digitsValue digits)) := by
  have hne : digits.isEmpty = false := List.isEmpty_eq_false_iff.mpr h.digits.1
  rw [strtoul, scanNumber_spelled h]
  simp only [hne]
  generalize digitsValue digits = v
  rw [if_neg (by simp), ulongWorth]
  by_cases hbig : ulongMax < v
  · rw [if_pos hbig, if_neg (by omega)]
    exact ⟨rfl, rfl, by dsimp only; omega⟩
  · rw [if_neg hbig]
    by_cases hsign : sign = [chr '-']
    · have hword : (2 ^ 64 - v) % 2 ^ 64 ≤ ulongMax := by
        rw [ulongMax]
        omega
      rw [if_pos (decide_eq_true hsign), if_pos ⟨hsign, not_lt.mp hbig⟩]
      exact ⟨rfl, rfl, by dsimp only; omega⟩
    · rw [if_neg (by simp [hsign]), if_neg fun h => hsign h.1]
      exact ⟨rfl, rfl, by dsimp only; omega⟩

/-- **What `strtoul` reads to the end.** -/
theorem strtoul_complete_iff : (strtoul s).converted = true ∧ (strtoul s).rest = [] ↔
    ∃ space sign digits, Spelled s space sign digits := by
  constructor
  · rintro ⟨hconverted, hrest⟩
    rcases hscan : scanNumber s with ⟨neg, digits, rest⟩
    rw [strtoul, hscan] at hconverted hrest
    dsimp only at hconverted hrest
    split_ifs at hconverted hrest with hempty hbig
    all_goals
      obtain rfl : rest = [] := hrest
      obtain ⟨space, sign, hspelled⟩ := spelled_of_scanNumber hscan (by simpa using hempty)
      exact ⟨space, sign, digits, hspelled⟩
  · rintro ⟨space, sign, digits, hspelled⟩
    exact ⟨(strtoul_spelled hspelled).1, (strtoul_spelled hspelled).2.1⟩

/-! ### The readers -/

/-- What the readers on `strtol` share: the end of the string, and the range. -/
def readLong (min max : ℕ) (s : Bytes) : Option ℕ :=
  let c := strtol s
  if (c.converted = true ∧ c.rest = []) ∧ (min : ℤ) ≤ c.value ∧ c.value ≤ max then
    some c.value.toNat
  else none

theorem readsSpellings_readLong {min max : ℕ} (hmax : (max : ℤ) ≤ intMax) :
    ReadsSpellings longWorth min max s (readLong min max s) := by
  refine readsSpellings_of (v := (strtol s).value) strtol_complete_iff ?_ fun n => ?_
  · intro space sign digits hspelled n hn
    rw [(strtol_spelled hspelled).2.2, longMin, longMax]
    rw [intMax] at hmax
    omega
  · simp only [readLong]
    split_ifs with hc
    · rw [Option.some.injEq]
      exact ⟨fun hn => ⟨hc.1, by omega⟩, fun hn => by omega⟩
    · simp only [false_iff]
      rintro ⟨hcomplete, hmin, hmax, hvalue⟩
      exact hc ⟨hcomplete, by omega⟩

/-- A value that is out of the range of `long` is out of every range of `int`. -/
theorem strtol_range (hrange : (strtol s).range = true) :
    (strtol s).value < 0 ∨ intMax < (strtol s).value := by
  rw [strtol] at hrange ⊢
  dsimp only at hrange ⊢
  have hlong : longMin < 0 ∧ intMax < longMax := by decide
  generalize (if (scanNumber s).1 = true then -(digitsValue (scanNumber s).2.1 : ℤ)
    else digitsValue (scanNumber s).2.1) = v at hrange ⊢
  split_ifs at hrange ⊢ with hempty hlow hhigh
  · exact .inl hlong.1
  · exact .inr hlong.2

/-- A reader that names what it refuses; the empty string is not converted. -/
theorem readLong_eq_ite {min max : ℕ} {bad : Prop} [Decidable bad]
    (hbad : bad ↔ ¬(((strtol s).converted = true ∧ (strtol s).rest = []) ∧
      (min : ℤ) ≤ (strtol s).value ∧ (strtol s).value ≤ max)) :
    (if s.isEmpty then none else if bad then none else some (strtol s).value.toNat) =
      readLong min max s := by
  rw [readLong]
  by_cases hs : s.isEmpty = true
  · have hconverted : (strtol s).converted = false := by
      rw [List.isEmpty_iff.mp hs]
      rfl
    rw [if_pos hs, if_neg (by simp [hconverted])]
  · rw [if_neg hs]
    by_cases hb : bad
    · rw [if_pos hb, if_neg (hbad.mp hb)]
    · rw [if_neg hb, if_pos (not_not.mp fun hn => hb (hbad.mpr hn))]

theorem wcatParsePort_eq (s : Bytes) : wcatParsePort s = readLong 1 65535 s := by
  refine readLong_eq_ite ?_
  have hrange := strtol_range (s := s)
  rw [List.isEmpty_iff]
  rw [intMax] at hrange
  push_cast
  grind

theorem wcatParseTimeoutMs_eq (s : Bytes) :
    wcatParseTimeoutMs s = (readLong 0 2147483 s).map fun n : ℕ => (n : ℤ) * 1000 := by
  have hread : (if s.isEmpty then none
      else if (strtol s).range = true ∨ ¬(strtol s).converted = true ∨
          ¬(strtol s).rest.isEmpty = true ∨ (strtol s).value < 0 ∨
          intMax / 1000 < (strtol s).value then none
        else some (strtol s).value.toNat) = readLong 0 2147483 s := by
    refine readLong_eq_ite ?_
    have hrange := strtol_range (s := s)
    rw [List.isEmpty_iff]
    rw [show intMax / 1000 = 2147483 by decide]
    rw [intMax] at hrange
    push_cast
    grind
  rw [← hread]
  simp only [wcatParseTimeoutMs]
  split_ifs with hs hbad
  · rfl
  · rfl
  · push Not at hbad
    rw [Option.map_some, Int.toNat_of_nonneg hbad.2.2.2.1]

theorem parseRangeInt_eq (s : Bytes) (min max : ℕ) :
    parseRangeInt s min max = (readLong min max s).map fun n : ℕ => (n : ℤ) := by
  have hread : (if s.isEmpty then none
      else if ¬(strtol s).converted = true ∨ ¬(strtol s).rest.isEmpty = true ∨
          (strtol s).value < min ∨ (max : ℤ) < (strtol s).value then none
        else some (strtol s).value.toNat) = readLong min max s := by
    refine readLong_eq_ite ?_
    rw [List.isEmpty_iff]
    grind
  rw [← hread]
  simp only [parseRangeInt]
  split_ifs with hs hbad
  · rfl
  · rfl
  · push Not at hbad
    rw [Option.map_some, Int.toNat_of_nonneg ((Int.natCast_nonneg min).trans hbad.2.2.1)]

theorem parseBits_eq (max : ℕ) (s : Bytes) : parseBits max (some s) = readLong 0 max s := by
  simp only [parseBits, readLong]
  by_cases hgood : ((strtol s).converted = true ∧ (strtol s).rest = []) ∧
      ((0 : ℕ) : ℤ) ≤ (strtol s).value ∧ (strtol s).value ≤ max
  · rw [if_pos hgood, if_neg]
    rw [List.isEmpty_iff]
    grind
  · rw [if_neg hgood, if_pos]
    rw [List.isEmpty_iff]
    grind

theorem readsSpellings_parseU32Arg (s : Bytes) :
    ReadsSpellings ulongWorth 0 0xffffffff s (parseU32Arg s) := by
  refine readsSpellings_of (v := ((strtoul s).value : ℤ)) strtoul_complete_iff ?_ fun n => ?_
  · intro space sign digits hspelled n hn
    rw [(strtoul_spelled hspelled).2.2, ulongMax]
    omega
  · simp only [parseU32Arg]
    by_cases hs : s.isEmpty = true
    · have hconverted : (strtoul s).converted = false := by
        rw [List.isEmpty_iff.mp hs]
        rfl
      simp [hs, hconverted]
    · rw [if_neg hs]
      by_cases hbad : ¬(strtoul s).converted = true ∨ ¬(strtoul s).rest.isEmpty = true ∨
          0xffffffff < (strtoul s).value
      · rw [if_pos hbad]
        simp only [reduceCtorEq, false_iff]
        rw [List.isEmpty_iff] at hbad
        grind
      · rw [if_neg hbad, Option.some.injEq]
        rw [List.isEmpty_iff] at hbad
        grind

/-! ### Numerals and nothing else -/

theorem longWorth_nil (v : ℕ) : longWorth [] v = v := rfl

theorem ulongWorth_nil (v : ℕ) : ulongWorth [] v = v := rfl

theorem map_eq_map_iff {α : Type} {f : ℕ → α} (hf : Function.Injective f) {a b : Option ℕ} :
    a.map f = b.map f ↔ a = b := (Option.map_injective hf).eq_iff

/-- **Numeric arguments**: each of the five readers takes the decimal numerals in its range, gives
what they are worth, and refuses every other string, exactly as long as the string does not disguise
a number. Seconds in milliseconds are an `int` in any case. -/
theorem numerals_iff (s : Bytes) {min max : ℕ} (hmax : (max : ℤ) ≤ intMax) (family : IpFamily) :
    (wcatParsePort s = numeral 1 65535 s ↔ ¬Disguised longWorth 1 65535 s) ∧
      (wcatParseTimeoutMs s = (numeral 0 2147483 s).map (fun n : ℕ => (n : ℤ) * 1000) ↔
        ¬Disguised longWorth 0 2147483 s) ∧
      (∀ t, wcatParseTimeoutMs s = some t → 0 ≤ t ∧ t ≤ intMax) ∧
      (parseRangeInt s min max = (numeral min max s).map (fun n : ℕ => (n : ℤ)) ↔
        ¬Disguised longWorth min max s) ∧
      (parseU32Arg s = numeral 0 0xffffffff s ↔ ¬Disguised ulongWorth 0 0xffffffff s) ∧
      (parseBits (8 * family.size) (some s) = numeral 0 (8 * family.size) s ↔
        ¬Disguised longWorth 0 (8 * family.size) s) := by
  have hseconds : Function.Injective fun n : ℕ => (n : ℤ) * 1000 := fun a b hab => by
    dsimp only at hab
    omega
  have hsize : ((8 * family.size : ℕ) : ℤ) ≤ intMax := by cases family <;> decide
  refine ⟨?_, ?_, ?_, ?_, ?_, ?_⟩
  · rw [wcatParsePort_eq]
    exact (readsSpellings_readLong (by decide)).eq_numeral_iff longWorth_nil
  · rw [wcatParseTimeoutMs_eq, map_eq_map_iff hseconds]
    exact (readsSpellings_readLong (by decide)).eq_numeral_iff longWorth_nil
  · intro t ht
    obtain ⟨n, hn, rfl, hle⟩ := wcatParseTimeoutMs_bounds ht
    exact ⟨by omega, hle⟩
  · rw [parseRangeInt_eq, map_eq_map_iff Nat.cast_injective]
    exact (readsSpellings_readLong hmax).eq_numeral_iff longWorth_nil
  · exact (readsSpellings_parseU32Arg s).eq_numeral_iff ulongWorth_nil
  · rw [parseBits_eq]
    exact (readsSpellings_readLong hsize).eq_numeral_iff longWorth_nil

/-- A numeral is no disguise. -/
theorem IsDecimal.not_disguised (hs : IsDecimal s) {worth : Bytes → ℕ → ℤ} {min max : ℕ} :
    ¬Disguised worth min max s := by
  rintro ⟨space, sign, digits, hspelled, hne, -⟩
  exact hne (hspelled.eq_digits hs)

/-- A port that is a numeral. -/
theorem numerals_eighty : wcatParsePort (lit "80") = numeral 1 65535 (lit "80") ∧
    parseRangeInt (lit "80") 1 256 =
      (numeral 1 256 (lit "80")).map fun n : ℕ => (n : ℤ) := by
  have hs : IsDecimal (lit "80") := by decide +kernel
  have h := @numerals_iff (lit "80") 1 256 (by decide) .inet
  exact ⟨h.1.mpr hs.not_disguised, h.2.2.2.1.mpr hs.not_disguised⟩

/-- **What the five readers take besides**: white space, signs, and a number near the size of the
word with a minus sign in front. -/
theorem not_numerals :
    (wcatParsePort (lit " 80") = some 80 ∧ ¬IsDecimal (lit " 80")) ∧
      (wcatParseTimeoutMs (lit "-0") = some 0 ∧ ¬IsDecimal (lit "-0")) ∧
      (parseRangeInt (lit "+7") 1 256 = some 7 ∧ ¬IsDecimal (lit "+7")) ∧
      (parseU32Arg (lit "-18446744073709551615") = some 1 ∧
        ¬IsDecimal (lit "-18446744073709551615")) ∧
      ((parseNet (lit "10.0.0.0/ 8")).map (·.bits) = some 8 ∧ ¬IsDecimal (lit " 8")) := by
  refine ⟨⟨?_, ?_⟩, ⟨?_, ?_⟩, ⟨?_, ?_⟩, ⟨?_, ?_⟩, ?_, ?_⟩ <;> decide +kernel

end Wirecat
