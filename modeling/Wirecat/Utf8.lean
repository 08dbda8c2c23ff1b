import Mathlib.Tactic

/-!
# Cutting UTF-8

A sequence of bytes is UTF-8 when it is the encoding of some characters, one after the other.
This file is about cutting such a sequence in two, at a byte that somebody else chose:

* the encoding of a character is not the beginning of that of another (`Utf8.encode_prefix`),
  so what is left after some characters is UTF-8 again (`Utf8.Valid.right`);
* the first half is UTF-8 exactly when the cut is between two characters, and the byte after the
  cut says whether it is (`Utf8.valid_left_iff`): the first byte of a character cannot be one of
  the others (`UInt8.IsUTF8FirstByte`);
* ASCII text is UTF-8, and may be put anywhere between two characters.
-/

namespace Utf8

/-- **UTF-8**: the encodings of some characters. -/
def Valid (b : List UInt8) : Prop := ∃ cs : List Char, b = cs.flatMap String.utf8EncodeChar

variable {a b : List UInt8}

theorem valid_nil : Valid [] := ⟨[], rfl⟩

theorem Valid.append (ha : Valid a) (hb : Valid b) : Valid (a ++ b) := by
  obtain ⟨cs, rfl⟩ := ha
  obtain ⟨ds, rfl⟩ := hb
  exact ⟨cs ++ ds, List.flatMap_append.symm⟩

/-! ### ASCII -/

theorem encode_ascii : ∀ n < 128, String.utf8EncodeChar (Char.ofNat n) = [n.toUInt8] := by decide

theorem isUTF8FirstByte_ascii : ∀ n < 128, n.toUInt8.IsUTF8FirstByte := by decide

theorem isFirst_of_lt {c : UInt8} (hc : c < 128) : c.IsUTF8FirstByte := by
  have hfirst := isUTF8FirstByte_ascii c.toNat (UInt8.lt_iff_toNat_lt.mp hc)
  rwa [Nat.toUInt8_eq, UInt8.ofNat_toNat] at hfirst

theorem valid_ascii (hb : ∀ c ∈ b, c < 128) : Valid b := by
  induction b with
  | nil => exact valid_nil
  | cons c b ih =>
    have hone : Valid [c] := by
      refine ⟨[Char.ofNat c.toNat], ?_⟩
      rw [List.flatMap_singleton,
        encode_ascii c.toNat (UInt8.lt_iff_toNat_lt.mp (hb c List.mem_cons_self)),
        Nat.toUInt8_eq, UInt8.ofNat_toNat]
    exact hone.append (ih fun d hd => hb d (List.mem_cons_of_mem c hd))

/-! ### Cutting -/

/-- **No encoding is the beginning of another.** -/
theorem encode_prefix {c d : Char}
    (h : String.utf8EncodeChar c ++ a = String.utf8EncodeChar d ++ b) : c = d := by
  have hc := @ByteArray.utf8DecodeChar?_utf8EncodeChar_append a.toByteArray c
  have hd := @ByteArray.utf8DecodeChar?_utf8EncodeChar_append b.toByteArray d
  rw [← List.toByteArray_append] at hc hd
  rw [h, hd] at hc
  exact (Option.some.inj hc).symm

/-- What follows some characters is UTF-8. -/
theorem Valid.right (hab : Valid (a ++ b)) (ha : Valid a) : Valid b := by
  obtain ⟨cs, rfl⟩ := ha
  induction cs with
  | nil => exact hab
  | cons c cs ih =>
    obtain ⟨ds, hds⟩ := hab
    rw [List.flatMap_cons, List.append_assoc] at hds
    cases ds with
    | nil =>
      have hlen := congrArg List.length hds
      rw [List.length_append, String.length_utf8EncodeChar] at hlen
      have := c.utf8Size_pos
      simp at hlen
      omega
    | cons d ds =>
      rw [List.flatMap_cons] at hds
      obtain rfl := encode_prefix hds
      exact ih ⟨ds, List.append_cancel_left hds⟩

/-- A cut in front of the first byte of a character. -/
theorem Valid.left {x : UInt8} (hab : Valid (a ++ x :: b)) (hx : x.IsUTF8FirstByte) : Valid a := by
  obtain ⟨cs, hcs⟩ := hab
  induction cs generalizing a with
  | nil => simp at hcs
  | cons c cs ih =>
    rw [List.flatMap_cons] at hcs
    rcases List.append_eq_append_iff.mp hcs with ⟨t, hc, hrest⟩ | ⟨a', rfl, hrest⟩
    · -- the cut is in this character
      cases a with
      | nil => exact valid_nil
      | cons y a =>
        cases t with
        | nil => exact ⟨[c], by rw [List.flatMap_singleton, hc, List.append_nil]⟩
        | cons x' t =>
          obtain ⟨rfl, -⟩ := List.cons.inj hrest
          have hat : (String.utf8EncodeChar c)[a.length + 1]? = some x := by
            rw [hc, ← List.length_cons (a := y), List.getElem?_append_right le_rfl, Nat.sub_self]
            rfl
          obtain ⟨hlt, hget⟩ := List.getElem?_eq_some_iff.mp hat
          rw [← hget, UInt8.isUTF8FirstByte_getElem_utf8EncodeChar] at hx
          omega
    · exact Valid.append ⟨[c], by rw [List.flatMap_singleton]⟩ (ih hrest.symm)

/-- **The first half of a cut** is UTF-8 exactly when the second begins with the first byte of a
character, or is empty. -/
theorem valid_left_iff (hab : Valid (a ++ b)) :
    Valid a ↔ ∀ x ∈ b.head?, x.IsUTF8FirstByte := by
  constructor
  · intro ha x hx
    obtain ⟨cs, rfl⟩ := hab.right ha
    cases cs with
    | nil => simp at hx
    | cons c cs =>
      rw [List.flatMap_cons] at hx
      have hpos : 0 < (String.utf8EncodeChar c).length := by
        rw [String.length_utf8EncodeChar]
        exact c.utf8Size_pos
      have hat : (String.utf8EncodeChar c)[0]? = some x := by
        rwa [List.head?_append_of_ne_nil _ (List.length_pos_iff.mp hpos), List.head?_eq_getElem?,
          Option.mem_def] at hx
      obtain ⟨hlt, hget⟩ := List.getElem?_eq_some_iff.mp hat
      rw [← hget, UInt8.isUTF8FirstByte_getElem_utf8EncodeChar]
  · intro hx
    cases b with
    | nil => rwa [List.append_nil] at hab
    | cons x b => exact hab.left (hx x rfl)

/-- Two halves that meet between two characters. -/
theorem valid_append_iff (hb : ∀ x ∈ b.head?, x.IsUTF8FirstByte) :
    Valid (a ++ b) ↔ Valid a ∧ Valid b := by
  refine ⟨fun hab => ?_, fun h => h.1.append h.2⟩
  have ha := (valid_left_iff hab).mpr hb
  exact ⟨ha, hab.right ha⟩

theorem valid_ascii_append (ha : ∀ c ∈ a, c < 128) : Valid (a ++ b) ↔ Valid b :=
  ⟨fun hab => hab.right (valid_ascii ha), fun hb => (valid_ascii ha).append hb⟩

theorem valid_append_ascii (hb : ∀ c ∈ b, c < 128) : Valid (a ++ b) ↔ Valid a := by
  rw [valid_append_iff fun x hx => isFirst_of_lt (hb x (List.mem_of_head? hx))]
  exact and_iff_left (valid_ascii hb)

end Utf8
