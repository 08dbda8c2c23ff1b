import Mathlib.Tactic

/-!
# Agreeing on the leading bits

A network of addresses is the set of the byte strings that agree with a given one
on its leading bits. `BitPrefix.bits` spells a byte string out as its bits, most
significant first, and `BitPrefix.Agree n xs ys` says that the first `n` bits of
the two strings are the same.

That is not how a program compares: it compares the whole bytes with `memcmp`, and
the byte the boundary falls into under a mask. `BitPrefix.agree_iff` says the two
are the same comparison, at any length and at any boundary.
-/

namespace BitPrefix

/-- The bits of a byte, most significant first. -/
def byteBits (b : UInt8) : List Bool := List.ofFn fun i : Fin 8 => b.toBitVec.getMsbD i

/-- The bits of a byte string, most significant first. -/
def bits (xs : List UInt8) : List Bool := xs.flatMap byteBits

/-- **Agreement on the first `n` bits.** -/
def Agree (n : ℕ) (xs ys : List UInt8) : Prop := (bits xs).take n = (bits ys).take n

instance (n : ℕ) (xs ys : List UInt8) : Decidable (Agree n xs ys) :=
  inferInstanceAs (Decidable (_ = _))

@[simp] theorem length_byteBits (b : UInt8) : (byteBits b).length = 8 := by simp [byteBits]

@[simp] theorem bits_nil : bits [] = [] := rfl

@[simp] theorem bits_cons (b : UInt8) (xs : List UInt8) :
    bits (b :: xs) = byteBits b ++ bits xs := rfl

/-- The mask that keeps the `rem` leading bits of a byte. -/
def leadMask (rem : ℕ) : UInt8 := (0xff : UInt8) <<< (8 - rem).toUInt8

theorem getMsbD_leadMask {rem i : ℕ} (hr : 0 < rem) (hr' : rem < 8) (hi : i < 8) :
    (leadMask rem).toBitVec.getMsbD i = decide (i < rem) := by
  interval_cases rem <;> interval_cases i <;> decide

/-- **The mask compares the leading bits**: two bytes agree under the mask exactly
when they agree on the bits it keeps. -/
theorem and_leadMask_eq_iff {rem : ℕ} (hr : 0 < rem) (hr' : rem < 8) (a b : UInt8) :
    a &&& leadMask rem = b &&& leadMask rem ↔ (byteBits a).take rem = (byteBits b).take rem := by
  have hbit : ∀ c : UInt8, ∀ i, i < 8 →
      (c &&& leadMask rem).toBitVec.getMsbD i = (c.toBitVec.getMsbD i && decide (i < rem)) := by
    intro c i hi
    rw [UInt8.toBitVec_and, BitVec.getMsbD_and, getMsbD_leadMask hr hr' hi]
  constructor
  · intro h
    refine List.ext_getElem (by simp) fun i hi _ => ?_
    have hir : i < rem ∧ i < 8 := by
      rw [List.length_take, length_byteBits] at hi
      omega
    have hi' := hbit a i hir.2
    rw [h, hbit b i hir.2, decide_eq_true hir.1, Bool.and_true, Bool.and_true] at hi'
    simp only [byteBits, List.getElem_take, List.getElem_ofFn]
    exact hi'.symm
  · intro h
    refine UInt8.toBitVec_inj.mp (BitVec.eq_of_getMsbD_eq fun i hi => ?_)
    rw [hbit a i hi, hbit b i hi]
    by_cases hir : i < rem
    · have hget := congrArg (fun l : List Bool => l[i]?) h
      simp only [List.getElem?_take, if_pos hir, byteBits, List.getElem?_ofFn, dif_pos hi,
        Option.some.injEq] at hget
      rw [hget]
    · simp [hir]

theorem byteBits_injective : Function.Injective byteBits := by
  intro a b h
  refine UInt8.toBitVec_inj.mp (BitVec.eq_of_getMsbD_eq fun i hi => ?_)
  have hget := congrArg (fun l : List Bool => l[i]?) h
  simpa only [byteBits, List.getElem?_ofFn, dif_pos hi, Option.some.injEq] using hget

/-- **Comparing bytes and a masked byte is comparing bits.** The boundary `n`
falls after `n / 8` whole bytes and `n % 8` bits of the next. -/
theorem agree_iff {n : ℕ} {xs ys : List UInt8} (hx : n ≤ 8 * xs.length) (hy : n ≤ 8 * ys.length) :
    Agree n xs ys ↔ xs.take (n / 8) = ys.take (n / 8) ∧
      (n % 8 ≠ 0 → xs.getD (n / 8) 0 &&& leadMask (n % 8) =
        ys.getD (n / 8) 0 &&& leadMask (n % 8)) := by
  induction xs generalizing n ys with
  | nil =>
    obtain rfl : n = 0 := by simpa using hx
    simp [Agree]
  | cons a xs ih =>
    cases ys with
    | nil =>
      obtain rfl : n = 0 := by simpa using hy
      simp [Agree]
    | cons b ys =>
      rcases Nat.lt_or_ge n 8 with hn | hn
      · -- the boundary is inside the first byte
        have hd : n / 8 = 0 := by omega
        have hm : n % 8 = n := by omega
        have htake : ∀ (c : UInt8) (zs : List UInt8),
            (bits (c :: zs)).take n = (byteBits c).take n := by
          intro c zs
          rw [bits_cons, List.take_append_of_le_length (by simp; omega)]
        rw [Agree, htake, htake, hd, hm]
        rcases Nat.eq_zero_or_pos n with rfl | hpos
        · simp
        · simp [and_leadMask_eq_iff hpos hn, hpos.ne']
      · -- the first byte is compared whole
        have hd : n / 8 = (n - 8) / 8 + 1 := by omega
        have hm : n % 8 = (n - 8) % 8 := by omega
        have htake : ∀ (c : UInt8) (zs : List UInt8),
            (bits (c :: zs)).take n = byteBits c ++ (bits zs).take (n - 8) := by
          intro c zs
          rw [bits_cons, List.take_append, length_byteBits, List.take_of_length_le (by simp; omega)]
        have hih := @ih (n - 8) ys (by simp at hx; omega) (by simp at hy; omega)
        rw [Agree, htake, htake, hd, hm, List.take_succ_cons, List.take_succ_cons,
          List.getD_cons_succ, List.getD_cons_succ]
        constructor
        · intro h
          obtain ⟨hab, hrest⟩ := List.append_inj h (by simp)
          obtain ⟨h1, h2⟩ := hih.mp hrest
          exact ⟨by rw [byteBits_injective hab, h1], h2⟩
        · rintro ⟨h1, h2⟩
          obtain ⟨rfl, hrest⟩ := List.cons_eq_cons.mp h1
          exact congrArg (byteBits a ++ ·) (hih.mpr ⟨hrest, h2⟩)

end BitPrefix
