import Mathlib.Tactic

/-!
# Lists with a place in them

A list with a place in it is two lists: what is before the place, the nearest element first, and what
is behind it. At the place an element is inserted (`Zipper.insert`) or rubbed out (`Zipper.erase`), and
the place moves, by one element or to an end of the list, which leaves the list alone
(`Zipper.text_left` and the like).

A program has the list and the number of the elements before the place: that is `Zipper.ofList`. The
lemmas about it say what the operations are there, with `List.take` and `List.drop`.
-/

/-- A list with a place in it: the elements before the place, the nearest first, and those behind it. -/
structure Zipper (α : Type) where
  before : List α
  after : List α
deriving DecidableEq

namespace Zipper

variable {α : Type} (z : Zipper α)

/-- The list. -/
def text : List α := z.before.reverse ++ z.after

/-- The list `l` with the place behind the first `k` elements. -/
def ofList (l : List α) (k : ℕ) : Zipper α := ⟨(l.take k).reverse, l.drop k⟩

/-! ### What is done at the place -/

/-- `x` is inserted before the place. -/
def insert (x : α) : Zipper α := ⟨x :: z.before, z.after⟩

/-- The element before the place is rubbed out. -/
def erase : Zipper α := ⟨z.before.tail, z.after⟩

/-- The place moves over the element before it. -/
def left : Zipper α :=
  match z.before with
  | [] => z
  | x :: before => ⟨before, x :: z.after⟩

/-- The place moves over the element behind it. -/
def right : Zipper α :=
  match z.after with
  | [] => z
  | x :: after => ⟨x :: z.before, after⟩

/-- The place moves to the beginning. -/
def toStart : Zipper α := ofList z.text 0

/-- The place moves to the end. -/
def toEnd : Zipper α := ofList z.text z.text.length

/-! ### The list stays when the place moves -/

@[simp]
theorem text_ofList (l : List α) (k : ℕ) : (ofList l k).text = l := by
  rw [text, ofList, List.reverse_reverse, List.take_append_drop]

theorem text_left : z.left.text = z.text := by
  rw [left]
  split
  · rfl
  · rename_i x before hbefore
    simp [text, hbefore]

theorem text_right : z.right.text = z.text := by
  rw [right]
  split
  · rfl
  · rename_i x after hafter
    simp [text, hafter]

theorem text_toStart : z.toStart.text = z.text := text_ofList _ _

theorem text_toEnd : z.toEnd.text = z.text := text_ofList _ _

/-! ### The operations on a list and a number -/

variable {z} {l : List α} {k : ℕ}

theorem before_ofList_eq_nil (hk : k ≤ l.length) : (ofList l k).before = [] ↔ k = 0 := by
  rw [ofList, List.reverse_eq_nil_iff, List.take_eq_nil_iff]
  constructor
  · rintro (h0 | rfl)
    · exact h0
    · exact Nat.le_zero.mp hk
  · exact .inl

/-- The place is where two lists meet. -/
theorem ofList_append {l' : List α} (hk : l.length = k) : ofList (l ++ l') k = ⟨l.reverse, l'⟩ := by
  rw [ofList, List.take_left' hk, List.drop_left' hk]

theorem ofList_insert (hk : k ≤ l.length) (x : α) :
    (ofList l k).insert x = ofList (l.take k ++ [x] ++ l.drop k) (k + 1) := by
  have hlen : (l.take k ++ [x]).length = k + 1 := by
    rw [List.length_append, List.length_take, Nat.min_eq_left hk, List.length_singleton]
  rw [ofList_append hlen, List.reverse_concat]
  rfl

theorem ofList_erase (hk : k ≤ l.length) :
    (ofList l k).erase = ofList (l.take (k - 1) ++ l.drop k) (k - 1) := by
  have hlen : (l.take (k - 1)).length = k - 1 := by
    rw [List.length_take]
    omega
  have htail : (l.take k).reverse.tail = (l.take (k - 1)).reverse := by
    rw [List.tail_reverse, List.dropLast_eq_take, List.take_take, List.length_take,
      Nat.min_eq_left hk, Nat.min_eq_left (Nat.sub_le k 1)]
  rw [ofList_append hlen, ← htail]
  rfl

theorem ofList_left (hk : k ≤ l.length) : (ofList l k).left = ofList l (k - 1) := by
  cases k with
  | zero => rfl
  | succ k =>
    have hlt : k < l.length := hk
    have hbefore : (ofList l (k + 1)).before = l[k] :: (l.take k).reverse := by
      rw [ofList, List.take_succ_eq_append_getElem hlt, List.reverse_concat]
    rw [left, hbefore, Nat.add_sub_cancel, ofList, ofList, List.drop_eq_getElem_cons hlt]

theorem ofList_right (hk : k < l.length) : (ofList l k).right = ofList l (k + 1) := by
  have hafter : (ofList l k).after = l[k] :: l.drop (k + 1) := List.drop_eq_getElem_cons hk
  rw [right, hafter, ofList, ofList, List.take_succ_eq_append_getElem hk, List.reverse_concat]

/-- At the end, the place stays. -/
theorem ofList_right_end (hk : l.length ≤ k) : (ofList l k).right = ofList l k := by
  have hafter : (ofList l k).after = [] := List.drop_of_length_le hk
  rw [right, hafter]

theorem ofList_toStart : (ofList l k).toStart = ofList l 0 := by rw [toStart, text_ofList]

theorem ofList_toEnd : (ofList l k).toEnd = ofList l l.length := by rw [toEnd, text_ofList]

end Zipper
