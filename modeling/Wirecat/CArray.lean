import Mathlib.Data.List.DropRight
import Wirecat.CString

/-!
# Arrays of a fixed size

An array that a function was given, or has on its stack, has a size that does not change, and C does
not check where it is accessed. Here every access is checked: an access outside of the array has no
result. A function written with these accesses that has a result has therefore made none.

* Elements – `CArray.Arr.load` and `CArray.Arr.store`.
* Stretches – `CArray.Arr.read`, `CArray.Arr.copy` for `memcpy` into the array, and
  `CArray.Arr.move` for `memmove` within it.
* Strings – `CArray.Arr.string` for the string that an array of bytes holds: it has to end in the
  array.
* Lengths – `CArray.sub` for the difference of two sizes, which are unsigned: it must not be
  negative.

What an array holds is mostly a matter of its first elements (`CArray.Arr.held`); what lies behind
them was left there. The lemmas say what an access does to the first elements: a stretch that is
taken out (`CArray.Arr.held_removed`), and an element that is put in (`CArray.Arr.held_inserted`).
-/

namespace CArray

open CString

/-- An array of `n` elements. -/
structure Arr (α : Type) (n : ℕ) where
  cells : List α
  size : cells.length = n

/-- The difference of two sizes. -/
def sub (x y : ℕ) : Option ℕ := if y ≤ x then some (x - y) else none

theorem sub_of_le {x y : ℕ} (h : y ≤ x) : sub x y = some (x - y) := if_pos h

namespace Arr

variable {α : Type} {n : ℕ} (a : Arr α n)

variable (n) in
/-- The array in which every element is `x`. -/
def filled (x : α) : Arr α n := ⟨List.replicate n x, List.length_replicate⟩

/-- The first `k` elements. -/
def held (k : ℕ) : List α := a.cells.take k

/-- `a[i]`. -/
def load (i : ℕ) : Option α := a.cells[i]?

/-- The array with another element at `i`. -/
def update (i : ℕ) (x : α) : Arr α n := ⟨a.cells.set i x, by rw [List.length_set, a.size]⟩

/-- `a[i] = x`. -/
def store (i : ℕ) (x : α) : Option (Arr α n) := if i < n then some (a.update i x) else none

/-- Reading `k` elements from `off` on. -/
def read (off k : ℕ) : Option (List α) :=
  if off + k ≤ n then some ((a.cells.drop off).take k) else none

/-- The array with the elements `src` from `off` on. -/
def splice (off : ℕ) (src : List α) (h : off + src.length ≤ n) : Arr α n where
  cells := a.cells.take off ++ src ++ a.cells.drop (off + src.length)
  size := by
    have hsize := a.size
    simp only [List.length_append, List.length_take, List.length_drop]
    omega

/-- `memcpy (a + off, src, …)`. -/
def copy (off : ℕ) (src : List α) : Option (Arr α n) :=
  if h : off + src.length ≤ n then some (a.splice off src h) else none

/-- `memmove (a + dst, a + src, k)`. -/
def move (dst src k : ℕ) : Option (Arr α n) := (a.read src k).bind (a.copy dst)

/-- The string in an array of bytes. -/
def string (a : Arr UInt8 n) : Option Bytes :=
  if 0 ∈ a.cells then some (ofBuffer a.cells) else none

/-! ### Accesses within the array -/

variable {a}

theorem exists_load {i : ℕ} (hi : i < n) : ∃ x, a.load i = some x :=
  ⟨_, List.getElem?_eq_getElem (hi.trans_eq a.size.symm)⟩

theorem store_of_lt {i : ℕ} (hi : i < n) (x : α) : a.store i x = some (a.update i x) := if_pos hi

theorem copy_of_le {off : ℕ} {src : List α} (h : off + src.length ≤ n) :
    a.copy off src = some (a.splice off src h) := dif_pos h

theorem length_held {k : ℕ} (hk : k ≤ n) : (a.held k).length = k := by
  rw [held, List.length_take, a.size, Nat.min_eq_left hk]

/-- The first of the first elements. -/
theorem take_held {k m : ℕ} (hkm : k ≤ m) : (a.held m).take k = a.held k := by
  rw [held, List.take_take, Nat.min_eq_left hkm, held]

theorem read_of_le {off k : ℕ} (h : off + k ≤ n) :
    a.read off k = some ((a.held (off + k)).drop off) := by
  rw [read, if_pos h, held, List.drop_take, Nat.add_sub_cancel_left]

theorem held_splice {off : ℕ} {src : List α} (h : off + src.length ≤ n) :
    (a.splice off src h).held (off + src.length) = a.held off ++ src := by
  have hlen : (a.cells.take off ++ src).length = off + src.length := by
    have hsize := a.size
    simp only [List.length_append, List.length_take]
    omega
  rw [held, splice, List.take_append_of_le_length hlen.ge, List.take_of_length_le hlen.le, held]

/-- The first elements, and the next one. -/
theorem held_succ {i : ℕ} {x : α} (hx : a.load i = some x) : a.held (i + 1) = a.held i ++ [x] := by
  rw [held, List.take_add_one, ← load, hx]
  rfl

/-- An element is stored behind the others. -/
theorem held_update {i : ℕ} (hi : i < n) (x : α) : (a.update i x).held (i + 1) = a.held i ++ [x] := by
  have hfirst : i < a.cells.length := by rw [a.size]; exact hi
  have hlen : (a.cells.take i).length = i := by
    rw [List.length_take]
    omega
  rw [held, update, List.take_set, List.take_succ_eq_append_getElem hfirst,
    List.set_append_right _ _ hlen.le, hlen, Nat.sub_self]
  rfl

/-- What is stored at the beginning of an array is the string in it. -/
theorem string_of_held {a : Arr UInt8 n} {s : Bytes} (hs : 0 ∉ s)
    (hheld : a.held (s.length + 1) = s ++ [0]) : a.string = some s := by
  have hcells : a.cells = s ++ [0] ++ a.cells.drop (s.length + 1) := by
    rw [← hheld, held, List.take_append_drop]
  have hmem : 0 ∈ a.cells := by
    rw [hcells]
    simp
  rw [string, if_pos hmem, hcells, ofBuffer, List.append_assoc, List.takeWhile_append_of_pos]
  · simp
  · intro c hc
    rw [decide_eq_true_eq]
    rintro rfl
    exact hs hc

/-- **A stretch is taken out**: what follows it moves to its place. -/
theorem held_removed {dst src len : ℕ} (hds : dst ≤ src) (hsl : src ≤ len) (hln : len ≤ n) :
    ∃ a', a.move dst src (len - src) = some a' ∧
      a'.held (len - (src - dst)) = a.held dst ++ (a.held len).drop src := by
  have hread : a.read src (len - src) = some ((a.held len).drop src) := by
    rw [read_of_le (by omega), Nat.add_sub_cancel' hsl]
  have hlen : ((a.held len).drop src).length = len - src := by
    rw [List.length_drop, length_held hln]
  have hroom : dst + ((a.held len).drop src).length ≤ n := by omega
  refine ⟨a.splice dst _ hroom, ?_, ?_⟩
  · rw [move, hread, Option.bind_some, copy_of_le hroom]
  · have hheld := held_splice (a := a) hroom
    rwa [hlen, show dst + (len - src) = len - (src - dst) by omega] at hheld

/-- **An element is put in**: what follows moves on by one. -/
theorem held_inserted {i len : ℕ} (hil : i ≤ len) (hln : len < n) (x : α) :
    ∃ a' a'', a.move (i + 1) i (len - i) = some a' ∧ a'.store i x = some a'' ∧
      a''.held (len + 1) = (a.held len).take i ++ [x] ++ (a.held len).drop i := by
  have hread : a.read i (len - i) = some ((a.held len).drop i) := by
    rw [read_of_le (by omega), Nat.add_sub_cancel' hil]
  have hlen : ((a.held len).drop i).length = len - i := by
    rw [List.length_drop, length_held hln.le]
  have hroom : i + 1 + ((a.held len).drop i).length ≤ n := by omega
  refine ⟨a.splice (i + 1) _ hroom, (a.splice (i + 1) _ hroom).update i x, ?_, ?_, ?_⟩
  · rw [move, hread, Option.bind_some, copy_of_le hroom]
  · exact store_of_lt (by omega) x
  · have hheld := held_splice (a := a) hroom
    rw [hlen, show i + 1 + (len - i) = len + 1 by omega] at hheld
    have htake : (a.held len).take i = a.cells.take i := take_held hil
    have hfirst : i < a.cells.length := by
      rw [a.size]
      omega
    have hset : ((a.splice (i + 1) _ hroom).update i x).held (len + 1) =
        ((a.splice (i + 1) _ hroom).held (len + 1)).set i x := List.take_set ..
    rw [hset, hheld, held, List.take_succ_eq_append_getElem hfirst, htake]
    have hpre : (a.cells.take i).length = i := by
      rw [List.length_take]
      omega
    rw [List.set_append_left _ _ (by simpa using hfirst), List.set_append_right _ _ hpre.le, hpre,
      Nat.sub_self]
    rfl

end Arr

end CArray
