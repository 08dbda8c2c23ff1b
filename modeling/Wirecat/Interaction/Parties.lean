import Wirecat.Interaction.Program

/-!
# Two parties

Two programs run beside each other, each against an environment of its own. What one of them is
answered has to do with what the other has done – the one reads what the other has written – and
this is a *link*: a relation between the two histories that holds at every moment.

Nothing is said of who moves when. An `Interaction.Interleaving` is any order of the events of the
two, and `Interaction.Joint` are the orders in which the link is kept. What is proved of both
programs and of the link holds therefore at every moment of every schedule
(`Interaction.Joint.before`), messages in flight included: they are what the one has written and
the other has not yet read.

That a moment of a joint run is again a joint run rests on `Interaction.Runs.before`: a run can be
cut at whatever history it has passed through.
-/

namespace Interaction

open Prog

section

variable {E : Type} {R : E → Type} {α β σ : Type} {legal : History E R → (e : E) → R e → Prop}
  {g h h' : History E R}

/-- A history that lies before the end of a loop's complete rounds lies within one of them. -/
theorem Reaches.before {body : σ → Prog E R (σ ⊕ β)} {s s₁ : σ} {h₁ : History E R}
    (hbody : ∀ s h h' r, Runs legal (body s) h h' (some r) → g <:+ h' → h <:+ g →
      Runs legal (body s) h g none)
    (hr : Reaches legal body s h s₁ h₁) (hg : g <:+ h₁) (hh : h <:+ g) :
    ∃ s₂ h₂, Reaches legal body s h s₂ h₂ ∧ Runs legal (body s₂) h₂ g none := by
  have hgen : ∀ x y : σ × History E R, Relation.ReflTransGen
      (fun x y => Runs legal (body x.1) x.2 y.2 (some (.inl y.1))) x y → g <:+ y.2 → x.2 <:+ g →
      ∃ z : σ × History E R, Relation.ReflTransGen
        (fun x y => Runs legal (body x.1) x.2 y.2 (some (.inl y.1))) x z ∧
          Runs legal (body z.1) z.2 g none := by
    intro x y hxy
    induction hxy with
    | refl =>
      intro hg hh
      rw [hg.eq_of_length_le hh.length_le]
      exact ⟨x, .refl, Runs.cut _ _⟩
    | @tail y z hxy hstep ih =>
      intro hg hh
      rcases List.suffix_or_suffix_of_suffix hg hstep.suffix with hpast | hnow
      · exact ih hpast hh
      · exact ⟨y, hxy, hbody _ _ _ _ hstep hg hnow⟩
  obtain ⟨⟨s₂, h₂⟩, hreach, hcut⟩ := hgen _ _ hr hg hh
  exact ⟨s₂, h₂, hreach, hcut⟩

/-- **A run can be cut** at whatever history it has passed through. -/
theorem Runs.before {p : Prog E R α} {o : Option α} (hr : Runs legal p h h' o) (hg : g <:+ h')
    (hh : h <:+ g) : Runs legal p h g none := by
  induction p generalizing h h' with
  | ret a =>
    obtain ⟨rfl, -⟩ := hr
    rw [hg.eq_of_length_le hh.length_le]
    exact Runs.cut _ _
  | call e k ih =>
    rcases hr with ⟨rfl, -⟩ | ⟨r, hl, hr⟩
    · rw [hg.eq_of_length_le hh.length_le]
      exact Runs.cut _ _
    rcases List.suffix_or_suffix_of_suffix hg hr.suffix with hpast | hnow
    · rcases List.suffix_cons_iff.mp hpast with rfl | hpast
      · exact Or.inr ⟨r, hl, Runs.cut _ _⟩
      · rw [hpast.eq_of_length_le hh.length_le]
        exact Runs.cut _ _
    · exact Or.inr ⟨r, hl, ih r hr hg hnow⟩
  | iter body s k ihb ih =>
    obtain ⟨s₁, h₁, hreach, hrest⟩ := hr
    have hround : ∀ s h h' r, Runs legal (body s) h h' (some r) → g <:+ h' → h <:+ g →
        Runs legal (body s) h g none := fun s h h' r hb hg hh => ihb s hb hg hh
    -- within the rounds that were completed, within the last, or behind the loop
    have hcases : g <:+ h₁ ∨ h₁ <:+ g := by
      rcases hrest with ⟨hb, -⟩ | ⟨b, h₂, hb, hk⟩
      · exact List.suffix_or_suffix_of_suffix hg hb.suffix
      · exact List.suffix_or_suffix_of_suffix hg (hb.suffix.trans hk.suffix)
    rcases hcases with hpast | hnow
    · obtain ⟨s₂, h₂, hreach', hcut⟩ := Reaches.before hround hreach hpast hh
      exact ⟨s₂, h₂, hreach', Or.inl ⟨hcut, rfl⟩⟩
    rcases hrest with ⟨hb, -⟩ | ⟨b, h₂, hb, hk⟩
    · exact ⟨s₁, h₁, hreach, Or.inl ⟨ihb s₁ hb hg hnow, rfl⟩⟩
    rcases List.suffix_or_suffix_of_suffix hg hk.suffix with hpast | hlater
    · exact ⟨s₁, h₁, hreach, Or.inl ⟨ihb s₁ hb hpast hnow, rfl⟩⟩
    · exact ⟨s₁, h₁, hreach, Or.inr ⟨b, h₂, hb, ih b hk hg hlater⟩⟩

end

/-! ### Joint runs -/

variable {E₁ E₂ : Type} {R₁ : E₁ → Type} {R₂ : E₂ → Type} {α β : Type}

/-- The events of two parties, in the order in which they happened, newest first. -/
abbrev Interleaving (E₁ : Type) (R₁ : E₁ → Type) (E₂ : Type) (R₂ : E₂ → Type) :=
  List (Event E₁ R₁ ⊕ Event E₂ R₂)

/-- What the first party has seen of it. -/
def firstOf (w : Interleaving E₁ R₁ E₂ R₂) : History E₁ R₁ := w.filterMap Sum.getLeft?

/-- What the second party has seen of it. -/
def secondOf (w : Interleaving E₁ R₁ E₂ R₂) : History E₂ R₂ := w.filterMap Sum.getRight?

@[simp] theorem firstOf_append (w w' : Interleaving E₁ R₁ E₂ R₂) :
    firstOf (w ++ w') = firstOf w ++ firstOf w' := List.filterMap_append

@[simp] theorem secondOf_append (w w' : Interleaving E₁ R₁ E₂ R₂) :
    secondOf (w ++ w') = secondOf w ++ secondOf w' := List.filterMap_append

/-- A part in which only the first party moves. -/
@[simp] theorem firstOf_map_inl (h : History E₁ R₁) :
    firstOf (h.map .inl : Interleaving E₁ R₁ E₂ R₂) = h := by
  induction h with
  | nil => rfl
  | cons ev h ih => exact congrArg (ev :: ·) ih

@[simp] theorem secondOf_map_inl (h : History E₁ R₁) :
    secondOf (h.map .inl : Interleaving E₁ R₁ E₂ R₂) = [] := by
  induction h with
  | nil => rfl
  | cons ev h ih => exact ih

/-- A part in which only the second party moves. -/
@[simp] theorem firstOf_map_inr (h : History E₂ R₂) :
    firstOf (h.map .inr : Interleaving E₁ R₁ E₂ R₂) = [] := by
  induction h with
  | nil => rfl
  | cons ev h ih => exact ih

@[simp] theorem secondOf_map_inr (h : History E₂ R₂) :
    secondOf (h.map .inr : Interleaving E₁ R₁ E₂ R₂) = h := by
  induction h with
  | nil => rfl
  | cons ev h ih => exact congrArg (ev :: ·) ih

/-- **A joint run** of `p` from the history `h` and of `q` from `k`, with their results, if they
have come to one: the link is kept at every moment. -/
structure Joint (legal₁ : History E₁ R₁ → (e : E₁) → R₁ e → Prop)
    (legal₂ : History E₂ R₂ → (e : E₂) → R₂ e → Prop) (link : History E₁ R₁ → History E₂ R₂ → Prop)
    (p : Prog E₁ R₁ α) (h : History E₁ R₁) (q : Prog E₂ R₂ β) (k : History E₂ R₂)
    (w : Interleaving E₁ R₁ E₂ R₂) (o : Option α) (o' : Option β) : Prop where
  first : Runs legal₁ p h (firstOf w ++ h) o
  second : Runs legal₂ q k (secondOf w ++ k) o'
  linked : ∀ w', w' <:+ w → link (firstOf w') (secondOf w')

variable {legal₁ : History E₁ R₁ → (e : E₁) → R₁ e → Prop}
  {legal₂ : History E₂ R₂ → (e : E₂) → R₂ e → Prop} {link : History E₁ R₁ → History E₂ R₂ → Prop}
  {p : Prog E₁ R₁ α} {h : History E₁ R₁} {q : Prog E₂ R₂ β} {k : History E₂ R₂}
  {w w' : Interleaving E₁ R₁ E₂ R₂} {o : Option α} {o' : Option β}

/-- **A moment of a joint run** is a joint run that is cut there. -/
theorem Joint.before (hj : Joint legal₁ legal₂ link p h q k w o o') (hw : w' <:+ w) :
    Joint legal₁ legal₂ link p h q k w' none none := by
  obtain ⟨later, rfl⟩ := hw
  refine ⟨hj.first.before ?_ (List.suffix_append _ _), hj.second.before ?_ (List.suffix_append _ _),
    fun w'' hw' => hj.linked w'' (hw'.trans (List.suffix_append _ _))⟩
  · rw [firstOf_append, List.append_assoc]
    exact List.suffix_append _ _
  · rw [secondOf_append, List.append_assoc]
    exact List.suffix_append _ _

end Interaction
