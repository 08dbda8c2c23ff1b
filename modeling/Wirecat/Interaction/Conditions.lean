import Wirecat.Interaction.Logic

/-!
# Runs under a condition

What is claimed of the events of a run is often claimed of each in its place: that it
satisfies `P`, given the history before it. `Interaction.Throughout P h h'` says this of the
events that took `h` to `h'`.

Such a condition can stand on either side. As a *conclusion* it is carried along a run like
any other safety property, one event at a time (`Interaction.Throughout.cons`). As an
*assumption* it narrows the environment: a run whose events all satisfy `P` is a run against
an environment that only gives answers satisfying `P` (`Interaction.Runs.among`), and what
is proved against the narrower environment is a statement about those runs.
-/

namespace Interaction

open Prog

variable {E : Type} {R : E → Type} {α β σ : Type}

/-- **Every event since `h` satisfies `P`**, given the history before it. -/
def Throughout (P : History E R → Event E R → Prop) (h h' : History E R) : Prop :=
  ∀ ev g, ev :: g <:+ h' → h <:+ g → P g ev

variable {P P' : History E R → Event E R → Prop} {h h₁ h' : History E R}

/-- No event has happened since `h` when the history is `h`. -/
theorem Throughout.refl : Throughout P h h := by
  intro ev g hev hg
  have hlen : (ev :: g).length ≤ g.length := (hev.trans hg).length_le
  exact absurd hlen (by simp)

theorem Throughout.cons {ev : Event E R} (hh : Throughout P h h') (hev : P h' ev) :
    Throughout P h (ev :: h') := by
  intro ev' g hev' hg
  rcases List.suffix_cons_iff.mp hev' with heq | hsuf
  · obtain ⟨rfl, rfl⟩ := List.cons.inj heq
    exact hev
  · exact hh ev' g hsuf hg

/-- The condition on a part of the events. -/
theorem Throughout.part {h₀ h₂ : History E R} (hh : Throughout P h₀ h₂) (hpre : h₀ <:+ h)
    (hpost : h' <:+ h₂) : Throughout P h h' :=
  fun ev g hev hg => hh ev g (hev.trans hpost) (hpre.trans hg)

theorem Throughout.mono (hh : Throughout P h h') (hP : ∀ g ev, P g ev → P' g ev) :
    Throughout P' h h' :=
  fun ev g hev hg => hP g ev (hh ev g hev hg)

/-- The events of one part of a history, and then of the next. -/
theorem Throughout.trans (hh : Throughout P h h₁) (hh' : Throughout P h₁ h') (hsuf : h₁ <:+ h') :
    Throughout P h h' := by
  intro ev g hev hg
  rcases List.suffix_or_suffix_of_suffix hsuf hev with hpast | hnow
  · rcases List.suffix_cons_iff.mp hpast with heq | hpast
    · exact hh ev g (heq ▸ List.suffix_refl _) hg
    · exact hh' ev g hev hpast
  · exact hh ev g hnow hg

/-- A condition that does not look back is one on the events alone. -/
theorem throughout_append {ok : Event E R → Prop} {new : History E R} :
    Throughout (fun _ ev => ok ev) h (new ++ h) ↔ ∀ ev ∈ new, ok ev := by
  constructor
  · intro hh ev hev
    obtain ⟨later, earlier, rfl⟩ := List.append_of_mem hev
    refine hh ev (earlier ++ h) ⟨later, ?_⟩ (List.suffix_append _ _)
    simp
  · rintro hnew ev g ⟨later, hlater⟩ ⟨earlier, rfl⟩
    refine hnew ev ?_
    have heq : later ++ ev :: earlier = new := by
      refine (List.append_left_inj h).mp ?_
      simpa using hlater
    simp [← heq]

variable {legal : History E R → (e : E) → R e → Prop}

/-- **A program whose requests satisfy the condition** as soon as `h` is behind them. -/
theorem Within.throughout {F : E → Prop} {p : Prog E R α} {Q : α → Prop} {h₀ : History E R}
    (hp : Within F p Q) (hh : Throughout P h₀ h)
    (hF : ∀ g e r, h <:+ g → F e → legal g e r → P g ⟨e, r⟩) :
    Always legal (Throughout P h₀) p (fun a h' => h <:+ h' ∧ Q a) h := by
  refine (hp.always (S := fun h' => Throughout P h₀ h' ∧ h <:+ h') ⟨hh, List.suffix_refl h⟩ ?_).mono
    (fun _ hS => hS.1) fun a h' _ hQ => ⟨hQ.1.2, hQ.2⟩
  rintro g e r ⟨hg, hsuf⟩ he hl
  exact ⟨hg.cons (hF g e r hsuf he hl), hsuf.trans (List.suffix_cons _ _)⟩

/-! ### Narrower environments -/

/-- The answers of an environment that satisfy a condition. -/
def Among (legal : History E R → (e : E) → R e → Prop) (P : History E R → Event E R → Prop) :
    History E R → (e : E) → R e → Prop :=
  fun h e r => legal h e r ∧ P h ⟨e, r⟩

/-- Loop heads that are reached under a condition. -/
theorem Reaches.among {body : σ → Prog E R (σ ⊕ β)} {s s₁ : σ}
    (hbody : ∀ s h h' o, Runs legal (body s) h h' o → Throughout P h h' →
      Runs (Among legal P) (body s) h h' o)
    (hr : Reaches legal body s h s₁ h₁) (hP : Throughout P h h₁) :
    Reaches (Among legal P) body s h s₁ h₁ := by
  have hgen : ∀ x y : σ × History E R, Relation.ReflTransGen
      (fun x y => Runs legal (body x.1) x.2 y.2 (some (.inl y.1))) x y → Throughout P x.2 y.2 →
      Relation.ReflTransGen
        (fun x y => Runs (Among legal P) (body x.1) x.2 y.2 (some (.inl y.1))) x y := by
    intro x y hxy
    induction hxy with
    | refl => exact fun _ => .refl
    | @tail y z hxy hstep ih =>
      intro hP
      have hpre : x.2 <:+ y.2 := Reaches.suffix hxy
      exact (ih (hP.part (List.suffix_refl _) hstep.suffix)).tail
        (hbody _ _ _ _ hstep (hP.part hpre (List.suffix_refl _)))
  exact hgen _ _ hr hP

/-- **A run whose events satisfy the condition** is a run in the narrower environment. -/
theorem Runs.among {p : Prog E R α} {o : Option α} (hr : Runs legal p h h' o)
    (hP : Throughout P h h') : Runs (Among legal P) p h h' o := by
  induction p generalizing h h' with
  | ret a => exact hr
  | call e k ih =>
    rcases hr with hcut | ⟨r, hl, hr⟩
    · exact Or.inl hcut
    · have hev : P h ⟨e, r⟩ := hP _ h hr.suffix (List.suffix_refl h)
      exact Or.inr ⟨r, ⟨hl, hev⟩, ih r hr (hP.part (List.suffix_cons _ _) (List.suffix_refl _))⟩
  | iter body s k ihb ih =>
    obtain ⟨s₁, h₁, hreach, hrest⟩ := hr
    have hpre : h <:+ h₁ := Reaches.suffix hreach
    rcases hrest with ⟨hb, rfl⟩ | ⟨b, h₂, hb, hk⟩
    · refine ⟨s₁, h₁, Reaches.among (fun s h h' o => ihb s) hreach
        (hP.part (List.suffix_refl _) hb.suffix), Or.inl ⟨?_, rfl⟩⟩
      exact ihb s₁ hb (hP.part hpre (List.suffix_refl _))
    · refine ⟨s₁, h₁, Reaches.among (fun s h h' o => ihb s) hreach
        (hP.part (List.suffix_refl _) (hb.suffix.trans hk.suffix)), Or.inr ⟨b, h₂, ?_, ?_⟩⟩
      · exact ihb s₁ hb (hP.part hpre hk.suffix)
      · exact ih b hk (hP.part (hpre.trans hb.suffix) (List.suffix_refl _))

end Interaction
