import Mathlib.Data.Set.Lattice
import Mathlib.Order.CompletePartialOrder
import Wirecat.Interaction.Conditions

/-!
# Ledgers

A program that acquires things, uses them and loses them again: descriptors, locks, memory,
permissions. An account says of each event what it opens and what it closes
(`Interaction.Accounts`), and what is held after a history follows
(`Interaction.Accounts.held`). It also says what an event needs: a resource can only be
closed by who holds it, a permission has to be there when it is used.

Two things can go wrong, and they are of different kinds. Something is needed that is not
held – it was closed before, or was never opened: this is seen at the moment it happens, and
the books are *in order* as long as it has not (`Interaction.Accounts.InOrder`). Or something
is never closed: this is seen at the end, in what is held there.

`Interaction.Accounts.Keeps` is the assertion of a program logic for both: from holdings `S`
the program keeps its books in order, and a result `a` leaves it with holdings `S'` such that
`Q a S'`.
-/

namespace Interaction

open Prog

/-- What the events of a system open and close, and what has to be held when they happen. -/
structure Accounts (E : Type) (R : E → Type) (K : Type) where
  opened : Event E R → Set K
  closed : Event E R → Set K
  needed : Event E R → Set K

namespace Accounts

variable {E : Type} {R : E → Type} {K α β σ : Type} (A : Accounts E R K)

/-- What is held after a history: what was opened, and not closed since. -/
def held : History E R → Set K
  | [] => ∅
  | ev :: h => held h \ A.closed ev ∪ A.opened ev

@[simp] theorem held_cons (ev : Event E R) (h : History E R) :
    A.held (ev :: h) = A.held h \ A.closed ev ∪ A.opened ev := rfl

/-- **The books are in order**: since `h₀`, nothing was needed that was not held then. -/
def InOrder (h₀ h : History E R) : Prop :=
  h₀ <:+ h ∧ Throughout (fun g ev => A.needed ev ⊆ A.held g) h₀ h

theorem inOrder_refl (h : History E R) : A.InOrder h h :=
  ⟨List.suffix_refl h, Throughout.refl⟩

/-- An event that opens and closes nothing, and needs nothing but `S`. -/
structure Inert (S : Set K) (ev : Event E R) : Prop where
  opened : A.opened ev = ∅
  closed : A.closed ev = ∅
  needed : A.needed ev ⊆ S

variable {A} {h₀ h h' : History E R}

theorem Inert.mono {S S' : Set K} {ev : Event E R} (hev : A.Inert S ev) (hS : S ⊆ S') :
    A.Inert S' ev :=
  ⟨hev.opened, hev.closed, hev.needed.trans hS⟩

theorem InOrder.cons {ev : Event E R} (hh : A.InOrder h₀ h) (hc : A.needed ev ⊆ A.held h) :
    A.InOrder h₀ (ev :: h) :=
  ⟨hh.1.trans (List.suffix_cons _ _), hh.2.cons hc⟩

variable {legal : History E R → (e : E) → R e → Prop} {S : Set K}

/-- **Keeping the books**: from holdings `S` the program needs nothing that it does not hold,
and ends with a result and holdings that satisfy `Q`. -/
def Keeps (legal : History E R → (e : E) → R e → Prop) (A : Accounts E R K) (S : Set K)
    (p : Prog E R α) (Q : α → Set K → Prop) : Prop :=
  ∀ h₀ h, A.InOrder h₀ h → A.held h = S →
    Always legal (A.InOrder h₀) p (fun a h' => Q a (A.held h')) h

theorem keeps_pure {a : α} {Q : α → Set K → Prop} (hQ : Q a S) :
    Keeps legal A S (pure a : Prog E R α) Q := by
  rintro h₀ h hin rfl
  exact always_pure.mpr ⟨hin, hQ⟩

/-- One request, and the rest of the program. -/
theorem Keeps.ask {e : E} {k : R e → Prog E R α} {Q : α → Set K → Prop}
    (hk : ∀ h r, legal h e r → A.held h = S → A.needed ⟨e, r⟩ ⊆ S ∧
      Keeps legal A (S \ A.closed ⟨e, r⟩ ∪ A.opened ⟨e, r⟩) (k r) Q) :
    Keeps legal A S (request e >>= k) Q := by
  rintro h₀ h hin rfl
  refine Always.ask hin fun r hl => ?_
  obtain ⟨hc, hrest⟩ := hk h r hl rfl
  exact hrest h₀ _ (hin.cons hc) rfl

/-- An inert request, and the rest of the program. -/
theorem Keeps.inert {e : E} {k : R e → Prog E R α} {Q : α → Set K → Prop}
    (he : ∀ r, A.Inert S ⟨e, r⟩) (hk : ∀ h r, legal h e r → Keeps legal A S (k r) Q) :
    Keeps legal A S (request e >>= k) Q := by
  refine Keeps.ask fun h r hl _ => ⟨(he r).needed, ?_⟩
  rw [(he r).opened, (he r).closed, Set.sdiff_empty, Set.union_empty]
  exact hk h r hl

theorem Keeps.mono {p : Prog E R α} {Q Q' : α → Set K → Prop} (hp : Keeps legal A S p Q)
    (hQ : ∀ a S', Q a S' → Q' a S') : Keeps legal A S p Q' :=
  fun h₀ h hin hS => (hp h₀ h hin hS).post_mono fun _ _ => hQ _ _

theorem Keeps.bind {p : Prog E R α} {f : α → Prog E R β} {Q : α → Set K → Prop}
    {Q' : β → Set K → Prop} (hp : Keeps legal A S p Q)
    (hf : ∀ a S', Q a S' → Keeps legal A S' (f a) Q') : Keeps legal A S (p >>= f) Q' := by
  intro h₀ h hin hS
  refine always_bind'.mpr ((hp h₀ h hin hS).mono (fun _ => id) ?_)
  exact fun a h₁ hin₁ hQ => hf a _ hQ h₀ h₁ hin₁ rfl

theorem Keeps.ite {c : Prop} [Decidable c] {p p' : Prog E R α} {Q : α → Set K → Prop}
    (hp : c → Keeps legal A S p Q) (hp' : ¬c → Keeps legal A S p' Q) :
    Keeps legal A S (if c then p else p') Q := by
  split_ifs with hc
  · exact hp hc
  · exact hp' hc

/-- The loop rule: the invariant is of the state and the holdings. -/
theorem Keeps.loop {body : σ → Prog E R (σ ⊕ β)} {Q : β → Set K → Prop} {s : σ}
    (I : σ → Set K → Prop) (h0 : I s S)
    (hbody : ∀ s S, I s S →
      Keeps legal A S (body s) fun r S' => Sum.elim (I · S') (Q · S') r) :
    Keeps legal A S (Prog.loop body s) Q := by
  rintro h₀ h hin rfl
  refine Always.loop (fun s h => A.InOrder h₀ h ∧ I s (A.held h)) ⟨hin, h0⟩ ?_
  rintro s h ⟨hin, hI⟩
  refine (hbody s _ hI h₀ h hin rfl).mono (fun _ => id) ?_
  rintro (s' | b) h' hin' hQ
  · exact ⟨hin', hQ⟩
  · exact hQ

/-- The counting loop: the invariant may mention the index. -/
theorem Keeps.forRange {f : ℕ → σ → Prog E R σ} (I : ℕ → σ → Set K → Prop) {n : ℕ} {s : σ}
    (h0 : I 0 s S) (hf : ∀ i, i < n → ∀ s S, I i s S → Keeps legal A S (f i s) (I (i + 1))) :
    Keeps legal A S (Prog.forRange n f s) (I n) := by
  induction n with
  | zero => exact keeps_pure h0
  | succ n ih =>
    exact (ih fun i hi => hf i (by omega)).bind fun s' S' hI => hf n (by omega) s' S' hI

/-- The loop over a list. -/
theorem Keeps.forEach {ι : Type} {f : ι → σ → Prog E R σ} (I : σ → Set K → Prop) {xs : List ι}
    {s : σ} (h0 : I s S) (hf : ∀ x s S, I s S → Keeps legal A S (f x s) I) :
    Keeps legal A S (Prog.forEach xs f s) I := by
  induction xs generalizing s S with
  | nil => exact keeps_pure h0
  | cons x xs ih => exact (hf x s S h0).bind fun s' S' hI => ih hI

/-- **A program that opens and closes nothing** holds what it held. -/
theorem keeps_of_within {F : E → Prop} {p : Prog E R α} {Q : α → Prop} (hp : Within F p Q)
    (hF : ∀ e r, F e → A.Inert S ⟨e, r⟩) :
    Keeps legal A S p fun a S' => S' = S ∧ Q a := by
  rintro h₀ h hin rfl
  refine (hp.always (S := fun h' => A.InOrder h₀ h' ∧ A.held h' = A.held h) ⟨hin, rfl⟩ ?_).mono
    (fun _ hS => hS.1) fun a h' _ hQ => ⟨hQ.1.2, hQ.2⟩
  rintro h' e r ⟨hin', hheld⟩ he -
  have hinert := hF e r he
  refine ⟨hin'.cons (hheld ▸ hinert.needed), ?_⟩
  rw [held_cons, hinert.opened, hinert.closed, Set.sdiff_empty, Set.union_empty, hheld]

/-- **A program that leaves something alone**: it may open and close other things, and needs no
others. -/
theorem keeps_above {F : E → Prop} {p : Prog E R α} {Q : α → Prop} {T : Set K}
    (hp : Within F p Q) (hT : T ⊆ S)
    (hF : ∀ h e r, F e → legal h e r → T ⊆ A.held h →
      A.needed ⟨e, r⟩ ⊆ T ∧ Disjoint T (A.closed ⟨e, r⟩)) :
    Keeps legal A S p fun a S' => T ⊆ S' ∧ Q a := by
  rintro h₀ h hin rfl
  refine (hp.always (S := fun h' => A.InOrder h₀ h' ∧ T ⊆ A.held h') ⟨hin, hT⟩ ?_).mono
    (fun _ hS => hS.1) fun a h' _ hQ => ⟨hQ.1.2, hQ.2⟩
  rintro h' e r ⟨hin', hheld⟩ he hl
  obtain ⟨hn, hc⟩ := hF h' e r he hl hheld
  refine ⟨hin'.cons (hn.trans hheld), ?_⟩
  rw [held_cons]
  exact Set.subset_union_of_subset_left (Set.subset_sdiff.mpr ⟨hheld, hc⟩) _

/-- A request that needs nothing but `T`, and closes nothing of it. -/
def Spares (A : Accounts E R K) (T : Set K) (e : E) : Prop :=
  ∀ r, A.needed ⟨e, r⟩ ⊆ T ∧ Disjoint T (A.closed ⟨e, r⟩)

theorem keeps_spared {p : Prog E R α} {Q : α → Prop} {T : Set K} (hp : Within (A.Spares T) p Q)
    (hT : T ⊆ S) : Keeps legal A S p fun a S' => T ⊆ S' ∧ Q a :=
  keeps_above hp hT fun _ _ r he _ _ => he r

/-- One such request, after which there is also what it opened, and the rest of the program. -/
theorem Keeps.gain {e : E} {k : R e → Prog E R α} {Q : α → Set K → Prop} {T : Set K} (hT : T ⊆ S)
    (he : A.Spares T e) (hk : ∀ r S', T ∪ A.opened ⟨e, r⟩ ⊆ S' → Keeps legal A S' (k r) Q) :
    Keeps legal A S (request e >>= k) Q := by
  refine Keeps.ask fun h r _ _ => ⟨(he r).1.trans hT, hk r _ ?_⟩
  exact Set.union_subset_union_left _ (Set.subset_sdiff.mpr ⟨hT, (he r).2⟩)

theorem keeps_gained {e : E} {T : Set K} (hT : T ⊆ S) (he : A.Spares T e) :
    Keeps legal A S (request e) fun r S' => T ∪ A.opened ⟨e, r⟩ ⊆ S' :=
  Keeps.gain hT he fun _ _ hS' => keeps_pure hS'

/-- **What the books say of a run**, finished or not. -/
theorem Keeps.run {p : Prog E R α} {Q : α → Set K → Prop} (hp : Keeps legal A (A.held h) p Q)
    {o : Option α} (hr : Runs legal p h h' o) :
    Throughout (fun g ev => A.needed ev ⊆ A.held g) h h' ∧ ∀ a, o = some a → Q a (A.held h') := by
  have hrun := hp h h (A.inOrder_refl h) rfl
  exact ⟨(hrun.safe hr).2, fun a ha => hrun.post (ha ▸ hr)⟩

end Accounts

end Interaction
