import Wirecat.Interaction.Program

/-!
# Programs that get on

A statement about all the runs of a program says nothing of a program that spins:
it has the runs it has had so far, and no others. `Interaction.Busy` rules this
out. A busy program never goes round a loop without making a request, so at any
moment it has either returned or is waiting for an answer
(`Interaction.Runs.progress`). Together with a safety property that allows no
further request, this is how a program is shown to *return*.

A loop that makes requests may still go on for ever, and whether it does depends on what
it is answered. `Interaction.Returns` is about an environment: from any history on there
is a run to a result. In an environment that is a strategy, with one answer to every
request, there is one run only, and this is termination.
-/

namespace Interaction

open Prog

variable {E : Type} {R : E → Type} {α β σ : Type}
variable {legal : History E R → (e : E) → R e → Prop} {h h' : History E R}

/-- Without a request, only a result in `Q` is returned. -/
def Asks : {α : Type} → Prog E R α → (α → Prop) → Prop
  | _, ret a, Q => Q a
  | _, call _ _, _ => True
  | _, iter _ _ k, Q => ∀ b, Asks (k b) Q

/-- **No loop goes round without a request.** -/
def Busy : {α : Type} → Prog E R α → Prop
  | _, ret _ => True
  | _, call _ k => ∀ r, Busy (k r)
  | _, iter body _ k =>
      (∀ s, Busy (body s) ∧ Asks (body s) fun x => x.isRight = true) ∧ ∀ b, Busy (k b)

theorem Asks.bind {p : Prog E R α} {f : α → Prog E R β} {Q : β → Prop}
    (hp : Asks p fun a => Asks (f a) Q) : Asks (p.bind f) Q := by
  induction p with
  | ret a => exact hp
  | call e k _ => trivial
  | iter body s k _ ih => exact fun b => ih b (hp b)

theorem Asks.bind' {p : Prog E R α} {f : α → Prog E R β} {Q : β → Prop}
    (hp : Asks p fun a => Asks (f a) Q) : Asks (p >>= f) Q := hp.bind

theorem Asks.mono {p : Prog E R α} {Q Q' : α → Prop} (hp : Asks p Q) (hQ : ∀ a, Q a → Q' a) :
    Asks p Q' := by
  induction p with
  | ret a => exact hQ a hp
  | call e k _ => trivial
  | iter body s k _ ih => exact fun b => ih b (hp b) hQ

/-- A part of a program that a request follows on every way out. -/
theorem Asks.all {p : Prog E R α} {Q : α → Prop} (hQ : ∀ a, Q a) : Asks p Q := by
  induction p with
  | ret a => exact hQ a
  | call e k _ => trivial
  | iter body s k _ ih => exact fun b => ih b hQ

/-- A program that begins with a request returns nothing without one. -/
theorem asks_request {e : E} {f : R e → Prog E R α} {Q : α → Prop} :
    Asks (request e >>= f) Q := trivial

theorem busy_pure (a : α) : Busy (pure a : Prog E R α) := trivial

theorem busy_request (e : E) : Busy (request e : Prog E R (R e)) := fun _ => trivial

theorem Busy.bind {p : Prog E R α} {f : α → Prog E R β} (hp : Busy p) (hf : ∀ a, Busy (f a)) :
    Busy (p.bind f) := by
  induction p with
  | ret a => exact hf a
  | call e k ih => exact fun r => ih r (hp r) hf
  | iter body s k _ ih => exact ⟨hp.1, fun b => ih b (hp.2 b) hf⟩

theorem Busy.bind' {p : Prog E R α} {f : α → Prog E R β} (hp : Busy p) (hf : ∀ a, Busy (f a)) :
    Busy (p >>= f) := hp.bind hf

theorem Busy.ite {c : Prop} [Decidable c] {p p' : Prog E R α} (hp : Busy p) (hp' : Busy p') :
    Busy (if c then p else p') := by
  split_ifs
  · exact hp
  · exact hp'

theorem Busy.loop {body : σ → Prog E R (σ ⊕ β)} (hbody : ∀ s, Busy (body s))
    (hasks : ∀ s, Asks (body s) fun x => x.isRight = true) (s : σ) : Busy (loop body s) :=
  ⟨fun s => ⟨hbody s, hasks s⟩, fun _ => trivial⟩

/-- What is returned without a request. -/
theorem Asks.result {p : Prog E R α} {Q : α → Prop} (hp : Asks p Q) {a : α}
    (hr : Runs legal p h h (some a)) : Q a := by
  induction p generalizing h with
  | ret b =>
    obtain ⟨-, rfl⟩ := runs_ret.mp hr
    exact hp
  | call e k _ =>
    obtain ⟨r, -, hr⟩ := runs_call.mp hr
    have := hr.suffix.length_le
    simp only [List.length_cons] at this
    omega
  | iter body s k ihb ih =>
    obtain ⟨s₁, h₁, hreach, ⟨-, hno⟩ | ⟨b, h₂, hb, hk⟩⟩ := hr
    · exact absurd hno (by simp)
    · -- the whole run added no event, so neither did its last part
      have h1 : h <:+ h₁ := by
        refine Reaches.invariant (I := fun _ h₁ => h <:+ h₁) hreach (List.suffix_refl h) ?_
        exact fun _ _ _ _ hI hrun => hI.trans hrun.suffix
      have hle := (h1.trans hb.suffix).length_le
      have hsuf := hk.suffix
      obtain rfl : h₂ = h := hsuf.eq_of_length_le hle
      exact ih b (hp b) hk

/-- **A busy program gets on**: a run that was cut has come to a result, or to a
request that any answer takes further. -/
theorem Runs.progress {p : Prog E R α} (hp : Busy p) (hr : Runs legal p h h' none) :
    (∃ a, Runs legal p h h' (some a)) ∨
      ∃ e, ∀ r, legal h' e r → Runs legal p h (⟨e, r⟩ :: h') none := by
  induction p generalizing h h' with
  | ret a => exact Or.inl ⟨a, hr.1, Or.inr rfl⟩
  | call e k ih =>
    rcases hr with ⟨rfl, -⟩ | ⟨r, hl, hr⟩
    · exact Or.inr ⟨e, fun r hl => Or.inr ⟨r, hl, Runs.cut _ _⟩⟩
    · rcases ih r (hp r) hr with ⟨a, ha⟩ | ⟨e', he⟩
      · exact Or.inl ⟨a, Or.inr ⟨r, hl, ha⟩⟩
      · exact Or.inr ⟨e', fun r' hl' => Or.inr ⟨r, hl, he r' hl'⟩⟩
  | iter body s k ihb ih =>
    obtain ⟨hbody, hk⟩ := hp
    have hexit : ∀ {s₁ b h₁ h₂}, Reaches legal body s h s₁ h₁ →
        Runs legal (body s₁) h₁ h₂ (some (.inr b)) → Runs legal (k b) h₂ h' none →
        (∃ a, Runs legal (iter body s k) h h' (some a)) ∨
          ∃ e, ∀ r, legal h' e r → Runs legal (iter body s k) h (⟨e, r⟩ :: h') none := by
      intro s₁ b h₁ h₂ hreach hb hkr
      rcases ih b (hk b) hkr with ⟨a, ha⟩ | ⟨e, he⟩
      · exact Or.inl ⟨a, s₁, h₁, hreach, Or.inr ⟨b, h₂, hb, ha⟩⟩
      · exact Or.inr ⟨e, fun r hl => ⟨s₁, h₁, hreach, Or.inr ⟨b, h₂, hb, he r hl⟩⟩⟩
    have hround : ∀ {s₁ h₁}, Reaches legal body s h s₁ h₁ → Runs legal (body s₁) h₁ h' none →
        (∃ s₂, Runs legal (body s₁) h₁ h' (some (.inl s₂))) ∨
        (∃ a, Runs legal (iter body s k) h h' (some a)) ∨
          ∃ e, ∀ r, legal h' e r → Runs legal (iter body s k) h (⟨e, r⟩ :: h') none := by
      intro s₁ h₁ hreach hcut
      rcases ihb s₁ (hbody s₁).1 hcut with ⟨s₂ | b, hx⟩ | ⟨e, he⟩
      · exact Or.inl ⟨s₂, hx⟩
      · exact Or.inr (hexit hreach hx (Runs.cut _ _))
      · exact Or.inr (Or.inr ⟨e, fun r hl => ⟨s₁, h₁, hreach, Or.inl ⟨he r hl, rfl⟩⟩⟩)
    obtain ⟨s₁, h₁, hreach, ⟨hcut, -⟩ | ⟨b, h₂, hb, hkr⟩⟩ := hr
    · rcases hround hreach hcut with ⟨s₂, hs₂⟩ | hdone
      · -- the round was complete: the next one starts here, and it has to ask
        rcases hround (Reaches.step hreach hs₂) (Runs.cut _ _) with ⟨s₃, hs₃⟩ | hdone
        · exact absurd ((hbody s₂).2.result hs₃) (by simp)
        · exact hdone
      · exact hdone
    · exact hexit hreach hb hkr

/-- **A program gets on**: at any moment it has come to a result, or it is at a request that can be
answered, and that any answer takes further. -/
def GetsOn (legal : History E R → (e : E) → R e → Prop) (p : Prog E R α) (h : History E R) : Prop :=
  ∀ h', Runs legal p h h' none → (∃ a, Runs legal p h h' (some a)) ∨
    ∃ e, (∃ r, legal h' e r) ∧ ∀ r, legal h' e r → Runs legal p h (⟨e, r⟩ :: h') none

theorem Busy.getsOn {p : Prog E R α} (hp : Busy p) (hany : ∀ h e, ∃ r, legal h e r) :
    GetsOn legal p h :=
  fun h' hr => (hr.progress hp).imp_right fun ⟨e, he⟩ => ⟨e, hany h' e, he⟩

/-- **A busy program that cannot ask for ever returns**, where every request has an answer. -/
theorem Runs.returns {p : Prog E R α} (hp : Busy p) (hany : ∀ h e, ∃ r, legal h e r) {n : ℕ}
    (hbound : ∀ h', Runs legal p h h' none → h'.length ≤ n) :
    ∃ h' a, Runs legal p h h' (some a) := by
  suffices hgen : ∀ k h', Runs legal p h h' none → n < h'.length + k →
      ∃ h' a, Runs legal p h h' (some a) from
    hgen (n + 1) h (Runs.cut p h) (by omega)
  intro k
  induction k with
  | zero =>
    intro h' hr hlt
    exact absurd (hbound h' hr) (by omega)
  | succ k ih =>
    intro h' hr hlt
    rcases hr.progress hp with ⟨a, ha⟩ | ⟨e, he⟩
    · exact ⟨h', a, ha⟩
    · obtain ⟨r, hl⟩ := hany h' e
      exact ih _ (he r hl) (by rw [List.length_cons]; omega)

/-! ### Programs that return -/

/-- **`p` returns with a result in `Q`**, from any history on. -/
def Returns (legal : History E R → (e : E) → R e → Prop) (p : Prog E R α) (Q : α → Prop) : Prop :=
  ∀ h, ∃ h' a, Runs legal p h h' (some a) ∧ Q a

section
variable {e : E} {p p' : Prog E R α} {f : α → Prog E R β} {Q Q' : α → Prop} {Q₂ : β → Prop}

theorem returns_pure {a : α} (ha : Q a) : Returns legal (pure a) Q := fun h =>
  ⟨h, a, runs_pure.mpr ⟨rfl, rfl⟩, ha⟩

/-- Asking, and going on with an answer of which `P` holds. -/
theorem Returns.ask {k : R e → Prog E R α} {P : R e → Prop} (hany : ∀ h, ∃ r, legal h e r ∧ P r)
    (hk : ∀ r, P r → Returns legal (k r) Q) : Returns legal (request e >>= k) Q := by
  intro h
  obtain ⟨r, hl, hP⟩ := hany h
  obtain ⟨h', a, hr, ha⟩ := hk r hP (⟨e, r⟩ :: h)
  exact ⟨h', a, runs_ask.mpr ⟨r, hl, hr⟩, ha⟩

theorem Returns.bind' (hp : Returns legal p Q) (hf : ∀ a, Q a → Returns legal (f a) Q₂) :
    Returns legal (p >>= f) Q₂ := by
  intro h
  obtain ⟨h₁, a, hr, ha⟩ := hp h
  obtain ⟨h', b, hr', hb⟩ := hf a ha h₁
  exact ⟨h', b, runs_bind_some'.mpr ⟨a, h₁, hr, hr'⟩, hb⟩

theorem Returns.mono (hp : Returns legal p Q) (hQ : ∀ a, Q a → Q' a) : Returns legal p Q' := by
  intro h
  obtain ⟨h', a, hr, ha⟩ := hp h
  exact ⟨h', a, hr, hQ a ha⟩

theorem Returns.ite {c : Prop} [Decidable c] (hp : c → Returns legal p Q)
    (hp' : ¬c → Returns legal p' Q) : Returns legal (if c then p else p') Q := by
  split_ifs with hc
  · exact hp hc
  · exact hp' hc

/-- **A loop returns** when each of its rounds does, and makes `m` smaller or leaves. -/
theorem Returns.loop {body : σ → Prog E R (σ ⊕ β)} (m : σ → ℕ)
    (hbody : ∀ s, Returns legal (body s) (Sum.elim (fun s' => m s' < m s) Q₂)) (s : σ) :
    Returns legal (loop body s) Q₂ := by
  induction hn : m s using Nat.strongRecOn generalizing s with
  | _ n ih =>
    intro h
    obtain ⟨h₁, r, hr, hdown⟩ := hbody s h
    cases r with
    | inl s' =>
      obtain ⟨h', b, hrest, hb⟩ := ih (m s') (hn ▸ hdown) s' rfl h₁
      exact ⟨h', b, Runs.again hr hrest, hb⟩
    | inr b => exact ⟨h₁, b, Runs.leave hr (runs_ret.mpr ⟨rfl, rfl⟩), hdown⟩

end

end Interaction
