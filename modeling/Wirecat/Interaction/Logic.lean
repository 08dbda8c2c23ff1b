import Wirecat.Interaction.Program

/-!
# Reasoning about interacting programs

Two judgements on the programs of `Interaction.Prog`, and a rule for each of the
ways a program is put together.

* `Interaction.Always S p Q h` – **safety with a postcondition**: in every run of
  `p` from the history `h`, the predicate `S` holds of the history *at every
  moment*, and `Q` holds of the result and the history when `p` returns. It is a
  weakest precondition, read at one history, so symbolic execution is rewriting:
  `Interaction.always_call` and `Interaction.always_bind` push it through a
  program, and `Interaction.Always.loop` asks for a loop invariant.
* `Interaction.Within F p Q` – **a footprint**: every request `p` can issue
  satisfies `F`, and every result satisfies `Q`, whatever the answers. It says
  nothing of histories, so one lemma for each function serves every property the
  footprint is disjoint from; `Interaction.Within.always` is how it is spent.
-/

namespace Interaction

open Prog

variable {E : Type} {R : E → Type} {α β γ σ ι : Type}
variable {legal : History E R → (e : E) → R e → Prop}

/-! ### Safety with a postcondition -/

variable (legal) in
/-- **In every run of `p` from `h`**, `S` holds at every moment, and `Q` holds of
the result when there is one. -/
def Always (S : History E R → Prop) (p : Prog E R α) (Q : α → History E R → Prop)
    (h : History E R) : Prop :=
  ∀ h' o, Runs legal p h h' o → S h' ∧ ∀ a, o = some a → Q a h'

variable {S S' : History E R → Prop} {h h' : History E R}

theorem Always.now {p : Prog E R α} {Q : α → History E R → Prop} (hp : Always legal S p Q h) :
    S h :=
  (hp h none (Runs.cut p h)).1

theorem Always.safe {p : Prog E R α} {Q : α → History E R → Prop} (hp : Always legal S p Q h)
    {o : Option α} (hr : Runs legal p h h' o) : S h' :=
  (hp h' o hr).1

theorem Always.post {p : Prog E R α} {Q : α → History E R → Prop} (hp : Always legal S p Q h)
    {a : α} (hr : Runs legal p h h' (some a)) : Q a h' :=
  (hp h' _ hr).2 a rfl

/-- What is known of the finished runs alone. -/
theorem Always.of_runs {p : Prog E R α} {Q : α → History E R → Prop}
    (hp : ∀ h' a, Runs legal p h h' (some a) → Q a h') : Always legal (fun _ => True) p Q h :=
  fun h' _ hr => ⟨trivial, fun a ha => hp h' a (ha ▸ hr)⟩

@[simp] theorem always_ret {a : α} {Q : α → History E R → Prop} :
    Always legal S (ret a) Q h ↔ S h ∧ Q a h := by
  constructor
  · exact fun hp => ⟨hp.now, hp.post (runs_ret.mpr ⟨rfl, rfl⟩)⟩
  · rintro ⟨hS, hQ⟩ h' o ⟨rfl, ho⟩
    refine ⟨hS, fun b hb => ?_⟩
    obtain rfl : b = a := by simpa [hb] using ho
    exact hQ

@[simp] theorem always_pure {a : α} {Q : α → History E R → Prop} :
    Always legal S (pure a) Q h ↔ S h ∧ Q a h := always_ret

@[simp] theorem always_call {e : E} {k : R e → Prog E R α} {Q : α → History E R → Prop} :
    Always legal S (call e k) Q h ↔
      S h ∧ ∀ r, legal h e r → Always legal S (k r) Q (⟨e, r⟩ :: h) := by
  constructor
  · exact fun hp => ⟨hp.now, fun r hl h' o hr => hp h' o (Or.inr ⟨r, hl, hr⟩)⟩
  · rintro ⟨hS, hk⟩ h' o (⟨rfl, rfl⟩ | ⟨r, hl, hr⟩)
    · exact ⟨hS, fun a ha => by simp at ha⟩
    · exact hk r hl h' o hr

@[simp] theorem always_request {e : E} {Q : R e → History E R → Prop} :
    Always legal S (request e) Q h ↔
      S h ∧ ∀ r, legal h e r → S (⟨e, r⟩ :: h) ∧ Q r (⟨e, r⟩ :: h) := by
  simp [request]

/-- **Sequencing**: the second part is entered where the first returns. -/
@[simp] theorem always_bind {p : Prog E R α} {f : α → Prog E R β} {Q : β → History E R → Prop} :
    Always legal S (p.bind f) Q h ↔
      Always legal S p (fun a h₁ => Always legal S (f a) Q h₁) h := by
  constructor
  · refine fun hp h' o hr => ⟨?_, ?_⟩
    · cases o with
      | none => exact hp.safe (runs_bind.mpr (Or.inl ⟨hr, rfl⟩))
      | some a => exact hp.safe (runs_bind.mpr (Or.inr ⟨a, h', hr, Runs.cut _ _⟩))
    · rintro a rfl h₂ o₂ hf
      exact hp h₂ o₂ (runs_bind.mpr (Or.inr ⟨a, h', hr, hf⟩))
  · intro hp h' o hr
    rcases runs_bind.mp hr with ⟨hcut, rfl⟩ | ⟨a, h₁, hfst, hsnd⟩
    · exact ⟨hp.safe hcut, fun b hb => by simp at hb⟩
    · exact hp.post hfst h' o hsnd

@[simp] theorem always_bind' {p : Prog E R α} {f : α → Prog E R β} {Q : β → History E R → Prop} :
    Always legal S (p >>= f) Q h ↔
      Always legal S p (fun a h₁ => Always legal S (f a) Q h₁) h := always_bind

/-- Asking, and going on with any answer. -/
theorem Always.ask {e : E} {k : R e → Prog E R α} {Q : α → History E R → Prop} (hS : S h)
    (hk : ∀ r, legal h e r → Always legal S (k r) Q (⟨e, r⟩ :: h)) :
    Always legal S (request e >>= k) Q h :=
  always_call.mpr ⟨hS, hk⟩

/-- Either branch of a conditional. -/
theorem Always.ite {c : Prop} [Decidable c] {p p' : Prog E R α} {Q : α → History E R → Prop}
    (hp : c → Always legal S p Q h) (hp' : ¬c → Always legal S p' Q h) :
    Always legal S (if c then p else p') Q h := by
  split_ifs with hc
  · exact hp hc
  · exact hp' hc

/-- **Weakening.** -/
theorem Always.mono {p : Prog E R α} {Q Q' : α → History E R → Prop} (hp : Always legal S p Q h)
    (hS : ∀ h, S h → S' h) (hQ : ∀ a h, S h → Q a h → Q' a h) : Always legal S' p Q' h :=
  fun h' o hr => ⟨hS h' (hp h' o hr).1, fun a ha => hQ a h' (hp h' o hr).1 ((hp h' o hr).2 a ha)⟩

theorem Always.post_mono {p : Prog E R α} {Q Q' : α → History E R → Prop}
    (hp : Always legal S p Q h) (hQ : ∀ a h, Q a h → Q' a h) : Always legal S p Q' h :=
  hp.mono (fun _ => id) fun a h _ => hQ a h

theorem Always.and {p : Prog E R α} {Q Q' : α → History E R → Prop} (hp : Always legal S p Q h)
    (hp' : Always legal S' p Q' h) :
    Always legal (fun h => S h ∧ S' h) p (fun a h => Q a h ∧ Q' a h) h :=
  fun h' o hr => ⟨⟨(hp h' o hr).1, (hp' h' o hr).1⟩,
    fun a ha => ⟨(hp h' o hr).2 a ha, (hp' h' o hr).2 a ha⟩⟩

/-- A program whose own part of the history is judged: what came before does not matter. -/
theorem Always.shift {p : Prog E R α} {Q : α → History E R → Prop}
    (hp : Always (After legal h) S p Q []) :
    Always legal (fun h' => ∃ ext, h' = ext ++ h ∧ S ext) p
      (fun a h' => ∃ ext, h' = ext ++ h ∧ Q a ext) h := by
  intro h' o hr
  obtain ⟨ext, rfl, hr'⟩ := Runs.shift (g := []) hr
  exact ⟨⟨ext, rfl, hp.safe hr'⟩, fun a ha => ⟨ext, rfl, hp.post (ha ▸ hr')⟩⟩

/-- What a round of a loop has to establish: the invariant `I` when it goes round
again, the postcondition `Q` when it leaves. -/
def roundPost (I : σ → History E R → Prop) (Q : β → History E R → Prop) :
    σ ⊕ β → History E R → Prop
  | .inl s, h => I s h
  | .inr b, h => Q b h

@[simp] theorem roundPost_inl {I : σ → History E R → Prop} {Q : β → History E R → Prop} {s : σ} :
    roundPost I Q (.inl s) h ↔ I s h := Iff.rfl

@[simp] theorem roundPost_inr {I : σ → History E R → Prop} {Q : β → History E R → Prop} {b : β} :
    roundPost I Q (.inr b) h ↔ Q b h := Iff.rfl

/-- **A loop invariant holds at every loop head.** -/
theorem Reaches.always {body : σ → Prog E R (σ ⊕ β)} {I : σ → History E R → Prop}
    {Q : β → History E R → Prop} {s s₁ : σ} {h₁ : History E R}
    (hr : Reaches legal body s h s₁ h₁) (h0 : I s h)
    (hbody : ∀ s h, I s h → Always legal S (body s) (roundPost I Q) h) : I s₁ h₁ :=
  hr.invariant h0 fun _ _ _ _ hI hb => (hbody _ _ hI).post hb

theorem Always.iter {body : σ → Prog E R (σ ⊕ β)} {k : β → Prog E R α}
    {I : σ → History E R → Prop} {Q : α → History E R → Prop} {s : σ} (h0 : I s h)
    (hbody : ∀ s h, I s h →
      Always legal S (body s) (roundPost I fun b h => Always legal S (k b) Q h) h) :
    Always legal S (iter body s k) Q h := by
  rintro h' o ⟨s₁, h₁, hreach, hrest⟩
  have hI : I s₁ h₁ := Reaches.always hreach h0 hbody
  rcases hrest with ⟨hb, rfl⟩ | ⟨b, h₂, hb, hk⟩
  · exact ⟨(hbody _ _ hI).safe hb, fun a ha => by simp at ha⟩
  · exact (hbody _ _ hI).post hb h' o hk

/-- **The loop rule**: a predicate that a round preserves, and from which a round
that leaves the loop establishes the postcondition. -/
theorem Always.loop {body : σ → Prog E R (σ ⊕ β)} (I : σ → History E R → Prop)
    {Q : β → History E R → Prop} {s : σ} (h0 : I s h)
    (hbody : ∀ s h, I s h → Always legal S (body s) (roundPost I Q) h) :
    Always legal S (loop body s) Q h := by
  refine Always.iter h0 fun s h hI => (hbody s h hI).mono (fun _ => id) fun r h' hS hr => ?_
  cases r with
  | inl s => exact hr
  | inr b => exact always_ret.mpr ⟨hS, hr⟩

/-- **The counting loop rule**: the invariant may mention the index. -/
theorem Always.forRange {f : ℕ → σ → Prog E R σ} (I : ℕ → σ → History E R → Prop) :
    ∀ {n : ℕ} {s : σ} {h : History E R}, S h → I 0 s h →
      (∀ i, i < n → ∀ s h, S h → I i s h → Always legal S (f i s) (I (i + 1)) h) →
      Always legal S (forRange n f s) (I n) h := by
  intro n
  induction n with
  | zero => exact fun hS h0 _ => always_ret.mpr ⟨hS, h0⟩
  | succ n ih =>
    intro s h hS h0 hf
    refine always_bind.mpr ((ih hS h0 fun i hi => hf i (by omega)).mono (fun _ => id) ?_)
    exact fun s' h' hS' hI => hf n (by omega) s' h' hS' hI

/-- The counting loop, in its finished runs. -/
theorem Runs.forRange {f : ℕ → σ → Prog E R σ} (I : ℕ → σ → History E R → Prop) {n : ℕ} {s s' : σ}
    (h0 : I 0 s h)
    (hf : ∀ i, i < n → ∀ s h, I i s h → ∀ h' s', Runs legal (f i s) h h' (some s') → I (i + 1) s' h')
    (hr : Runs legal (Prog.forRange n f s) h h' (some s')) : I n s' h' :=
  (Always.forRange (S := fun _ => True) I trivial h0 fun i hi s h _ hI =>
    Always.of_runs fun h' s' hr => hf i hi s h hI h' s' hr).post hr

/-- **The loop over a list**, with an invariant of the elements still to come. -/
theorem Always.forEach {f : ι → σ → Prog E R σ} (I : List ι → σ → History E R → Prop) :
    ∀ {xs : List ι} {s : σ} {h : History E R}, S h → I xs s h →
      (∀ x xs s h, S h → I (x :: xs) s h → Always legal S (f x s) (I xs) h) →
      Always legal S (forEach xs f s) (I []) h := by
  intro xs
  induction xs with
  | nil => exact fun hS h0 _ => always_ret.mpr ⟨hS, h0⟩
  | cons x xs ih =>
    intro s h hS h0 hf
    refine always_bind.mpr ((hf x xs s h hS h0).mono (fun _ => id) ?_)
    exact fun s' h' hS' hI => ih hS' hI hf

/-! ### Footprints -/

/-- **Every request satisfies `F` and every result satisfies `Q`**, whatever the
environment answers. A loop has to bring its own invariant. -/
def Within (F : E → Prop) : {α : Type} → Prog E R α → (α → Prop) → Prop
  | _, ret a, Q => Q a
  | _, call e k, Q => F e ∧ ∀ r, Within F (k r) Q
  | _, iter (σ := σ) body s k, Q => ∃ I : σ → Prop, I s ∧
      ∀ s, I s → Within F (body s) (Sum.elim I fun b => Within F (k b) Q)

variable {F G : E → Prop}

@[simp] theorem within_ret {a : α} {Q : α → Prop} :
    Within (R := R) F (ret a) Q ↔ Q a := Iff.rfl

@[simp] theorem within_pure {a : α} {Q : α → Prop} :
    Within (R := R) F (pure a) Q ↔ Q a := Iff.rfl

@[simp] theorem within_call {e : E} {k : R e → Prog E R α} {Q : α → Prop} :
    Within F (call e k) Q ↔ F e ∧ ∀ r, Within F (k r) Q := Iff.rfl

@[simp] theorem within_request {e : E} {Q : R e → Prop} :
    Within F (request e) Q ↔ F e ∧ ∀ r, Q r := Iff.rfl

/-- Weakening a footprint. -/
theorem Within.mono {p : Prog E R α} {Q Q' : α → Prop} (hp : Within F p Q)
    (hF : ∀ e, F e → G e) (hQ : ∀ a, Q a → Q' a) : Within G p Q' := by
  induction p with
  | ret a => exact hQ a hp
  | call e k ih => exact ⟨hF e hp.1, fun r => ih r (hp.2 r) hQ⟩
  | iter body s k ihb ih =>
    obtain ⟨I, h0, hbody⟩ := hp
    refine ⟨I, h0, fun s hs => ihb s (hbody s hs) fun r hr => ?_⟩
    cases r with
    | inl s => exact hr
    | inr b => exact ih b hr hQ

theorem Within.post_mono {p : Prog E R α} {Q Q' : α → Prop} (hp : Within F p Q)
    (hQ : ∀ a, Q a → Q' a) : Within F p Q' :=
  hp.mono (fun _ => id) hQ

/-- Two footprints of one program. -/
theorem Within.and {p : Prog E R α} {Q Q' : α → Prop} (hp : Within F p Q) (hp' : Within G p Q') :
    Within (fun e => F e ∧ G e) p fun a => Q a ∧ Q' a := by
  induction p with
  | ret a => exact ⟨hp, hp'⟩
  | call e k ih => exact ⟨⟨hp.1, hp'.1⟩, fun r => ih r (hp.2 r) (hp'.2 r)⟩
  | iter body s k ihb ih =>
    obtain ⟨I, h0, hbody⟩ := hp
    obtain ⟨J, h0', hbody'⟩ := hp'
    refine ⟨fun s => I s ∧ J s, ⟨h0, h0'⟩, fun s hs => ?_⟩
    refine (ihb s (hbody s hs.1) (hbody' s hs.2)).mono (fun _ => id) fun r hr => ?_
    cases r with
    | inl s => exact hr
    | inr b => exact ih b hr.1 hr.2

theorem Within.bind {p : Prog E R α} {f : α → Prog E R β} {Q : α → Prop} {Q' : β → Prop}
    (hp : Within F p Q) (hf : ∀ a, Q a → Within F (f a) Q') : Within F (p.bind f) Q' := by
  induction p with
  | ret a => exact hf a hp
  | call e k ih => exact ⟨hp.1, fun r => ih r (hp.2 r) hf⟩
  | iter body s k _ ih =>
    obtain ⟨I, h0, hbody⟩ := hp
    refine ⟨I, h0, fun s hs => (hbody s hs).mono (fun _ => id) fun r hr => ?_⟩
    cases r with
    | inl s => exact hr
    | inr b => exact ih b hr hf

theorem Within.bind' {p : Prog E R α} {f : α → Prog E R β} {Q : α → Prop} {Q' : β → Prop}
    (hp : Within F p Q) (hf : ∀ a, Q a → Within F (f a) Q') : Within F (p >>= f) Q' :=
  hp.bind hf

/-- The footprint alone. -/
theorem Within.footprint {p : Prog E R α} {Q : α → Prop} (hp : Within F p Q) :
    Within F p fun _ => True :=
  hp.post_mono fun _ _ => trivial

/-- A first part whose result is of no interest. -/
theorem Within.next {p : Prog E R α} {f : α → Prog E R β} {Q' : β → Prop}
    (hp : Within F p fun _ => True) (hf : ∀ a, Within F (f a) Q') : Within F (p >>= f) Q' :=
  hp.bind fun a _ => hf a

/-- Either branch of a conditional. -/
theorem Within.ite {c : Prop} [Decidable c] {p p' : Prog E R α} {Q : α → Prop}
    (hp : c → Within F p Q) (hp' : ¬c → Within F p' Q) : Within F (if c then p else p') Q := by
  split_ifs with hc
  · exact hp hc
  · exact hp' hc

/-- A request that is made only under a condition. -/
theorem Within.optional {c : Prop} [Decidable c] {e : E} {a : R e} (he : F e) :
    Within F (if c then request e else pure a) fun _ => True :=
  Within.ite (fun _ => ⟨he, fun _ => trivial⟩) fun _ => trivial

/-- The footprint of a loop, with the invariant of its states. -/
theorem Within.loop {body : σ → Prog E R (σ ⊕ β)} {Q : β → Prop} {s : σ} (I : σ → Prop) (h0 : I s)
    (hbody : ∀ s, I s → Within F (body s) (Sum.elim I Q)) : Within F (loop body s) Q :=
  ⟨I, h0, hbody⟩

theorem Within.forRange {f : ℕ → σ → Prog E R σ} (I : σ → Prop) {n : ℕ} {s : σ} (h0 : I s)
    (hf : ∀ i s, I s → Within F (f i s) I) : Within F (forRange n f s) I := by
  induction n with
  | zero => exact h0
  | succ n ih => exact ih.bind fun s hs => hf n s hs

theorem Within.forEach {f : ι → σ → Prog E R σ} (I : σ → Prop) {xs : List ι} {s : σ} (h0 : I s)
    (hf : ∀ x s, I s → Within F (f x s) I) : Within F (forEach xs f s) I := by
  induction xs generalizing s with
  | nil => exact h0
  | cons x xs ih => exact (hf x s h0).bind fun s hs => ih hs

/-- Every program has the footprint of all requests. -/
theorem Within.all (p : Prog E R α) : Within (fun _ => True) p fun _ => True := by
  induction p with
  | ret a => trivial
  | call e k ih => exact ⟨trivial, ih⟩
  | iter body s k ihb ih =>
    refine ⟨fun _ => True, trivial, fun s _ => (ihb s).post_mono ?_⟩
    rintro (s' | b') -
    · trivial
    · exact ih b'

/-- **Spending a footprint**: what every request of the footprint preserves holds
at every moment of every run. -/
theorem Within.always {p : Prog E R α} {Q : α → Prop} (hp : Within F p Q) (h0 : S h)
    (hS : ∀ h e r, S h → F e → legal h e r → S (⟨e, r⟩ :: h)) :
    Always legal S p (fun a h' => S h' ∧ Q a) h := by
  induction p generalizing h with
  | ret a => exact always_ret.mpr ⟨h0, h0, hp⟩
  | call e k ih =>
    exact always_call.mpr ⟨h0, fun r hl => ih r (hp.2 r) (hS h e r h0 hp.1 hl)⟩
  | iter body s k ihb ih =>
    obtain ⟨I, hI, hbody⟩ := hp
    refine Always.iter (I := fun s h => S h ∧ I s) ⟨h0, hI⟩ ?_
    rintro s h ⟨hSh, hs⟩
    refine (ihb s (hbody s hs) hSh).mono (fun _ => id) ?_
    rintro (s' | b) h' - ⟨hS', hr⟩
    · exact ⟨hS', hr⟩
    · exact ih b hr hS'

/-- What a footprint says of the events of a run. -/
theorem Within.events {p : Prog E R α} {Q : α → Prop} (hp : Within F p Q) {o : Option α}
    (hr : Runs legal p h h' o) : ∃ new, h' = new ++ h ∧ ∀ ev ∈ new, F ev.1 := by
  refine (hp.always (S := fun g => ∃ new, g = new ++ h ∧ ∀ ev ∈ new, F ev.1) ⟨[], rfl, by simp⟩
    ?_).safe hr
  rintro _ e r ⟨new, rfl, hnew⟩ he -
  exact ⟨⟨e, r⟩ :: new, rfl, by simpa using ⟨he, hnew⟩⟩

/-- What a footprint says of the result, of a finished run. -/
theorem Within.result {p : Prog E R α} {Q : α → Prop} (hp : Within F p Q) {a : α}
    (hr : Runs legal p h h' (some a)) : Q a :=
  ((hp.always (S := fun _ => True) trivial fun _ _ _ _ _ _ => trivial).post hr).2

end Interaction
