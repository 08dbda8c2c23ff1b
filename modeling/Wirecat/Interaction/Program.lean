import Mathlib.Logic.Relation
import Mathlib.Tactic.Common

/-!
# Programs that talk to an environment

A program of this file does nothing on its own: it issues *requests*, and what
happens next depends on the *answers*. The interface is a type `E` of requests
and, for each request, the type `R e` of its answers, so that an answer of the
wrong shape – more bytes than were asked for, a verdict on a question nobody put
– cannot be given.

* `Interaction.Prog` is the syntax: a value, a request with a continuation, or a
  loop. The loop is a constructor and not a recursion, because the loops of a
  server do not terminate, and a program that never ends must still be a value.
* `Interaction.Runs` is the meaning: which **histories** a program can produce
  from a given one. A history is the list of the events so far, newest first. A
  run may be cut at any moment, and then it has no result; this is what makes a
  statement about all runs a statement about every moment of every run.
* `Interaction.Reaches` is the same meaning at the head of a loop, the place
  where loop invariants live.
* `Interaction.exec` evaluates a program against a deterministic environment, so
  that a particular run can be computed rather than derived.

The environment may be constrained by what it has already answered: every notion
is relative to a relation `legal h e r`, “after the history `h` the request `e`
may be answered by `r`”.
-/

namespace Interaction

/-- Programs over the requests `E` answered in `R`, with a result in `α`. -/
inductive Prog (E : Type) (R : E → Type) : Type → Type 1
  /-- Return a value. -/
  | ret {α : Type} (a : α) : Prog E R α
  /-- Issue a request and go on with its answer. -/
  | call {α : Type} (e : E) (k : R e → Prog E R α) : Prog E R α
  /-- Repeat `body` from the state `s` as long as it answers `Sum.inl`, then go
  on with what it leaves the loop with. -/
  | iter {σ β α : Type} (body : σ → Prog E R (σ ⊕ β)) (s : σ) (k : β → Prog E R α) : Prog E R α

variable {E : Type} {R : E → Type} {α β γ σ : Type}

namespace Prog

/-- Sequencing. -/
def bind : Prog E R α → (α → Prog E R β) → Prog E R β
  | ret a, f => f a
  | call e k, f => call e fun r => (k r).bind f
  | iter body s k, f => iter body s fun b => (k b).bind f

instance : Monad (Prog E R) where
  pure := ret
  bind := bind

/-- Issue one request and return its answer. -/
def request (e : E) : Prog E R (R e) := call e ret

/-- A loop whose result is the result of the program: `Sum.inl` goes round
again, `Sum.inr` leaves. -/
def loop (body : σ → Prog E R (σ ⊕ β)) (s : σ) : Prog E R β := iter body s ret

/-- The counting loop `for (i = 0; i < n; i++)`, threading a state. -/
def forRange : ℕ → (ℕ → σ → Prog E R σ) → σ → Prog E R σ
  | 0, _, s => ret s
  | n + 1, f, s => (forRange n f s).bind (f n)

/-- Run a program once for each element of a list, in order. -/
def forEach {ι : Type} : List ι → (ι → σ → Prog E R σ) → σ → Prog E R σ
  | [], _, s => ret s
  | x :: xs, f, s => (f x s).bind (forEach xs f)

theorem pure_def (a : α) : (pure a : Prog E R α) = ret a := rfl

theorem bind_def (p : Prog E R α) (f : α → Prog E R β) : p >>= f = p.bind f := rfl

@[simp] theorem ret_bind (a : α) (f : α → Prog E R β) : (ret a).bind f = f a := rfl

@[simp] theorem call_bind (e : E) (k : R e → Prog E R α) (f : α → Prog E R β) :
    (call e k).bind f = call e fun r => (k r).bind f := rfl

@[simp] theorem request_bind (e : E) (f : R e → Prog E R β) :
    (request e).bind f = call e f := rfl

@[simp] theorem request_bind' (e : E) (f : R e → Prog E R β) : request e >>= f = call e f := rfl

@[simp] theorem bind_ret (p : Prog E R α) : p.bind ret = p := by
  induction p with
  | ret a => rfl
  | call e k ih => exact congrArg (call e) (funext ih)
  | iter body s k _ ih => exact congrArg (iter body s) (funext ih)

theorem bind_assoc (p : Prog E R α) (f : α → Prog E R β) (g : β → Prog E R γ) :
    (p.bind f).bind g = p.bind fun a => (f a).bind g := by
  induction p with
  | ret a => rfl
  | call e k ih => exact congrArg (call e) (funext fun r => ih r f)
  | iter body s k _ ih => exact congrArg (iter body s) (funext fun b => ih b f)

instance : LawfulMonad (Prog E R) :=
  LawfulMonad.mk' _ bind_ret (fun _ _ => rfl) bind_assoc

theorem forEach_append {ι : Type} (xs ys : List ι) (f : ι → σ → Prog E R σ) (s : σ) :
    forEach (xs ++ ys) f s = (forEach xs f s).bind (forEach ys f) := by
  induction xs generalizing s with
  | nil => rfl
  | cons x xs ih =>
    rw [List.cons_append, forEach, forEach, bind_assoc]
    exact congrArg (f x s).bind (funext ih)

end Prog

open Prog

/-! ### Histories and runs -/

/-- An event: a request and the answer it got. -/
abbrev Event (E : Type) (R : E → Type) := (e : E) × R e

/-- A history: the events so far, **newest first**. -/
abbrev History (E : Type) (R : E → Type) := List (Event E R)

variable (legal : History E R → (e : E) → R e → Prop)

/-- **What a program can do.** `Runs legal p h h' o` says that `p`, started after
the history `h`, can bring it to `h'`; `o` is its result, or `none` when the run
is cut there. -/
def Runs : {α : Type} → Prog E R α → History E R → History E R → Option α → Prop
  | _, ret a, h, h', o => h' = h ∧ (o = none ∨ o = some a)
  | _, call e k, h, h', o =>
      (h' = h ∧ o = none) ∨ ∃ r, legal h e r ∧ Runs (k r) (⟨e, r⟩ :: h) h' o
  | _, iter body s k, h, h', o =>
      ∃ s₁ h₁, Relation.ReflTransGen
          (fun x y : _ × History E R => Runs (body x.1) x.2 y.2 (some (.inl y.1))) (s, h) (s₁, h₁) ∧
        ((Runs (body s₁) h₁ h' none ∧ o = none) ∨
          ∃ b h₂, Runs (body s₁) h₁ h₂ (some (.inr b)) ∧ Runs (k b) h₂ h' o)

/-- **Reaching the head of a loop**: after some complete rounds of `body` from
the state `s` and the history `h`, the loop is about to start a round from the
state `s₁` and the history `h₁`. -/
def Reaches (body : σ → Prog E R (σ ⊕ β)) (s : σ) (h : History E R) (s₁ : σ)
    (h₁ : History E R) : Prop :=
  Relation.ReflTransGen
    (fun x y : σ × History E R => Runs legal (body x.1) x.2 y.2 (some (.inl y.1))) (s, h) (s₁, h₁)

variable {legal}

theorem runs_ret {a b : α} {h h' : History E R} :
    Runs legal (ret a) h h' (some b) ↔ h' = h ∧ b = a := by
  simp [Runs]

theorem runs_call {e : E} {k : R e → Prog E R α} {h h' : History E R} {b : α} :
    Runs legal (call e k) h h' (some b) ↔
      ∃ r, legal h e r ∧ Runs legal (k r) (⟨e, r⟩ :: h) h' (some b) := by
  simp [Runs]

/-- A run may be cut before anything has happened. -/
theorem Runs.cut (p : Prog E R α) (h : History E R) : Runs legal p h h none := by
  induction p generalizing h with
  | ret a => exact ⟨rfl, Or.inl rfl⟩
  | call e k _ => exact Or.inl ⟨rfl, rfl⟩
  | iter body s k ih _ => exact ⟨s, h, .refl, Or.inl ⟨ih s h, rfl⟩⟩

/-- **The runs of a sequence**: cut inside the first part, or through it. -/
theorem runs_bind {p : Prog E R α} {f : α → Prog E R β} {h h' : History E R} {o : Option β} :
    Runs legal (p.bind f) h h' o ↔ (Runs legal p h h' none ∧ o = none) ∨
      ∃ a h₁, Runs legal p h h₁ (some a) ∧ Runs legal (f a) h₁ h' o := by
  induction p generalizing h with
  | ret a =>
    constructor
    · exact fun hr => Or.inr ⟨a, h, ⟨rfl, Or.inr rfl⟩, hr⟩
    · rintro (⟨⟨rfl, -⟩, rfl⟩ | ⟨b, h₁, hb, hr⟩)
      · exact Runs.cut _ _
      · obtain ⟨rfl, rfl⟩ := runs_ret.mp hb
        exact hr
  | call e k ih =>
    constructor
    · rintro (⟨rfl, rfl⟩ | ⟨r, hl, hr⟩)
      · exact Or.inl ⟨Or.inl ⟨rfl, rfl⟩, rfl⟩
      · rcases (ih r).mp hr with ⟨hk, rfl⟩ | ⟨a, h₁, hk, hf⟩
        · exact Or.inl ⟨Or.inr ⟨r, hl, hk⟩, rfl⟩
        · exact Or.inr ⟨a, h₁, runs_call.mpr ⟨r, hl, hk⟩, hf⟩
    · rintro (⟨⟨rfl, -⟩ | ⟨r, hl, hk⟩, rfl⟩ | ⟨a, h₁, hp, hf⟩)
      · exact Or.inl ⟨rfl, rfl⟩
      · exact Or.inr ⟨r, hl, (ih r).mpr (Or.inl ⟨hk, rfl⟩)⟩
      · obtain ⟨r, hl, hk⟩ := runs_call.mp hp
        exact Or.inr ⟨r, hl, (ih r).mpr (Or.inr ⟨a, h₁, hk, hf⟩)⟩
  | iter body s k _ ih =>
    constructor
    · rintro ⟨s₁, h₁, hreach, ⟨hb, rfl⟩ | ⟨b, h₂, hb, hr⟩⟩
      · exact Or.inl ⟨⟨s₁, h₁, hreach, Or.inl ⟨hb, rfl⟩⟩, rfl⟩
      · rcases (ih b).mp hr with ⟨hk, rfl⟩ | ⟨a, h₃, hk, hf⟩
        · exact Or.inl ⟨⟨s₁, h₁, hreach, Or.inr ⟨b, h₂, hb, hk⟩⟩, rfl⟩
        · exact Or.inr ⟨a, h₃, ⟨s₁, h₁, hreach, Or.inr ⟨b, h₂, hb, hk⟩⟩, hf⟩
    · rintro (⟨⟨s₁, h₁, hreach, ⟨hb, -⟩ | ⟨b, h₂, hb, hk⟩⟩, rfl⟩ | ⟨a, h₃, hp, hf⟩)
      · exact ⟨s₁, h₁, hreach, Or.inl ⟨hb, rfl⟩⟩
      · exact ⟨s₁, h₁, hreach, Or.inr ⟨b, h₂, hb, (ih b).mpr (Or.inl ⟨hk, rfl⟩)⟩⟩
      · obtain ⟨s₁, h₁, hreach, ⟨-, hno⟩ | ⟨b, h₂, hb, hk⟩⟩ := hp
        · exact absurd hno (by simp)
        · exact ⟨s₁, h₁, hreach, Or.inr ⟨b, h₂, hb, (ih b).mpr (Or.inr ⟨a, h₃, hk, hf⟩)⟩⟩

/-- A finished run of a sequence goes through its first part. -/
theorem runs_bind_some {p : Prog E R α} {f : α → Prog E R β} {h h' : History E R} {b : β} :
    Runs legal (p.bind f) h h' (some b) ↔
      ∃ a h₁, Runs legal p h h₁ (some a) ∧ Runs legal (f a) h₁ h' (some b) := by
  rw [runs_bind]
  simp

theorem runs_bind_some' {p : Prog E R α} {f : α → Prog E R β} {h h' : History E R} {b : β} :
    Runs legal (p >>= f) h h' (some b) ↔
      ∃ a h₁, Runs legal p h h₁ (some a) ∧ Runs legal (f a) h₁ h' (some b) := runs_bind_some

theorem runs_pure {a b : α} {h h' : History E R} :
    Runs legal (pure a : Prog E R α) h h' (some b) ↔ h' = h ∧ b = a := runs_ret

theorem runs_request {e : E} {h h' : History E R} {r : R e} :
    Runs legal (request e) h h' (some r) ↔ legal h e r ∧ h' = ⟨e, r⟩ :: h := by
  rw [request, runs_call]
  constructor
  · rintro ⟨r', hl, hr⟩
    obtain ⟨rfl, rfl⟩ := runs_ret.mp hr
    exact ⟨hl, rfl⟩
  · rintro ⟨hl, rfl⟩
    exact ⟨r, hl, runs_ret.mpr ⟨rfl, rfl⟩⟩

/-- A finished run that begins with a request goes on from its answer. -/
theorem runs_ask {e : E} {k : R e → Prog E R α} {h h' : History E R} {b : α} :
    Runs legal (request e >>= k) h h' (some b) ↔
      ∃ r, legal h e r ∧ Runs legal (k r) (⟨e, r⟩ :: h) h' (some b) := runs_call

/-- A run only ever adds events. -/
theorem Runs.suffix {p : Prog E R α} {h h' : History E R} {o : Option α}
    (hr : Runs legal p h h' o) : h <:+ h' := by
  induction p generalizing h h' with
  | ret a => exact hr.1 ▸ List.suffix_refl h
  | call e k ih =>
    rcases hr with ⟨rfl, -⟩ | ⟨r, -, hr⟩
    · exact List.suffix_refl h'
    · exact (List.suffix_cons _ h).trans (ih r hr)
  | iter body s k ihb ih =>
    obtain ⟨s₁, h₁, hreach, hrest⟩ := hr
    have hpre : h <:+ h₁ := by
      have hgen : ∀ x y : _ × History E R, Relation.ReflTransGen
          (fun x y => Runs legal (body x.1) x.2 y.2 (some (.inl y.1))) x y → x.2 <:+ y.2 := by
        intro x y hxy
        induction hxy with
        | refl => exact List.suffix_refl _
        | tail _ hstep ihx => exact ihx.trans (ihb _ hstep)
      exact hgen _ _ hreach
    rcases hrest with ⟨hb, -⟩ | ⟨b, h₂, hb, hk⟩
    · exact hpre.trans (ihb s₁ hb)
    · exact hpre.trans ((ihb s₁ hb).trans (ih b hk))

/-- Reaching a loop head again after one more round. -/
theorem Reaches.step {body : σ → Prog E R (σ ⊕ β)} {s s₁ s₂ : σ} {h h₁ h₂ : History E R}
    (hr : Reaches legal body s h s₁ h₁) (hb : Runs legal (body s₁) h₁ h₂ (some (.inl s₂))) :
    Reaches legal body s h s₂ h₂ :=
  Relation.ReflTransGen.tail hr hb

/-- Every loop head is reached from the start with no round at all. -/
theorem Reaches.start {body : σ → Prog E R (σ ⊕ β)} (s : σ) (h : History E R) :
    Reaches legal body s h s h :=
  Relation.ReflTransGen.refl

/-- **The invariant rule at loop heads**: what holds at the start and survives a
round holds at every loop head. -/
theorem Reaches.invariant {body : σ → Prog E R (σ ⊕ β)} {I : σ → History E R → Prop} {s s₁ : σ}
    {h h₁ : History E R} (hr : Reaches legal body s h s₁ h₁) (h0 : I s h)
    (hstep : ∀ s h s' h', I s h → Runs legal (body s) h h' (some (.inl s')) → I s' h') :
    I s₁ h₁ := by
  have hgen : ∀ x y : σ × History E R, Relation.ReflTransGen
      (fun x y => Runs legal (body x.1) x.2 y.2 (some (.inl y.1))) x y → I x.1 x.2 → I y.1 y.2 := by
    intro x y hxy hx
    induction hxy with
    | refl => exact hx
    | tail _ hb ih => exact hstep _ _ _ _ ih hb
  exact hgen _ _ hr h0

/-! ### Forgetting the past -/

/-- The environment after the history `h`, to a program that does not know of it. -/
def After (legal : History E R → (e : E) → R e → Prop) (h : History E R) :
    History E R → (e : E) → R e → Prop :=
  fun g e r => legal (g ++ h) e r

theorem Reaches.shift {body : σ → Prog E R (σ ⊕ β)} {s s₁ : σ} {g h h₁ : History E R}
    (hbody : ∀ (s s' : σ) (g h' : History E R),
      Runs legal (body s) (g ++ h) h' (some (.inl s')) →
        ∃ g', h' = g' ++ h ∧ Runs (After legal h) (body s) g g' (some (.inl s')))
    (hr : Reaches legal body s (g ++ h) s₁ h₁) :
    ∃ g₁, h₁ = g₁ ++ h ∧ Reaches (After legal h) body s g s₁ g₁ := by
  refine hr.invariant (I := fun s₁ h₁ => ∃ g₁, h₁ = g₁ ++ h ∧ Reaches (After legal h) body s g s₁ g₁)
    ⟨g, rfl, Reaches.start s g⟩ ?_
  rintro s₂ h₂ s₃ h₃ ⟨g₂, rfl, hreach⟩ hb
  obtain ⟨g₃, rfl, hb'⟩ := hbody s₂ s₃ g₂ h₃ hb
  exact ⟨g₃, rfl, hreach.step hb'⟩

/-- **A run does not look back**: what a program does after a history it also does
from nothing, in the environment that history left behind. -/
theorem Runs.shift {p : Prog E R α} {g h h' : History E R} {o : Option α}
    (hr : Runs legal p (g ++ h) h' o) :
    ∃ g', h' = g' ++ h ∧ Runs (After legal h) p g g' o := by
  induction p generalizing g h' with
  | ret a => exact ⟨g, hr.1, rfl, hr.2⟩
  | call e k ih =>
    rcases hr with ⟨rfl, rfl⟩ | ⟨r, hl, hr⟩
    · exact ⟨g, rfl, Or.inl ⟨rfl, rfl⟩⟩
    · obtain ⟨g', rfl, hr'⟩ := ih r (g := ⟨e, r⟩ :: g) hr
      exact ⟨g', rfl, Or.inr ⟨r, hl, hr'⟩⟩
  | iter body s k ihb ih =>
    obtain ⟨s₁, h₁, hreach, hrest⟩ := hr
    obtain ⟨g₁, rfl, hreach'⟩ := Reaches.shift (fun s s' g h' hb => ihb s hb) hreach
    rcases hrest with ⟨hb, rfl⟩ | ⟨b, h₂, hb, hk⟩
    · obtain ⟨g', rfl, hb'⟩ := ihb s₁ hb
      exact ⟨g', rfl, s₁, g₁, hreach', Or.inl ⟨hb', rfl⟩⟩
    · obtain ⟨g₂, rfl, hb'⟩ := ihb s₁ hb
      obtain ⟨g', rfl, hk'⟩ := ih b hk
      exact ⟨g', rfl, s₁, g₁, hreach', Or.inr ⟨b, g₂, hb', hk'⟩⟩

/-- A run from the end of `h` on, as a run from nothing. -/
theorem Runs.ext {p : Prog E R α} {g h : History E R} {o : Option α}
    (hr : Runs legal p h (g ++ h) o) : Runs (After legal h) p [] g o := by
  obtain ⟨g', hg, hr'⟩ := Runs.shift (g := []) hr
  obtain rfl := List.append_cancel_right hg
  exact hr'

/-- A loop head reached from the end of `h` on, as one reached from nothing. -/
theorem Reaches.ext {body : σ → Prog E R (σ ⊕ β)} {s s₁ : σ} {g h : History E R}
    (hr : Reaches legal body s h s₁ (g ++ h)) : Reaches (After legal h) body s [] s₁ g := by
  obtain ⟨g', hg, hr'⟩ := Reaches.shift (g := []) (fun _ _ _ _ hb => Runs.shift hb) hr
  obtain rfl := List.append_cancel_right hg
  exact hr'

/-! ### The run of a history -/

theorem Reaches.suffix {body : σ → Prog E R (σ ⊕ β)} {s s₁ : σ} {h h₁ : History E R}
    (hr : Reaches legal body s h s₁ h₁) : h <:+ h₁ :=
  hr.invariant (I := fun _ h₁ => h <:+ h₁) (List.suffix_refl h) fun _ _ _ _ hI hb =>
    hI.trans hb.suffix

/-- Two events that follow the same history, in one history, are the same event. -/
theorem event_unique {h H : History E R} {ev ev' : Event E R} (hs : ev :: h <:+ H)
    (hs' : ev' :: h <:+ H) : ev = ev' := by
  have heq := (List.suffix_of_suffix_length_le hs hs' (by simp)).eq_of_length (by simp)
  exact (List.cons.inj heq).1

/-- **The answers determine a run**: two finished runs from `h` whose events are the first
of the same history are the same run. -/
theorem Runs.unique {legal' : History E R → (e : E) → R e → Prop} {p : Prog E R α}
    {h h₁ h₂ H : History E R} {a b : α}
    (hr : Runs legal p h h₁ (some a)) (hr' : Runs legal' p h h₂ (some b)) (hs : h₁ <:+ H)
    (hs' : h₂ <:+ H) : h₁ = h₂ ∧ a = b := by
  induction p generalizing h h₁ h₂ with
  | ret c =>
    obtain ⟨rfl, rfl⟩ := runs_ret.mp hr
    obtain ⟨rfl, rfl⟩ := runs_ret.mp hr'
    exact ⟨rfl, rfl⟩
  | call e k ih =>
    obtain ⟨r, -, hr⟩ := runs_call.mp hr
    obtain ⟨r', -, hr'⟩ := runs_call.mp hr'
    have hev := event_unique (hr.suffix.trans hs) (hr'.suffix.trans hs')
    obtain rfl : r = r' := by simpa using hev
    exact ih r hr hr' hs hs'
  | iter body s k ihb ih =>
    obtain ⟨s₁, g₁, hreach, ⟨-, hno⟩ | ⟨c, e₁, hb, hk⟩⟩ := hr
    · exact absurd hno (by simp)
    obtain ⟨s₂, g₂, hreach', ⟨-, hno⟩ | ⟨c', e₂, hb', hk'⟩⟩ := hr'
    · exact absurd hno (by simp)
    have hH : e₁ <:+ H := hk.suffix.trans hs
    have hH' : e₂ <:+ H := hk'.suffix.trans hs'
    -- the rounds of the two runs are the same, one by one
    have hgen : ∀ x : _ × History E R, Relation.ReflTransGen
          (fun x y => Runs legal (body x.1) x.2 y.2 (some (.inl y.1))) x (s₁, g₁) →
        Relation.ReflTransGen
          (fun x y => Runs legal' (body x.1) x.2 y.2 (some (.inl y.1))) x (s₂, g₂) →
        e₁ = e₂ ∧ c = c' := by
      intro x hx
      induction hx using Relation.ReflTransGen.head_induction_on with
      | refl =>
        intro hx'
        rcases hx'.cases_head with heq | ⟨z, hz, hrest⟩
        · obtain ⟨rfl, rfl⟩ := Prod.mk.inj heq
          obtain ⟨he, hc⟩ := ihb s₁ hb hb' hH hH'
          exact ⟨he, Sum.inr.inj hc⟩
        · have hsuf := (Reaches.suffix hrest).trans (hb'.suffix.trans hH')
          exact absurd (ihb s₁ hb hz hH hsuf).2 (by simp)
      | @head x y hy hrest ihx =>
        intro hx'
        have hsuf := (Reaches.suffix hrest).trans (hb.suffix.trans hH)
        rcases hx'.cases_head with rfl | ⟨z, hz, hrest'⟩
        · exact absurd (ihb s₂ hy hb' hsuf hH').2 (by simp)
        · have hsuf' := (Reaches.suffix hrest').trans (hb'.suffix.trans hH')
          obtain ⟨he, hs⟩ := ihb x.1 hy hz hsuf hsuf'
          obtain rfl : y = z := Prod.ext (Sum.inl.inj hs) he
          exact ihx hrest'
    obtain ⟨rfl, rfl⟩ := hgen _ hreach hreach'
    exact ih c hk hk' hs hs'
/-! ### Evaluating a run -/

/-- Evaluate a program against the environment `env`, spending at most `n` levels
of fuel: the history reached, and the result if it was reached. -/
def exec (env : History E R → (e : E) → R e) :
    ℕ → {α : Type} → Prog E R α → History E R → History E R × Option α
  | 0, _, _, h => (h, none)
  | _ + 1, _, ret a, h => (h, some a)
  | n + 1, _, call e k, h => exec env n (k (env h e)) (⟨e, env h e⟩ :: h)
  | n + 1, _, iter body s k, h =>
      match exec env n (body s) h with
      | (h', none) => (h', none)
      | (h', some (.inl s')) => exec env n (iter body s' k) h'
      | (h', some (.inr b)) => exec env n (k b) h'

theorem Runs.again {body : σ → Prog E R (σ ⊕ β)} {s s' : σ} {k : β → Prog E R α}
    {h h₁ h' : History E R} {o : Option α} (hb : Runs legal (body s) h h₁ (some (.inl s')))
    (hr : Runs legal (iter body s' k) h₁ h' o) : Runs legal (iter body s k) h h' o := by
  obtain ⟨s₁, h₂, hreach, hrest⟩ := hr
  exact ⟨s₁, h₂, Relation.ReflTransGen.head (b := (s', h₁)) hb hreach, hrest⟩

theorem Runs.leave {body : σ → Prog E R (σ ⊕ β)} {s : σ} {b : β} {k : β → Prog E R α}
    {h h₁ h' : History E R} {o : Option α} (hb : Runs legal (body s) h h₁ (some (.inr b)))
    (hr : Runs legal (k b) h₁ h' o) : Runs legal (iter body s k) h h' o :=
  ⟨s, h, .refl, Or.inr ⟨b, h₁, hb, hr⟩⟩

/-- **A finished run of a loop** begins with a round, and goes round again or leaves. -/
theorem runs_loop {body : σ → Prog E R (σ ⊕ β)} {s : σ} {h h' : History E R} {b : β} :
    Runs legal (loop body s) h h' (some b) ↔ ∃ r h₁, Runs legal (body s) h h₁ (some r) ∧
      match r with
      | .inl s' => Runs legal (loop body s') h₁ h' (some b)
      | .inr c => h' = h₁ ∧ b = c := by
  constructor
  · rintro ⟨s₁, h₁, hreach, ⟨-, hno⟩ | ⟨c, h₂, hb, hk⟩⟩
    · exact absurd hno (by simp)
    · rcases Relation.ReflTransGen.cases_head hreach with heq | ⟨⟨s₂, h₃⟩, hfst, hrest⟩
      · obtain ⟨rfl, rfl⟩ := Prod.mk.inj heq
        exact ⟨.inr c, h₂, hb, runs_ret.mp hk⟩
      · exact ⟨.inl s₂, h₃, hfst, s₁, h₁, hrest, Or.inr ⟨c, h₂, hb, hk⟩⟩
  · rintro ⟨_ | _, h₁, hb, hrest⟩
    · exact Runs.again hb hrest
    · exact Runs.leave hb (runs_ret.mpr hrest)

/-- **An evaluation is a run**, when the environment only gives legal answers. -/
theorem exec_runs {env : History E R → (e : E) → R e} (henv : ∀ h e, legal h e (env h e)) :
    ∀ (n : ℕ) {α : Type} (p : Prog E R α) (h : History E R),
      Runs legal p h (exec env n p h).1 (exec env n p h).2 := by
  intro n
  induction n with
  | zero => exact fun p h => Runs.cut p h
  | succ n ih =>
    intro α p h
    cases p with
    | ret a => exact ⟨rfl, Or.inr rfl⟩
    | call e k => exact Or.inr ⟨env h e, henv h e, ih _ _⟩
    | iter body s k =>
      have hb := ih (body s) h
      rw [exec]
      rcases hx : exec env n (body s) h with ⟨h₁, _ | (s' | b)⟩
      · rw [hx] at hb
        exact ⟨s, h, .refl, Or.inl ⟨hb, rfl⟩⟩
      · rw [hx] at hb
        exact Runs.again hb (ih _ _)
      · rw [hx] at hb
        exact Runs.leave hb (ih _ _)

/-- An evaluation that ends is a run to its result. -/
theorem runs_of_exec {env : History E R → (e : E) → R e} (henv : ∀ h e, legal h e (env h e))
    {n : ℕ} {α : Type} {p : Prog E R α} {h : History E R} {a : α}
    (ha : (exec env n p h).2 = some a) : Runs legal p h (exec env n p h).1 (some a) := by
  rw [← ha]
  exact exec_runs henv n p h

/-- Evaluate `n` complete rounds of a loop: the state and the history at the loop head
then. -/
def execRounds (env : History E R → (e : E) → R e) (body : σ → Prog E R (σ ⊕ β)) (fuel : ℕ) :
    ℕ → σ → History E R → Option (σ × History E R)
  | 0, s, h => some (s, h)
  | n + 1, s, h =>
      match exec env fuel (body s) h with
      | (h', some (.inl s')) => execRounds env body fuel n s' h'
      | _ => none

/-- The loop head of an evaluation is reached. -/
theorem execRounds_reaches {env : History E R → (e : E) → R e}
    (henv : ∀ h e, legal h e (env h e)) {body : σ → Prog E R (σ ⊕ β)} {fuel n : ℕ} {s s₁ : σ}
    {h h₁ : History E R} (hx : execRounds env body fuel n s h = some (s₁, h₁)) :
    Reaches legal body s h s₁ h₁ := by
  induction n generalizing s h with
  | zero =>
    obtain ⟨rfl, rfl⟩ := Prod.mk.inj (Option.some.inj hx)
    exact Reaches.start s h
  | succ n ih =>
    rw [execRounds] at hx
    have hb := exec_runs henv fuel (body s) h
    split at hx
    · rename_i h' s' heq
      rw [heq] at hb
      exact Relation.ReflTransGen.head (b := (s', h')) hb (ih hx)
    · cases hx

end Interaction
