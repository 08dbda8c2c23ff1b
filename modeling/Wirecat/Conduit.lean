import Mathlib.Data.List.Infix
import Mathlib.Logic.Function.Basic

/-!
# Conduits

What a pump between byte streams looks like from the streams. A *conduit* reads
chunks from some endpoints and writes them to others, one chunk at a time; which
endpoint receives what another delivers, and whose end closes the whole, is its
*wiring*. This file says nothing of descriptors or buffers: an endpoint is an
element of a type, and a run is the list of the observations the endpoints make.

* `Conduit.step` is the discipline: a chunk may only be taken when the previous one
  has been delivered in full, a delivery may only continue the chunk in hand, an
  endpoint that has ended delivers nothing more, and nothing at all is observed
  once a delivery came up short or a closing endpoint has ended.
* `Conduit.put_append_owed` is what the discipline buys: at every moment, the bytes
  an endpoint has received, followed by those in hand for it, are the bytes read for
  it. Nothing is lost, repeated or reordered.
* `Conduit.complete_iff` says when *everything* gets through. That is not a matter
  of the pump alone: an endpoint whose end closes the conduit may end while its
  peer still has bytes to deliver.

A list of observations is kept newest first.
-/

namespace Conduit

/-- What an endpoint can observe. -/
inductive Obs (ι β : Type)
  /-- The endpoint `o` delivered a chunk. -/
  | got (o : ι) (bs : List β)
  /-- The endpoint `d` accepted some bytes. -/
  | put (d : ι) (bs : List β)
  /-- The endpoint `o` ended, of its own accord or by a failure. -/
  | ended (o : ι) (clean : Bool)
  /-- A delivery came up short. -/
  | short
  deriving DecidableEq

/-- Which endpoint receives what an endpoint delivers, and whether its end closes
the conduit. -/
structure Wiring (ι : Type) where
  peer : ι → ι
  closes : ι → Bool

/-- The state of a conduit: the bytes in hand and whom they are for, which endpoints
are still read, and whether it is over. -/
structure St (ι β : Type) where
  carry : Option (ι × List β)
  live : ι → Bool
  closed : Bool

variable {ι β : Type} [DecidableEq ι]

/-- The bytes in hand for an endpoint. -/
def St.owed (s : St ι β) (d : ι) : List β :=
  match s.carry with
  | some (d', rest) => if d' = d then rest else []
  | none => []

section Step

variable [DecidableEq β]

/-- **The discipline of a conduit.** -/
def step (w : Wiring ι) (s : St ι β) : Obs ι β → Option (St ι β)
  | .got o bs =>
      if s.closed = false ∧ s.live o = true ∧ s.carry = none ∧ bs ≠ [] then
        some { s with carry := some (w.peer o, bs) }
      else none
  | .put d bs =>
      match s.carry with
      | some (d', rest) =>
          if s.closed = false ∧ d = d' ∧ bs <+: rest then
            some { s with
              carry := if bs.length = rest.length then none else some (d', rest.drop bs.length) }
          else none
      | none => none
  | .ended o _ =>
      if s.closed = false ∧ s.live o = true ∧ s.carry = none then
        some { s with live := Function.update s.live o false, closed := w.closes o }
      else none
  | .short =>
      if s.closed = false ∧ s.carry ≠ none then some { s with closed := true } else none

/-- The state after a list of observations. -/
def run (w : Wiring ι) (s₀ : St ι β) : List (Obs ι β) → Option (St ι β)
  | [] => some s₀
  | ob :: t => (run w s₀ t).bind fun s => step w s ob

end Step

/-! ### Counting bytes -/

/-- What the endpoint `o` has delivered. -/
def gotFrom (o : ι) : List (Obs ι β) → List β
  | [] => []
  | .got o' bs :: t => gotFrom o t ++ if o' = o then bs else []
  | _ :: t => gotFrom o t

/-- What the endpoint `d` has accepted. -/
def putTo (d : ι) : List (Obs ι β) → List β
  | [] => []
  | .put d' bs :: t => putTo d t ++ if d' = d then bs else []
  | _ :: t => putTo d t

theorem gotFrom_append (o : ι) (t t' : List (Obs ι β)) :
    gotFrom o (t ++ t') = gotFrom o t' ++ gotFrom o t := by
  induction t with
  | nil => simp [gotFrom]
  | cons ob t ih => cases ob <;> simp [gotFrom, ih]

theorem putTo_append (d : ι) (t t' : List (Obs ι β)) :
    putTo d (t ++ t') = putTo d t' ++ putTo d t := by
  induction t with
  | nil => simp [putTo]
  | cons ob t ih => cases ob <;> simp [putTo, ih]

/-- What has been read for the endpoint `d`. -/
def routedTo (w : Wiring ι) (d : ι) : List (Obs ι β) → List β
  | [] => []
  | .got o bs :: t => routedTo w d t ++ if w.peer o = d then bs else []
  | _ :: t => routedTo w d t

/-- What is read for an endpoint is what its only supplier delivers. -/
theorem routedTo_eq_gotFrom {w : Wiring ι} {o d : ι} (hpeer : ∀ o', w.peer o' = d ↔ o' = o)
    (t : List (Obs ι β)) : routedTo w d t = gotFrom o t := by
  induction t with
  | nil => rfl
  | cons ob t ih => cases ob <;> simp [routedTo, gotFrom, ih, hpeer]

/-! ### What a step does -/

variable [DecidableEq β] {w : Wiring ι} {s s' s₀ : St ι β} {t : List (Obs ι β)} {ob : Obs ι β}

theorem step_got {o : ι} {bs : List β} :
    step w s (.got o bs) = some s' ↔ (s.closed = false ∧ s.live o = true ∧ s.carry = none ∧ bs ≠ []) ∧
      s' = { s with carry := some (w.peer o, bs) } := by
  simp only [step, Option.ite_none_right_eq_some, Option.some.injEq, @eq_comm _ _ s']

theorem step_put {d : ι} {bs : List β} :
    step w s (.put d bs) = some s' ↔ ∃ rest, s.carry = some (d, rest) ∧ s.closed = false ∧
      bs <+: rest ∧ s' = { s with
        carry := if bs.length = rest.length then none else some (d, rest.drop bs.length) } := by
  rw [step]
  cases hc : s.carry with
  | none => simp
  | some p =>
    obtain ⟨d', rest⟩ := p
    simp only [Option.ite_none_right_eq_some, Option.some.injEq, Prod.mk.injEq]
    constructor
    · rintro ⟨⟨ho, rfl, hp⟩, rfl⟩
      exact ⟨rest, ⟨rfl, rfl⟩, ho, hp, rfl⟩
    · rintro ⟨rest', ⟨rfl, rfl⟩, ho, hp, rfl⟩
      exact ⟨⟨ho, rfl, hp⟩, rfl⟩

theorem step_ended {o : ι} {c : Bool} :
    step w s (.ended o c) = some s' ↔ (s.closed = false ∧ s.live o = true ∧ s.carry = none) ∧
      s' = { s with live := Function.update s.live o false, closed := w.closes o } := by
  simp only [step, Option.ite_none_right_eq_some, Option.some.injEq, @eq_comm _ _ s']

theorem step_short :
    step w s .short = some s' ↔ (s.closed = false ∧ s.carry ≠ none) ∧ s' = { s with closed := true } := by
  simp only [step, Option.ite_none_right_eq_some, Option.some.injEq, @eq_comm _ _ s']

/-- Nothing is observed once the conduit is over. -/
theorem not_closed_of_step (hs : step w s ob = some s') : s.closed = false := by
  cases ob with
  | got o bs => exact (step_got.mp hs).1.1
  | put d bs => exact (step_put.mp hs).choose_spec.2.1
  | ended o c => exact (step_ended.mp hs).1.1
  | short => exact (step_short.mp hs).1.1

theorem run_cons : run w s₀ (ob :: t) = some s' ↔ ∃ s, run w s₀ t = some s ∧ step w s ob = some s' := by
  simp [run, Option.bind_eq_some_iff]

/-! ### Fidelity -/

/-- What one step adds to the bytes accepted and in hand is what it adds to the
bytes read. -/
theorem put_append_owed_step {d : ι} (hs : step w s ob = some s')
    (hinv : putTo d t ++ s.owed d = routedTo w d t) :
    putTo d (ob :: t) ++ s'.owed d = routedTo w d (ob :: t) := by
  cases ob with
  | got o bs =>
    obtain ⟨⟨-, -, hc, -⟩, rfl⟩ := step_got.mp hs
    simp only [St.owed, hc, List.append_nil] at hinv
    simp [putTo, routedTo, St.owed, hinv]
  | put d' bs =>
    obtain ⟨rest, hc, -, ⟨rest', rfl⟩, rfl⟩ := step_put.mp hs
    simp only [St.owed, hc] at hinv
    simp only [putTo, routedTo, ← hinv, St.owed]
    by_cases hd : d' = d
    · by_cases hrest : rest' = [] <;> simp [hd, hrest]
    · by_cases hrest : rest' = [] <;> simp [hd, hrest]
  | ended o c =>
    obtain ⟨-, rfl⟩ := step_ended.mp hs
    exact hinv
  | short =>
    obtain ⟨-, rfl⟩ := step_short.mp hs
    exact hinv

/-- **Fidelity**: at every moment the bytes an endpoint has accepted, followed by
those in hand for it, are those read for it. -/
theorem put_append_owed (h₀ : s₀.carry = none) (hr : run w s₀ t = some s) (d : ι) :
    putTo d t ++ s.owed d = routedTo w d t := by
  induction t generalizing s with
  | nil =>
    obtain rfl := Option.some.inj hr
    simp [putTo, routedTo, St.owed, h₀]
  | cons ob t ih =>
    obtain ⟨s₁, hr₁, hs⟩ := run_cons.mp hr
    exact put_append_owed_step hs (ih hr₁)

/-- With nothing in hand, everything read has been accepted. -/
theorem putTo_eq_routedTo (h₀ : s₀.carry = none) (hr : run w s₀ t = some s) (hc : s.carry = none)
    (d : ι) : putTo d t = routedTo w d t := by
  have := put_append_owed h₀ hr d
  simpa [St.owed, hc] using this

/-! ### Ends -/

/-- An endpoint that was live is live until it ends. -/
theorem live_eq_false_iff {o : ι} (h₀ : s₀.live o = true) (hr : run w s₀ t = some s) :
    s.live o = false ↔ ∃ c, .ended o c ∈ t := by
  induction t generalizing s with
  | nil =>
    obtain rfl := Option.some.inj hr
    simp [h₀]
  | cons ob t ih =>
    obtain ⟨s₁, hr₁, hs⟩ := run_cons.mp hr
    cases ob with
    | got o' bs =>
      obtain ⟨-, rfl⟩ := step_got.mp hs
      simpa using ih hr₁
    | put d bs =>
      obtain ⟨_, -, -, -, rfl⟩ := step_put.mp hs
      simpa using ih hr₁
    | short =>
      obtain ⟨-, rfl⟩ := step_short.mp hs
      simpa using ih hr₁
    | ended o' c =>
      obtain ⟨-, rfl⟩ := step_ended.mp hs
      by_cases ho : o = o'
      · subst ho
        simp
      · simp [ho, ih hr₁]

/-- The end of a closing endpoint is the last observation, and leaves nothing in hand. -/
theorem closing_end_is_last {o : ι} {c : Bool} (hcl : w.closes o = true) (hr : run w s₀ t = some s)
    (hmem : .ended o c ∈ t) : (∃ t', t = .ended o c :: t') ∧ s.closed = true ∧ s.carry = none := by
  induction t generalizing s with
  | nil => simp at hmem
  | cons ob t ih =>
    obtain ⟨s₁, hr₁, hs⟩ := run_cons.mp hr
    rcases List.mem_cons.mp hmem with rfl | hmem
    · obtain ⟨⟨-, -, hc⟩, rfl⟩ := step_ended.mp hs
      exact ⟨⟨t, rfl⟩, hcl, hc⟩
    · have hover := (ih hr₁ hmem).2.1
      rw [not_closed_of_step hs] at hover
      exact absurd hover (by simp)

/-- A conduit with nothing in hand is over because a closing endpoint ended. -/
theorem closed_iff (h₀ : s₀.closed = false) (hr : run w s₀ t = some s) (hc : s.carry = none) :
    s.closed = true ↔ ∃ o c t', t = .ended o c :: t' ∧ w.closes o = true := by
  cases t with
  | nil =>
    obtain rfl := Option.some.inj hr
    simp [h₀]
  | cons ob t =>
    obtain ⟨s₁, hr₁, hs⟩ := run_cons.mp hr
    have hover := not_closed_of_step hs
    cases ob with
    | got o bs =>
      obtain ⟨-, rfl⟩ := step_got.mp hs
      simp at hc
    | put d bs =>
      obtain ⟨_, -, -, -, rfl⟩ := step_put.mp hs
      simp [hover]
    | short =>
      obtain ⟨⟨-, hc'⟩, rfl⟩ := step_short.mp hs
      exact absurd hc hc'
    | ended o c =>
      obtain ⟨-, rfl⟩ := step_ended.mp hs
      simp

/-! ### Completeness -/

/-- The endpoints deliver the contents `c`: each its own, in order, and it ends only
after the last byte. -/
def Supplied (c : ι → List β) : List (Obs ι β) → Prop
  | [] => True
  | .got o bs :: t => Supplied c t ∧ gotFrom o t ++ bs <+: c o
  | .ended o _ :: t => Supplied c t ∧ gotFrom o t = c o
  | _ :: t => Supplied c t

/-- Whenever an endpoint whose end closes the conduit has ended, its peer had
already delivered everything. -/
def DrainedAtClose (w : Wiring ι) (c : ι → List β) : List (Obs ι β) → Prop
  | [] => True
  | .ended o _ :: t => DrainedAtClose w c t ∧ (w.closes o = true → gotFrom (w.peer o) t = c (w.peer o))
  | _ :: t => DrainedAtClose w c t

omit [DecidableEq β] in
theorem Supplied.tail {c : ι → List β} (h : Supplied c (ob :: t)) : Supplied c t := by
  cases ob <;> first | exact h.1 | exact h

/-- An endpoint that has ended has delivered everything. -/
theorem gotFrom_of_ended {c : ι → List β} {o : ι} {cl : Bool} (hr : run w s₀ t = some s)
    (hsup : Supplied c t) (hmem : .ended o cl ∈ t) : s.live o = false ∧ gotFrom o t = c o := by
  induction t generalizing s with
  | nil => simp at hmem
  | cons ob t ih =>
    obtain ⟨s₁, hr₁, hs⟩ := run_cons.mp hr
    rcases List.mem_cons.mp hmem with rfl | hmem
    · obtain ⟨-, rfl⟩ := step_ended.mp hs
      exact ⟨by simp, hsup.2⟩
    · obtain ⟨hlive, hgot⟩ := ih hr₁ hsup.tail hmem
      cases ob with
      | got o' bs =>
        obtain ⟨⟨-, hl, -⟩, rfl⟩ := step_got.mp hs
        have hne : o' ≠ o := by
          rintro rfl
          rw [hlive] at hl
          exact absurd hl (by simp)
        exact ⟨hlive, by simp [gotFrom, hne, hgot]⟩
      | put d bs =>
        obtain ⟨_, -, -, -, rfl⟩ := step_put.mp hs
        exact ⟨hlive, hgot⟩
      | short =>
        obtain ⟨-, rfl⟩ := step_short.mp hs
        exact ⟨hlive, hgot⟩
      | ended o' c' =>
        obtain ⟨-, rfl⟩ := step_ended.mp hs
        refine ⟨?_, hgot⟩
        by_cases ho : o = o'
        · simp [ho]
        · simpa [Function.update_of_ne ho] using hlive

/-- Before the conduit is over no closing endpoint has ended. -/
theorem drained_of_not_closed {c : ι → List β} (hr : run w s₀ t = some s) (hover : s.closed = false) :
    DrainedAtClose w c t := by
  induction t generalizing s with
  | nil => trivial
  | cons ob t ih =>
    obtain ⟨s₁, hr₁, hs⟩ := run_cons.mp hr
    have htail := ih hr₁ (not_closed_of_step hs)
    cases ob with
    | ended o c' =>
      obtain ⟨-, rfl⟩ := step_ended.mp hs
      exact ⟨htail, fun hcl => absurd hcl (by simpa using hover)⟩
    | got o bs => exact htail
    | put d bs => exact htail
    | short => exact htail

/-- An endpoint that is live was live from the start. -/
theorem live_mono {o : ι} (hr : run w s₀ t = some s) (hl : s.live o = true) : s₀.live o = true := by
  induction t generalizing s with
  | nil =>
    obtain rfl := Option.some.inj hr
    exact hl
  | cons ob t ih =>
    obtain ⟨s₁, hr₁, hs⟩ := run_cons.mp hr
    refine ih hr₁ ?_
    cases ob with
    | got o' bs =>
      obtain ⟨-, rfl⟩ := step_got.mp hs
      exact hl
    | put d bs =>
      obtain ⟨_, -, -, -, rfl⟩ := step_put.mp hs
      exact hl
    | short =>
      obtain ⟨-, rfl⟩ := step_short.mp hs
      exact hl
    | ended o' c =>
      obtain ⟨-, rfl⟩ := step_ended.mp hs
      by_cases ho : o = o'
      · simp [ho] at hl
      · simpa [Function.update_of_ne ho] using hl

/-- A list of observations in two parts. -/
theorem run_append (t t' : List (Obs ι β)) :
    run w s₀ (t ++ t') = (run w s₀ t').bind fun s => run w s t := by
  induction t with
  | nil => simp [run]
  | cons ob t ih => simp [run, ih, Option.bind_assoc]

/-- **An endpoint that is not live** delivers nothing, and does not end. -/
theorem silent_of_dead {o : ι} (hdead : s₀.live o = false) (hr : run w s₀ t = some s) :
    gotFrom o t = [] ∧ ∀ c, .ended o c ∉ t := by
  induction t generalizing s with
  | nil => exact ⟨rfl, fun _ => List.not_mem_nil⟩
  | cons ob t ih =>
    obtain ⟨s₁, hr₁, hs⟩ := run_cons.mp hr
    obtain ⟨hgot, hended⟩ := ih hr₁
    -- it is still not live when the next thing is observed
    have hdead₁ : ∀ o', s₁.live o' = true → o' ≠ o := by
      rintro o' hl rfl
      rw [live_mono hr₁ hl] at hdead
      exact absurd hdead (by simp)
    cases ob with
    | got o' bs =>
      have hne := hdead₁ o' (step_got.mp hs).1.2.1
      refine ⟨by rw [gotFrom, hgot, if_neg hne, List.nil_append], fun c hmem => ?_⟩
      exact hended c (by simpa using hmem)
    | ended o' c' =>
      have hne := hdead₁ o' (step_ended.mp hs).1.2.1
      refine ⟨hgot, fun c hmem => ?_⟩
      rcases List.mem_cons.mp hmem with heq | hmem
      · exact hne (Obs.ended.inj heq).1.symm
      · exact hended c hmem
    | put d bs => exact ⟨hgot, fun c hmem => hended c (by simpa using hmem)⟩
    | short => exact ⟨hgot, fun c hmem => hended c (by simpa using hmem)⟩

/-- **After the end of an endpoint** the one that it supplies accepts nothing: it had everything
when the endpoint ended. -/
theorem ended_spec {o d : ι} {c : Bool} {t' : List (Obs ι β)} (h₀ : s₀.carry = none)
    (hpeer : ∀ o', w.peer o' = d ↔ o' = o) (hr : run w s₀ (t ++ .ended o c :: t') = some s) :
    putTo d (.ended o c :: t') = gotFrom o (.ended o c :: t') ∧ gotFrom o t = [] ∧ putTo d t = [] ∧
      ∀ c', .ended o c' ∉ t := by
  rw [run_append] at hr
  obtain ⟨s₁, hr₁, hr₂⟩ := Option.bind_eq_some_iff.mp hr
  obtain ⟨s₂, -, hs⟩ := run_cons.mp hr₁
  obtain ⟨⟨-, -, hidle⟩, rfl⟩ := step_ended.mp hs
  have hall := putTo_eq_routedTo h₀ hr₁ hidle d
  rw [routedTo_eq_gotFrom hpeer] at hall
  obtain ⟨hgot, hended⟩ := silent_of_dead (o := o) (by simp) hr₂
  have hput := put_append_owed (by exact hidle) hr₂ d
  rw [routedTo_eq_gotFrom hpeer, hgot] at hput
  exact ⟨hall, hgot, (List.append_eq_nil_iff.mp hput).1, hended⟩

/-- A closing endpoint has just ended: everything has been delivered when its peer
had delivered everything. -/
theorem complete_of_closed {c : ι → List β} {o p : ι} {cl : Bool} (hpeer : w.peer o = p)
    (hcl : w.closes o = true) (hr : run w s₀ (.ended o cl :: t) = some s)
    (hsup : Supplied c (.ended o cl :: t)) :
    (gotFrom o (.ended o cl :: t) = c o ∧ gotFrom p (.ended o cl :: t) = c p) ↔
      DrainedAtClose w c (.ended o cl :: t) := by
  obtain ⟨s₁, hr₁, hs⟩ := run_cons.mp hr
  have hdrained : DrainedAtClose w c t := drained_of_not_closed hr₁ (not_closed_of_step hs)
  simp only [gotFrom, DrainedAtClose, hpeer, hsup.2, hdrained, hcl, true_and, forall_const]

/-- **When everything gets through.** Two endpoints are each other's peer, and the
conduit has come to its end with nothing in hand: because a closing endpoint ended,
or because both did. Then each has accepted all the other had to deliver exactly
when no closing endpoint ended before its peer had delivered everything. -/
theorem complete_iff {c : ι → List β} {a b : ι} (ha : ∀ o, w.peer o = b ↔ o = a)
    (hb : ∀ o, w.peer o = a ↔ o = b) (h₀ : s₀.carry = none) (hover₀ : s₀.closed = false)
    (hlive : ∀ o, s₀.live o = true ↔ o = a ∨ o = b) (hr : run w s₀ t = some s)
    (hc : s.carry = none) (hend : s.closed = true ∨ (s.live a = false ∧ s.live b = false))
    (hsup : Supplied c t) :
    (putTo b t = c a ∧ putTo a t = c b) ↔ DrainedAtClose w c t := by
  rw [putTo_eq_routedTo h₀ hr hc, putTo_eq_routedTo h₀ hr hc, routedTo_eq_gotFrom ha,
    routedTo_eq_gotFrom hb]
  rcases Bool.eq_false_or_eq_true s.closed with hover | hover
  · -- a closing endpoint ended, and that is the last observation
    obtain ⟨o, cl, t', rfl, hcl⟩ := (closed_iff hover₀ hr hc).mp hover
    obtain ⟨s₁, hr₁, hs⟩ := run_cons.mp hr
    rcases (hlive o).mp (live_mono hr₁ (step_ended.mp hs).1.2.1) with rfl | rfl
    · exact complete_of_closed ((ha o).mpr rfl) hcl hr hsup
    · rw [and_comm]
      exact complete_of_closed ((hb o).mpr rfl) hcl hr hsup
  · -- nothing closed, so both have ended
    obtain ⟨hla, hlb⟩ := hend.resolve_left (by simp [hover])
    have hended : ∀ o, o = a ∨ o = b → s.live o = false → gotFrom o t = c o := by
      intro o ho hl
      obtain ⟨cl, hmem⟩ := (live_eq_false_iff ((hlive o).mpr ho) hr).mp hl
      exact (gotFrom_of_ended hr hsup hmem).2
    exact iff_of_true ⟨hended a (Or.inl rfl) hla, hended b (Or.inr rfl) hlb⟩
      (drained_of_not_closed hr hover)

end Conduit
