import Wirecat.Interaction.Logic

/-!
# Programs that take notes

What a program does is visible in its history; which of its own functions it calls is not. Where a
statement is about a call, the program can be written so that it makes a *note* there: an event
that nobody answers.

Notes change nothing. `Interaction.Prog.erase` takes them out of a program, and the runs of what is
left are exactly the runs of the program with the notes taken out of their histories
(`Interaction.runs_erase` and `Interaction.exists_noted`). So a statement about the noted
program is one about the program it was written after, once the two have been seen to be equal up to
notes. A part that takes no notes is used as it is (`Interaction.Prog.plain`), and its runs are runs
of that part (`Interaction.Always.plain`).
-/

namespace Interaction

open Prog

variable {E G : Type} {R : E → Type} {α β σ : Type}

/-- The answers of a program that takes notes: a note has none. -/
def NotedResp (G : Type) (R : E → Type) : E ⊕ G → Type
  | .inl e => R e
  | .inr _ => Unit

/-- Make a note. -/
def note (n : G) : Prog (E ⊕ G) (NotedResp G R) Unit :=
  request (E := E ⊕ G) (R := NotedResp G R) (Sum.inr n)

namespace Prog

variable (G) in
/-- A program that takes no notes, among those that do. -/
def plain : {α : Type} → Prog E R α → Prog (E ⊕ G) (NotedResp G R) α
  | _, ret a => ret a
  | _, call e k => call (.inl e) fun r => plain (k r)
  | _, iter body s k => iter (fun s => plain (body s)) s fun b => plain (k b)

/-- A program without its notes. -/
def erase : {α : Type} → Prog (E ⊕ G) (NotedResp G R) α → Prog E R α
  | _, ret a => ret a
  | _, call (.inl e) k => call e fun r => erase (k r)
  | _, call (.inr _) k => erase (k ())
  | _, iter body s k => iter (fun s => erase (body s)) s fun b => erase (k b)

@[simp] theorem erase_pure (a : α) :
    erase (pure a : Prog (E ⊕ G) (NotedResp G R) α) = pure a := rfl

@[simp] theorem erase_plain (p : Prog E R α) : erase (plain G p) = p := by
  induction p with
  | ret a => rfl
  | call e k ih => exact congrArg (call e) (funext ih)
  | iter body s k ihb ih => exact congr (congrArg (iter · s) (funext ihb)) (funext ih)

@[simp] theorem erase_bind (p : Prog (E ⊕ G) (NotedResp G R) α)
    (f : α → Prog (E ⊕ G) (NotedResp G R) β) :
    erase (p >>= f) = erase p >>= fun a => erase (f a) := by
  rw [bind_def, bind_def]
  induction p with
  | ret a => rfl
  | call e k ih =>
    cases e with
    | inl e => exact congrArg (call e) (funext fun r => ih r f)
    | inr n => exact ih () f
  | iter body s k _ ih =>
    exact congrArg (iter (fun s => erase (body s)) s) (funext fun b => ih b f)

@[simp] theorem erase_note (n : G) (f : Unit → Prog (E ⊕ G) (NotedResp G R) α) :
    erase (note n >>= f) = erase (f ()) := rfl

@[simp] theorem erase_loop (body : σ → Prog (E ⊕ G) (NotedResp G R) (σ ⊕ β)) (s : σ) :
    erase (loop body s) = loop (fun s => erase (body s)) s := rfl

@[simp] theorem erase_ite {c : Prop} [Decidable c] (p p' : Prog (E ⊕ G) (NotedResp G R) α) :
    erase (if c then p else p') = if c then erase p else erase p' := apply_ite erase c p p'

end Prog

/-! ### Histories with notes -/

/-- An event that is not a note. -/
def unnoted : Event (E ⊕ G) (NotedResp G R) → Option (Event E R)
  | ⟨.inl e, r⟩ => some ⟨e, r⟩
  | ⟨.inr _, _⟩ => none

/-- A history without its notes. -/
def eraseNotes (H : History (E ⊕ G) (NotedResp G R)) : History E R := H.filterMap unnoted

variable (G) in
/-- A history in which no notes were taken. -/
def plainHist (h : History E R) : History (E ⊕ G) (NotedResp G R) :=
  h.map fun ev => ⟨.inl ev.1, ev.2⟩

theorem eraseNotes_append (H H' : History (E ⊕ G) (NotedResp G R)) :
    eraseNotes (H ++ H') = eraseNotes H ++ eraseNotes H' := List.filterMap_append

theorem eraseNotes_plainHist (h : History E R) : eraseNotes (plainHist G h) = h := by
  induction h with
  | nil => rfl
  | cons ev h ih => exact congrArg (ev :: ·) ih

/-- Which answers are legal: a note may always be taken, and is of no consequence. -/
def Noting (legal : History E R → (e : E) → R e → Prop)
    (H : History (E ⊕ G) (NotedResp G R)) : (e : E ⊕ G) → NotedResp G R e → Prop
  | .inl e, r => legal (eraseNotes H) e r
  | .inr _, _ => True

variable {legal : History E R → (e : E) → R e → Prop}

/-- **A run with notes is a run without them.** -/
theorem runs_erase {p : Prog (E ⊕ G) (NotedResp G R) α} {H H' : History (E ⊕ G) (NotedResp G R)}
    {o : Option α} (hr : Runs (Noting legal) p H H' o) :
    Runs legal (erase p) (eraseNotes H) (eraseNotes H') o := by
  induction p generalizing H H' with
  | ret a => exact ⟨congrArg eraseNotes hr.1, hr.2⟩
  | call e k ih =>
    cases e with
    | inl e =>
      rcases hr with ⟨rfl, rfl⟩ | ⟨r, hl, hr⟩
      · exact Or.inl ⟨rfl, rfl⟩
      · exact Or.inr ⟨r, hl, ih r hr⟩
    | inr n =>
      rcases hr with ⟨rfl, rfl⟩ | ⟨r, -, hr⟩
      · exact Runs.cut _ _
      · exact ih r (H := ⟨.inr n, r⟩ :: H) hr
  | iter body s k ihb ih =>
    obtain ⟨s₁, H₁, hreach, hrest⟩ := hr
    refine ⟨s₁, eraseNotes H₁, ?_, ?_⟩
    · have hround : ∀ x y : _ × History (E ⊕ G) (NotedResp G R),
          Runs (Noting legal) (body x.1) x.2 y.2 (some (Sum.inl y.1)) →
            Runs legal (erase (body x.1)) (eraseNotes x.2) (eraseNotes y.2) (some (Sum.inl y.1)) :=
        fun x _ hb => ihb x.1 hb
      exact Relation.ReflTransGen.lift (p := fun x y : _ × History E R =>
        Runs legal (erase (body x.1)) x.2 y.2 (some (Sum.inl y.1)))
        (fun x : _ × History (E ⊕ G) (NotedResp G R) => (x.1, eraseNotes x.2)) hround _ _ hreach
    · rcases hrest with ⟨hb, rfl⟩ | ⟨b, H₂, hb, hk⟩
      · exact Or.inl ⟨ihb s₁ hb, rfl⟩
      · exact Or.inr ⟨b, eraseNotes H₂, ihb s₁ hb, ih b hk⟩

/-- **A run without notes is one with notes**, taken out. -/
theorem exists_noted {p : Prog (E ⊕ G) (NotedResp G R) α} {H : History (E ⊕ G) (NotedResp G R)}
    {h' : History E R} {o : Option α} (hr : Runs legal (erase p) (eraseNotes H) h' o) :
    ∃ H', eraseNotes H' = h' ∧ Runs (Noting legal) p H H' o := by
  induction p generalizing H h' with
  | ret a => exact ⟨H, hr.1.symm, rfl, hr.2⟩
  | call e k ih =>
    cases e with
    | inl e =>
      rcases hr with ⟨rfl, rfl⟩ | ⟨r, hl, hr⟩
      · exact ⟨H, rfl, Or.inl ⟨rfl, rfl⟩⟩
      · obtain ⟨H', hH, hr'⟩ := ih r (H := ⟨.inl e, r⟩ :: H) hr
        exact ⟨H', hH, Or.inr ⟨r, hl, hr'⟩⟩
    | inr n =>
      obtain ⟨H', hH, hr'⟩ := ih () (H := ⟨.inr n, ()⟩ :: H) hr
      exact ⟨H', hH, Or.inr ⟨(), trivial, hr'⟩⟩
  | iter body s k ihb ih =>
    obtain ⟨s₁, h₁, hreach, hrest⟩ := hr
    -- the rounds one by one, each from where the one before it ended
    have hrounds : ∃ H₁, eraseNotes H₁ = h₁ ∧ Relation.ReflTransGen
        (fun x y : _ × History (E ⊕ G) (NotedResp G R) =>
          Runs (Noting legal) (body x.1) x.2 y.2 (some (.inl y.1))) (s, H) (s₁, H₁) := by
      clear hrest
      generalize hx : (s, eraseNotes H) = x at hreach
      generalize hy : (s₁, h₁) = y at hreach
      induction hreach generalizing s₁ h₁ with
      | refl =>
        obtain ⟨rfl, rfl⟩ := Prod.mk.inj (hx.trans hy.symm)
        exact ⟨H, rfl, .refl⟩
      | tail hreach hb ihr =>
        rename_i y z
        obtain ⟨s₂, h₂⟩ := y
        obtain ⟨H₂, rfl, hH₂⟩ := ihr s₂ h₂ rfl
        subst hy
        obtain ⟨H₁, hH₁, hb'⟩ := ihb s₂ hb
        exact ⟨H₁, hH₁, hH₂.tail hb'⟩
    obtain ⟨H₁, rfl, hreach'⟩ := hrounds
    rcases hrest with ⟨hb, rfl⟩ | ⟨b, h₂, hb, hk⟩
    · obtain ⟨H', hH', hb'⟩ := ihb s₁ hb
      exact ⟨H', hH', s₁, H₁, hreach', Or.inl ⟨hb', rfl⟩⟩
    · obtain ⟨H₂, rfl, hb'⟩ := ihb s₁ hb
      obtain ⟨H', hH', hk'⟩ := ih b hk
      exact ⟨H', hH', s₁, H₁, hreach', Or.inr ⟨b, H₂, hb', hk'⟩⟩

/-! ### Parts without notes -/

/-- What happens in a part that takes no notes. -/
theorem runs_plain {p : Prog E R α} {H H' : History (E ⊕ G) (NotedResp G R)} {o : Option α}
    (hr : Runs (Noting legal) (plain G p) H H' o) :
    ∃ ext, H' = plainHist G ext ++ H ∧ Runs legal p (eraseNotes H) (ext ++ eraseNotes H) o := by
  have hwithin : ∀ {α : Type} (p : Prog E R α),
      Within (fun e => ∃ e', e = Sum.inl e') (plain G p) fun _ => True := by
    intro α p
    induction p with
    | ret a => trivial
    | call e k ih => exact ⟨⟨e, rfl⟩, ih⟩
    | iter body s k ihb ih =>
      refine ⟨fun _ => True, trivial, fun s _ => (ihb s).post_mono ?_⟩
      rintro (s' | b) -
      · trivial
      · exact ih b
  obtain ⟨new, rfl, hnew⟩ := (hwithin p).events hr
  obtain ⟨ext, rfl⟩ : ∃ ext, new = plainHist G ext := by
    clear hr
    induction new with
    | nil => exact ⟨[], rfl⟩
    | cons ev new ih =>
      obtain ⟨ext, rfl⟩ := ih fun ev hev => hnew ev (List.mem_cons_of_mem _ hev)
      obtain ⟨e | n, r⟩ := ev
      · exact ⟨⟨e, r⟩ :: ext, rfl⟩
      · obtain ⟨e', he⟩ := hnew _ List.mem_cons_self
        exact absurd he (by simp)
  have hrun := runs_erase hr
  rw [erase_plain, eraseNotes_append, eraseNotes_plainHist] at hrun
  exact ⟨ext, rfl, hrun⟩

/-- **A part that takes no notes**, for a property of histories with notes that it preserves. -/
theorem Always.plain {S : History (E ⊕ G) (NotedResp G R) → Prop} {p : Prog E R α}
    {H : History (E ⊕ G) (NotedResp G R)} (hS : ∀ ext, S (plainHist G ext ++ H)) :
    Always (Noting legal) S (Prog.plain G p)
      (fun a H' => ∃ ext, H' = plainHist G ext ++ H ∧
        Runs legal p (eraseNotes H) (ext ++ eraseNotes H) (some a)) H := by
  intro H' o hr
  obtain ⟨ext, rfl, hrun⟩ := runs_plain hr
  exact ⟨hS ext, fun a ha => ⟨ext, rfl, ha ▸ hrun⟩⟩

end Interaction
