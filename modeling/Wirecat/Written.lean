import Wirecat.Footprint

/-!
# What is written to a descriptor

A history says what was written to each descriptor (`Wirecat.writtenTo`), and whether a write
was refused (`Wirecat.Refused`): that is what makes `wcat_full_write` return before everything
is written, and so it is what the callers see as a failure.

Where no write is refused, what a part of the program writes to a descriptor is determined by
the part. `Wirecat.Conveys` says so, with one rule for each way a program is put together; the
text is passed along with the result.
-/

namespace Wirecat

open CString Interaction

/-! ### Refused writes -/

/-- The event is one of the run from `h` to `h'`. -/
def Happens (h h' : Hist) (ev : Ev) : Prop := ∃ g, h <:+ g ∧ ev :: g <:+ h'

theorem Happens.mono {h₀ h h' h₁ : Hist} {ev : Ev} (hev : Happens h h' ev) (hs : h₀ <:+ h)
    (hs' : h' <:+ h₁) : Happens h₀ h₁ ev := by
  obtain ⟨g, hg, hg'⟩ := hev
  exact ⟨g, hs.trans hg, hg'.trans hs'⟩

/-- The events of a run are those that were added. -/
theorem happens_append {h new : Hist} {ev : Ev} : Happens h (new ++ h) ev ↔ ev ∈ new := by
  constructor
  · rintro ⟨g, ⟨pre, rfl⟩, later, hg⟩
    rw [← List.cons_append, ← List.append_assoc] at hg
    rw [← List.append_cancel_right hg]
    simp
  · intro hev
    obtain ⟨pre, post, rfl⟩ := List.append_of_mem hev
    exact ⟨post ++ h, List.suffix_append _ _, pre, by simp⟩

/-- The only event of a single request. -/
theorem happens_cons {h : Hist} {ev ev' : Ev} : Happens h (ev' :: h) ev ↔ ev = ev' := by
  have happ := @happens_append h [ev'] ev
  rwa [List.mem_singleton] at happ

/-- An event of two runs in a row is one of the first, or one of the second. -/
theorem Happens.split {h h₁ h' : Hist} {ev : Ev} (hev : Happens h h' ev) (hs : h <:+ h₁)
    (hs' : h₁ <:+ h') : Happens h h₁ ev ∨ Happens h₁ h' ev := by
  obtain ⟨new, rfl⟩ := hs
  obtain ⟨new', rfl⟩ := hs'
  rw [happens_append, happens_append]
  rw [← List.append_assoc, happens_append, List.mem_append] at hev
  exact hev.symm

/-- A write to `fd` that ends `wcat_full_write` before everything is written. -/
def refuses (fd : Fd) : Ev → Bool
  | ⟨.write _ fd' _, .wrote 0 _⟩ => fd' = fd
  | ⟨.write _ fd' _, .error e⟩ => fd' = fd && e ≠ .eintr
  | _ => false

/-- A write to `fd` was refused in the run from `h` to `h'`. -/
def Refused (fd : Fd) (h h' : Hist) : Prop := ∃ ev, Happens h h' ev ∧ refuses fd ev = true

theorem Refused.mono {fd : Fd} {h₀ h h' h₁ : Hist} (hr : Refused fd h h') (hs : h₀ <:+ h)
    (hs' : h' <:+ h₁) : Refused fd h₀ h₁ := by
  obtain ⟨ev, hev, href⟩ := hr
  exact ⟨ev, hev.mono hs hs', href⟩

/-- A history in which no write is refused. -/
theorem not_refused_of_any {fd : Fd} {h h' : Hist} (hno : h'.any (refuses fd) = false) :
    ¬Refused fd h h' := by
  rintro ⟨ev, ⟨g, -, hg⟩, href⟩
  rw [List.any_eq_false] at hno
  exact hno ev (hg.subset List.mem_cons_self) href

variable {legal : Hist → (e : Sys) → Resp e → Prop} {h h' : Hist}

/-- The events of a finished run are in the footprint. -/
theorem happens_within {α : Type} {F : Sys → Prop} {p : Proc α} {Q : α → Prop} {o : Option α} {ev : Ev}
    (hp : Within F p Q) (hr : Runs legal p h h' o) (hev : Happens h h' ev) : F ev.1 := by
  obtain ⟨new, rfl, hnew⟩ := hp.events hr
  exact hnew ev (happens_append.mp hev)

/-- A write that is not complete was refused. -/
theorem wcatFullWrite_refused {via : Via} {fd : Fd} {buf : Bytes} {n : Option ℕ}
    (hr : Runs legal (wcatFullWrite via fd buf) h h' (some n)) (hn : n ≠ some buf.length) :
    Refused fd h h' := by
  have hloop : Always legal (fun _ => True) (wcatFullWrite via fd buf)
      (fun n h' => n = some buf.length ∨ Refused fd h h') h := by
    refine Always.loop (fun off h₁ => off ≤ buf.length ∧ h <:+ h₁)
      ⟨Nat.zero_le _, List.suffix_refl h⟩ ?_
    rintro off h₁ ⟨hoff, hsuf⟩
    refine Always.ite (fun hlt => ?_) fun hge => ?_
    · refine Always.ask trivial fun r _ => ?_
      have hnew : h <:+ (⟨.write via fd (buf.drop off), r⟩ :: h₁ : Hist) :=
        hsuf.trans (List.suffix_cons _ _)
      rcases r with ⟨_ | n, hle⟩ | err
      · exact always_pure.mpr ⟨trivial, .inr ⟨_, ⟨h₁, hsuf, List.suffix_refl _⟩, by simp [refuses]⟩⟩
      · rw [List.length_drop] at hle
        exact always_pure.mpr ⟨trivial, by omega, hnew⟩
      · have hfail : ∀ e ≠ Errno.eintr,
            Refused fd h (⟨.write via fd (buf.drop off), .error e⟩ :: h₁) := fun e he =>
          ⟨_, ⟨h₁, hsuf, List.suffix_refl _⟩, by simp [refuses, he]⟩
        cases err
        case eintr => exact (always_pure (a := Sum.inl off)).mpr ⟨trivial, hoff, hnew⟩
        all_goals
          refine (always_pure (a := Sum.inr none) (Q := roundPost _ _)).mpr ⟨trivial, .inr ?_⟩
          exact hfail _ (by simp)
    · exact always_pure.mpr ⟨trivial, .inl (congrArg some (by omega))⟩
  exact (hloop.post hr).resolve_left hn

/-! ### What was written -/

/-- The bytes that were written to a descriptor, oldest first. -/
def writtenTo (fd : Fd) : Hist → Bytes
  | [] => []
  | ⟨.write _ fd' buf, .wrote n _⟩ :: h =>
      writtenTo fd h ++ if fd' = fd then buf.take n else []
  | _ :: h => writtenTo fd h

section
variable {α β ι : Type} {fd : Fd}

theorem writtenTo_other {e : Sys} {r : Resp e} (he : ∀ via buf, e ≠ .write via fd buf) :
    writtenTo fd (⟨e, r⟩ :: h) = writtenTo fd h := by
  cases e with
  | write via fd' buf =>
    cases r with
    | wrote n hn =>
      rw [writtenTo, if_neg (fun heq => he via buf (by rw [heq])), List.append_nil]
    | error err => rfl
  | _ => rfl

variable (legal fd) in
/-- **What a part writes**: in every finished run in which no write to `fd` is refused, the result
and the text that is written satisfy `Q`. -/
def Conveys (p : Proc α) (Q : α → Bytes → Prop) : Prop :=
  ∀ h h' a, Runs legal p h h' (some a) → ¬Refused fd h h' →
    ∃ text, writtenTo fd h' = writtenTo fd h ++ text ∧ Q a text

theorem Conveys.pure {a : α} {Q : α → Bytes → Prop} (ha : Q a []) :
    Conveys legal fd (Pure.pure a) Q := by
  intro h h' b hr _
  obtain ⟨rfl, rfl⟩ := runs_pure.mp hr
  exact ⟨[], (List.append_nil _).symm, ha⟩

theorem Conveys.bind {p : Proc α} {f : α → Proc β} {Q : α → Bytes → Prop} {Q' : β → Bytes → Prop}
    (hp : Conveys legal fd p Q)
    (hf : ∀ a text, Q a text → Conveys legal fd (f a) fun b more => Q' b (text ++ more)) :
    Conveys legal fd (p >>= f) Q' := by
  intro h h' b hr hno
  obtain ⟨a, h₁, hfst, hsnd⟩ := runs_bind_some'.mp hr
  obtain ⟨text, htext, ha⟩ := hp h h₁ a hfst
    fun href => hno (href.mono (List.suffix_refl h) hsnd.suffix)
  obtain ⟨more, hmore, hb⟩ := hf a text ha h₁ h' b hsnd
    fun href => hno (href.mono hfst.suffix (List.suffix_refl h'))
  exact ⟨text ++ more, by rw [hmore, htext, List.append_assoc], hb⟩

theorem Conveys.mono {p : Proc α} {Q Q' : α → Bytes → Prop} (hp : Conveys legal fd p Q)
    (hQ : ∀ a text, Q a text → Q' a text) : Conveys legal fd p Q' := by
  intro h h' a hr hno
  obtain ⟨text, htext, ha⟩ := hp h h' a hr hno
  exact ⟨text, htext, hQ a text ha⟩

theorem Conveys.ite {c : Prop} [Decidable c] {p p' : Proc α} {Q : α → Bytes → Prop}
    (hp : c → Conveys legal fd p Q) (hp' : ¬c → Conveys legal fd p' Q) :
    Conveys legal fd (if c then p else p') Q := by
  split_ifs with hc
  · exact hp hc
  · exact hp' hc

/-- **The loop over a list**, with an invariant of the elements still to come and of what was
written before them. -/
theorem Conveys.forEach {f : ι → α → Proc α} (I : List ι → α → Bytes → Prop)
    (hf : ∀ x xs a text, I (x :: xs) a text →
      Conveys legal fd (f x a) fun b more => I xs b (text ++ more))
    {xs : List ι} {a : α} (h0 : I xs a []) : Conveys legal fd (Prog.forEach xs f a) (I []) := by
  suffices hgen : ∀ text, I xs a text →
      Conveys legal fd (Prog.forEach xs f a) fun b more => I [] b (text ++ more) from hgen [] h0
  clear h0
  induction xs generalizing a with
  | nil => exact fun text h0 => Conveys.pure (by rwa [List.append_nil])
  | cons x xs ih =>
    intro text h0
    refine Conveys.bind (hf x xs a text h0) fun b more hb => ?_
    exact (ih _ hb).mono fun _ _ hc => by rwa [List.append_assoc] at hc

/-- A part that writes nothing to `fd`. -/
theorem Within.conveys {p : Proc α} {Q : α → Prop}
    (hp : Within (fun e => ∀ via buf, e ≠ .write via fd buf) p Q) :
    Conveys legal fd p fun a text => Q a ∧ text = [] := by
  intro h h' a hr _
  have hall := @Within.always _ _ _ legal (fun g => writtenTo fd g = writtenTo fd h) h _ _ _ hp rfl
    fun g e r hg he _ => (writtenTo_other he).trans hg
  obtain ⟨hw, ha⟩ := hall.post hr
  exact ⟨[], by rw [hw, List.append_nil], ha, rfl⟩

/-- A whole write writes the text. -/
theorem conveys_wcatFullWrite (via : Via) (buf : Bytes) :
    Conveys legal fd (wcatFullWrite via fd buf) fun n text => n = some buf.length ∧ text = buf := by
  intro h h' n hr hno
  have hn : n = some buf.length := by
    by_contra hne
    exact hno (wcatFullWrite_refused hr hne)
  have hloop : Always legal (fun _ => True) (wcatFullWrite via fd buf)
      (fun n h' => n = some buf.length → writtenTo fd h' = writtenTo fd h ++ buf) h := by
    refine Always.loop (fun off h₁ => off ≤ buf.length ∧
      writtenTo fd h₁ = writtenTo fd h ++ buf.take off) ⟨Nat.zero_le _, by simp⟩ ?_
    rintro off h₁ ⟨hoff, hw⟩
    refine Always.ite (fun hlt => Always.ask trivial fun r _ => ?_) fun hge => ?_
    · rcases r with ⟨_ | n, hle⟩ | err
      · exact always_pure.mpr ⟨trivial, fun heq => absurd (Option.some.inj heq) hlt.ne⟩
      · rw [List.length_drop] at hle
        refine always_pure.mpr ⟨trivial, by omega, ?_⟩
        rw [writtenTo, if_pos rfl, hw, List.append_assoc, ← List.take_add]
      · cases err
        case eintr => exact (always_pure (a := Sum.inl off)).mpr ⟨trivial, hoff, hw⟩
        all_goals
          exact (always_pure (a := Sum.inr none) (Q := roundPost _ _)).mpr
            ⟨trivial, fun heq => absurd heq (by simp)⟩
    · have hfull : off = buf.length := by omega
      rw [hfull, List.take_length] at hw
      exact always_pure.mpr ⟨trivial, fun _ => hw⟩
  exact ⟨buf, hloop.post hr hn, hn, rfl⟩

end

end Wirecat
