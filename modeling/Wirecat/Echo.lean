import Wirecat.Sessions
import Wirecat.Written

/-!
# What the suppression of echoes swallows

What the operator types to the attached session is shown when it is typed, and so its echo is
not to be shown again: `multi_write_attached_output` drops the bytes that agree with what is
awaited, one at a time, before it is known whether they are an echo
(`Wirecat.unechoed`).

When an echo comes, it is dropped and what follows it is printed, however it is cut into
chunks (`Wirecat.unechoed_echo`). When something else comes, the bytes up to the first
difference are gone. So nothing is lost exactly when what comes is an echo as far as it goes,
or differs from one in its first byte already (`Wirecat.echoSpec_iff`).
-/

namespace Wirecat

open CString Interaction

/-! ### What is printed -/

/-- What is printed of `received` while `pending` is awaited, and what is awaited then. -/
def unechoed : (pending received : Bytes) → Bytes × Bytes
  | pending, [] => ([], pending)
  | [], c :: received => (c :: received, [])
  | e :: pending, c :: received =>
      if c = e then unechoed pending received
      else if c = chr '\r' ∧ e = chr '\n' then unechoed (e :: pending) received
      else (c :: received, [])

theorem unechoed_nil (received : Bytes) : unechoed [] received = (received, []) := by
  cases received <;> rfl

/-- What is printed is an end of what was received. -/
theorem unechoed_suffix (pending received : Bytes) : (unechoed pending received).1 <:+ received := by
  fun_induction unechoed pending received with
  | case1 => exact List.suffix_refl _
  | case2 => exact List.suffix_refl _
  | case3 pending c received ih => exact ih.trans (List.suffix_cons c received)
  | case4 e pending c received _ _ ih => exact ih.trans (List.suffix_cons c received)
  | case5 => exact List.suffix_refl _

/-- **The chunks of a session**, printed one after the other. -/
def multiWriteAttachedChunks (chunks : List Bytes) (pending : Bytes) : Proc (Option Bytes) :=
  Prog.forEach chunks (fun buf echo => match echo with
    | none => pure none
    | some echo => multiWriteAttachedOutput buf echo) (some pending)

section
variable {legal : Hist → (e : Sys) → Resp e → Prop}

/-- What one byte adds. -/
theorem conveys_writeAttachedByte (c : UInt8) (pending received : Bytes) :
    Conveys legal .stdout (writeAttachedByte c pending) fun echo text => ∃ pending',
      echo = some pending' ∧ unechoed pending (c :: received) =
        (text ++ (unechoed pending' received).1, (unechoed pending' received).2) := by
  have hwrite : ∀ pending, unechoed pending (c :: received) = (c :: received, []) →
      Conveys legal .stdout (wcatFullWrite .multi .stdout [c] >>= fun n =>
        pure (if n = some 1 then some [] else none)) fun echo text => ∃ pending',
          echo = some pending' ∧ unechoed pending (c :: received) =
            (text ++ (unechoed pending' received).1, (unechoed pending' received).2) := by
    intro pending hprint
    refine (conveys_wcatFullWrite .multi [c]).bind ?_
    rintro n text ⟨rfl, rfl⟩
    exact Conveys.pure ⟨[], rfl, by rw [hprint, unechoed_nil]; rfl⟩
  cases pending with
  | nil => exact hwrite [] rfl
  | cons e rest =>
    refine Conveys.ite (fun heq => ?_) fun hne => Conveys.ite (fun hcr => ?_) fun hcr => ?_
    · refine Conveys.pure ⟨rest, rfl, ?_⟩
      rw [unechoed, if_pos heq]
      rfl
    · refine Conveys.pure ⟨e :: rest, rfl, ?_⟩
      rw [unechoed, if_neg hne, if_pos hcr]
      rfl
    · refine hwrite (e :: rest) ?_
      rw [unechoed, if_neg hne, if_neg hcr]

/-- What a chunk adds, and the chunks after it. -/
theorem conveys_multiWriteAttachedOutput (buf pending received : Bytes) :
    Conveys legal .stdout (multiWriteAttachedOutput buf pending) fun echo text => ∃ pending',
      echo = some pending' ∧ unechoed pending (buf ++ received) =
        (text ++ (unechoed pending' received).1, (unechoed pending' received).2) := by
  refine (Conveys.forEach (fun rest echo text => ∃ pending', echo = some pending' ∧
    unechoed pending (buf ++ received) = (text ++ (unechoed pending' (rest ++ received)).1,
      (unechoed pending' (rest ++ received)).2)) ?_ ⟨pending, rfl, rfl⟩).mono
    fun _ _ h => h
  rintro c rest _ text ⟨pending', rfl, hprint⟩
  refine (conveys_writeAttachedByte c pending' (rest ++ received)).mono ?_
  rintro _ more ⟨pending'', rfl, hbyte⟩
  refine ⟨pending'', rfl, ?_⟩
  rw [hprint, List.cons_append, hbyte, List.append_assoc]

/-- **The chunks do not matter**: what is printed is what is printed of all of them at once. -/
theorem conveys_multiWriteAttachedChunks (chunks : List Bytes) (pending : Bytes) :
    Conveys legal .stdout (multiWriteAttachedChunks chunks pending) fun echo text =>
      unechoed pending chunks.flatten = (text, echo.getD []) := by
  refine (Conveys.forEach (fun rest echo text => ∃ pending', echo = some pending' ∧
    unechoed pending chunks.flatten = (text ++ (unechoed pending' rest.flatten).1,
      (unechoed pending' rest.flatten).2)) ?_ ⟨pending, rfl, rfl⟩).mono ?_
  · rintro buf rest _ text ⟨pending', rfl, hprint⟩
    refine (conveys_multiWriteAttachedOutput buf pending' rest.flatten).mono ?_
    rintro _ more ⟨pending'', rfl, hchunk⟩
    refine ⟨pending'', rfl, ?_⟩
    rw [hprint, List.flatten_cons, hchunk, List.append_assoc]
  · rintro _ text ⟨pending', rfl, hprint⟩
    rw [List.flatten_nil, unechoed, List.append_nil] at hprint
    exact hprint

end

/-! ### Echoes -/

/-- **An echo of a text**: the text, with carriage returns before its line feeds. -/
inductive EchoOf : Bytes → Bytes → Prop
  | nil : EchoOf [] []
  | byte {p e : Bytes} (c : UInt8) (he : EchoOf p e) : EchoOf (c :: p) (c :: e)
  | newline {p e : Bytes} (n : ℕ) (he : EchoOf p e) :
      EchoOf (chr '\n' :: p) (List.replicate n (chr '\r') ++ chr '\n' :: e)

/-- **What is to be printed** of `r` while `p` is awaited: all of it when it has nothing to do with an
echo of `p`, and what follows the echo when it begins with one. -/
structure EchoSpec (p r out : Bytes) : Prop where
  unrelated : (∀ e, EchoOf p e → ¬e <+: r ∧ ¬r <+: e) → out = r
  echo : ∀ e s, EchoOf p e → r = e ++ s → out = s

/-- The first byte that comes is taken for the beginning of an echo. -/
def Swallowed (p r : Bytes) : Prop :=
  ∃ e c, p.head? = some e ∧ r.head? = some c ∧ (c = e ∨ c = chr '\r' ∧ e = chr '\n')

/-- Of an echo and what follows it, what follows is printed. -/
theorem unechoed_echo {p e : Bytes} (he : EchoOf p e) (s : Bytes) : unechoed p (e ++ s) = (s, []) := by
  induction he with
  | nil => exact unechoed_nil s
  | byte c he ih => rw [List.cons_append, unechoed, if_pos rfl, ih]
  | newline n he ih =>
    induction n with
    | zero => rw [List.replicate_zero, List.nil_append, List.cons_append, unechoed, if_pos rfl, ih]
    | succ n ihn =>
      rw [List.replicate_succ, List.cons_append, List.cons_append, unechoed,
        if_neg (show chr '\r' ≠ chr '\n' by decide), if_pos ⟨rfl, rfl⟩, ihn]

/-- When the first byte is not swallowed, nothing is. -/
theorem unechoed_of_not_swallowed {p r : Bytes} (hs : ¬Swallowed p r) : (unechoed p r).1 = r := by
  rcases r with _ | ⟨c, r⟩
  · rfl
  rcases p with _ | ⟨e, p⟩
  · rfl
  rw [Swallowed] at hs
  push Not at hs
  obtain ⟨hne, hcr⟩ := hs e c rfl rfl
  rw [unechoed, if_neg hne, if_neg fun h => hcr h.1 h.2]

/-- When the first byte is swallowed, something is missing. -/
theorem unechoed_of_swallowed {p r : Bytes} (hs : Swallowed p r) : (unechoed p r).1 ≠ r := by
  obtain ⟨e, c, he, hc, hagree⟩ := hs
  obtain ⟨p, rfl⟩ := List.head?_eq_some_iff.mp he
  obtain ⟨r, rfl⟩ := List.head?_eq_some_iff.mp hc
  have hshort : ∀ pending, (unechoed pending r).1 ≠ c :: r := fun pending heq => by
    have hlen := (unechoed_suffix pending r).length_le
    rw [heq, List.length_cons] at hlen
    omega
  rw [unechoed]
  split_ifs with h1 h2
  · exact hshort p
  · exact hshort (e :: p)
  · exact absurd hagree (by tauto)

/-- What the code prints is what is to be printed, exactly when the first byte is not swallowed or
what comes is an echo as far as it goes. -/
theorem echoSpec_unechoed (p r : Bytes) : EchoSpec p r (unechoed p r).1 ↔
    (∃ e, EchoOf p e ∧ (e <+: r ∨ r <+: e)) ∨ ¬Swallowed p r := by
  have hecho : ∀ e s, EchoOf p e → r = e ++ s → (unechoed p r).1 = s := by
    rintro e s he rfl
    rw [unechoed_echo he]
  constructor
  · intro hspec
    by_contra hno
    push Not at hno
    exact unechoed_of_swallowed hno.2 (hspec.unrelated hno.1)
  · rintro (⟨e, he, hrel⟩ | hs)
    · refine ⟨fun hno => ?_, hecho⟩
      obtain ⟨hbegins, hwithin⟩ := hno e he
      exact absurd hrel (not_or.mpr ⟨hbegins, hwithin⟩)
    · exact ⟨fun _ => unechoed_of_not_swallowed hs, hecho⟩

/-- **When echo suppression loses no output**: exactly when what comes begins with an echo of what is
awaited, or is the beginning of one, or already its first byte differs from one. -/
theorem echoSpec_iff {legal : Hist → (e : Sys) → Resp e → Prop} {chunks : List Bytes} {p out : Bytes}
    {h h' : Hist} {echo : Option Bytes}
    (hr : Runs legal (multiWriteAttachedChunks chunks p) h h' (some echo))
    (hno : ¬Refused .stdout h h') (hout : writtenTo .stdout h' = writtenTo .stdout h ++ out) :
    EchoSpec p chunks.flatten out ↔
      (∃ e, EchoOf p e ∧ (e <+: chunks.flatten ∨ chunks.flatten <+: e)) ∨
        ¬Swallowed p chunks.flatten := by
  obtain ⟨text, htext, hprint⟩ := conveys_multiWriteAttachedChunks chunks p h h' echo hr hno
  obtain rfl : out = text := List.append_cancel_left (hout.symm.trans htext)
  rw [← echoSpec_unechoed, hprint]

/-- Everything is written. -/
def printingScript (_ : Hist) : (e : Sys) → Resp e
  | .write _ _ buf => WriteRes.all buf
  | e => refuse e

/-- Chunks that are printed, with the history. -/
def printedRun (chunks : List Bytes) (p : Bytes) : Hist × Option (Option Bytes) :=
  exec (lawful printingScript) 100 (multiWriteAttachedChunks chunks p) []

theorem runs_printedRun {chunks : List Bytes} {p : Bytes} (hx : (printedRun chunks p).2.isSome = true) :
    ∃ echo, Runs Legal (multiWriteAttachedChunks chunks p) [] (printedRun chunks p).1 (some echo) := by
  obtain ⟨echo, hecho⟩ := Option.isSome_iff_exists.mp hx
  have hr := exec_runs (legal_lawful printingScript) 100 (multiWriteAttachedChunks chunks p) []
  rw [printedRun] at hecho
  exact ⟨echo, hecho ▸ hr⟩

/-- The echo comes in two chunks, and its line feed with a carriage return. -/
theorem echoSpec_crlf : EchoSpec (lit "ls\n") (lit "ls\r\nok") (lit "ok") := by
  obtain ⟨echo, hr⟩ := @runs_printedRun [lit "ls\r", lit "\nok"] (lit "ls\n") (by decide +kernel)
  refine (echoSpec_iff hr (not_refused_of_any (by decide +kernel)) (by decide +kernel)).mpr ?_
  exact .inl ⟨lit "ls\r\n", .byte _ (.byte _ (.newline 1 .nil)), .inl (by decide)⟩

/-- A text without line feeds is its only echo. -/
theorem EchoOf.eq {p e : Bytes} (he : EchoOf p e) (hn : chr '\n' ∉ p) : e = p := by
  induction he with
  | nil => rfl
  | byte c he ih => rw [ih fun hmem => hn (List.mem_cons_of_mem c hmem)]
  | newline n he ih => exact absurd List.mem_cons_self hn

/-- **What agrees with the awaited text at first is lost**: while the echo of `abc` is awaited, the
session sends `abX`, and `X` is printed. -/
theorem not_echoSpec : (∃ echo, Runs Legal (multiWriteAttachedChunks [lit "abX"] (lit "abc")) []
      (printedRun [lit "abX"] (lit "abc")).1 (some echo)) ∧
    ¬Refused .stdout [] (printedRun [lit "abX"] (lit "abc")).1 ∧
    writtenTo .stdout (printedRun [lit "abX"] (lit "abc")).1 = lit "X" ∧
    ¬EchoSpec (lit "abc") (lit "abX") (lit "X") := by
  refine ⟨runs_printedRun (by decide +kernel), not_refused_of_any (by decide +kernel),
    by decide +kernel, fun hspec => ?_⟩
  have hout := hspec.unrelated fun e he => by
    rw [he.eq (by decide)]
    decide
  exact absurd hout (by decide)

end Wirecat
