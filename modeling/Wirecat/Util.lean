import Wirecat.System

/-!
# Numbers, whole writes and quiet closes

`src/util.c`. The two parsers are pure; the two loops around `write` and `close`
are the first programs of the development, and
`Wirecat.wcatFullWrite` is the one everything that sends bytes goes through.
-/

namespace Wirecat

open CString Interaction

/-! ### Parsers -/

/-- `wcat_parse_port`: a port from 1 to 65535, or `none` for `-1`. -/
def wcatParsePort (s : Bytes) : Option ℕ :=
  if s.isEmpty then none
  else
    let c := strtol s
    if c.range ∨ ¬c.converted ∨ ¬c.rest.isEmpty ∨ c.value < 1 ∨ 65535 < c.value then none
    else some c.value.toNat

/-- `INT_MAX`. -/
def intMax : ℤ := 2 ^ 31 - 1

/-- `wcat_parse_timeout_ms`: a number of seconds, in milliseconds. -/
def wcatParseTimeoutMs (s : Bytes) : Option ℤ :=
  if s.isEmpty then none
  else
    let c := strtol s
    if c.range ∨ ¬c.converted ∨ ¬c.rest.isEmpty ∨ c.value < 0 ∨ intMax / 1000 < c.value then none
    else some (c.value * 1000)

/-- A port is at least 1 and at most 65535. -/
theorem wcatParsePort_bounds {s : Bytes} {p : ℕ} (h : wcatParsePort s = some p) :
    1 ≤ p ∧ p ≤ 65535 := by
  simp only [wcatParsePort] at h
  split_ifs at h with h1 h2
  obtain rfl := Option.some.inj h
  push Not at h2
  omega

/-! ### Arrays -/

/-- The contents of an array after `bytes` were stored at its start. -/
def overlay (buf bytes : Bytes) : Bytes := bytes ++ buf.drop bytes.length

/-! ### Loops around a system call -/

/-- `wcat_full_write`: write until everything is accepted, a write accepts nothing
or one fails. The result is the number of bytes accepted, or `none` for `-1`. -/
def wcatFullWrite (via : Via) (fd : Fd) (buf : Bytes) : Proc (Option ℕ) :=
  Prog.loop (fun off => do
    if off < buf.length then
      match ← sys (.write via fd (buf.drop off)) with
      | .error .eintr => pure (.inl off)
      | .error _ => pure (.inr none)
      | .wrote 0 _ => pure (.inr (some off))
      | .wrote (n + 1) _ => pure (.inl (off + (n + 1)))
    else pure (.inr (some off))) 0

/-- `wcat_close_quiet` on a descriptor that is not negative: `close`, again while
it is interrupted. -/
def wcatCloseQuiet (fd : Fd) : Proc Unit :=
  Prog.loop (fun _ => do
    match ← sys (.close fd) with
    | some .eintr => pure (.inl ())
    | _ => pure (.inr ())) ()

/-- `wcat_close_quiet` on a variable that may hold `-1`. -/
def wcatCloseQuiet? : Option Fd → Proc Unit
  | some fd => wcatCloseQuiet fd
  | none => pure ()

end Wirecat
