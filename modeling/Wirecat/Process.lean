import Wirecat.Util

/-!
# Child processes

`src/process.c`: a child whose standard streams are two pipes, or a
pseudo-terminal. What the child does between `fork` and `execl` happens in another
process and is no part of a history of this one.
-/

namespace Wirecat

open CString Interaction

/-- `wcat_process`: the child, and the descriptors to and from it. `inFd` is what it
reads from, `outFd` what it writes to; with a pseudo-terminal both are the same.
`err_fd` is never set. -/
structure ProcessHandle where
  pid : ℕ
  inFd : Fd
  outFd : Fd
  deriving DecidableEq

/-- A plain `close`, whatever it answers. -/
def closeFd (fd : Fd) : Proc Unit := do
  let _ ← sys (.close fd)
  pure ()

/-- `wcat_process_spawn`. A second pipe that cannot be opened closes the first. -/
def wcatProcessSpawn (path : Bytes) (usePty : Bool) : Proc (Option ProcessHandle) := do
  if usePty then
    match ← sys (.forkpty path) with
    | none => pure none
    | some (pid, n) => pure (some ⟨pid, .pty n, .pty n⟩)
  else
    match ← sys .pipe with
    | none => pure none
    | some (in0, in1) =>
        match ← sys .pipe with
        | none => do
            wcatCloseQuiet (.pipe in0)
            wcatCloseQuiet (.pipe in1)
            pure none
        | some (out0, out1) =>
            match ← sys (.fork path) with
            | none => do
                wcatCloseQuiet (.pipe in0)
                wcatCloseQuiet (.pipe in1)
                wcatCloseQuiet (.pipe out0)
                wcatCloseQuiet (.pipe out1)
                pure none
            | some pid => do
                closeFd (.pipe in0)
                closeFd (.pipe out1)
                pure (some ⟨pid, .pipe in1, .pipe out0⟩)

/-- `wcat_process_close`: each descriptor once, the one of a pseudo-terminal too. -/
def wcatProcessClose (proc : ProcessHandle) : Proc Unit := do
  wcatCloseQuiet proc.inFd
  if proc.outFd ≠ proc.inFd then wcatCloseQuiet proc.outFd else pure ()

/-- `wcat_process_wait`; no caller looks at the status. -/
def wcatProcessWait (proc : ProcessHandle) : Proc Unit :=
  if proc.pid = 0 then pure ()
  else
    Prog.loop (fun _ => do
      match ← sys (.waitpid proc.pid) with
      | .error .eintr => pure (.inl ())
      | _ => pure (.inr ())) ()

end Wirecat
