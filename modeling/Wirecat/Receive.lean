import Wirecat.Copy

/-!
# A receive that comes to nothing

`wcat_recv_file` opens its destination before anything else, and opening it empties it.
What is left in the file when the receive then fails – nobody can be listened for, nobody
comes, who comes is turned away, or the handshake fails – is the subject of this file.

The receive falls into two parts, the set-up and the transfer
(`Wirecat.wcatRecvFile_eq`). No byte is exchanged in the set-up, so a receive that ends
there has read nothing and has written nothing; and in the transfer nothing is written
that was not read before. In either case the file holds what the open left in it:
what it held before the run when the open failed, and nothing when it succeeded
(`Wirecat.wcatRecvFile_nothing`).
-/

namespace Wirecat

open CString Interaction Conduit

/-! ### The set-up -/

/-- `wcat_recv_file` over a connection, up to the transfer: one client is accepted and
checked, and the session with it opened. -/
def recvAccept (cfg : Config) (listener file : Fd) : Proc (Option (Stream × Fd × Fd)) := do
  match ← acceptWhenReady listener (some (128, 32)) with
  | none => do
      wcatCloseQuiet listener
      wcatCloseQuiet file
      pure none
  | some peer =>
      if !(← wcatAccessCheckFd cfg peer.fd) then do
        wcatCloseQuiet peer.fd
        wcatCloseQuiet listener
        wcatCloseQuiet file
        pure none
      else do
        sys (.log .info "accept" "accepted %s:%s" [.str peer.host, .str peer.port])
        match ← networkStream cfg .src peer.fd true with
        | none => do
            wcatCloseQuiet listener
            wcatCloseQuiet file
            pure none
        | some src => pure (some (src, listener, file))

/-- `wcat_recv_file` up to the transfer: what it goes on with, or `none` where it has given
up. -/
def recvSetup (cfg : Config) : Proc (Option (Stream × Fd × Fd)) := do
  match ← sys (.openFile cfg.fileArg .truncate) with
  | .error _ => do
      sys (.logErrno "file_open" cfg.fileArg)
      pure none
  | .ok n =>
      let listening := if cfg.udp then wcatUdpBind cfg.hostArg cfg.portArg cfg.family
        else wcatTcpListen cfg.hostArg cfg.portArg cfg.family 16
      match ← listening with
      | none => do
          sys (.logErrno "listen" (lit "listen failed"))
          wcatCloseQuiet (.file n)
          pure none
      | some listener =>
          if cfg.udp then pure (some (wcatStreamFromFd .src listener, listener, .file n))
          else recvAccept cfg listener (.file n)

/-- What a receive does after its set-up. -/
def recvTransfer (cfg : Config) : Option (Stream × Fd × Fd) → Proc ℕ
  | none => pure 1
  | some (src, listener, file) => recvStream cfg src listener file

theorem recvClient_eq (cfg : Config) (listener file : Fd) :
    recvClient cfg listener file = recvAccept cfg listener file >>= recvTransfer cfg := by
  simp only [recvClient, recvAccept, bind_assoc]
  congr 1
  funext peer
  rcases peer with _ | peer
  · simp [bind_assoc, recvTransfer]
  simp only [bind_assoc]
  congr 1
  funext allowed
  cases allowed with
  | false => simp [bind_assoc, recvTransfer]
  | true =>
    simp only [Bool.not_true, Bool.false_eq_true, if_false, bind_assoc]
    congr 1
    funext _
    congr 1
    funext net
    rcases net with _ | src
    · simp [bind_assoc, recvTransfer]
    · simp [recvTransfer]

/-- **A receive is a set-up and a transfer.** -/
theorem wcatRecvFile_eq (cfg : Config) :
    wcatRecvFile cfg = recvSetup cfg >>= recvTransfer cfg := by
  simp only [wcatRecvFile, recvSetup, bind_assoc]
  congr 1
  funext opened
  rcases opened with err | n
  · simp [recvTransfer]
  simp only [bind_assoc]
  congr 1
  funext listener
  rcases listener with _ | listener
  · simp only [bind_assoc, pure_bind, recvTransfer]
  cases cfg.udp with
  | false => simp [recvClient_eq]
  | true => simp [recvTransfer]

/-- **The receive gave up** before there was anybody to receive from. -/
def GaveUp (cfg : Config) (h : Hist) : Prop := Runs Legal (recvSetup cfg) [] h (some none)

/-- A receive that gave up exits with 1. -/
theorem GaveUp.status {cfg : Config} {h : Hist} {rc : ℕ} (hg : GaveUp cfg h)
    (hr : Runs Legal (wcatRecvFile cfg) [] h (some rc)) : rc = 1 := by
  rw [wcatRecvFile_eq] at hr
  obtain ⟨r, h₁, hsetup, htransfer⟩ := runs_bind_some'.mp hr
  obtain ⟨-, rfl⟩ := hsetup.unique hg htransfer.suffix (List.suffix_refl h)
  exact (runs_pure.mp htransfer).2

/-! ### The destination -/

/-- **The content of the destination** after a history, of a file that held `prior`. The
destination is the only file that a receive opens. -/
def fileAfter (path prior : Bytes) : Hist → Bytes
  | [] => prior
  | ⟨.openFile p .truncate, .ok _⟩ :: h => if p = path then [] else fileAfter path prior h
  | ⟨.write _ (.file _) buf, .wrote n _⟩ :: h => fileAfter path prior h ++ buf.take n
  | _ :: h => fileAfter path prior h

/-- Whether the destination could be opened. -/
def opened (path : Bytes) : Hist → Bool
  | [] => false
  | ⟨.openFile p .truncate, .ok _⟩ :: h => p = path || opened path h
  | _ :: h => opened path h

/-- The requests that write to a file only as the destination of a transfer. -/
def FileByDst (e : Sys) : Prop := ∀ via n buf, e = .write via (.file n) buf → via = .stream .dst

theorem fileByDst_of_quiet : ∀ e, Quiet e = true → FileByDst e := by
  rintro e he via n buf rfl
  simp [Quiet] at he

/-- The file is open and empty, or the destination has accepted something. -/
def EmptyTillWritten (path prior : Bytes) (h : Hist) : Prop :=
  opened path h = true ∧ (bytesWritten .dst h = [] → fileAfter path prior h = [])

theorem bytesWritten_cons {o : Obj} {e : Sys} {r : Resp e} {h : Hist} :
    bytesWritten o (⟨e, r⟩ :: h) = bytesWritten o h ++ putTo o (obs e r).toList := by
  rw [bytesWritten, trace_cons, putTo_append, bytesWritten]

theorem opened_mono {path : Bytes} {h : Hist} (ho : opened path h = true) (ev : Ev) :
    opened path (ev :: h) = true := by
  rw [opened.eq_def]
  split
  · simp at *
  · simp_all
  · simp_all

/-- Nothing is written to the file that the destination did not accept. -/
theorem EmptyTillWritten.step {path prior : Bytes} {h : Hist} (hempty : EmptyTillWritten path prior h)
    {e : Sys} (he : FileByDst e) (r : Resp e) : EmptyTillWritten path prior (⟨e, r⟩ :: h) := by
  refine ⟨opened_mono hempty.1 _, fun hw => ?_⟩
  rw [bytesWritten_cons, List.append_eq_nil_iff] at hw
  have hfile := hempty.2 hw.1
  rw [fileAfter.eq_def]
  split
  · simp at *
  · rename_i heq
    obtain ⟨-, rfl⟩ := List.cons.inj heq
    split_ifs
    · rfl
    · exact hfile
  · rename_i via m buf n hn _ heq
    obtain ⟨hev, rfl⟩ := List.cons.inj heq
    obtain ⟨rfl, hr⟩ := Sigma.mk.inj hev
    obtain rfl := eq_of_heq hr
    obtain rfl := he via m buf rfl
    rw [hfile, List.nil_append]
    rcases Nat.eq_zero_or_pos n with rfl | hpos
    · rfl
    · have := hw.2
      simpa [obs, writeObs, hpos.ne', putTo] using this
  · rename_i heq
    obtain ⟨-, rfl⟩ := List.cons.inj heq
    exact hfile

/-! ### What a receive reads and writes -/

/-- What a set-up goes on with: the source is over a socket, and the destination is a
file. -/
def SetUpFor (cfg : Config) (r : Option (Stream × Fd × Fd)) : Prop :=
  ∀ x ∈ r, (∃ fd n, fd.isSocket = true ∧ x.2.2 = .file n ∧
    (x.1 = wcatStreamFromFd .src fd ∨ NetworkOn cfg .src fd (some x.1)))

theorem setUpFor_none {cfg : Config} : SetUpFor cfg none := fun _ h => absurd h (by simp)

theorem within_recvSetup (cfg : Config) : Within Offline (recvSetup cfg) (SetUpFor cfg) := by
  have hclose : ∀ fd, Within Offline (wcatCloseQuiet fd) fun _ => True := fun fd =>
    within_wcatCloseQuiet trivial
  refine Within.step trivial fun r => ?_
  rcases r with err | n
  · exact Within.step trivial fun _ => setUpFor_none
  refine Within.bind' (Q := fun fd => ∀ x ∈ fd, x.isSocket = true) (Within.ite (fun _ => ?_)
    fun _ => ?_) fun listener hl => ?_
  · refine (within_wcatUdpBind offline_of_quiet trivial (fun _ => trivial) _ _ _).post_mono ?_
    intro fd hfd x hx
    obtain ⟨m, rfl⟩ := hfd x hx
    rfl
  · refine (within_inetListen offline_of_quiet trivial (fun _ => trivial) _ _ _ _).post_mono ?_
    intro fd hfd x hx
    obtain ⟨m, rfl⟩ := hfd x hx
    rfl
  rcases listener with _ | listener
  · exact Within.step trivial fun _ => (hclose _).next fun _ => setUpFor_none
  refine Within.ite (fun _ => ?_) fun _ => ?_
  · rintro x ⟨⟩
    exact ⟨listener, n, hl listener rfl, rfl, Or.inl rfl⟩
  refine (within_acceptWhenReady (still_of_quiet offline_of_quiet) trivial trivial _).bind' fun peer hpeer => ?_
  rcases peer with _ | peer
  · exact (hclose _).next fun _ => (hclose _).next fun _ => setUpFor_none
  obtain ⟨m, hfd⟩ := hpeer peer rfl
  refine (within_wcatAccessCheckFd (still_of_quiet offline_of_quiet) trivial cfg).next fun allowed =>
    Within.ite (fun _ => ?_) fun _ => Within.step trivial fun _ => ?_
  · exact (hclose _).next fun _ => (hclose _).next fun _ => (hclose _).next fun _ => setUpFor_none
  refine (within_networkStream (still_of_quiet offline_of_quiet) (fun _ => trivial) (fun _ => trivial)
    (fun _ => trivial) trivial _ _).bind' fun net hnet => ?_
  rcases net with _ | src
  · exact (hclose _).next fun _ => (hclose _).next fun _ => setUpFor_none
  · rintro x ⟨⟩
    exact ⟨peer.fd, n, by rw [hfd]; rfl, rfl, Or.inr hnet⟩

theorem obs_of_offline {e : Sys} (he : Offline e) (r : Resp e) :
    obs e r = none ∨ obs e r = some .short := by
  by_cases hstop : e = .stop
  · subst hstop
    exact Or.inl rfl
  · refine obs_of_beside ?_ r
    cases e <;> trivial

/-- As many bytes were read and written at `h'` as at `h`. -/
structure SameBytes (h h' : Hist) : Prop where
  read : bytesRead .src h' = bytesRead .src h
  written : bytesWritten .dst h' = bytesWritten .dst h

theorem SameBytes.refl (h : Hist) : SameBytes h h := ⟨rfl, rfl⟩

theorem SameBytes.step {h h' : Hist} (hs : SameBytes h h') {e : Sys} (he : Offline e) (r : Resp e) :
    SameBytes h (⟨e, r⟩ :: h') := by
  rcases obs_of_offline he r with hobs | hobs
  · exact ⟨by rw [← hs.read, bytesRead, trace_cons, hobs]; rfl,
      by rw [← hs.written, bytesWritten, trace_cons, hobs]; rfl⟩
  · exact ⟨by rw [← hs.read, bytesRead, trace_cons, hobs]; rfl,
      by rw [← hs.written, bytesWritten, trace_cons, hobs]; rfl⟩

variable {legal : Hist → (e : Sys) → Resp e → Prop} {h : Hist}

/-- A program in the footprint of a set-up exchanges no bytes. -/
theorem Within.sameBytes {α : Type} {p : Proc α} {Q : α → Prop} (hp : Within Offline p Q) :
    Always legal (SameBytes h) p (fun a h' => SameBytes h h' ∧ Q a) h :=
  hp.always (SameBytes.refl h) fun _ _ r hs he _ => hs.step he r

/-- Nothing has been written that was not read. -/
def NothingFromNothing (h : Hist) : Prop := bytesRead .src h = [] → bytesWritten .dst h = []

theorem NothingFromNothing.of_same {h h' : Hist} (hn : NothingFromNothing h)
    (hs : SameBytes h h') : NothingFromNothing h' := by
  rw [NothingFromNothing, hs.read, hs.written]
  exact hn

/-- A copy writes nothing that it did not read. -/
theorem always_copy_nothing {src dst : Stream} (hdst : dst.Writable) (hsobj : src.obj = .src)
    (hdobj : dst.obj = .dst) (opts : RelayOptions) (hn : bytesWritten .dst h = []) :
    Always legal (fun _ => True) (wcatCopyStream src dst opts)
      (fun _ h' => NothingFromNothing h') h := by
  refine fun h' o hr => ⟨trivial, fun ok _ hread => ?_⟩
  obtain ⟨g, rfl, hr'⟩ := Runs.shift (g := []) hr
  obtain ⟨s, hs⟩ := Option.isSome_iff_exists.mp ((always_wcatCopyStream hdst opts).safe hr')
  have hne : src.obj ≠ dst.obj := by rw [hsobj, hdobj]; decide
  have hput := (put_append_owed (show (copySt src).carry = none from rfl) (run_of_view hs) dst.obj).trans
    (routedTo_eq_gotFrom (w := copyWiring src dst) (relayWiring_peer_iff hne .ab) _)
  rw [bytesRead, trace_append, gotFrom_append, List.append_eq_nil_iff] at hread
  have hgot : gotFrom (source src dst .ab).obj (trace g) = [] := by
    rw [source, hsobj]
    exact hread.2
  rw [hgot, List.append_eq_nil_iff, hdobj] at hput
  rw [bytesWritten, trace_append, putTo_append, ← bytesWritten, hn]
  exact hput.1

theorem obj_of_setUpFor {cfg : Config} {src : Stream} {fd : Fd}
    (hsrc : src = wcatStreamFromFd .src fd ∨ NetworkOn cfg .src fd (some src)) :
    src.obj = .src := by
  rcases hsrc with rfl | hnet
  · rfl
  · exact hnet.obj_eq

/-- A receive writes nothing that it did not read. -/
theorem always_recvTransfer {cfg : Config} {r : Option (Stream × Fd × Fd)} (hr : SetUpFor cfg r)
    (hn : bytesWritten .dst h = []) :
    Always legal (fun _ => True) (recvTransfer cfg r) (fun _ h' => NothingFromNothing h') h := by
  rcases r with _ | ⟨src, listener, file⟩
  · exact always_pure.mpr ⟨trivial, fun _ => hn⟩
  obtain ⟨fd, n, -, hfile, hsrc⟩ := hr _ rfl
  rw [recvTransfer, recvStream, always_bind']
  refine (always_copy_nothing (fun _ _ h => by simp [wcatStreamFromFd] at h)
    (obj_of_setUpFor hsrc) rfl _ hn).post_mono fun ok h' hn' => ?_
  have hclose : Within Offline (do
      let _ ← (if !cfg.udp then closeNetwork src else pure ())
      wcatCloseQuiet listener
      wcatCloseQuiet file
      pure (if ok = true then 0 else 1 : ℕ)) fun _ => True := by
    have hq : ∀ fd, Within Offline (wcatCloseQuiet fd) fun _ => True := fun fd =>
      within_wcatCloseQuiet trivial
    refine Within.next (Within.ite (fun _ => ?_) fun _ => trivial) fun _ => (hq _).next fun _ =>
      (hq _).next fun _ => trivial
    rcases hsrc with rfl | hnet
    · exact hq _
    · exact within_closeNetwork hnet (fun _ => trivial) trivial
  refine ((Within.sameBytes hclose).post_mono fun _ h₂ hs => ?_).mono (fun _ _ => trivial)
    fun _ _ _ hQ => hQ
  exact hn'.of_same hs.1

/-- The whole of a receive after the open writes to a file only as the destination. -/
theorem within_recvTransfer {cfg : Config} {r : Option (Stream × Fd × Fd)} (hr : SetUpFor cfg r) :
    Within FileByDst (recvTransfer cfg r) fun _ => True := by
  rcases r with _ | ⟨src, listener, file⟩
  · trivial
  obtain ⟨fd, n, hsock, hfile, hsrc⟩ := hr _ rfl
  have hother : ∀ e : Sys, (∀ via buf fd, e ≠ .write via fd buf) → FileByDst e := by
    rintro e he via m buf rfl
    exact absurd rfl (he _ _ _)
  have hsock' : ∀ via buf, FileByDst (.write via fd buf) := by
    rintro via buf via' m buf' heq
    injection heq with _ hfd _
    rw [hfd] at hsock
    simp [Fd.isSocket] at hsock
  have hclose : ∀ fd, Within FileByDst (wcatCloseQuiet fd) fun _ => True := fun fd =>
    within_wcatCloseQuiet (hother _ fun _ _ _ => by simp)
  have hin : StreamIn FileByDst src := by
    rcases hsrc with rfl | hnet
    · exact ⟨fun _ => hother _ fun _ _ _ => by simp, fun w hw => by
        obtain rfl := Option.some.inj hw
        exact ⟨fun buf => hsock' _ buf, fun hne => absurd rfl hne⟩⟩
    · have hs := hnet src rfl
      split_ifs at hs
      · obtain ⟨t, -, rfl⟩ := hs
        exact ⟨fun _ => hother _ fun _ _ _ => by simp, fun _ => hother _ fun _ _ _ => by simp,
          hother _ fun _ _ _ => by simp, hother _ fun _ _ _ => by simp⟩
      · obtain rfl := hs
        exact ⟨fun _ => hother _ fun _ _ _ => by simp, fun w hw => by
          obtain rfl := Option.some.inj hw
          exact ⟨fun buf => hsock' _ buf, fun hne => absurd rfl hne⟩⟩
  have hout : StreamIn FileByDst (wcatStreamFromFd .dst file) := by
    refine ⟨fun _ => hother _ fun _ _ _ => by simp, fun w hw => ?_⟩
    obtain rfl := Option.some.inj hw
    refine ⟨fun buf via m buf' heq => ?_, fun hne => absurd rfl hne⟩
    injection heq with hvia _ _
    exact hvia.symm
  refine (within_wcatCopyStream (still_of_quiet fileByDst_of_quiet) (hother _ fun _ _ _ => by simp) hin hout _).next
    fun ok => Within.next (Within.ite (fun _ => ?_) fun _ => trivial) fun _ => (hclose _).next
      fun _ => (hclose _).next fun _ => trivial
  rcases hsrc with rfl | hnet
  · exact hclose _
  · exact within_closeNetwork hnet (fun _ => hother _ fun _ _ _ => by simp)
      (hother _ fun _ _ _ => by simp)

/-! ### What is left in the file -/

theorem fileByDst_of_offline : ∀ e, Offline e → FileByDst e := by
  rintro e he via n buf rfl
  exact he.elim

/-- After the set-up the file is empty, unless it could not be opened. -/
theorem always_recvSetup (cfg : Config) (prior : Bytes) :
    Always legal (fun _ => True) (recvSetup cfg) (fun r h =>
      EmptyTillWritten cfg.fileArg prior h ∨
        r = none ∧ opened cfg.fileArg h = false ∧ fileAfter cfg.fileArg prior h = prior) [] := by
  have hwithin := within_recvSetup cfg
  rw [recvSetup, sys, Prog.request_bind', within_call] at hwithin
  rw [recvSetup, sys, Prog.request_bind', always_call]
  refine ⟨trivial, fun r _ => ?_⟩
  have hrest := hwithin.2 r
  rcases r with err | n
  · rw [always_bind', sys, always_request]
    exact ⟨trivial, fun _ _ => ⟨trivial, always_pure.mpr ⟨trivial, Or.inr ⟨rfl, rfl, rfl⟩⟩⟩⟩
  · have hempty : EmptyTillWritten cfg.fileArg prior [⟨.openFile cfg.fileArg .truncate, .ok n⟩] :=
      ⟨by simp [opened], fun _ => by simp [fileAfter]⟩
    refine (hrest.always (S := EmptyTillWritten cfg.fileArg prior) hempty ?_).mono
      (fun _ _ => trivial) fun _ _ _ hQ => Or.inl hQ.1
    exact fun _ _ r hs he _ => hs.step (fileByDst_of_offline _ he) r

/-- **A receive that comes to nothing.** One that gave up in its set-up exits with 1 and
has received nothing; and one that has received nothing leaves the destination empty, or as
it was if it could not be opened. -/
theorem wcatRecvFile_nothing {cfg : Config} {prior : Bytes} {h : Hist} {rc : ℕ}
    (hr : Runs Legal (wcatRecvFile cfg) [] h (some rc)) :
    (GaveUp cfg h → rc = 1 ∧ bytesRead .src h = []) ∧
      (bytesRead .src h = [] →
        fileAfter cfg.fileArg prior h = if opened cfg.fileArg h then [] else prior) := by
  refine ⟨fun hg => ⟨hg.status hr, ?_⟩, fun hread => ?_⟩
  · exact ((Within.sameBytes (within_recvSetup cfg)).post hg).1.read
  rw [wcatRecvFile_eq] at hr
  obtain ⟨r, h₁, hsetup, htransfer⟩ := runs_bind_some'.mp hr
  obtain ⟨hsame, hfor⟩ := (Within.sameBytes (within_recvSetup cfg)).post hsetup
  rcases (always_recvSetup cfg prior).post hsetup with hempty | ⟨rfl, hno, hprior⟩
  · have hwritten := (always_recvTransfer hfor hsame.written).post htransfer hread
    have hlast := (within_recvTransfer hfor).always hempty
      (fun _ _ r hs he _ => hs.step he r) |>.post htransfer
    rw [hlast.1.1, if_pos rfl]
    exact hlast.1.2 hwritten
  · obtain ⟨rfl, -⟩ := runs_pure.mp htransfer
    rw [hno, hprior]
    rfl

/-- An environment in which the destination can be opened, and nobody can be listened
for. -/
def openOnly (_ : Hist) : (e : Sys) → Resp e
  | .openFile _ _ => .ok 3
  | e => refuse e

/-- The set-up of a receive in it. -/
def openOnlyRun : Hist × Option (Option (Stream × Fd × Fd)) :=
  exec (lawful openOnly) 20 (recvSetup { file := some (lit "f") }) []

theorem gaveUp_openOnlyRun : GaveUp { file := some (lit "f") } openOnlyRun.1 := by
  have hr := exec_runs (legal_lawful openOnly) 20 (recvSetup { file := some (lit "f") }) []
  have hnone : openOnlyRun.2.map (·.isNone) = some true := by decide +kernel
  obtain ⟨r, hr₂, hr₁⟩ := Option.map_eq_some_iff.mp hnone
  rw [openOnlyRun] at hr₂
  rw [hr₂, Option.isNone_iff_eq_none.mp hr₁] at hr
  exact hr

theorem runs_openOnlyRun :
    Runs Legal (wcatRecvFile { file := some (lit "f") }) [] openOnlyRun.1 (some 1) := by
  rw [wcatRecvFile_eq]
  exact runs_bind_some'.mpr ⟨none, _, gaveUp_openOnlyRun, runs_pure.mpr ⟨rfl, rfl⟩⟩

/-- The receive exits with 1, and the file it would have replaced is empty. -/
theorem wcatRecvFile_nothing_openOnly : fileAfter (lit "f") (lit "old") openOnlyRun.1 = [] := by
  have hempty := (@wcatRecvFile_nothing _ (lit "old") _ _ runs_openOnlyRun).2
    (((@wcatRecvFile_nothing _ (lit "old") _ _ runs_openOnlyRun).1 gaveUp_openOnlyRun).2)
  have ho : opened (lit "f") openOnlyRun.1 = true := by decide +kernel
  exact hempty.trans (if_pos ho)

/-- A receive that gives up does not keep what the destination held. -/
theorem not_keeps_prior : ¬∀ (cfg : Config) (prior : Bytes) (h : Hist) (rc : ℕ),
    Runs Legal (wcatRecvFile cfg) [] h (some rc) → GaveUp cfg h →
      rc ≠ 0 ∧ fileAfter cfg.fileArg prior h = prior := by
  intro hkeeps
  have := (hkeeps _ (lit "old") _ _ runs_openOnlyRun gaveUp_openOnlyRun).2
  exact absurd this (by decide +kernel)

end Wirecat
