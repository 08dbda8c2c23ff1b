import Wirecat.FileXfer
import Wirecat.Process
import Wirecat.Quic

/-!
# Footprints

Which requests each function can make, and what is known of the descriptor it
returns. A property of histories that is about some of the requests only is then
proved of a whole mode by looking up its functions here, and none of them is
symbolically executed again.

The requests fall in two. The **quiet** ones (`Wirecat.Quiet`) exchange no bytes, name
no peer, close nothing and do not ask for the stop flag; every footprint is assumed to
contain them. The others are
named where they are made: a lemma asks for a footprint `F` that contains exactly the
loud requests of its function, on the descriptors it makes them on.
-/

namespace Wirecat

open CString Interaction

/-- **The quiet requests**: no socket is opened, no bytes are exchanged, no peer is connected to,
accepted or looked at, nothing is closed, and the stop flag is not read. -/
def Quiet : Sys → Bool
  | .stop | .socket _ => false
  | .read _ _ _ _ _ | .write _ _ _ | .close _ | .connect _ _ | .accept _ | .getpeername _ => false
  | .sslConnect _ | .sslAccept _ | .sslRead _ _ _ | .sslWrite _ _ _ | .sslStreamConclude _
  | .sslShutdown _ => false
  | _ => true

/-- The requests that can open a descriptor. -/
def Opening : Sys → Bool
  | .socket _ | .accept _ | .openFile _ _ | .pipe | .forkpty _ => true
  | _ => false

/-- **The still requests**: quiet, and they open nothing either. -/
def Still (e : Sys) : Bool := Quiet e && !Opening e

/-- **The tame requests**: still, and they change no setting that a TLS handshake works with. -/
def Tame : Sys → Bool
  | .ssl (.ctxNew _ _) | .ssl (.setVerify _ _) => false
  | e => Still e

variable {F : Sys → Prop} {α : Type} {Q : α → Prop}

/-- A footprint that contains the quiet requests contains the still ones. -/
theorem still_of_quiet (hq : ∀ e, Quiet e = true → F e) (e : Sys) (he : Still e = true) : F e :=
  hq e (Bool.and_eq_true_iff.mp he).1

/-- A footprint that contains the still requests contains the tame ones. -/
theorem tame_of_still (hq : ∀ e, Still e = true → F e) (e : Sys) (he : Tame e = true) : F e := by
  refine hq e ?_
  cases e with
  | ssl => rfl
  | _ => exact he

/-- A request of the footprint, and the rest of the program. -/
theorem Within.step {e : Sys} {k : Resp e → Proc α} (hF : F e) (hk : ∀ r, Within F (k r) Q) :
    Within F (sys e >>= k) Q := ⟨hF, hk⟩

theorem within_sys {e : Sys} (hF : F e) : Within F (sys e) fun _ => True := ⟨hF, fun _ => trivial⟩

/-! ### Utilities and children -/

theorem within_wcatFullWrite {via : Via} {fd : Fd} (hw : ∀ buf, F (.write via fd buf)) (buf : Bytes) :
    Within F (wcatFullWrite via fd buf) fun _ => True := by
  refine Within.loop (fun _ => True) trivial fun off _ => ?_
  split_ifs
  · refine Within.step (hw _) ?_
    rintro (⟨_ | n, -⟩ | err)
    · trivial
    · trivial
    · cases err <;> trivial
  · trivial

theorem within_wcatCloseQuiet {fd : Fd} (hc : F (.close fd)) :
    Within F (wcatCloseQuiet fd) fun _ => True := by
  refine Within.loop (fun _ => True) trivial fun _ _ => Within.step hc fun r => ?_
  rcases r with _ | err
  · trivial
  · cases err <;> trivial

theorem within_closeFd {fd : Fd} (hc : F (.close fd)) : Within F (closeFd fd) fun _ => True :=
  Within.step hc fun _ => trivial

/-- The descriptors of a child are ends of pipes, or a pseudo-terminal. -/
def Fd.isChild : Fd → Bool
  | .pipe _ | .pty _ => true
  | _ => false

theorem within_wcatProcessSpawn (hq : ∀ e, Quiet e = true → F e) (hc : ∀ n, F (.close (.pipe n)))
    (path : Bytes) (usePty : Bool) :
    Within F (wcatProcessSpawn path usePty)
      (fun r => ∀ proc ∈ r, proc.inFd.isChild = true ∧ proc.outFd.isChild = true) := by
  rw [wcatProcessSpawn]
  split_ifs
  · refine Within.step (hq _ rfl) ?_
    rintro (_ | ⟨pid, n⟩)
    · exact fun _ h => absurd h (by simp)
    · rintro _ ⟨⟩
      exact ⟨rfl, rfl⟩
  · refine Within.step (hq _ rfl) ?_
    rintro (_ | ⟨in0, in1⟩)
    · exact fun _ h => absurd h (by simp)
    refine Within.step (hq _ rfl) ?_
    rintro (_ | ⟨out0, out1⟩)
    · exact (within_wcatCloseQuiet (hc _)).next fun _ => (within_wcatCloseQuiet (hc _)).next
        fun _ _ h => absurd h (by simp)
    refine Within.step (hq _ rfl) ?_
    rintro (_ | pid)
    · exact (within_wcatCloseQuiet (hc _)).next fun _ => (within_wcatCloseQuiet (hc _)).next
        fun _ => (within_wcatCloseQuiet (hc _)).next fun _ => (within_wcatCloseQuiet (hc _)).next
        fun _ _ h => absurd h (by simp)
    · refine (within_closeFd (hc _)).next fun _ => (within_closeFd (hc _)).next fun _ => ?_
      rintro _ ⟨⟩
      exact ⟨rfl, rfl⟩

theorem within_wcatProcessClose {proc : ProcessHandle} (hin : F (.close proc.inFd))
    (hout : F (.close proc.outFd)) : Within F (wcatProcessClose proc) fun _ => True := by
  refine (within_wcatCloseQuiet hin).next fun _ => ?_
  split_ifs
  · exact within_wcatCloseQuiet hout
  · trivial

theorem within_wcatProcessWait (hq : ∀ e, Still e = true → F e) (proc : ProcessHandle) :
    Within F (wcatProcessWait proc) fun _ => True := by
  rw [wcatProcessWait]
  split_ifs
  · trivial
  · refine Within.loop (fun _ => True) trivial fun _ _ => Within.step (hq _ rfl) fun r => ?_
    rcases r with err | _
    · cases err <;> trivial
    · trivial

/-! ### Sockets -/

section Sockets

variable (hq : ∀ e, Still e = true → F e)

include hq

theorem within_waitConnected (fd : Fd) (timeoutMs : ℤ) :
    Within F (waitConnected fd timeoutMs) fun _ => True := by
  refine Within.loop (fun _ => True) trivial fun _ _ => Within.step (hq _ rfl) fun r => ?_
  rcases r with err | _ | _
  · cases err <;> trivial
  · exact Within.step (hq _ rfl) fun _ => trivial
  · exact Within.step (hq _ rfl) fun _ => trivial

theorem within_connectTimed {fd : Fd} {addr : Addr} (hconn : F (.connect fd addr)) (timeoutMs : ℤ) :
    Within F (connectTimed fd addr timeoutMs) fun _ => True := by
  refine Within.step (hq _ rfl) fun _ => ?_
  refine (Within.optional (hq _ rfl)).next fun _ => Within.step hconn fun r => ?_
  rcases r with _ | err
  · trivial
  · cases err <;> try trivial
    simp only
    split_ifs
    · exact within_waitConnected hq _ _
    · trivial

theorem within_resolve (host port : Bytes) (family : Family) (t : Transport) (passive : Bool) :
    Within F (resolve host port family t passive) fun _ => True := by
  refine Within.step (hq _ rfl) fun r => ?_
  rcases r with _ | n
  · exact Within.step (hq _ rfl) fun _ => trivial
  · trivial

/-- A socket of the transport `t`, if there is one. -/
def SockOf (t : Transport) (fd : Option Fd) : Prop := ∀ x ∈ fd, ∃ m, x = .sock t m

omit hq in
theorem sockOf_none {t : Transport} : SockOf t none := fun _ h => absurd h (by simp)

omit hq in
theorem sockOf_some {t : Transport} {m : ℕ} : SockOf t (some (.sock t m)) := by
  rintro _ ⟨⟩
  exact ⟨m, rfl⟩

omit hq in
theorem within_firstAddress (hq : ∀ e, Quiet e = true → F e)
    {t : Transport} (hsock : F (.socket t)) (hc : ∀ m, F (.close (.sock t m))) {n : ℕ}
    {attempt : Fd → ℕ → Proc Bool}
    (hattempt : ∀ m k, Within F (attempt (.sock t m) k) fun _ => True) :
    Within F (firstAddress t n attempt) (SockOf t) := by
  refine Within.loop (fun _ => True) trivial fun k _ => ?_
  split_ifs
  · refine Within.step hsock ?_
    rintro (err | m)
    · trivial
    refine (hattempt m k).next fun ok => ?_
    split_ifs
    · exact sockOf_some
    · exact (within_wcatCloseQuiet (hc m)).next fun _ => trivial
  · exact sockOf_none

omit hq in
theorem within_inetConnect (hq : ∀ e, Quiet e = true → F e) {t : Transport} (hsock : F (.socket t))
    {host port : Bytes}
    (hconn : ∀ m k, F (.connect (.sock t m) (.inet host port k)))
    (hc : ∀ m, F (.close (.sock t m))) (family : Family) (timeoutMs : ℤ) :
    Within F (inetConnect host port family t timeoutMs) (SockOf t) := by
  refine (within_resolve (still_of_quiet hq) _ _ _ _ _).next fun r => ?_
  rcases r with _ | n
  · exact sockOf_none
  · refine within_firstAddress hq hsock hc fun m k =>
      (within_connectTimed (still_of_quiet hq) (hconn m k) _).next fun ok => ?_
    split_ifs
    · exact Within.step (hq _ rfl) fun _ => trivial
    · trivial

omit hq in
theorem within_inetListen (hq : ∀ e, Quiet e = true → F e)
    {t : Transport} (hsock : F (.socket t)) (hc : ∀ m, F (.close (.sock t m))) (host port : Bytes)
    (family : Family) (backlog : ℕ) :
    Within F (inetListen host port family t backlog) (SockOf t) := by
  refine (within_resolve (still_of_quiet hq) _ _ _ _ _).next fun r => ?_
  rcases r with _ | n
  · exact sockOf_none
  · refine within_firstAddress hq hsock hc fun m k => Within.step (hq _ rfl) fun _ =>
      Within.step (hq _ rfl) fun _ => Within.step (hq _ rfl) fun r => ?_
    rcases r with _ | err
    · exact Within.step (hq _ rfl) fun _ => trivial
    · trivial

omit hq in
theorem within_socketConnect (hq : ∀ e, Quiet e = true → F e) {t : Transport}
    (hsock : F (.socket t)) {addr : Addr}
    (hconn : ∀ m, F (.connect (.sock t m) addr)) (hc : ∀ m, F (.close (.sock t m)))
    (timeoutMs : ℤ) : Within F (socketConnect t addr timeoutMs) (SockOf t) := by
  refine Within.step hsock ?_
  rintro (err | m)
  · exact sockOf_none
  refine (within_connectTimed (still_of_quiet hq) (hconn m) _).next fun ok => ?_
  split_ifs
  · exact Within.step (hq _ rfl) fun _ => sockOf_some
  · exact (within_wcatCloseQuiet (hc m)).next fun _ => sockOf_none

omit hq in
theorem within_socketListen (hq : ∀ e, Quiet e = true → F e)
    {t : Transport} (hsock : F (.socket t)) (hc : ∀ m, F (.close (.sock t m))) {addr : Addr}
    {prepare : Proc Unit} (hprep : Within F prepare fun _ => True) (backlog : ℕ) :
    Within F (socketListen t addr prepare backlog) (SockOf t) := by
  refine Within.step hsock ?_
  rintro (err | m)
  · exact sockOf_none
  refine Within.step (hq _ rfl) fun _ => hprep.next fun _ => Within.step (hq _ rfl) fun r => ?_
  rcases r with _ | err
  · refine Within.step (hq _ rfl) fun r => ?_
    rcases r with _ | err
    · exact sockOf_some
    · exact (within_wcatCloseQuiet (hc m)).next fun _ => sockOf_none
  · exact (within_wcatCloseQuiet (hc m)).next fun _ => sockOf_none

omit hq in
theorem within_wcatUnixConnect (hq : ∀ e, Quiet e = true → F e)
    (hsock : F (.socket .unix)) {path : Bytes}
    (hconn : ∀ m, F (.connect (.sock .unix m) (.unix path)))
    (hc : ∀ m, F (.close (.sock .unix m))) (timeoutMs : ℤ) :
    Within F (wcatUnixConnect path timeoutMs) (SockOf .unix) := by
  rw [wcatUnixConnect]
  split_ifs
  · exact Within.step (hq _ rfl) fun _ => sockOf_none
  · exact within_socketConnect hq hsock hconn hc _

omit hq in
theorem within_wcatUnixListen (hq : ∀ e, Quiet e = true → F e)
    (hsock : F (.socket .unix)) (hc : ∀ m, F (.close (.sock .unix m))) (path : Bytes) (backlog : ℕ) :
    Within F (wcatUnixListen path backlog) (SockOf .unix) := by
  rw [wcatUnixListen]
  split_ifs
  · exact Within.step (hq _ rfl) fun _ => sockOf_none
  · exact within_socketListen hq hsock hc (within_sys (hq _ rfl)) _

omit hq in
theorem within_wcatVsockConnect (hq : ∀ e, Quiet e = true → F e)
    (hsock : F (.socket .vsock)) {cid port : Bytes}
    (hconn : ∀ m c p, F (.connect (.sock .vsock m) (.vsock c p)))
    (hc : ∀ m, F (.close (.sock .vsock m))) (timeoutMs : ℤ) :
    Within F (wcatVsockConnect cid port timeoutMs) (SockOf .vsock) := by
  rw [wcatVsockConnect]
  split
  · exact within_socketConnect hq hsock (fun m => hconn m _ _) hc _
  · exact Within.step (hq _ rfl) fun _ => sockOf_none

omit hq in
theorem within_wcatVsockListen (hq : ∀ e, Quiet e = true → F e)
    (hsock : F (.socket .vsock)) (hc : ∀ m, F (.close (.sock .vsock m))) (cid port : Bytes)
    (backlog : ℕ) : Within F (wcatVsockListen cid port backlog) (SockOf .vsock) := by
  rw [wcatVsockListen]
  split
  · exact within_socketListen hq hsock hc (by trivial) _
  · exact Within.step (hq _ rfl) fun _ => sockOf_none

omit hq in
theorem within_wcatUdpConnect (hq : ∀ e, Quiet e = true → F e)
    (hsock : F (.socket .udp)) {host port : Bytes}
    (hconn : ∀ m k, F (.connect (.sock .udp m) (.inet host port k)))
    (hc : ∀ m, F (.close (.sock .udp m))) (family : Family) :
    Within F (wcatUdpConnect host port family) (SockOf .udp) := by
  refine (within_resolve (still_of_quiet hq) _ _ _ _ _).next fun r => ?_
  rcases r with _ | n
  · exact sockOf_none
  · exact within_firstAddress hq hsock hc fun m k => Within.step (hq _ rfl) fun _ =>
      Within.step (hconn m k) fun _ => trivial

omit hq in
theorem within_wcatUdpBind (hq : ∀ e, Quiet e = true → F e)
    (hsock : F (.socket .udp)) (hc : ∀ m, F (.close (.sock .udp m))) (host port : Bytes)
    (family : Family) : Within F (wcatUdpBind host port family) (SockOf .udp) := by
  refine (within_resolve (still_of_quiet hq) _ _ _ _ _).next fun r => ?_
  rcases r with _ | n
  · exact sockOf_none
  · exact within_firstAddress hq hsock hc fun m k => Within.step (hq _ rfl) fun _ =>
      Within.step (hq _ rfl) fun _ => trivial

/-- A connection accepted on a listener, if there is one. -/
def AcceptedOn (listener : Fd) (peer : Option Peer) : Prop :=
  ∀ x ∈ peer, ∃ n, x.fd = listener.accepted n

omit hq in
theorem acceptedOn_none {listener : Fd} : AcceptedOn listener none := fun _ h => absurd h (by simp)

theorem within_wcatAccept {listener : Fd} (hacc : F (.accept listener)) (sizes : Option (ℕ × ℕ)) :
    Within F (wcatAccept listener sizes) (AcceptedOn listener) := by
  refine Within.loop (fun _ => True) trivial fun _ _ => Within.step hacc ?_
  rintro (err | n)
  · cases err <;> first | trivial | exact acceptedOn_none
  refine Within.step (hq _ rfl) fun _ => ?_
  rcases sizes with _ | ⟨hostLen, portLen⟩
  · rintro _ ⟨⟩
    exact ⟨n, rfl⟩
  · refine Within.step (hq _ rfl) fun _ => ?_
    rintro _ ⟨⟩
    exact ⟨n, rfl⟩

theorem within_acceptWhenReady (hstop : F .stop) {listener : Fd} (hacc : F (.accept listener))
    (sizes : Option (ℕ × ℕ)) :
    Within F (acceptWhenReady listener sizes) (AcceptedOn listener) := by
  refine Within.loop (fun _ => True) trivial fun _ _ => Within.step hstop fun stop => ?_
  split_ifs
  · exact Within.step (hq _ rfl) fun _ => acceptedOn_none
  refine Within.step (hq _ rfl) fun r => ?_
  rcases r with err | _ | _
  · cases err <;> first | trivial | exact acceptedOn_none
  · trivial
  · simp only
    split_ifs
    · exact (within_wcatAccept hq hacc sizes).bind' fun _ h => h
    · exact Within.step (hq _ rfl) fun _ => acceptedOn_none
    · trivial

theorem within_wcatAccessCheckFd {fd : Fd} (hpeer : F (.getpeername fd)) (cfg : Config) :
    Within F (wcatAccessCheckFd cfg fd) fun _ => True := by
  rw [wcatAccessCheckFd]
  split_ifs
  · trivial
  have hfd : Within F (fdPeerAddr fd) fun _ => True := by
    refine Within.step hpeer fun r => ?_
    rcases r with _ | _ | _ | _ <;> trivial
  refine hfd.next fun r => ?_
  rcases r with _ | ⟨family, addr⟩
  · exact Within.step (hq _ rfl) fun _ => trivial
  · simp only
    split_ifs
    · exact Within.step (hq _ rfl) fun _ => trivial
    · exact Within.step (hq _ rfl) fun _ => trivial
    · trivial

/-! ### TLS and QUIC -/

theorem within_quicHandleEvents (t : TlsStream) :
    Within F (quicHandleEvents t) fun _ => True := by
  rw [quicHandleEvents]
  split_ifs
  · exact Within.step (hq _ rfl) fun _ => trivial
  · trivial

theorem within_waitReady (fd : Fd) (pollin : Bool) (timeout : ℤ) :
    Within F (waitReady fd pollin timeout) fun _ => True := by
  refine Within.loop (fun _ => True) trivial fun _ _ => Within.step (hq _ rfl) fun r => ?_
  rcases r with err | _ | _
  · cases err <;> trivial
  · trivial
  · trivial

omit hq in
theorem within_wcatTlsClose {t : TlsStream} (hs : F (.sslShutdown t.fd)) (hc : F (.close t.fd)) :
    Within F (wcatTlsClose t) fun _ => True := by
  refine (Within.optional hs).next fun _ => ?_
  split_ifs
  · exact within_wcatCloseQuiet hc
  · trivial

/-- A session on the descriptor `fd`, if there is one. -/
def SessionOn (fd : Fd) (t : Option TlsStream) : Prop := ∀ x ∈ t, x.fd = fd

omit hq in
theorem sessionOn_none {fd : Fd} : SessionOn fd none := fun _ h => absurd h (by simp)

omit hq in
theorem within_failOpen {t : TlsStream} {report : Proc Unit} {fd : Fd}
    (hr : Within F report fun _ => True) (hs : F (.sslShutdown t.fd)) (hc : F (.close t.fd)) :
    Within F (failOpen t report) (SessionOn fd) :=
  hr.next fun _ => (within_wcatTlsClose hs hc).next fun _ => sessionOn_none

theorem within_logOpensslError (event message : String) :
    Within F (logOpensslError event message) fun _ => True := within_sys (hq _ rfl)

omit hq in
theorem within_useCertificate (ht : ∀ e, Tame e = true → F e) (cert key : Bytes) :
    Within F (useCertificate cert key) fun _ => True := by
  refine Within.step (ht _ rfl) fun ok => ?_
  split_ifs
  · refine Within.step (ht _ rfl) fun ok => ?_
    split_ifs
    · exact within_sys (ht _ rfl)
    · trivial
  · trivial

theorem within_configureVerify (verifyPeer : Bool) (caFile : Option Bytes) :
    Within F (configureVerify verifyPeer caFile) fun _ => True := by
  refine Within.step (hq _ rfl) fun _ => ?_
  split_ifs
  · rcases caFile with _ | file
    · refine Within.step (hq _ rfl) fun ok => ?_
      split_ifs <;> trivial
    · refine Within.step (hq _ rfl) fun ok => ?_
      split_ifs <;> trivial
  · trivial

omit hq in
theorem within_clientCertificate (ht : ∀ e, Tame e = true → F e)
    (clientCert clientKey : Option Bytes) :
    Within F (clientCertificate clientCert clientKey) fun _ => True := by
  rcases clientCert with _ | cert <;> rcases clientKey with _ | key
  · trivial
  · exact Within.step (ht _ rfl) fun _ => trivial
  · exact Within.step (ht _ rfl) fun _ => trivial
  · exact (within_useCertificate ht cert key).next fun _ => trivial

theorem within_configureClientVerify (caFile : Option Bytes) (requireClientCert : Bool) :
    Within F (configureClientVerify caFile requireClientCert) fun _ => True := by
  refine Within.ite (fun _ => ?_) fun _ => ?_
  · rcases caFile with _ | file
    · exact Within.step (hq _ rfl) fun _ => trivial
    · refine Within.step (hq _ rfl) fun ok => ?_
      split_ifs
      · exact Within.step (hq _ rfl) fun _ => trivial
      · trivial
  · trivial

theorem within_wcatTlsClientOpen {fd : Fd} (hconn : F (.sslConnect fd)) (hs : F (.sslShutdown fd))
    (hc : F (.close fd)) (servername : Bytes) (verifyPeer : Bool)
    (caFile clientCert clientKey : Option Bytes) :
    Within F (wcatTlsClientOpen fd servername verifyPeer caFile clientCert clientKey)
      (SessionOn fd) := by
  have hfail : ∀ {t : TlsStream} {report : Proc Unit}, t.fd = fd → Within F report (fun _ => True) →
      Within F (failOpen t report) (SessionOn fd) := by
    rintro t report rfl hr
    exact within_failOpen hr hs hc
  have hlog : ∀ event message, Within F (logOpensslError event message) fun _ => True :=
    within_logOpensslError hq
  refine Within.step (hq _ rfl) fun ctx => Within.ite (fun _ => hfail rfl (hlog _ _)) fun _ => ?_
  refine (within_configureVerify hq _ _).next fun ca => ?_
  rcases ca with _ | message
  swap
  · exact hfail rfl (hlog _ _)
  refine (within_clientCertificate (tame_of_still hq) _ _).next fun cert => ?_
  rcases cert with _ | _ | _
  · exact hfail rfl (by trivial)
  · exact hfail rfl (hlog _ _)
  refine Within.step (hq _ rfl) fun session =>
    Within.ite (fun _ => hfail rfl (hlog _ _)) fun _ => ?_
  refine Within.step (hq _ rfl) fun _ => ?_
  refine (Within.optional (hq _ rfl)).next fun hostOk =>
    Within.ite (fun _ => hfail rfl (hlog _ _)) fun _ => ?_
  refine Within.step hconn fun connected => Within.ite (fun _ => hfail rfl (hlog _ _)) fun _ => ?_
  refine (Within.optional (hq _ rfl)).next fun verified =>
    Within.ite (fun _ => hfail rfl (within_sys (hq _ rfl))) fun _ => ?_
  refine Within.step (hq _ rfl) fun _ => ?_
  rintro _ ⟨⟩
  rfl

theorem within_wcatTlsServerOpen {fd : Fd} (hacc : F (.sslAccept fd)) (hs : F (.sslShutdown fd))
    (hc : F (.close fd)) (cert key caFile : Option Bytes) (requireClientCert : Bool) :
    Within F (wcatTlsServerOpen fd cert key caFile requireClientCert) (SessionOn fd) := by
  have hfail : ∀ {t : TlsStream} {report : Proc Unit}, t.fd = fd → Within F report (fun _ => True) →
      Within F (failOpen t report) (SessionOn fd) := by
    rintro t report rfl hr
    exact within_failOpen hr hs hc
  have hlog : ∀ event message, Within F (logOpensslError event message) fun _ => True :=
    within_logOpensslError hq
  rcases cert with _ | cert
  · exact hfail rfl (within_sys (hq _ rfl))
  rcases key with _ | key
  · exact hfail rfl (within_sys (hq _ rfl))
  refine Within.step (hq _ rfl) fun ctx => Within.ite (fun _ => hfail rfl (hlog _ _)) fun _ => ?_
  refine (within_useCertificate (tame_of_still hq) cert key).next fun used =>
    Within.ite (fun _ => hfail rfl (hlog _ _)) fun _ => ?_
  refine (within_configureClientVerify hq _ _).next fun verify => ?_
  rcases verify with _ | _ | _
  · exact hfail rfl (by trivial)
  · exact hfail rfl (hlog _ _)
  refine Within.step (hq _ rfl) fun session =>
    Within.ite (fun _ => hfail rfl (hlog _ _)) fun _ => ?_
  refine Within.step hacc fun accepted => Within.ite (fun _ => hfail rfl (hlog _ _)) fun _ => ?_
  refine (Within.optional (hq _ rfl)).next fun verified =>
    Within.ite (fun _ => hfail rfl (within_sys (hq _ rfl))) fun _ => ?_
  refine Within.step (hq _ rfl) fun _ => ?_
  rintro _ ⟨⟩
  rfl

omit hq in
theorem within_openUdpPeer (ht : ∀ e, Tame e = true → F e) (hsock : F (.socket .udp)) {cfg : Config}
    (hconn : ∀ m k, F (.connect (.sock .udp m) (.inet cfg.hostArg cfg.portArg k)))
    (hc : ∀ m, F (.close (.sock .udp m))) : Within F (openUdpPeer cfg) (SockOf .udp) := by
  refine Within.step (ht _ rfl) fun r => ?_
  rcases r with _ | n
  · exact Within.next (within_sys (ht _ rfl)) fun _ => sockOf_none
  refine Within.bind' (Q := SockOf .udp) (Within.loop (fun _ => True) trivial fun k _ =>
    Within.ite (fun _ => ?_) fun _ => sockOf_none) fun fd hfd => ?_
  · refine Within.step hsock ?_
    rintro (err | m)
    · trivial
    refine Within.step (hconn m k) fun err => (Within.optional (ht _ rfl)).next fun nbio => ?_
    refine Within.ite (fun _ => (within_closeFd (hc m)).next fun _ => trivial) fun _ => ?_
    refine Within.step (ht _ rfl) fun dup => ?_
    exact Within.ite (fun _ => (within_closeFd (hc m)).next fun _ => sockOf_none) fun _ => sockOf_some
  · exact (Within.optional (ht _ rfl)).next fun _ => hfd

theorem within_configureClientCtx (cfg : Config) :
    Within F (configureClientCtx cfg) fun _ => True := by
  refine (within_configureVerify hq _ _).next fun ca => ?_
  rcases ca with _ | message
  swap
  · exact (within_logOpensslError hq _ _).next fun _ => trivial
  refine (within_clientCertificate (tame_of_still hq) _ _).next fun cert => ?_
  rcases cert with _ | _ | _
  · trivial
  · exact (within_logOpensslError hq _ _).next fun _ => trivial
  · trivial

omit hq in
theorem within_setAlpn (ht : ∀ e, Tame e = true → F e) (alpn : Bytes) :
    Within F (setAlpn alpn) fun _ => True :=
  Within.ite (fun _ => Within.step (ht _ rfl) fun _ => trivial) fun _ => within_sys (ht _ rfl)

/-- A session on a UDP socket, if there is one. -/
def UdpSession (t : Option TlsStream) : Prop := ∀ x ∈ t, ∃ m, x.fd = .sock .udp m

omit hq in
theorem within_wcatQuicClientOpen (hq : ∀ e, Quiet e = true → F e) (hsock : F (.socket .udp))
    {cfg : Config}
    (hconn : ∀ m k, F (.connect (.sock .udp m) (.inet cfg.hostArg cfg.portArg k)))
    (hssl : ∀ m, F (.sslConnect (.sock .udp m))) (hs : ∀ m, F (.sslShutdown (.sock .udp m)))
    (hc : ∀ m, F (.close (.sock .udp m))) : Within F (wcatQuicClientOpen cfg) UdpSession := by
  have hnone : UdpSession none := fun _ h => absurd h (by simp)
  have hlog : ∀ event message, Within F (logOpensslError event message) fun _ => True :=
    within_logOpensslError (still_of_quiet hq)
  refine Within.step (hq _ rfl) fun ctx => ?_
  refine Within.next
    (Within.ite (fun _ => within_configureClientCtx (still_of_quiet hq) cfg) fun _ => trivial)
    fun configured => Within.ite (fun _ => (hlog _ _).next fun _ => hnone) fun _ => ?_
  refine (within_openUdpPeer (tame_of_still (still_of_quiet hq)) hsock hconn hc).bind' fun fd hfd => ?_
  rcases fd with _ | fd
  · exact hnone
  obtain ⟨m, rfl⟩ := hfd fd rfl
  have hfail : ∀ {t : TlsStream} {event message}, t.fd = .sock .udp m →
      Within F (failOpen t (logOpensslError event message)) UdpSession := by
    intro t event message ht
    refine (@within_failOpen _ _ _ (.sock .udp m) (hlog _ _) (ht ▸ hs m) (ht ▸ hc m)).post_mono ?_
    exact fun r hr x hx => ⟨m, hr x hx⟩
  refine Within.step (hq _ rfl) fun session => Within.ite (fun _ => hfail rfl) fun _ => ?_
  refine Within.step (hq _ rfl) fun bio => Within.ite (fun _ => hfail rfl) fun _ => ?_
  refine Within.step (hq _ rfl) fun _ => (Within.optional (hq _ rfl)).next fun hostOk =>
    Within.ite (fun _ => hfail rfl) fun _ => ?_
  refine (within_setAlpn (tame_of_still (still_of_quiet hq)) _).next fun alpnOk =>
    (Within.optional (hq _ rfl)).next fun peerOk => Within.ite (fun _ => hfail rfl) fun _ => ?_
  refine Within.step (hssl m) fun connected => Within.ite (fun _ => hfail rfl) fun _ => ?_
  refine (Within.optional (hq _ rfl)).next fun verified => Within.ite (fun _ => ?_) fun _ => ?_
  · refine (@within_failOpen _ _ _ (.sock .udp m) (within_sys (hq _ rfl)) (hs m) (hc m)).post_mono ?_
    exact fun r hr x hx => ⟨m, hr x hx⟩
  refine Within.step (hq _ rfl) fun nonblocking => Within.ite (fun _ => hfail rfl) fun _ => ?_
  rintro _ ⟨⟩
  exact ⟨m, rfl⟩

theorem within_configureServerCtx (cfg : Config) :
    Within F (configureServerCtx cfg) fun _ => True := by
  rw [configureServerCtx]
  split
  · refine (within_useCertificate (tame_of_still hq) _ _).next fun used => Within.ite (fun _ => ?_) fun _ => ?_
    · exact (within_logOpensslError hq _ _).next fun _ => trivial
    refine (within_configureClientVerify hq _ _).next fun verify => ?_
    rcases verify with _ | _ | _
    · trivial
    · exact (within_logOpensslError hq _ _).next fun _ => trivial
    · refine Within.next (Within.ite (fun _ => trivial) fun _ => within_sys (hq _ rfl)) fun _ => ?_
      exact Within.step (hq _ rfl) fun _ => trivial
  · exact Within.step (hq _ rfl) fun _ => trivial

omit hq in
theorem within_wcatQuicListenerOpen (hq : ∀ e, Quiet e = true → F e)
    (hsock : F (.socket .udp)) {cfg : Config} (hc : ∀ m, F (.close (.sock .udp m))) :
    Within F (wcatQuicListenerOpen cfg) fun r => ∀ x ∈ r, ∃ m, x.fd = .sock .udp m := by
  have hnone : ∀ x ∈ (none : Option QuicListener), ∃ m, x.fd = .sock .udp m :=
    fun _ h => absurd h (by simp)
  have hlog : ∀ event message, Within F (logOpensslError event message) fun _ => True :=
    within_logOpensslError (still_of_quiet hq)
  refine Within.step (hq _ rfl) fun ctx => ?_
  refine Within.next
    (Within.ite (fun _ => within_configureServerCtx (still_of_quiet hq) cfg) fun _ => trivial)
    fun configured => Within.ite (fun _ => (hlog _ _).next fun _ => hnone) fun _ => ?_
  refine (within_wcatUdpBind hq hsock hc _ _ _).bind' fun fd hfd => ?_
  rcases fd with _ | fd
  · exact Within.step (hq _ rfl) fun _ => hnone
  obtain ⟨m, rfl⟩ := hfd fd rfl
  refine Within.step (hq _ rfl) fun nonblocking => Within.ite (fun _ => ?_) fun _ => ?_
  · exact Within.step (hq _ rfl) fun _ => (within_wcatCloseQuiet (hc m)).next fun _ => hnone
  refine Within.step (hq _ rfl) fun created => (Within.optional (hq _ rfl)).next fun blocking =>
    (Within.optional (hq _ rfl)).next fun listening => Within.ite (fun _ => ?_) fun _ => ?_
  · exact (hlog _ _).next fun _ => (within_wcatCloseQuiet (hc m)).next fun _ => hnone
  · rintro _ ⟨⟩
    exact ⟨m, rfl⟩

theorem within_waitForQuicActivity (fd : Fd) (fallbackMs : ℕ) :
    Within F (waitForQuicActivity fd fallbackMs) fun _ => True := by
  refine Within.step (hq _ rfl) fun desired => ?_
  have htimeout : Within F (quicEventTimeoutMs fd fallbackMs) fun _ => True := by
    refine Within.step (hq _ rfl) fun r => ?_
    rcases r with _ | ms <;> trivial
  refine htimeout.next fun timeout => ?_
  refine Within.loop (fun _ => True) trivial fun _ _ => Within.step (hq _ rfl) fun r => ?_
  rcases r with err | _ | _
  · cases err <;> trivial
  · trivial
  · trivial

/-- A QUIC connection is accepted on the socket of its listener, which it does not own. -/
theorem within_wcatQuicAccept (hstop : F .stop) (listener : QuicListener) :
    Within F (wcatQuicAccept listener) fun r => ∀ t ∈ r, t.fd = listener.fd ∧ t.ownsFd = false := by
  have hnone : ∀ t ∈ (none : Option TlsStream), t.fd = listener.fd ∧ t.ownsFd = false :=
    fun _ h => absurd h (by simp)
  have hloop : Within F (Prog.loop (fun _ => do
      if ← sys .stop then do
        sys (.setErrno .eintr)
        pure (.inr false)
      else if !(← sys (.sslHandleEvents listener.fd)) then do
        logOpensslError "quic_accept" "QUIC listener event handling failed"
        pure (.inr false)
      else if ← sys (.sslAcceptConnection listener.fd) then pure (.inr true)
      else if ← waitForQuicActivity listener.fd 250 then pure (.inl ())
      else do
        sys (.logErrno "quic_accept" (lit "QUIC accept poll failed"))
        pure (.inr false)) ()) fun _ => True := by
    refine Within.loop (fun _ => True) trivial fun _ _ => Within.step hstop fun stop => ?_
    refine Within.ite (fun _ => Within.step (hq _ rfl) fun _ => trivial) fun _ => ?_
    refine Within.step (hq _ rfl) fun handled => Within.ite (fun _ => ?_) fun _ => ?_
    · exact (within_logOpensslError hq _ _).next fun _ => trivial
    refine Within.step (hq _ rfl) fun came => Within.ite (fun _ => trivial) fun _ => ?_
    refine (within_waitForQuicActivity hq _ _).next fun active => Within.ite (fun _ => trivial) fun _ => ?_
    exact Within.step (hq _ rfl) fun _ => trivial
  refine hloop.next fun accepted => Within.ite (fun _ => hnone) fun _ => ?_
  refine Within.step (hq _ rfl) fun blocking => Within.ite (fun _ => ?_) fun _ => ?_
  · exact (within_logOpensslError hq _ _).next fun _ => hnone
  · rintro _ ⟨⟩
    exact ⟨rfl, rfl⟩

/-! ### Streams -/

omit hq in
/-- **A stream in a footprint**: whatever it reads, writes and closes. -/
def StreamIn (F : Sys → Prop) (s : Stream) : Prop :=
  match s.io with
  | .fd rawFd writeFd _ => (∀ len, F (.read (.stream s.obj) rawFd len 0 len)) ∧
      ∀ w ∈ writeFd, (∀ buf, F (.write (.stream s.obj) w buf)) ∧ (w ≠ rawFd → F (.close w))
  | .tls t => (∀ len, F (.sslRead s.obj t.fd len)) ∧ (∀ buf, F (.sslWrite s.obj t.fd buf)) ∧
      F (.sslStreamConclude t.fd) ∧ F (.sslShutdown t.fd)

omit hq in
theorem StreamIn.mono {G : Sys → Prop} (hFG : ∀ e, F e → G e) {s : Stream} (hs : StreamIn F s) :
    StreamIn G s := by
  obtain ⟨o, ⟨r, w, c⟩ | t, close⟩ := s
  · exact ⟨fun len => hFG _ (hs.1 len), fun w hw =>
      ⟨fun buf => hFG _ ((hs.2 w hw).1 buf), fun hne => hFG _ ((hs.2 w hw).2 hne)⟩⟩
  · exact ⟨fun len => hFG _ (hs.1 len), fun buf => hFG _ (hs.2.1 buf), hFG _ hs.2.2.1,
      hFG _ hs.2.2.2⟩

variable {a b : Stream}

theorem within_read (ha : StreamIn F a) (len : ℕ) : Within F (a.read len) fun _ => True := by
  obtain ⟨o, _ | t, close⟩ := a
  · exact within_sys (ha.1 len)
  · refine (within_quicHandleEvents hq t).next fun _ => Within.step (ha.1 len) fun r => ?_
    rcases r with _ | err
    · trivial
    · exact Within.ite (fun _ => (within_quicHandleEvents hq t).next fun _ => trivial)
        fun _ => trivial

theorem within_wcatTlsWrite {o : Obj} {t : TlsStream} (hw : ∀ buf, F (.sslWrite o t.fd buf))
    (buf : Bytes) : Within F (wcatTlsWrite o t buf) fun _ => True := by
  have hev : Within F (quicHandleEvents t) fun _ => True := within_quicHandleEvents hq t
  refine Within.loop (fun _ => True) trivial fun off _ => Within.ite (fun _ => ?_) fun _ => ?_
  · refine hev.next fun _ => Within.step (hw _) fun r => ?_
    rcases r with _ | err
    · exact hev.next fun _ => trivial
    refine Within.ite (fun _ => hev.next fun _ => (within_waitReady hq _ _ _).next fun res => ?_)
      fun _ => trivial
    rcases res with _ | _ | _ <;> trivial
  · exact hev.next fun _ => trivial

theorem within_write (ha : StreamIn F a) (buf : Bytes) : Within F (a.write buf) fun _ => True := by
  obtain ⟨o, ⟨rawFd, _ | writeFd, can⟩ | t, close⟩ := a
  · trivial
  · exact within_wcatFullWrite (ha.2 writeFd rfl).1 buf
  · exact within_wcatTlsWrite hq ha.2.1 buf

theorem within_wcatTlsShutdownWrite (hstop : F .stop) {t : TlsStream}
    (hconclude : F (.sslStreamConclude t.fd)) (hs : F (.sslShutdown t.fd)) :
    Within F (wcatTlsShutdownWrite t) fun _ => True := by
  refine Within.ite (fun _ => trivial) fun _ => Within.ite (fun _ => ?_) fun _ =>
    Within.step hs fun _ => trivial
  refine Within.loop (fun _ => True) trivial fun _ _ => Within.step hstop fun stop =>
    Within.ite (fun _ => trivial) fun _ => ?_
  refine (within_quicHandleEvents hq t).next fun _ => Within.step hconclude fun r => ?_
  rcases r with _ | err
  · trivial
  refine Within.ite (fun _ => (within_waitReady hq _ _ _).next fun res => ?_) fun _ => trivial
  rcases res with _ | _ <;> trivial

/-- Half closing a stream leaves it in the footprint. -/
theorem within_shutdownWrite_in (hstop : F .stop) (ha : StreamIn F a) :
    Within F a.shutdownWrite fun a' => StreamIn F a' := by
  obtain ⟨o, ⟨rawFd, _ | writeFd, _ | _⟩ | t, close⟩ := a
  · exact ha
  · exact ha
  · exact ha
  · refine Within.ite (fun _ => Within.step (hq _ rfl) fun _ => ha) fun hne => ?_
    refine (within_wcatCloseQuiet ((ha.2 writeFd rfl).2 hne)).next fun _ => ⟨ha.1, ?_⟩
    exact fun _ h => absurd h (by simp)
  · exact (within_wcatTlsShutdownWrite hq hstop ha.2.2.1 ha.2.2.2).next fun _ => ha

theorem within_pumpOnce (ha : StreamIn F a) (hb : StreamIn F b) (label : String)
    (opts : RelayOptions) : Within F (pumpOnce a b label opts) fun _ => True := by
  refine Within.next (Within.loop (fun _ => True) trivial fun _ _ =>
    (within_read hq ha _).next fun r => ?_) fun r => ?_
  · rcases r with _ | _ | err
    · trivial
    · trivial
    · cases err <;> trivial
  rcases r with _ | _ | err
  · refine (Within.optional (hq _ rfl)).next fun _ => (within_write hq hb _).next fun n => ?_
    exact Within.ite (fun _ => trivial) fun _ => trivial
  · trivial
  · cases err <;> trivial

theorem within_wcatCopyStream (hstop : F .stop) (ha : StreamIn F a) (hb : StreamIn F b)
    (opts : RelayOptions) : Within F (wcatCopyStream a b opts) fun _ => True := by
  refine Within.loop (fun _ => True) trivial fun _ _ => Within.step hstop fun stop =>
    Within.ite (fun _ => trivial) fun _ => (within_pumpOnce hq ha hb _ _).next fun r => ?_
  cases r <;> trivial

/-- The streams of a relay stay in the footprint. -/
def RelayIn (F : Sys → Prop) (s : RelayState) : Prop := StreamIn F s.a ∧ StreamIn F s.b

theorem within_pumpDir (hstop : F .stop) {s : RelayState} (hs : RelayIn F s) (d : Dir)
    (opts : RelayOptions) :
    Within F (pumpDir d opts s) (Sum.elim (RelayIn F) fun _ => True) := by
  have hsrc : StreamIn F (s.src d) := by
    cases d
    · exact hs.1
    · exact hs.2
  have hdst : StreamIn F (s.dst d) := by
    cases d
    · exact hs.2
    · exact hs.1
  refine (within_pumpOnce hq hsrc hdst _ _).next fun r => ?_
  cases r with
  | more => exact hs
  | failed => trivial
  | ended =>
    refine (within_shutdownWrite_in hq hstop hdst).bind' fun t ht => ?_
    refine Within.ite (fun _ => trivial) fun _ => ?_
    cases d
    · exact ⟨hs.1, ht⟩
    · exact ⟨ht, hs.2⟩

theorem within_tickBoth (s : RelayState) : Within F (tickBoth s) fun _ => True := by
  have htick : ∀ t : Stream, Within F t.tick fun _ => True := by
    rintro ⟨o, _ | t, close⟩
    · trivial
    · exact Within.ite (fun _ => within_sys (hq _ rfl)) fun _ => trivial
  exact (htick s.a).next fun _ => Within.ite (fun _ => htick s.b) fun _ => trivial

theorem within_hasPending_quiet (active : Bool) (t : Stream) :
    Within F (hasPending active t) fun _ => True := by
  refine Within.ite (fun _ => Within.next ?_ fun _ => trivial) fun _ => trivial
  obtain ⟨o, _ | t, close⟩ := t
  · trivial
  · exact (within_quicHandleEvents hq t).next fun _ => within_sys (hq _ rfl)

theorem within_relayRound (hstop : F .stop) {s : RelayState} (hs : RelayIn F s) (af bf : Fd)
    (opts : RelayOptions) :
    Within F (relayRound af bf opts s) (Sum.elim (RelayIn F) fun _ => True) := by
  have hpump : ∀ d, Within F (pumpDir d opts s) (Sum.elim (RelayIn F) fun _ => True) :=
    fun d => within_pumpDir hq hstop hs d opts
  refine Within.step hstop fun stop => Within.ite (fun _ => trivial) fun _ =>
    Within.ite (fun _ => trivial) fun _ => ?_
  refine (within_tickBoth hq s).next fun ticked => ?_
  refine Within.ite (fun _ => trivial) fun _ => ?_
  refine (within_hasPending_quiet hq _ _).next fun _ => Within.ite (fun _ => hpump .ab) fun _ => ?_
  refine (within_hasPending_quiet hq _ _).next fun _ => Within.ite (fun _ => hpump .ba) fun _ => ?_
  refine Within.step (hq _ rfl) fun r => ?_
  rcases r with err | _ | ⟨revents, -, -, -⟩
  · cases err <;> first | exact hs | trivial
  · exact Within.ite (fun _ => hs) fun _ => Within.step (hq _ rfl) fun _ => trivial
  · refine Within.bind' (Q := Sum.elim (RelayIn F) fun _ => True)
      (Within.ite (fun _ => hpump .ab) fun _ => hs) fun r hr => ?_
    rcases r with s' | ok
    · exact Within.ite (fun _ => within_pumpDir hq hstop hr .ba opts) fun _ => hr
    · trivial

/-- **A relay uses its two streams**, and quiet requests. -/
theorem within_wcatRelayBidirectional (hstop : F .stop) (ha : StreamIn F a) (hb : StreamIn F b)
    (opts : RelayOptions) : Within F (wcatRelayBidirectional a b opts) fun _ => True :=
  Within.loop (RelayIn F) ⟨ha, hb⟩ fun _ hs => within_relayRound hq hstop hs _ _ _

/-! ### Proxies -/

omit hq in
theorem within_readExact {fd : Fd} {cap : ℕ} (hr : ∀ off len, F (.read .handshake fd cap off len))
    (len : ℕ) : Within F (readExact fd cap len) fun _ => True := by
  refine Within.loop (fun _ => True) trivial fun got _ => Within.ite (fun _ => ?_) fun _ => trivial
  refine Within.step (hr _ _) fun r => ?_
  rcases r with _ | _ | err
  · trivial
  · trivial
  · cases err <;> trivial

variable {fd : Fd}

theorem within_socks5Negotiate (hr : ∀ cap off len, F (.read .handshake fd cap off len))
    (hw : ∀ buf, F (.write .handshake fd buf)) (dstHost dstPort : Bytes) :
    Within F (socks5Negotiate fd dstHost dstPort) fun _ => True := by
  have hread : ∀ len, Within F (readExact fd repSize len) fun _ => True :=
    within_readExact (hr repSize)
  have hbound : ∀ rep, Within F (socks5BoundAddress fd rep) fun _ => True := by
    intro rep
    refine Within.ite (fun _ => (hread _).next fun _ => trivial) fun _ =>
      Within.ite (fun _ => ?_) fun _ => Within.ite (fun _ => (hread _).next fun _ => trivial)
        fun _ => Within.step (hq _ rfl) fun _ => trivial
    exact (hread _).next fun _ => Within.ite (fun _ => trivial) fun _ =>
      (hread _).next fun _ => trivial
  have hconnect : ∀ port rep, Within F (socks5Connect fd dstHost port rep) fun _ => True := by
    intro port rep
    refine (within_wcatFullWrite hw _).next fun n => Within.ite
      (fun _ => Within.step (hq _ rfl) fun _ => trivial) fun _ => (hread _).next fun r => ?_
    refine Within.ite (fun _ => Within.next (Within.ite (fun _ => within_sys (hq _ rfl)) fun _ =>
      within_sys (hq _ rfl)) fun _ => trivial) fun _ => hbound _
  rw [socks5Negotiate]
  split
  · refine (within_wcatFullWrite hw _).next fun n => Within.next
      (Within.ite (fun _ => hread _) fun _ => trivial) fun r => Within.ite
        (fun _ => Within.step (hq _ rfl) fun _ => trivial) fun _ => hconnect _ _
  · exact Within.step (hq _ rfl) fun _ => Within.step (hq _ rfl) fun _ => trivial

theorem within_httpConnectNegotiate (hr : ∀ cap off len, F (.read .handshake fd cap off len))
    (hw : ∀ buf, F (.write .handshake fd buf)) (dstHost dstPort : Bytes) :
    Within F (httpConnectNegotiate fd dstHost dstPort) fun _ => True := by
  refine Within.ite (fun _ => Within.step (hq _ rfl) fun _ => Within.step (hq _ rfl) fun _ => trivial)
    fun _ => (within_wcatFullWrite hw _).next fun n => Within.ite
      (fun _ => Within.step (hq _ rfl) fun _ => trivial) fun _ => Within.next ?_ fun response => ?_
  · refine Within.loop (fun _ => True) trivial fun buf _ => Within.ite (fun _ => ?_) fun _ => trivial
    refine Within.step (hr _ _ _) fun r => ?_
    rcases r with _ | _ | err
    · exact Within.ite (fun _ => trivial) fun _ => trivial
    · exact Within.step (hq _ rfl) fun _ => trivial
    · exact Within.step (hq _ rfl) fun _ => trivial
  · rcases response with _ | buf
    · trivial
    · exact Within.ite (fun _ => Within.step (hq _ rfl) fun _ => trivial) fun _ => trivial

theorem within_negotiate (hr : ∀ cap off len, F (.read .handshake fd cap off len))
    (hw : ∀ buf, F (.write .handshake fd buf)) (type : ProxyType) (dstHost dstPort : Bytes) :
    Within F (negotiate type fd dstHost dstPort) fun _ => True := by
  cases type with
  | none => trivial
  | socks5 => exact within_socks5Negotiate hq hr hw _ _
  | http => exact within_httpConnectNegotiate hq hr hw _ _

/-- Who is connected to for a target: the proxy, or the target itself when there is
none. -/
def Proxy.dialed (proxy : Proxy) (dstHost dstPort : Bytes) : Bytes × Bytes :=
  if proxy.type = .none then (dstHost, dstPort) else (proxy.host, proxy.port)

omit hq in
theorem within_wcatProxyConnect (hq : ∀ e, Quiet e = true → F e)
    (hsock : F (.socket .tcp)) {proxy : Proxy} {dstHost dstPort : Bytes}
    (hconn : ∀ m k, F (.connect (.sock .tcp m) (.inet (proxy.dialed dstHost dstPort).1
      (proxy.dialed dstHost dstPort).2 k)))
    (hc : ∀ m, F (.close (.sock .tcp m)))
    (hr : ∀ m cap off len, F (.read .handshake (.sock .tcp m) cap off len))
    (hw : ∀ m buf, F (.write .handshake (.sock .tcp m) buf)) (family : Family) (timeoutMs : ℤ) :
    Within F (wcatProxyConnect proxy dstHost dstPort family timeoutMs) (SockOf .tcp) := by
  refine Within.ite (fun hnone => ?_) fun hsome => ?_
  · simp only [Proxy.dialed, if_pos hnone] at hconn
    exact within_inetConnect hq hsock hconn hc _ _
  simp only [Proxy.dialed, if_neg hsome] at hconn
  refine (within_inetConnect hq hsock hconn hc _ _).bind' fun fd hfd => ?_
  rcases fd with _ | fd
  · exact sockOf_none
  obtain ⟨m, rfl⟩ := hfd fd rfl
  refine (within_negotiate (still_of_quiet hq) (hr m) (hw m) _ _ _).next fun ok =>
    Within.ite (fun _ => sockOf_some) fun _ => Within.step (hq _ rfl) fun _ => ?_
  exact (within_wcatCloseQuiet (hc m)).next fun _ => sockOf_none

/-! ### Sessions -/

/-- The stream `networkStream` returns: over TLS exactly when TLS was asked for. -/
def NetworkOn (cfg : Config) (obj : Obj) (fd : Fd) (net : Option Stream) : Prop :=
  ∀ s ∈ net, if cfg.tls = true then ∃ t : TlsStream, t.fd = fd ∧ s = wcatStreamFromTls obj t
    else s = wcatStreamFromFd obj fd

theorem within_networkStream {cfg : Config} (hconn : cfg.tls = true → F (.sslConnect fd))
    (hacc : cfg.tls = true → F (.sslAccept fd)) (hs : cfg.tls = true → F (.sslShutdown fd))
    (hc : F (.close fd)) (obj : Obj) (serverSide : Bool) :
    Within F (networkStream cfg obj fd serverSide) (NetworkOn cfg obj fd) := by
  refine Within.ite (fun htls => ?_) fun htls => ?_
  · refine Within.bind' (Q := SessionOn fd) (Within.ite (fun _ => ?_) fun _ => ?_) fun t ht => ?_
    · exact within_wcatTlsServerOpen hq (hacc htls) (hs htls) hc _ _ _ _
    · exact within_wcatTlsClientOpen hq (hconn htls) (hs htls) hc _ _ _ _ _
    · intro s hs
      obtain ⟨t', ht', rfl⟩ := Option.mem_map.mp hs
      rw [if_pos htls]
      exact ⟨t', ht t' ht', rfl⟩
  · rintro _ ⟨⟩
    rw [if_neg htls]

omit hq in
theorem NetworkOn.obj_eq {cfg : Config} {obj : Obj} {net : Stream}
    (hnet : NetworkOn cfg obj fd (some net)) : net.obj = obj := by
  have hn := hnet net rfl
  split_ifs at hn
  · obtain ⟨t, -, rfl⟩ := hn
    rfl
  · rw [hn]
    rfl

omit hq in
theorem within_closeNetwork {cfg : Config} {obj : Obj} {net : Stream}
    (hnet : NetworkOn cfg obj fd (some net)) (hs : cfg.tls = true → F (.sslShutdown fd))
    (hc : F (.close fd)) : Within F (closeNetwork net) fun _ => True := by
  have hn := hnet net rfl
  split_ifs at hn with htls
  · obtain ⟨t, rfl, rfl⟩ := hn
    exact within_wcatTlsClose (hs htls) hc
  · rw [hn]
    exact within_wcatCloseQuiet hc

/-- The transport a file is sent over. -/
def sendTransport (cfg : Config) : Transport := if cfg.udp then .udp else .tcp

/-- Who is connected to when a file is sent. -/
def sendPeer (cfg : Config) (proxy : Proxy) : Bytes × Bytes :=
  if cfg.udp then (cfg.hostArg, cfg.portArg) else proxy.dialed cfg.hostArg cfg.portArg

omit hq in
theorem within_sendSocket (hq : ∀ e, Quiet e = true → F e) {cfg : Config} {proxy : Proxy}
    (hsock : F (.socket (sendTransport cfg)))
    (hconn : ∀ m k, F (.connect (.sock (sendTransport cfg) m)
      (.inet (sendPeer cfg proxy).1 (sendPeer cfg proxy).2 k)))
    (hc : ∀ m, F (.close (.sock (sendTransport cfg) m)))
    (hr : ∀ m cap off len, F (.read .handshake (.sock .tcp m) cap off len))
    (hw : ∀ m buf, F (.write .handshake (.sock .tcp m) buf)) :
    Within F (sendSocket cfg proxy) (SockOf (sendTransport cfg)) := by
  rw [sendSocket]
  rw [sendTransport] at hsock hconn hc ⊢
  rw [sendPeer] at hconn
  split_ifs at hsock hconn hc ⊢ with hudp
  · exact within_wcatUdpConnect hq hsock hconn hc _
  · exact within_wcatProxyConnect hq hsock hconn hc hr hw _ _

end Sockets

end Wirecat
