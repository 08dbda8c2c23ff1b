import Wirecat.Descriptors

/-!
# Nothing is left open

The ledger of `Wirecat.Descriptors` over whole runs: what a mode opens it closes, each
descriptor once. A listener is closed by whoever opened it, a connection by whoever serves
it, and what could not be set up by whoever tried.

A server may run for as long as it is not stopped, so the statement about its loop is an
invariant: between two rounds it holds what its state says it holds, and nothing else.
-/

namespace Wirecat

open CString Interaction

section Ledger

variable {legal : Hist → (e : Sys) → Resp e → Prop} {lasting : Obj → Prop}
variable (hlegal : ∀ h e r, legal h e r → Legal h e r ∧ Steady lasting ⟨e, r⟩)
variable {α : Type} {S : Set Fd} {cfg : Config}

theorem sdiff_got {fd : Fd} (hnew : fd ∉ S) : (S ∪ {fd}) \ {fd} = S := by
  ext x
  simp only [Set.mem_sdiff, Set.mem_union, Set.mem_singleton_iff]
  grind

include hlegal

/-! ### Connecting -/

theorem keeps_wcatProxyConnect (proxy : Proxy) (dstHost dstPort : Bytes) (family : Family)
    (timeoutMs : ℤ) :
    descriptors.Keeps legal S (wcatProxyConnect proxy dstHost dstPort family timeoutMs) (Got S) := by
  refine Accounts.Keeps.ite (fun _ => keeps_inetConnect hlegal _ _ _ _ _) fun _ => ?_
  refine (keeps_inetConnect hlegal _ _ _ _ _).bind ?_
  rintro (_ | fd) S' hgot
  · exact Accounts.keeps_pure hgot
  obtain ⟨hnew, rfl⟩ := hgot
  refine Keeps.beside (within_negotiate neutral_of_still (fun _ _ _ => rfl) (fun _ => rfl) _ _ _)
    fun ok _ => Accounts.Keeps.ite (fun _ => Accounts.keeps_pure ⟨hnew, rfl⟩) fun _ => ?_
  exact Keeps.neutral rfl fun _ _ _ =>
    (keeps_giveBack hlegal hnew).bind fun _ _ hS => Accounts.keeps_pure hS

theorem keeps_connectSocket (cfg : Config) :
    descriptors.Keeps legal S (connectSocket cfg) (Got S) := by
  refine Accounts.Keeps.ite (fun _ => keeps_wcatUdpConnect hlegal _ _ _) fun _ =>
    Accounts.Keeps.ite (fun _ => keeps_wcatUnixConnect hlegal _ _) fun _ =>
      Accounts.Keeps.ite (fun _ => keeps_wcatVsockConnect hlegal _ _ _) fun _ =>
        Accounts.Keeps.ite (fun _ => keeps_inetConnect hlegal _ _ _ _ _) fun _ => ?_
  split
  · exact Keeps.neutral rfl fun _ _ _ => Keeps.neutral rfl fun _ _ _ => Accounts.keeps_pure rfl
  · exact keeps_wcatProxyConnect hlegal _ _ _ _ _

theorem keeps_openUdpPeer (cfg : Config) :
    descriptors.Keeps legal S (openUdpPeer cfg) (Got S) := by
  refine Keeps.neutral rfl fun _ r _ => ?_
  rcases r with _ | n
  · exact Keeps.beside (within_logOpensslError neutral_of_still _ _) fun _ _ =>
      Accounts.keeps_pure rfl
  refine Accounts.Keeps.bind (Q := Got S) (Accounts.Keeps.loop (fun _ S' => S' = S) rfl ?_) ?_
  · rintro k S rfl
    refine Accounts.Keeps.ite (fun _ => ?_) fun _ => Accounts.keeps_pure rfl
    refine Keeps.opening hlegal rfl fun _ r _ hnew _ => ?_
    rcases r with err | m
    · rw [union_opens_nil rfl]
      exact Accounts.keeps_pure rfl
    have hm : Fd.sock .udp m ∉ S := hnew _ (by simp [opens])
    have hback : descriptors.Keeps legal (S ∪ {Fd.sock .udp m}) (closeFd (.sock .udp m))
        fun _ S' => S' = S :=
      (keeps_closeFd hlegal (Or.inr rfl)).mono fun _ _ hS => hS.trans (sdiff_got hm)
    rw [union_opens_socket]
    refine Keeps.neutral rfl fun _ err _ => Keeps.beside (Within.optional rfl) fun nbio _ =>
      Accounts.Keeps.ite (fun _ => hback.bind fun _ _ hS => Accounts.keeps_pure hS) fun _ => ?_
    refine Keeps.neutral rfl fun _ dup _ => Accounts.Keeps.ite
      (fun _ => hback.bind fun _ _ hS => Accounts.keeps_pure hS)
      fun _ => Accounts.keeps_pure ⟨hm, rfl⟩
  · intro fd S' hgot
    exact Keeps.beside (Within.optional rfl) fun _ _ => Accounts.keeps_pure hgot

/-- What is held once a QUIC stream is open, that owns its socket, or could not be opened. -/
def GotStream (S : Set Fd) (r : Option TlsStream) (S' : Set Fd) : Prop :=
  Got S (r.map TlsStream.fd) S' ∧ ∀ t, r = some t → t.ownsFd = true

theorem keeps_wcatQuicClientOpen (cfg : Config) :
    descriptors.Keeps legal S (wcatQuicClientOpen cfg) (GotStream S) := by
  have hlog : ∀ event message,
      Within (Neutral · = true) (logOpensslError event message) fun _ => True :=
    within_logOpensslError neutral_of_still
  have hnone : GotStream S none S := ⟨rfl, by simp⟩
  refine Keeps.neutral rfl fun _ ctx _ => Keeps.beside (Within.ite
    (fun _ => within_configureClientCtx neutral_of_still cfg) fun _ => trivial) fun configured _ =>
    Accounts.Keeps.ite (fun _ => Keeps.beside (hlog _ _) fun _ _ => Accounts.keeps_pure hnone)
    fun _ => ?_
  refine (keeps_openUdpPeer hlegal cfg).bind ?_
  rintro (_ | fd) S' hgot
  · exact Accounts.keeps_pure ⟨hgot, by simp⟩
  obtain ⟨hnew, rfl⟩ := hgot
  have hfail : ∀ {t : TlsStream} {report : Proc Unit}, t.fd = fd ∧ t.ownsFd = true →
      Within (Neutral · = true) report (fun _ => True) →
      descriptors.Keeps legal (S ∪ {fd}) (failOpen t report) (GotStream S) := by
    intro t report ht hr
    refine (keeps_failOpen hlegal (Or.inr rfl) ht hr).mono ?_
    rintro (_ | t') S' hS
    · exact ⟨hS.trans (sdiff_got hnew), by simp⟩
    · refine ⟨⟨hS.2.1 ▸ hnew, hS.2.1 ▸ hS.1⟩, ?_⟩
      rintro _ ⟨⟩
      exact hS.2.2
  refine Keeps.neutral rfl fun _ session _ =>
    Accounts.Keeps.ite (fun _ => hfail ⟨rfl, rfl⟩ (hlog _ _)) fun _ => ?_
  refine Keeps.neutral rfl fun _ bio _ =>
    Accounts.Keeps.ite (fun _ => hfail ⟨rfl, rfl⟩ (hlog _ _)) fun _ => ?_
  refine Keeps.neutral rfl fun _ _ _ => Keeps.beside (Within.optional rfl) fun hostOk _ =>
    Accounts.Keeps.ite (fun _ => hfail ⟨rfl, rfl⟩ (hlog _ _)) fun _ => ?_
  refine Keeps.beside (within_setAlpn (tame_of_still neutral_of_still) _) fun alpnOk _ =>
    Keeps.beside (Within.optional rfl) fun peerOk _ =>
      Accounts.Keeps.ite (fun _ => hfail ⟨rfl, rfl⟩ (hlog _ _)) fun _ => ?_
  refine Keeps.neutral rfl fun _ connected _ =>
    Accounts.Keeps.ite (fun _ => hfail ⟨rfl, rfl⟩ (hlog _ _)) fun _ => ?_
  refine Keeps.beside (Within.optional rfl) fun verified _ =>
    Accounts.Keeps.ite (fun _ => hfail ⟨rfl, rfl⟩ ⟨rfl, fun _ => trivial⟩) fun _ => ?_
  refine Keeps.neutral rfl fun _ nonblocking _ =>
    Accounts.Keeps.ite (fun _ => hfail ⟨rfl, rfl⟩ (hlog _ _)) fun _ => ?_
  refine Accounts.keeps_pure ⟨⟨hnew, rfl⟩, ?_⟩
  rintro _ ⟨⟩
  rfl

theorem keeps_wcatQuicListenerOpen (cfg : Config) :
    descriptors.Keeps legal S (wcatQuicListenerOpen cfg) fun r S' =>
      Got S (r.map QuicListener.fd) S' := by
  have hlog : ∀ event message,
      Within (Neutral · = true) (logOpensslError event message) fun _ => True :=
    within_logOpensslError neutral_of_still
  refine Keeps.neutral rfl fun _ ctx _ => Keeps.beside (Within.ite
    (fun _ => within_configureServerCtx neutral_of_still cfg) fun _ => trivial) fun configured _ =>
    Accounts.Keeps.ite (fun _ => Keeps.beside (hlog _ _) fun _ _ => Accounts.keeps_pure rfl)
    fun _ => ?_
  refine (keeps_wcatUdpBind hlegal _ _ _).bind ?_
  rintro (_ | fd) S' hgot
  · exact Keeps.neutral rfl fun _ _ _ => Accounts.keeps_pure hgot
  obtain ⟨hnew, rfl⟩ := hgot
  refine Keeps.neutral rfl fun _ nonblock _ => Accounts.Keeps.ite (fun _ => ?_) fun _ => ?_
  · exact Keeps.neutral rfl fun _ _ _ =>
      (keeps_giveBack hlegal hnew).bind fun _ _ hS => Accounts.keeps_pure hS
  refine Keeps.neutral rfl fun _ created _ => Keeps.beside (Within.optional rfl) fun _ _ =>
    Keeps.beside (Within.optional rfl) fun listening _ => Accounts.Keeps.ite (fun _ => ?_) fun _ => ?_
  · exact Keeps.beside (hlog _ _) fun _ _ =>
      (keeps_giveBack hlegal hnew).bind fun _ _ hS => Accounts.keeps_pure hS
  · exact Accounts.keeps_pure ⟨hnew, rfl⟩

/-! ### Transfers -/

/-- The stream of a file: half closing it closes nothing, and closing it is the caller's. -/
theorem keeps_wcatCopyStream {a b : Stream} (opts : RelayOptions) :
    descriptors.Keeps legal S (wcatCopyStream a b opts) fun _ S' => S' = S := by
  refine Accounts.Keeps.loop (fun _ S' => S' = S) rfl ?_
  rintro - S rfl
  refine Keeps.neutral rfl fun _ stop _ => Accounts.Keeps.ite (fun _ => Accounts.keeps_pure rfl)
    fun _ => (keeps_pumpOnce hlegal a b _ _).bind ?_
  rintro (_ | _ | _) _ ⟨rfl, -⟩ <;> exact Accounts.keeps_pure rfl

theorem keeps_sendSocket (proxy : Proxy) :
    descriptors.Keeps legal S (sendSocket cfg proxy) (Got S) :=
  Accounts.Keeps.ite (fun _ => keeps_wcatUdpConnect hlegal _ _ _)
    fun _ => keeps_wcatProxyConnect hlegal _ _ _ _ _

theorem keeps_sendOpenFile (proxy : Proxy) {file : Fd} (hfile : file ∉ S) :
    descriptors.Keeps legal (S ∪ {file}) (sendOpenFile cfg proxy file) fun _ S' => S' = S := by
  refine (keeps_sendSocket hlegal proxy).bind ?_
  rintro (_ | sock) S₁ hgot
  · obtain rfl : S₁ = S ∪ {file} := hgot
    exact Keeps.neutral rfl fun _ _ _ =>
      (keeps_giveBack hlegal hfile).bind fun _ _ hS => Accounts.keeps_pure hS
  obtain ⟨hnew, rfl⟩ := hgot
  refine (keeps_networkStream hlegal cfg .dst (Or.inr rfl) false).bind ?_
  rintro (_ | dst) S₂ hnet
  · obtain rfl : S₂ = (S ∪ {file} ∪ {sock}) \ {sock} := hnet
    rw [sdiff_got hnew]
    exact (keeps_giveBack hlegal hfile).bind fun _ _ hS => Accounts.keeps_pure hS
  obtain rfl : S₂ = S ∪ {file} ∪ {sock} := hnet.1
  refine (keeps_wcatCopyStream hlegal _).bind ?_
  rintro ok _ rfl
  refine (keeps_closeNetwork hlegal (Or.inr rfl) hnet).bind ?_
  rintro - _ rfl
  rw [sdiff_got hnew]
  exact (keeps_giveBack hlegal hfile).bind fun _ _ hS => Accounts.keeps_pure hS

/-- A file that could be opened, and the rest of the program. -/
theorem Keeps.file {path : Bytes} {mode : OpenMode} {k : Except Errno ℕ → Proc α}
    {Q : α → Set Fd → Prop} (herror : ∀ e, descriptors.Keeps legal S (k (.error e)) Q)
    (hok : ∀ n, Fd.file n ∉ S → descriptors.Keeps legal (S ∪ {.file n}) (k (.ok n)) Q) :
    descriptors.Keeps legal S (sys (.openFile path mode) >>= k) Q := by
  refine Keeps.opening hlegal rfl fun _ r _ hnew _ => ?_
  rcases r with err | n
  · rw [union_opens_nil rfl]
    exact herror err
  · have hheld : S ∪ {fd | fd ∈ opens ⟨.openFile path mode, .ok n⟩} = S ∪ {.file n} := by
      simp [opens]
    rw [hheld]
    exact hok n (hnew _ (by simp [opens]))

theorem keeps_wcatSendFile (cfg : Config) :
    descriptors.Keeps legal S (wcatSendFile cfg) fun _ S' => S' = S := by
  refine Keeps.file hlegal (fun _ => Keeps.neutral rfl fun _ _ _ => Accounts.keeps_pure rfl) ?_
  intro n hn
  simp only
  split
  · exact Keeps.neutral rfl fun _ _ _ =>
      (keeps_giveBack hlegal hn).bind fun _ _ hS => Accounts.keeps_pure hS
  · exact keeps_sendOpenFile hlegal _ hn

/-- The listener and the file of a transfer are closed, in this order. -/
theorem keeps_closeBoth {listener file : Fd} (hlistener : listener ∉ S ∪ {file}) (hfile : file ∉ S)
    (status : ℕ) :
    descriptors.Keeps legal (S ∪ {file} ∪ {listener}) (do
      wcatCloseQuiet listener
      wcatCloseQuiet file
      pure status) fun _ S' => S' = S := by
  refine (keeps_giveBack hlegal hlistener).bind ?_
  rintro - _ rfl
  exact (keeps_giveBack hlegal hfile).bind fun _ _ hS => Accounts.keeps_pure hS

theorem keeps_recvClient {listener file : Fd} (hlistener : listener ∉ S ∪ {file})
    (hfile : file ∉ S) (hudp : cfg.udp = false) :
    descriptors.Keeps legal (S ∪ {file} ∪ {listener}) (recvClient cfg listener file)
      fun _ S' => S' = S := by
  refine (keeps_acceptWhenReady hlegal _ _).bind ?_
  rintro (_ | peer) S₁ hgot
  · obtain rfl : S₁ = S ∪ {file} ∪ {listener} := hgot
    exact keeps_closeBoth hlegal hlistener hfile _
  obtain ⟨hnew, rfl⟩ := hgot
  refine Keeps.beside (within_wcatAccessCheckFd neutral_of_still rfl cfg) fun allowed _ =>
    Accounts.Keeps.ite (fun _ => ?_) fun _ => Keeps.neutral rfl fun _ _ _ => ?_
  · refine (keeps_giveBack hlegal hnew).bind ?_
    rintro - _ rfl
    exact keeps_closeBoth hlegal hlistener hfile _
  refine (keeps_networkStream hlegal cfg .src (Or.inr rfl) true).bind ?_
  rintro (_ | src) S₂ hnet
  · obtain rfl := hnet
    rw [sdiff_got hnew]
    exact keeps_closeBoth hlegal hlistener hfile _
  obtain rfl := hnet.1
  refine (keeps_wcatCopyStream hlegal _).bind ?_
  rintro ok _ rfl
  refine Accounts.Keeps.bind (Q := fun _ S' => S' = S ∪ {file} ∪ {listener})
    (Accounts.Keeps.ite (fun _ => ?_) fun hnot => absurd hudp (by simpa using hnot)) ?_
  · exact (keeps_closeNetwork hlegal (Or.inr rfl) hnet).mono fun _ _ hS => hS.trans (sdiff_got hnew)
  rintro - _ rfl
  exact keeps_closeBoth hlegal hlistener hfile _

theorem keeps_wcatRecvFile (cfg : Config) :
    descriptors.Keeps legal S (wcatRecvFile cfg) fun _ S' => S' = S := by
  refine Keeps.file hlegal (fun _ => Keeps.neutral rfl fun _ _ _ => Accounts.keeps_pure rfl) ?_
  intro n hn
  refine Accounts.Keeps.bind (Q := Got (S ∪ {.file n})) (Accounts.Keeps.ite
    (fun _ => keeps_wcatUdpBind hlegal _ _ _) fun _ => keeps_inetListen hlegal _ _ _ _ _) ?_
  rintro (_ | listener) S₁ hgot
  · obtain rfl : S₁ = S ∪ {.file n} := hgot
    exact Keeps.neutral rfl fun _ _ _ =>
      (keeps_giveBack hlegal hn).bind fun _ _ hS => Accounts.keeps_pure hS
  obtain ⟨hnew, rfl⟩ := hgot
  refine Accounts.Keeps.ite (fun hudp => ?_) fun hudp => ?_
  · refine (keeps_wcatCopyStream hlegal _).bind ?_
    rintro ok _ rfl
    refine Keeps.beside (p := if !cfg.udp then closeNetwork _ else pure ()) (P := fun _ => True)
      (Within.ite (fun hnot => absurd hudp (by simpa using hnot)) fun _ => trivial) fun _ _ => ?_
    exact keeps_closeBoth hlegal hnew hn _
  · exact keeps_recvClient hlegal hnew hn (by simpa using hudp)

/-! ### Relays -/

omit hlegal in
/-- The descriptors of an endpoint. -/
def RelayEndpoint.fds (ep : RelayEndpoint) : Set Fd :=
  match ep.proc with
  | some proc => {proc.inFd, proc.outFd}
  | none => {fd | ep.fd1 = some fd ∨ ep.fd2 = some fd}

/-- What is held once an endpoint was opened, or could not be: what its record says. -/
structure EndpointHeld (S : Set Fd) (ep : RelayEndpoint) (S' : Set Fd) : Prop where
  holds : S' = S ∪ ep.fds
  apart : ∀ fd ∈ ep.fds, fd ∉ S

omit hlegal in
theorem endpointHeld_none : EndpointHeld S {} S :=
  ⟨by ext x; simp [RelayEndpoint.fds], by simp [RelayEndpoint.fds]⟩

omit hlegal in
theorem endpointHeld_fd {fd : Fd} (hnew : fd ∉ S) : EndpointHeld S { fd1 := some fd } (S ∪ {fd}) := by
  constructor
  · ext x
    simp [RelayEndpoint.fds, eq_comm]
  · intro x hx
    obtain rfl : x = fd := by simpa [RelayEndpoint.fds] using hx
    exact hnew

omit hlegal in
/-- What is held for the last endpoint is held for nobody else. -/
theorem EndpointHeld.sdiff {ep : RelayEndpoint} {S' : Set Fd} (h : EndpointHeld S ep S') :
    S' \ ep.fds = S := by
  rw [h.holds]
  ext x
  simp only [Set.mem_sdiff, Set.mem_union]
  have hx := h.apart x
  grind

/-- `relay_endpoint_close` closes what the record says. -/
theorem keeps_relayEndpointClose {ep : RelayEndpoint} (hheld : ep.fds ⊆ S) :
    descriptors.Keeps legal S (relayEndpointClose ep) fun _ S' => S' = S \ ep.fds := by
  obtain ⟨_ | proc, fd1, fd2⟩ := ep
  · have hfirst : descriptors.Keeps legal S (wcatCloseQuiet? fd1)
        fun _ S' => S' = S \ {fd | fd1 = some fd} := by
      rcases fd1 with _ | fd
      · exact Accounts.keeps_pure (by simp)
      · refine (keeps_wcatCloseQuiet hlegal (hheld (Or.inl rfl))).mono ?_
        rintro - _ rfl
        simp
    refine hfirst.bind ?_
    rintro - _ rfl
    refine Accounts.Keeps.ite (fun hne => ?_) fun heq => ?_
    · rcases fd2 with _ | fd
      · exact Accounts.keeps_pure (by simp [RelayEndpoint.fds])
      · have hfd : fd ∈ S \ {fd | fd1 = some fd} := ⟨hheld (Or.inr rfl), fun h => hne h.symm⟩
        refine (keeps_wcatCloseQuiet hlegal hfd).mono ?_
        rintro - _ rfl
        ext x
        simp only [RelayEndpoint.fds, Set.mem_sdiff, Set.mem_ofPred_eq, Set.mem_singleton_iff,
          Option.some.injEq]
        grind
    · obtain rfl : fd2 = fd1 := not_not.mp heq
      exact Accounts.keeps_pure (by simp [RelayEndpoint.fds])
  · refine (keeps_wcatProcessClose hlegal (hheld (Or.inl rfl)) (hheld (Or.inr rfl))).bind ?_
    rintro - _ rfl
    exact (keeps_neutral (within_neutral_wcatProcessWait proc)).mono fun _ _ hS => hS.1

omit hlegal in
/-- What has come of opening the endpoint `spec` for the stream in the variable `obj`. Only a
child over pipes has a stream that closes a descriptor when it is half closed. -/
def Endpoint (S : Set Fd) (obj : Obj) (spec : Bytes) (r : Except ℕ Stream × RelayEndpoint)
    (S' : Set Fd) : Prop :=
  EndpointHeld S r.2 S' ∧ ∀ s, r.1 = .ok s →
    s.obj = obj ∧ (s.closesWrite → (lit "exec:").isPrefixOf spec = true)

variable {obj : Obj} {spec : Bytes}

omit hlegal in
theorem keeps_openedEndpoint (event : String) (context : Bytes) {fd : Option Fd} {S' : Set Fd}
    (hgot : Got S fd S') :
    descriptors.Keeps legal S' (openedEndpoint obj event context fd) (Endpoint S obj spec) := by
  rcases fd with _ | fd
  · obtain rfl : S' = S := hgot
    exact Keeps.neutral rfl fun _ _ _ => Accounts.keeps_pure ⟨endpointHeld_none, by simp⟩
  · obtain ⟨hnew, rfl⟩ := hgot
    refine Accounts.keeps_pure ⟨endpointHeld_fd hnew, ?_⟩
    rintro _ ⟨⟩
    exact ⟨rfl, fun hclose => absurd hclose (not_closesWrite_fd rfl)⟩

theorem keeps_acceptEndpoint (kind : String) {listener : Option Fd} {S' : Set Fd}
    (hgot : Got S listener S') :
    descriptors.Keeps legal S' (acceptEndpoint obj kind listener) (Endpoint S obj spec) := by
  rcases listener with _ | listener
  · obtain rfl : S' = S := hgot
    exact Keeps.neutral rfl fun _ _ _ => Accounts.keeps_pure ⟨endpointHeld_none, by simp⟩
  obtain ⟨hnew, rfl⟩ := hgot
  refine (keeps_acceptWhenReady hlegal _ _).bind ?_
  rintro (_ | peer) S₁ hpeer
  · obtain rfl : S₁ = S ∪ {listener} := hpeer
    exact Keeps.neutral rfl fun _ _ _ => Accounts.keeps_pure ⟨endpointHeld_fd hnew, by simp⟩
  obtain ⟨hpeer, rfl⟩ := hpeer
  refine Keeps.close hlegal (Or.inl (Or.inr rfl)) ?_
  have hswap : (S ∪ {listener} ∪ {peer.fd}) \ {listener} = S ∪ {peer.fd} := by
    ext x
    simp only [Set.mem_sdiff, Set.mem_union, Set.mem_singleton_iff] at hpeer ⊢
    grind
  rw [hswap]
  refine Accounts.keeps_pure ⟨endpointHeld_fd fun h => hpeer (Or.inl h), ?_⟩
  rintro _ ⟨⟩
  exact ⟨rfl, fun hclose => absurd hclose (not_closesWrite_fd rfl)⟩

theorem keeps_execEndpoint (path : Bytes) (usePty : Bool)
    (hspec : usePty = false → (lit "exec:").isPrefixOf spec = true) :
    descriptors.Keeps legal S (execEndpoint obj path usePty) (Endpoint S obj spec) := by
  refine (keeps_wcatProcessSpawn hlegal _ _).bind ?_
  rintro (_ | proc) S₁ hr
  · obtain rfl : S₁ = S := (hr.1 rfl).1
    exact Keeps.neutral rfl fun _ _ _ => Accounts.keeps_pure ⟨endpointHeld_none, by simp⟩
  · have hproc : Started S usePty proc S₁ := hr.2 proc rfl
    refine Accounts.keeps_pure ⟨⟨hproc.holds, ?_⟩, ?_⟩
    · rintro fd (rfl | rfl)
      · exact hproc.inFd_new
      · exact hproc.outFd_new
    · rintro _ ⟨⟩
      refine ⟨rfl, fun hclose => hspec ?_⟩
      obtain ⟨rawFd, writeFd, hio, hne⟩ := hclose
      refine hproc.closesWrite ⟨rawFd, writeFd, hio, hne⟩

omit hlegal in
theorem keeps_badEndpoint (fmt : String) (args : List LogArg) :
    descriptors.Keeps legal S (badEndpoint fmt args) (Endpoint S obj spec) :=
  Keeps.neutral rfl fun _ _ _ => Accounts.keeps_pure ⟨endpointHeld_none, by simp⟩

/-- **Opening an endpoint** of a relay. -/
theorem keeps_openRelayEndpoint (cfg : Config) (obj : Obj) (spec : Bytes) :
    descriptors.Keeps legal S (openRelayEndpoint cfg obj spec) (Endpoint S obj spec) := by
  refine Accounts.Keeps.ite (fun _ => ?_) fun _ => Accounts.Keeps.ite (fun _ => ?_) fun _ =>
    Accounts.Keeps.ite (fun _ => ?_) fun _ => Accounts.Keeps.ite (fun _ => ?_) fun _ =>
    Accounts.Keeps.ite (fun _ => ?_) fun _ => Accounts.Keeps.ite (fun _ => ?_) fun _ =>
    Accounts.Keeps.ite (fun hexec => keeps_execEndpoint hlegal _ _ fun _ => hexec) fun _ =>
    Accounts.Keeps.ite (fun _ => keeps_execEndpoint hlegal _ _ fun h => absurd h (by simp)) fun _ =>
    keeps_badEndpoint _ _
  · refine Accounts.keeps_pure ⟨endpointHeld_none, ?_⟩
    rintro _ ⟨⟩
    refine ⟨rfl, fun hclose => ?_⟩
    obtain ⟨rawFd, writeFd, hio, -⟩ := hclose
    simp [wcatStreamFromFdPair] at hio
  · split
    · exact keeps_badEndpoint _ _
    · exact (keeps_inetConnect hlegal _ _ _ _ _).bind fun _ _ hgot =>
        keeps_openedEndpoint _ _ hgot
  · exact (keeps_wcatUnixConnect hlegal _ _).bind fun _ _ hgot =>
      keeps_openedEndpoint _ _ hgot
  · split
    · exact keeps_badEndpoint _ _
    · exact (keeps_inetListen hlegal _ _ _ _ _).bind fun _ _ hgot =>
        keeps_acceptEndpoint hlegal _ hgot
  · exact (keeps_wcatUnixListen hlegal _ _).bind fun _ _ hgot =>
      keeps_acceptEndpoint hlegal _ hgot
  · exact Keeps.file hlegal (fun _ => keeps_openedEndpoint _ _ rfl)
      fun n hn => keeps_openedEndpoint _ _ ⟨hn, rfl⟩

/-- Two endpoints are relayed and closed. -/
theorem keeps_relayEndpoints {left right : Stream} {leftEp rightEp : RelayEndpoint}
    (hleft : left.closesWrite → lasting right.obj) (hright : right.closesWrite → lasting left.obj)
    {S₁ S₂ : Set Fd} (hheld : EndpointHeld S leftEp S₁) (hheld' : EndpointHeld S₁ rightEp S₂) :
    descriptors.Keeps legal S₂ (relayEndpoints cfg left right leftEp rightEp)
      fun _ S' => S' = S := by
  have hrelay : ∀ a b : Stream, (a.obj = left.obj ∧ a.io = left.io) →
      (b.obj = right.obj ∧ b.io = right.io) →
      descriptors.Keeps legal S₂ (wcatRelayBidirectional a b cfg.relayOptions)
        fun _ S' => S' = S₂ := by
    rintro ⟨_, _, close⟩ ⟨_, _, close'⟩ ⟨rfl, rfl⟩ ⟨rfl, rfl⟩
    exact keeps_wcatRelayBidirectional hlegal (a := ⟨left.obj, left.io, close⟩)
      (b := ⟨right.obj, right.io, close'⟩) hright hleft _
  have hsub : leftEp.fds ⊆ S₂ := by
    rw [hheld'.holds, hheld.holds]
    exact fun x hx => Or.inl (Or.inr hx)
  have hsub' : rightEp.fds ⊆ S₂ \ leftEp.fds := by
    intro x hx
    refine ⟨hheld'.holds ▸ Or.inr hx, fun hmem => hheld'.apart x hx ?_⟩
    exact hheld.holds ▸ Or.inr hmem
  refine (hrelay _ _ ?_ ?_).bind ?_
  · split_ifs <;> exact ⟨rfl, rfl⟩
  · split_ifs <;> exact ⟨rfl, rfl⟩
  rintro ok _ rfl
  refine (keeps_relayEndpointClose hlegal hsub).bind ?_
  rintro - _ rfl
  refine (keeps_relayEndpointClose hlegal hsub').bind ?_
  rintro - _ rfl
  refine Accounts.keeps_pure ?_
  rw [Set.sdiff_sdiff_comm, hheld'.sdiff, hheld.sdiff]

/-- **A relay closes what it opened**, when no endpoint opposite a child over pipes ends. -/
theorem keeps_runRelay
    (hleft : (lit "exec:").isPrefixOf (cfg.left.getD []) = true → lasting .right)
    (hright : (lit "exec:").isPrefixOf (cfg.right.getD []) = true → lasting .left) :
    descriptors.Keeps legal S (runRelay cfg) fun _ S' => S' = S := by
  refine (keeps_openRelayEndpoint hlegal cfg .left _).bind ?_
  rintro ⟨left, leftEp⟩ S₁ ⟨hheld, hstream⟩
  have hsub : leftEp.fds ⊆ S₁ := by
    rw [hheld.holds]
    exact fun x hx => Or.inr hx
  rcases left with status | left
  · refine (keeps_relayEndpointClose hlegal hsub).bind ?_
    rintro - _ rfl
    exact Accounts.keeps_pure hheld.sdiff
  refine (keeps_openRelayEndpoint hlegal cfg .right _).bind ?_
  rintro ⟨right, rightEp⟩ S₂ ⟨hheld', hstream'⟩
  rcases right with status | right
  · refine (keeps_relayEndpointClose hlegal ?_).bind ?_
    · exact fun x hx => hheld'.holds ▸ Or.inl (hsub hx)
    rintro - _ rfl
    refine (keeps_relayEndpointClose hlegal ?_).bind ?_
    · intro x hx
      refine ⟨hheld'.holds ▸ Or.inr hx, fun hmem => hheld'.apart x hx ?_⟩
      exact hsub hmem
    rintro - _ rfl
    refine Accounts.keeps_pure ?_
    rw [Set.sdiff_sdiff_comm, hheld'.sdiff, hheld.sdiff]
  · obtain ⟨hobj, hexec⟩ := hstream left rfl
    obtain ⟨hobj', hexec'⟩ := hstream' right rfl
    refine keeps_relayEndpoints hlegal (fun hclose => ?_) (fun hclose => ?_) hheld hheld'
    · rw [hobj']
      exact hleft (hexec hclose)
    · rw [hobj]
      exact hright (hexec' hclose)

/-! ### The proxy server -/

theorem keeps_serveProxyClient {client : Fd} :
    descriptors.Keeps legal S (serveProxyClient cfg client) fun _ S' => S' = S := by
  have hanswer : ∀ status text,
      Within (Neutral · = true) (writeProxyResponse client status text) fun _ => True := by
    intro status text
    refine Within.ite (fun _ => Within.step rfl fun _ => trivial) fun _ => ?_
    exact (within_wcatFullWrite (fun _ => rfl) _).next fun _ => trivial
  have hheader : Within (Neutral · = true) (readHttpHeader client 4096) fun _ => True := by
    refine Within.loop (fun _ => True) trivial fun buf _ => Within.ite (fun _ => ?_) fun _ =>
      Within.step rfl fun _ => trivial
    refine Within.step rfl fun r => ?_
    rcases r with _ | _ | err
    · exact Within.ite (fun _ => trivial) fun _ => trivial
    · trivial
    · cases err <;> trivial
  refine Keeps.beside hheader fun header _ => ?_
  rcases header.bind fun buf => parseConnectRequest (ofBuffer buf) 256 32 with _ | ⟨host, port⟩
  · exact Keeps.beside (hanswer _ _) fun _ _ => Accounts.keeps_pure rfl
  refine (keeps_inetConnect hlegal _ _ _ _ _).bind ?_
  rintro (_ | upstream) S₁ hgot
  · obtain rfl : S₁ = S := hgot
    exact Keeps.beside (hanswer _ _) fun _ _ => Keeps.neutral rfl fun _ _ _ =>
      Accounts.keeps_pure rfl
  obtain ⟨hnew, rfl⟩ := hgot
  refine Keeps.beside (hanswer _ _) fun ok _ => Accounts.Keeps.ite (fun _ => ?_) fun _ =>
    Keeps.neutral rfl fun _ _ _ => ?_
  · exact (keeps_giveBack hlegal hnew).bind fun _ _ hS => Accounts.keeps_pure hS
  refine (keeps_wcatRelayBidirectional hlegal
    (fun hclose => absurd hclose (not_closesWrite_fd rfl))
    (fun hclose => absurd hclose (not_closesWrite_fd rfl)) _).bind ?_
  rintro ok _ rfl
  exact (keeps_giveBack hlegal hnew).bind fun _ _ hS => Accounts.keeps_pure hS

/-- **The proxy server closes every client**, before the next one is accepted. -/
theorem keeps_wcatProxyServerRun (cfg : Config) :
    descriptors.Keeps legal S (wcatProxyServerRun cfg) fun _ S' => S' = S := by
  refine (keeps_inetListen hlegal _ _ _ _ _).bind ?_
  rintro (_ | listener) S₁ hgot
  · obtain rfl : S₁ = S := hgot
    exact Keeps.neutral rfl fun _ _ _ => Accounts.keeps_pure rfl
  obtain ⟨hnew, rfl⟩ := hgot
  refine Keeps.neutral rfl fun _ _ _ => Accounts.Keeps.bind (Q := fun _ S' => S' = S ∪ {listener})
    (Accounts.Keeps.loop (fun _ S' => S' = S ∪ {listener}) rfl ?_) ?_
  · rintro - _ rfl
    refine Keeps.neutral rfl fun _ stop _ => Accounts.Keeps.ite
      (fun _ => Accounts.keeps_pure rfl) fun _ => (keeps_wcatAccept hlegal _ _).bind ?_
    rintro (_ | peer) S₂ hpeer
    · obtain rfl : S₂ = S ∪ {listener} := hpeer
      exact Keeps.neutral rfl fun _ _ _ => Accounts.keeps_pure rfl
    obtain ⟨hpeer, rfl⟩ := hpeer
    refine Keeps.beside (within_wcatAccessCheckFd neutral_of_still rfl cfg) fun allowed _ =>
      Accounts.Keeps.ite (fun _ => ?_) fun _ => Keeps.neutral rfl fun _ _ _ => ?_
    · exact (keeps_giveBack hlegal hpeer).bind fun _ _ hS => Accounts.keeps_pure hS
    refine (keeps_serveProxyClient hlegal).bind ?_
    rintro rc _ rfl
    refine (keeps_giveBack hlegal hpeer).bind ?_
    rintro - _ rfl
    exact Accounts.Keeps.ite (fun _ => Accounts.keeps_pure rfl) fun _ => Accounts.keeps_pure rfl
  · rintro rc _ rfl
    exact (keeps_giveBack hlegal hnew).bind fun _ _ hS => Accounts.keeps_pure hS

/-! ### Peers -/

section Children

variable (hspawn : cfg.execPath.isSome = true → ∀ h e r, legal h e r → spawnFails ⟨e, r⟩ = false)
variable (hlast : cfg.execPath.isSome = true → cfg.pty = false → lasting .net)

include hspawn hlast

theorem keeps_runConnect : descriptors.Keeps legal S (runConnect cfg) fun _ S' => S' = S := by
  refine (keeps_connectSocket hlegal cfg).bind ?_
  rintro (_ | fd) S₁ hgot
  · obtain rfl : S₁ = S := hgot
    exact Keeps.neutral rfl fun _ _ _ => Accounts.keeps_pure rfl
  obtain ⟨hnew, rfl⟩ := hgot
  refine Keeps.neutral rfl fun _ _ _ => ?_
  exact (keeps_relayPeer hlegal hspawn hlast (Or.inr rfl) _).mono fun _ _ hS =>
    hS.trans (sdiff_got hnew)

/-- A child is relayed to a stream that is closed elsewhere. -/
theorem keeps_relayStreamToProcess (hexec : cfg.execPath.isSome = true) {net : Stream}
    (hobj : net.obj = .net) (hnet : ¬net.closesWrite) :
    descriptors.Keeps legal S (relayStreamToProcess cfg net) fun _ S' => S' = S := by
  refine (keeps_spawnExec hlegal cfg).bind ?_
  rintro (_ | proc) S₁ hr
  · exact not_spawnFails hspawn hexec (hr.1 rfl).2
  · exact keeps_childRelay hlegal (hr.2 proc rfl) hnet (fun hpty => hobj ▸ hlast hexec hpty) _
      fun ok => Accounts.keeps_pure rfl

/-- Serving a QUIC stream closes its socket if the stream owns it. -/
theorem keeps_serveQuicStream {quic : TlsStream} {S' : Set Fd}
    (hclose : descriptors.Keeps legal S (wcatTlsClose quic) fun _ T => T = S') :
    descriptors.Keeps legal S (serveQuicStream cfg quic) fun _ T => T = S' := by
  refine Accounts.Keeps.bind (Q := fun _ T => T = S) (Accounts.Keeps.ite (fun hexec => ?_)
    fun _ => ?_) ?_
  · exact keeps_relayStreamToProcess hlegal hspawn hlast hexec rfl (not_closesWrite_tls _ _)
  · refine (keeps_wcatRelayBidirectional hlegal
      (fun hclose => absurd hclose stdioStream_closesWrite)
      (fun hclose => absurd hclose (not_closesWrite_tls _ _)) _).bind ?_
    rintro ok _ rfl
    exact Accounts.keeps_pure rfl
  · rintro status _ rfl
    exact hclose.bind fun _ _ hT => Accounts.keeps_pure hT

theorem keeps_runQuicConnect : descriptors.Keeps legal S (runQuicConnect cfg) fun _ S' => S' = S := by
  refine (keeps_wcatQuicClientOpen hlegal cfg).bind ?_
  rintro (_ | quic) S₁ ⟨hgot, howns⟩
  · exact Accounts.keeps_pure hgot
  obtain ⟨hnew, rfl⟩ := hgot
  refine Keeps.neutral rfl fun _ _ _ => keeps_serveQuicStream hlegal hspawn hlast ?_
  exact (keeps_wcatTlsClose hlegal (Or.inr rfl) (howns quic rfl)).mono fun _ _ hS =>
    hS.trans (sdiff_got hnew)

theorem keeps_runQuicListen : descriptors.Keeps legal S (runQuicListen cfg) fun _ S' => S' = S := by
  refine (keeps_wcatQuicListenerOpen hlegal cfg).bind ?_
  rintro (_ | listener) S₁ hgot
  · exact Accounts.keeps_pure hgot
  obtain ⟨hnew, rfl⟩ := hgot
  refine Keeps.neutral rfl fun _ _ _ =>
    Keeps.beside (within_wcatQuicAccept neutral_of_still rfl listener) fun quic hquic => ?_
  rcases quic with _ | quic
  · exact (keeps_giveBack hlegal hnew).bind fun _ _ hS =>
      Keeps.neutral rfl fun _ _ _ => Accounts.keeps_pure hS
  have hclose : Within (Neutral · = true) (wcatTlsClose quic) fun _ => True := by
    refine Within.next (Within.optional rfl) fun _ => Within.ite (fun howns => ?_) fun _ => trivial
    rw [(hquic quic rfl).2] at howns
    cases howns
  refine Keeps.neutral rfl fun _ _ _ => (keeps_serveQuicStream hlegal hspawn hlast
    ((keeps_neutral hclose).mono fun _ _ hS => hS.1)).bind (Q := fun _ T => T = S ∪ {listener.fd}) ?_
  rintro status _ rfl
  exact (keeps_giveBack hlegal hnew).bind fun _ _ hS => Accounts.keeps_pure hS

/-- **The listener that serves one peer at a time** closes every peer before it waits for the
next. -/
theorem keeps_listenRounds {listener : Fd} :
    descriptors.Keeps legal S (Prog.loop (listenRound cfg listener) 0) fun _ S' => S' = S := by
  have hagain : ∀ status, descriptors.Keeps legal S (listenAgain cfg status)
      fun r S' => Sum.elim (fun _ => S' = S) (fun _ => S' = S) r := by
    intro status
    refine Accounts.Keeps.ite (fun _ => Keeps.neutral rfl fun _ stop _ => ?_) fun _ =>
      Accounts.keeps_pure rfl
    exact Accounts.Keeps.ite (fun _ => Accounts.keeps_pure rfl) fun _ => Accounts.keeps_pure rfl
  refine Accounts.Keeps.loop (fun _ S' => S' = S) rfl ?_
  rintro status _ rfl
  refine (keeps_acceptWhenReady hlegal _ _).bind ?_
  rintro (_ | peer) S₁ hpeer
  · obtain rfl := hpeer
    refine Keeps.neutral rfl fun _ stop _ => Accounts.Keeps.ite (fun _ => Accounts.keeps_pure rfl)
      fun _ => Keeps.neutral rfl fun _ _ _ => Accounts.keeps_pure rfl
  obtain ⟨hpeer, rfl⟩ := hpeer
  refine Keeps.beside (within_wcatAccessCheckFd neutral_of_still rfl cfg) fun allowed _ =>
    Accounts.Keeps.ite (fun _ => ?_) fun _ => Keeps.neutral rfl fun _ _ _ => ?_
  · refine (keeps_giveBack hlegal hpeer).bind ?_
    rintro - _ rfl
    exact hagain status
  · refine (keeps_relayPeer hlegal hspawn hlast (Or.inr rfl) true).bind ?_
    rintro status' _ rfl
    rw [sdiff_got hpeer]
    exact hagain status'

/-- `run_listen`, unless it is for several sessions. -/
theorem keeps_runListen (hmulti : cfg.multi = false) :
    descriptors.Keeps legal S (runListen cfg) fun _ S' => S' = S := by
  refine Accounts.Keeps.ite (fun hnot => ?_) fun _ => Accounts.Keeps.ite (fun _ => ?_) fun _ => ?_
  · rw [hmulti] at hnot
    cases hnot
  · refine (keeps_wcatUdpBind hlegal _ _ _).bind ?_
    rintro (_ | listener) S₁ hgot
    · obtain rfl : S₁ = S := hgot
      exact Keeps.neutral rfl fun _ _ _ => Accounts.keeps_pure rfl
    obtain ⟨hnew, rfl⟩ := hgot
    exact (keeps_relayPeer hlegal hspawn hlast (Or.inr rfl) _).mono fun _ _ hS =>
      hS.trans (sdiff_got hnew)
  · refine (keeps_openListener hlegal cfg).bind ?_
    rintro (_ | listener) S₁ hgot
    · obtain rfl : S₁ = S := hgot
      exact Keeps.neutral rfl fun _ _ _ => Accounts.keeps_pure rfl
    obtain ⟨hnew, rfl⟩ := hgot
    refine Keeps.beside (Within.ite (fun _ => ⟨rfl, fun _ => trivial⟩) fun _ =>
      ⟨rfl, fun _ => trivial⟩) fun _ (_ : True) => ?_
    refine (keeps_listenRounds hlegal hspawn hlast).bind ?_
    rintro status _ rfl
    exact (keeps_giveBack hlegal hnew).bind fun _ _ hS => Accounts.keeps_pure hS

end Children

end Ledger

end Wirecat
