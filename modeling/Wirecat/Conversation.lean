import Wirecat.Interaction.Parties
import Wirecat.TunnelClient

/-!
# A conversation

What the program is for: two of it, with a connection in between, over which what is typed on the
one side is shown on the other. Which side connects and which listens makes no difference, nor does
the transport, nor whether it is a person or a child process that types
(`Wirecat.near`).

Each side keeps two promises of its own: what it shows is a beginning of what it received, and what
it sends is a beginning of what was typed (`Wirecat.Exchange`). Neither of the two knows of the
other. With a connection that delivers what was sent in its order (`Wirecat.Connected`) they make a
promise between the two ends (`Wirecat.joint_conversation`).

A listener that is kept open has many conversations, one after the other, and the promise is made
for each of them (`Wirecat.Speaker.session`). It cannot be made for all of them at once: what was
typed for a peer that is gone is not sent to the next.
-/

namespace Wirecat

open CString Interaction Conduit

section
variable {legal : Hist → (e : Sys) → Resp e → Prop} {g h ext : Hist} {α : Type} {Q : α → Prop}
  {a b : Obj} {cfg : Config}

/-- What the status says: with `0` the exchange is whole. -/
def Confirmed (a b : Obj) (rc : ℕ) (h : Hist) : Prop := rc = 0 → WholeExchange a b h

/-- A part of the program before its exchange. -/
theorem Unseen.before (hu : Unseen h) {p : Proc α} (hp : Within Unobserved p Q) :
    Always legal (Exchange a b) p (fun r g => Unseen g ∧ Q r) h := by
  refine (always_unseen hp).mono ?_ ?_
  · rintro _ ⟨ext, rfl, hext⟩
    exact (hext.append hu).wholeExchange.exchange
  · rintro r _ - ⟨⟨ext, rfl, hext⟩, hr⟩
    exact ⟨hext.append hu, hr⟩

/-- Without an exchange the status says what it says in any case. -/
theorem Unseen.none (hu : Unseen h) {p : Proc ℕ} (hp : Within Unobserved p fun _ => True) :
    Always legal (Exchange a b) p (Confirmed a b) h :=
  (hu.before hp).post_mono fun _ _ hQ _ => hQ.1.wholeExchange

/-- A part of the program behind its exchange, with the status at its end. -/
theorem Exchange.closing (hx : Exchange a b h) {rc : ℕ} (hrc : Confirmed a b rc h) {p : Proc ℕ}
    (hp : Within Unobserved p fun status => status = rc) :
    Always legal (Exchange a b) p (Confirmed a b) h := by
  refine (always_unseen hp).mono ?_ ?_
  · rintro _ ⟨ext, rfl, hu⟩
    exact hx.later hu
  · rintro rc _ - ⟨⟨ext, rfl, hu⟩, rfl⟩ hzero
    exact (hrc hzero).later hu

/-- The status of a relay. -/
theorem confirmed_of_ok {ok : Bool} (hall : ok = true → WholeExchange a b h) :
    Confirmed a b (if ok then 0 else 1) h := by
  cases ok with
  | true => exact fun _ => hall rfl
  | false => exact fun hrc => absurd hrc Nat.one_ne_zero

/-! ### The two ends of a conversation -/

/-- A stream with a peer, by what a relay of it needs. -/
structure NetStream (net : Stream) : Prop where
  obj : net.obj = .net
  writable : net.Writable
  close : Within Unobserved (closeNetwork net) fun _ => True

theorem within_peerStream_unobserved (cfg : Config) (fd : Fd) (serverSide : Bool) :
    Within Unobserved (peerStream cfg fd serverSide) fun r => ∀ net ∈ r, NetStream net := by
  refine (within_networkStream_unobserved cfg .net fd serverSide).bind' fun r hr =>
    within_pure.mpr ?_
  have hnet : ∀ net ∈ r, NetStream net := by
    rintro net ⟨⟩
    exact ⟨NetworkOn.obj_eq hr, NetworkOn.writable hr, within_closeNetwork_unobserved hr⟩
  split_ifs with hsctp
  · intro net hmem
    obtain ⟨net', hmem', rfl⟩ := Option.mem_map.mp hmem
    have htls : ¬cfg.tls = true := by simpa using (Bool.and_eq_true_iff.mp hsctp).1
    refine ⟨(hnet net' hmem').obj, fun _ _ hio => by simp at hio, ?_⟩
    exact within_close_unobserved _
  · exact hnet

theorem within_spawnExec_unobserved (cfg : Config) :
    Within Unobserved (spawnExec cfg) fun _ => True := by
  refine (within_wcatProcessSpawn unobserved_of_quiet (fun _ => unobserved_close _) _ _).bind'
    fun r _ => ?_
  rcases r with _ | proc
  · exact Within.step (unobserved_of_beside trivial) fun _ => trivial
  · trivial

theorem within_processFinish_unobserved (proc : ProcessHandle) :
    Within Unobserved (processFinish proc) fun _ => True :=
  (within_wcatProcessClose (unobserved_close _) (unobserved_close _)).next fun _ =>
    within_wcatProcessWait unobserved_of_still proc

/-- **The relay between the peer and this side**, and the closing behind it. -/
theorem Unseen.relayNear (hu : Unseen h) {net here : Stream} (hobj : net.obj = .net)
    (hwritable : net.Writable) (hnear : here.obj = near cfg) (hhere : here.Writable)
    {f : Bool → Proc ℕ} (hf : ∀ ok, Within Unobserved (f ok) fun rc => rc = if ok then 0 else 1) :
    Always legal (Exchange .net (near cfg))
      (wcatRelayBidirectional net here cfg.relayOptions >>= f) (Confirmed .net (near cfg)) h := by
  have hne : net.obj ≠ here.obj := by
    rw [hobj, hnear]
    exact (near_ne_net cfg).symm
  have hrelay : Always legal _ _ _ h := hu.relay hne hwritable hhere cfg.relayOptions
  rw [hobj, hnear] at hrelay
  refine always_bind'.mpr (hrelay.mono (fun _ => id) fun ok g hx hQ => ?_)
  exact hx.closing (confirmed_of_ok hQ.2) (hf ok)

/-- **Serving a peer.** -/
theorem Unseen.relayPeer (hu : Unseen h) (cfg : Config) (fd : Fd) (serverSide : Bool) :
    Always legal (Exchange .net (near cfg)) (relayPeer cfg fd serverSide)
      (Confirmed .net (near cfg)) h := by
  refine Always.ite (fun hexec => ?_) fun hexec => ?_
  · refine always_bind'.mpr ((hu.before (within_spawnExec_unobserved cfg)).mono (fun _ => id)
      fun r g _ hQ => ?_)
    obtain ⟨hu, -⟩ := hQ
    rcases r with _ | proc
    · exact hu.none (within_pure.mpr trivial)
    have hfinish := within_processFinish_unobserved proc
    refine always_bind'.mpr ((hu.before (within_peerStream_unobserved cfg fd serverSide)).mono
      (fun _ => id) fun r g _ hQ => ?_)
    obtain ⟨hu, hnets⟩ := hQ
    rcases r with _ | net
    · exact hu.none (hfinish.next fun _ => trivial)
    have hnet := hnets net rfl
    exact @Unseen.relayNear _ _ _ hu { net with closeOnEof := false } _ hnet.obj hnet.writable
      (procStream_obj hexec proc) writable_pair _ fun ok =>
        hfinish.next fun _ => hnet.close.next fun _ => within_pure.mpr rfl
  · refine always_bind'.mpr ((hu.before (within_peerStream_unobserved cfg fd serverSide)).mono
      (fun _ => id) fun r g _ hQ => ?_)
    obtain ⟨hu, hnets⟩ := hQ
    rcases r with _ | net
    · exact hu.none (within_pure.mpr trivial)
    have hnet := hnets net rfl
    exact hu.relayNear hnet.obj hnet.writable (stdioStream_obj hexec) writable_pair fun ok =>
      hnet.close.next fun _ => within_pure.mpr rfl

/-! ### From its start -/

theorem within_connectSocket_unobserved (cfg : Config) :
    Within Unobserved (connectSocket cfg) fun _ => True := by
  have hq := unobserved_of_quiet
  have hc : ∀ t m, Unobserved (.close (.sock t m)) := fun _ _ => unobserved_close _
  have hconn : ∀ fd addr, Unobserved (.connect fd addr) := fun _ _ => unobserved_of_beside trivial
  refine Within.ite (fun _ => ?_) fun _ => Within.ite (fun _ => ?_) fun _ =>
    Within.ite (fun _ => ?_) fun _ => Within.ite (fun _ => ?_) fun _ => ?_
  · exact (within_wcatUdpConnect hq unobserved_socket (fun _ _ => hconn _ _) (hc _) _).footprint
  · exact (within_wcatUnixConnect hq unobserved_socket (fun _ => hconn _ _) (hc _) _).footprint
  · exact (within_wcatVsockConnect hq unobserved_socket (fun _ _ _ => hconn _ _) (hc _) _).footprint
  · exact (within_inetConnect hq unobserved_socket (fun _ _ => hconn _ _) (hc _) _ _).footprint
  · rcases wcatProxyParse cfg.proxyUrl with _ | proxy
    · exact Within.step (hq _ rfl) fun _ => Within.step (hq _ rfl) fun _ => trivial
    · exact (within_wcatProxyConnect hq unobserved_socket (fun _ _ => hconn _ _) (hc _)
        (fun _ _ _ _ => unobserved_of_beside trivial) (fun _ _ => unobserved_of_beside trivial)
        _ _).footprint

/-- **Connecting**, and the conversation. -/
theorem Unseen.runConnect (hu : Unseen h) (cfg : Config) :
    Always legal (Exchange .net (near cfg)) (runConnect cfg) (Confirmed .net (near cfg)) h := by
  refine always_bind'.mpr ((hu.before (within_connectSocket_unobserved cfg)).mono (fun _ => id)
    fun r g _ hQ => ?_)
  rcases r with _ | fd
  · exact hQ.1.none (Within.step (unobserved_of_quiet _ rfl) fun _ => within_pure.mpr trivial)
  refine always_bind'.mpr ((hQ.1.before (within_sys (unobserved_of_quiet _ rfl))).mono (fun _ => id)
    fun _ g _ hQ => ?_)
  exact hQ.1.relayPeer cfg fd false

/-- A QUIC stream is conversed on like any other. -/
theorem Unseen.serveQuicStream (hu : Unseen h) (cfg : Config) (quic : TlsStream) {p : Proc Unit}
    (hp : Within Unobserved p fun _ => True) :
    Always legal (Exchange .net (near cfg)) (do
      let status ← serveQuicStream cfg quic
      p
      pure status) (Confirmed .net (near cfg)) h := by
  have hclose : Within Unobserved (wcatTlsClose quic) fun _ => True :=
    within_wcatTlsClose (unobserved_of_beside trivial) (unobserved_close _)
  have hwritable : (wcatStreamFromTls .net quic).Writable := fun _ _ hio =>
    absurd hio (by simp [wcatStreamFromTls])
  rw [Wirecat.serveQuicStream]
  by_cases hexec : cfg.execPath.isSome = true
  · rw [if_pos hexec, relayStreamToProcess]
    simp only [bind_assoc, pure_bind]
    refine always_bind'.mpr ((hu.before (within_spawnExec_unobserved cfg)).mono (fun _ => id)
      fun r g _ hQ => ?_)
    obtain ⟨hu, -⟩ := hQ
    rcases r with _ | proc
    · exact hu.none (hclose.next fun _ => hp.next fun _ => within_pure.mpr trivial)
    simp only [bind_assoc, pure_bind]
    exact @Unseen.relayNear _ _ _ hu { wcatStreamFromTls .net quic with closeOnEof := false } _ rfl
      hwritable (procStream_obj hexec proc) writable_pair _ fun ok =>
        (within_processFinish_unobserved proc).next fun _ => hclose.next fun _ => hp.next fun _ =>
          within_pure.mpr rfl
  · rw [if_neg hexec, relayStreamToStdio]
    simp only [bind_assoc, pure_bind]
    exact hu.relayNear rfl hwritable (stdioStream_obj hexec) writable_pair fun ok =>
      hclose.next fun _ => hp.next fun _ => within_pure.mpr rfl

theorem Unseen.runQuicConnect (hu : Unseen h) (cfg : Config) :
    Always legal (Exchange .net (near cfg)) (runQuicConnect cfg) (Confirmed .net (near cfg)) h := by
  have hopen : Within Unobserved (wcatQuicClientOpen cfg) fun _ => True :=
    (within_wcatQuicClientOpen unobserved_of_quiet unobserved_socket (fun _ _ => unobserved_of_beside trivial)
      (fun _ => unobserved_of_beside trivial) (fun _ => unobserved_of_beside trivial)
      fun _ => unobserved_close _).footprint
  refine always_bind'.mpr ((hu.before hopen).mono (fun _ => id) fun r g _ hQ => ?_)
  rcases r with _ | quic
  · exact hQ.1.none (within_pure.mpr trivial)
  refine always_bind'.mpr ((hQ.1.before (within_sys (unobserved_of_quiet _ rfl))).mono (fun _ => id)
    fun _ g _ hQ => ?_)
  have hserve : Always legal _ _ _ g := hQ.1.serveQuicStream cfg quic (p := pure ())
    (within_pure.mpr trivial)
  simpa only [pure_bind, bind_pure] using hserve

theorem Unseen.runQuicListen (hu : Unseen h) (cfg : Config) :
    Always legal (Exchange .net (near cfg)) (runQuicListen cfg) (Confirmed .net (near cfg)) h := by
  have hclose : ∀ listener, Within Unobserved (wcatQuicListenerClose listener) fun _ => True :=
    fun listener => within_close_unobserved _
  have hopen : Within Unobserved (wcatQuicListenerOpen cfg) fun _ => True :=
    (within_wcatQuicListenerOpen unobserved_of_quiet unobserved_socket fun _ => unobserved_close _).footprint
  refine always_bind'.mpr ((hu.before hopen).mono (fun _ => id) fun r g _ hQ => ?_)
  rcases r with _ | listener
  · exact hQ.1.none (within_pure.mpr trivial)
  refine always_bind'.mpr ((hQ.1.before (within_sys (unobserved_of_quiet _ rfl))).mono (fun _ => id)
    fun _ g _ hQ => ?_)
  have haccept : Within Unobserved (wcatQuicAccept listener) fun _ => True :=
    (within_wcatQuicAccept unobserved_of_still unobserved_stop listener).footprint
  refine always_bind'.mpr ((hQ.1.before haccept).mono (fun _ => id) fun r g _ hQ => ?_)
  rcases r with _ | quic
  · exact hQ.1.none ((hclose listener).next fun _ =>
      Within.step unobserved_stop fun _ => within_pure.mpr trivial)
  refine always_bind'.mpr ((hQ.1.before (within_sys (unobserved_of_quiet _ rfl))).mono (fun _ => id)
    fun _ g _ hQ => ?_)
  exact hQ.1.serveQuicStream cfg quic (hclose listener)

/-- **Listening for one peer**, and the conversation. -/
theorem Unseen.runListen (hu : Unseen h) (hmulti : cfg.multi = false)
    (hkeep : cfg.keepOpen = false) :
    Always legal (Exchange .net (near cfg)) (runListen cfg) (Confirmed .net (near cfg)) h := by
  have hq := unobserved_of_quiet
  rw [Wirecat.runListen, if_neg (by simp [hmulti])]
  refine Always.ite (fun _ => ?_) fun _ => ?_
  · have hbind : Within Unobserved (wcatUdpBind cfg.hostArg cfg.portArg cfg.family) fun _ => True :=
      (within_wcatUdpBind hq unobserved_socket (fun _ => unobserved_close _) _ _ _).footprint
    refine always_bind'.mpr ((hu.before hbind).mono (fun _ => id) fun r g _ hQ => ?_)
    rcases r with _ | listener
    · exact hQ.1.none (Within.step (hq _ rfl) fun _ => within_pure.mpr trivial)
    · exact hQ.1.relayPeer cfg listener true
  have hlisten : Within Unobserved (openListener cfg) fun _ => True :=
    Within.ite (fun _ => (within_wcatUnixListen hq unobserved_socket (fun _ => unobserved_close _) _ _).footprint)
      fun _ => Within.ite (fun _ => (within_wcatVsockListen hq unobserved_socket (fun _ => unobserved_close _) _ _
        _).footprint) fun _ => Within.ite (fun _ => (within_inetListen hq unobserved_socket
          (fun _ => unobserved_close _) _ _ _ _).footprint) fun _ =>
            (within_inetListen hq unobserved_socket (fun _ => unobserved_close _) _ _ _ _).footprint
  refine always_bind'.mpr ((hu.before hlisten).mono (fun _ => id) fun r g _ hQ => ?_)
  rcases r with _ | listener
  · exact hQ.1.none (Within.step (hq _ rfl) fun _ => within_pure.mpr trivial)
  have hlog : Within Unobserved (if cfg.unixSocket = true then
      sys (.log .info "listen" "listening on unix:%s" [.str cfg.hostArg])
      else sys (.log .info "listen" "listening on %s:%s" [.str cfg.hostArg, .str cfg.portArg]))
      fun _ => True := Within.ite (fun _ => within_sys (hq _ rfl)) fun _ => within_sys (hq _ rfl)
  refine always_bind'.mpr ((hQ.1.before hlog).mono (fun _ => id) fun _ g _ hQ => ?_)
  obtain ⟨hu, -⟩ := hQ
  have hagain : ∀ status, listenAgain cfg status = pure (.inr status) := fun status => by
    rw [listenAgain, if_neg (by simp [hkeep])]
  have hloop : Always legal (Exchange .net (near cfg)) (Prog.loop (listenRound cfg listener) 0)
      (fun rc g => Exchange .net (near cfg) g ∧ Confirmed .net (near cfg) rc g) g := by
    refine Always.loop (fun _ g => Unseen g) hu fun status g hu => ?_
    have haccept : Within Unobserved (acceptWhenReady listener (some (128, 32))) fun _ => True :=
      (within_acceptWhenReady unobserved_of_still unobserved_stop (unobserved_of_beside trivial)
        _).footprint
    refine always_bind'.mpr ((hu.before haccept).mono (fun _ => id) fun r g _ hQ => ?_)
    obtain ⟨hu, -⟩ := hQ
    rcases r with _ | peer
    · refine always_bind'.mpr ((hu.before (within_sys unobserved_stop)).mono (fun _ => id)
        fun stop g _ hQ => ?_)
      obtain ⟨hu, -⟩ := hQ
      have hx : Exchange .net (near cfg) g := hu.wholeExchange.exchange
      refine Always.ite (fun _ => ?_) fun _ => ?_
      · exact always_pure.mpr ⟨hx, hx, fun _ => hu.wholeExchange⟩
      refine always_bind'.mpr ((hu.before (within_sys (hq _ rfl))).mono (fun _ => id)
        fun _ g hx hQ => ?_)
      exact always_pure.mpr ⟨hx, hx, fun _ => hQ.1.wholeExchange⟩
    have hcheck : Within Unobserved (wcatAccessCheckFd cfg peer.fd) fun _ => True :=
      within_wcatAccessCheckFd unobserved_of_still (unobserved_of_beside trivial) cfg
    refine always_bind'.mpr ((hu.before hcheck).mono (fun _ => id) fun ok g _ hQ => ?_)
    obtain ⟨hu, -⟩ := hQ
    simp only [hagain]
    refine Always.ite (fun _ => ?_) fun _ => ?_
    · refine always_bind'.mpr ((hu.before (within_close_unobserved _)).mono (fun _ => id)
        fun _ g hx hQ => ?_)
      exact always_pure.mpr ⟨hx, hx, fun _ => hQ.1.wholeExchange⟩
    refine always_bind'.mpr ((hu.before (within_sys (hq _ rfl))).mono (fun _ => id)
      fun _ g _ hQ => ?_)
    refine always_bind'.mpr ((hQ.1.relayPeer cfg peer.fd true).mono (fun _ => id)
      fun rc g hx hconfirmed => ?_)
    exact always_pure.mpr ⟨hx, hx, hconfirmed⟩
  refine always_bind'.mpr (hloop.mono (fun _ => id) fun rc g _ hQ => ?_)
  exact hQ.1.closing hQ.2 ((within_close_unobserved _).next fun _ => within_pure.mpr rfl)

end

/-! ### Both together -/

/-- **Who can be on either side** of a conversation: a program, the history before it, and its
stream on this side. -/
inductive Speaker : Proc ℕ → Hist → Obj → Prop
  /-- One that connects. -/
  | connect (cfg : Config) (hmode : cfg.mode = .connect) : Speaker (dispatch cfg) [] (near cfg)
  /-- One that listens for a single peer. -/
  | listen (cfg : Config) (hmode : cfg.mode = .listen) (hmulti : cfg.multi = false)
      (hkeep : cfg.keepOpen = false) : Speaker (dispatch cfg) [] (near cfg)
  /-- One of the sessions of a listener that is kept open. -/
  | session (cfg : Config) (fd : Fd) (k : Hist) : Speaker (relayPeer cfg fd true) k (near cfg)

/-- What a speaker keeps, whatever the other side does. -/
theorem Speaker.exchange {p : Proc ℕ} {k : Hist} {here : Obj} (hs : Speaker p k here) :
    Always (After Legal k) (Exchange .net here) p (Confirmed .net here) [] := by
  have hstart : Unseen [] := fun _ => ⟨rfl, rfl⟩
  cases hs with
  | connect cfg hmode =>
    rw [dispatch, hmode]
    exact Always.ite (fun _ => hstart.runQuicConnect cfg) fun _ => hstart.runConnect cfg
  | listen cfg hmode hmulti hkeep =>
    rw [dispatch, hmode]
    exact Always.ite (fun _ => hstart.runQuicListen cfg) fun _ => hstart.runListen hmulti hkeep
  | session cfg fd k => exact hstart.relayPeer cfg fd true

/-- **A connection** between two speakers: what the one receives was sent by the other, in that
order. -/
structure Connected (c d : Hist) : Prop where
  there : bytesRead .net d <+: bytesWritten .net c
  back : bytesRead .net c <+: bytesWritten .net d

instance (c d : Hist) : Decidable (Connected c d) :=
  decidable_of_iff (bytesRead .net d <+: bytesWritten .net c ∧
    bytesRead .net c <+: bytesWritten .net d) ⟨fun h => ⟨h.1, h.2⟩, fun h => ⟨h.there, h.back⟩⟩

/-- Everything that was sent was received. -/
structure Received (c d : Hist) : Prop where
  there : bytesRead .net d = bytesWritten .net c
  back : bytesRead .net c = bytesWritten .net d

/-- **A conversation so far**: on either side, what is shown is a beginning of what was typed on
the other. -/
structure Conversation (here there : Obj) (c d : Hist) : Prop where
  said : bytesWritten there d <+: bytesRead here c
  answered : bytesWritten here c <+: bytesRead there d

/-- **A conversation is faithful**: in every interleaving of two speakers that are connected, at
every moment; and when both report success and everything that was sent was received, all that was
typed on either side was shown on the other. -/
theorem joint_conversation {p q : Proc ℕ} {k l : Hist} {here there : Obj}
    {w : Interleaving Sys Resp Sys Resp} {o o' : Option ℕ} (hp : Speaker p k here)
    (hq : Speaker q l there) (hj : Joint Legal Legal Connected p k q l w o o') :
    (∀ w', w' <:+ w → Conversation here there (firstOf w') (secondOf w')) ∧
      (o = some 0 → o' = some 0 → Received (firstOf w) (secondOf w) →
        bytesWritten there (secondOf w) = bytesRead here (firstOf w) ∧
          bytesWritten here (firstOf w) = bytesRead there (secondOf w)) := by
  constructor
  · intro w' hw
    have hj' := hj.before hw
    have hfirst : Exchange .net here (firstOf w') := hp.exchange.safe hj'.first.ext
    have hsecond : Exchange .net there (secondOf w') := hq.exchange.safe hj'.second.ext
    have hconn : Connected (firstOf w') (secondOf w') := hj'.linked w' (List.suffix_refl _)
    constructor
    · exact hsecond.there.trans (hconn.there.trans hfirst.back)
    · exact hfirst.there.trans (hconn.back.trans hsecond.back)
  · rintro rfl rfl hall
    have hfirst : WholeExchange .net here (firstOf w) := hp.exchange.post hj.first.ext rfl
    have hsecond : WholeExchange .net there (secondOf w) := hq.exchange.post hj.second.ext rfl
    constructor
    · exact hsecond.there.trans (hall.there.trans hfirst.back)
    · exact hfirst.there.trans (hall.back.trans hsecond.back)

/-! ### A short conversation -/

/-- The command line of the one who connects. -/
def dialerConfig : Config := { mode := .connect, host := some (lit "h"), port := some (lit "2") }

/-- The command line of the one who listens. -/
def answererConfig : Config := { mode := .listen, port := some (lit "2") }

/-- What surrounds the one who connects: "hi" is typed, and then "yo" comes. -/
def dialer (h : Hist) : (e : Sys) → Resp e
  | .stop => false
  | .getaddrinfo _ _ _ _ _ => some 1
  | .socket _ => .ok 3
  | .connect _ _ | .close _ => none
  | .write _ _ buf => .all buf
  | .read (.stream .net) _ _ _ len => readOnce .net (lit "yo") h len
  | .read (.stream .stdioStream) _ _ _ len => readOnce .stdioStream (lit "hi") h len
  | .poll fds _ => .reporting fds (fds.map fun p =>
      { pollin := p.fd = some .stdin ∨ bytesRead .stdioStream h ≠ [] })
  | e => refuse e

/-- What surrounds the one who listens: somebody comes, "hi" is received, and "yo" is typed. -/
def answerer (h : Hist) : (e : Sys) → Resp e
  | .stop => false
  | .getaddrinfo _ _ _ _ _ => some 1
  | .socket _ => .ok 3
  | .bind _ _ | .listen _ _ | .close _ => none
  | .setNonblock _ _ => true
  | .accept _ => .ok 4
  | .write _ _ buf => .all buf
  | .read (.stream .net) _ _ _ len => readOnce .net (lit "hi") h len
  | .read (.stream .stdioStream) _ _ _ len => readOnce .stdioStream (lit "yo") h len
  | .poll fds _ => .reporting fds (fds.map fun _ => { pollin := true })
  | e => refuse e

/-- The run of the one who connects. -/
def dialerRun : Hist × Option ℕ := exec (lawful dialer) 100 (dispatch dialerConfig) []

/-- The run of the one who listens. -/
def answererRun : Hist × Option ℕ := exec (lawful answerer) 100 (dispatch answererConfig) []

/-- The two, by turns: the one waits, the other calls and speaks, is answered, and hears it. -/
def inTurn (c d : Hist) : Interleaving Sys Resp Sys Resp :=
  (c.take 10).map .inl ++ ((d.take 9).map .inr ++ ((c.drop 10).map .inl ++ (d.drop 9).map .inr))

theorem of_inTurn (c d : Hist) : firstOf (inTurn c d) = c ∧ secondOf (inTurn c d) = d := by
  simp only [inTurn, firstOf_append, secondOf_append, firstOf_map_inl, firstOf_map_inr,
    secondOf_map_inl, secondOf_map_inr, List.nil_append, List.append_nil, List.take_append_drop,
    and_self]

theorem joint_inTurn :
    Joint Legal Legal Connected (dispatch dialerConfig) [] (dispatch answererConfig) []
      (inTurn dialerRun.1 answererRun.1) (some 0) (some 0) := by
  obtain ⟨hfirst, hsecond⟩ := of_inTurn dialerRun.1 answererRun.1
  have hc := exec_runs (legal_lawful dialer) 100 (dispatch dialerConfig) []
  have hd := exec_runs (legal_lawful answerer) 100 (dispatch answererConfig) []
  have hrc : dialerRun.2 = some 0 := by decide +kernel
  have hrd : answererRun.2 = some 0 := by decide +kernel
  constructor
  · rw [hfirst, List.append_nil]
    exact hrc ▸ hc
  · rw [hsecond, List.append_nil]
    exact hrd ▸ hd
  · have hall : ∀ w ∈ (inTurn dialerRun.1 answererRun.1).tails,
        Connected (firstOf w) (secondOf w) := by decide +kernel
    exact fun w hw => hall w ((List.mem_tails _ _).mpr hw)

/-- What is typed on either side is shown on the other. -/
theorem joint_conversation_inTurn :
    bytesWritten .stdioStream answererRun.1 = bytesRead .stdioStream dialerRun.1 ∧
      bytesWritten .stdioStream dialerRun.1 = bytesRead .stdioStream answererRun.1 := by
  obtain ⟨hfirst, hsecond⟩ := of_inTurn dialerRun.1 answererRun.1
  have hreceived : Received (firstOf (inTurn dialerRun.1 answererRun.1))
      (secondOf (inTurn dialerRun.1 answererRun.1)) := by
    rw [hfirst, hsecond]
    exact ⟨by decide +kernel, by decide +kernel⟩
  have hboth := (joint_conversation (Speaker.connect dialerConfig rfl)
    (Speaker.listen answererConfig rfl rfl rfl) joint_inTurn).2 rfl rfl hreceived
  rwa [hfirst, hsecond] at hboth

/-- And something is typed on both. -/
example : bytesRead .stdioStream dialerRun.1 = lit "hi" ∧
    bytesRead .stdioStream answererRun.1 = lit "yo" := by decide +kernel

end Wirecat
