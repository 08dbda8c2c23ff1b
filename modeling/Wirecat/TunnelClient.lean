import Wirecat.HttpConnect
import Wirecat.Modes
import Wirecat.Output
import Wirecat.Traffic

/-!
# The client of the tunnel

`wcat connect --proxy http://…`, from its start to its end, by its traffic: what it writes to
sockets and what it reads from them, whatever part of the program does it. First it says its
request and nothing else; then it takes an answer, up to the first empty line; and from there on
its traffic is that of the relay, byte for byte (`Wirecat.ClientSide`). The dialogue and the relay
read the same descriptor, one after the other, and neither takes a byte of the other's.

What the proxy makes of this is another matter, and nothing of it is assumed.
-/

namespace Wirecat

open CString Interaction Conduit

section
variable {legal : Hist → (e : Sys) → Resp e → Prop} {fd : Fd} {g h ext : Hist} {α : Type}
  {Q : α → Prop}

/-! ### The dialogue with the proxy -/

/-- The requests of the dialogue on `fd`. -/
def Dialogue (fd : Fd) (e : Sys) : Prop :=
  Offline e ∨ (∃ cap off len, e = .read .handshake fd cap off len) ∨
    ∃ buf, e = .write .handshake fd buf

/-- In the dialogue no stream sees anything, and the traffic is that of the descriptor. -/
structure InDialogue (fd : Fd) (ext : Hist) : Prop where
  sent : socketSent ext = writtenTo fd ext
  taken : socketTaken ext = received fd ext
  unseen : Unseen ext

theorem InDialogue.cons {e : Sys} (hsock : fd.isSocket = true) (hd : InDialogue fd ext)
    (he : Dialogue fd e) (r : Resp e) : InDialogue fd (⟨e, r⟩ :: ext) := by
  rcases he with he | ⟨cap, off, len, rfl⟩ | ⟨buf, rfl⟩
  · obtain ⟨hsent, htaken⟩ := parts_of_offline he r
    refine ⟨?_, ?_, hd.unseen.cons (unobserved_of_offline he) r⟩
    · rw [socketSent, hsent, List.append_nil, hd.sent]
      refine (writtenTo_other ?_).symm
      rintro via buf rfl
      exact he
    · rw [socketTaken, htaken, List.append_nil, hd.taken]
      cases e with
      | read => exact he.elim
      | _ => rfl
  · refine ⟨?_, ?_, hd.unseen.cons (fun _ _ => ⟨rfl, rfl⟩) r⟩
    · rw [socketSent, hd.sent]
      exact List.append_nil _
    · rw [socketTaken, hd.taken]
      cases r <;> simp [takenPart, received, hsock]
  · refine ⟨?_, ?_, hd.unseen.cons (fun _ _ => ⟨rfl, rfl⟩) r⟩
    · rw [socketSent, hd.sent]
      cases r <;> simp [sentPart, writtenTo, hsock]
    · rw [socketTaken, hd.taken]
      exact List.append_nil _

/-- A part of the program that is a dialogue. -/
theorem always_inDialogue {p : Proc α} (hsock : fd.isSocket = true)
    (hp : Within (Dialogue fd) p Q) :
    Always legal (InDialogue fd) p (fun a g => InDialogue fd g ∧ Q a) [] :=
  hp.always ⟨rfl, rfl, fun _ => ⟨rfl, rfl⟩⟩ fun _ _ r hd he _ => hd.cons hsock he r

/-- **The answer was taken**: its bytes stop at the first empty line, and hold the status. -/
structure AnswerTaken (buf : Bytes) : Prop where
  read : HeaderRead buf buf
  status : isInfix (lit " 200 ") (ofBuffer buf) = true

/-- **The reply is read as far as it is read**, whatever the connection does. -/
theorem always_readReply_taken (hfresh : received fd h = []) :
    Always legal (fun _ => True) (readReply fd)
      (fun r g => ∀ buf ∈ r, received fd g = buf ∧ HeaderRead buf buf) h := by
  refine Always.loop (fun buf g => Reading fd buf buf g) (Reading.start hfresh) fun buf g hr => ?_
  refine Always.ite (fun hroom => Always.ask trivial fun r _ => ?_) fun hroom => ?_
  · have hfail : Always legal (fun _ => True) (do
        sys (.log .error "proxy" "HTTP CONNECT response read failed" [])
        pure (.inr none : Bytes ⊕ Option Bytes))
        (roundPost (fun buf g => Reading fd buf buf g)
          (fun r g => ∀ buf ∈ r, received fd g = buf ∧ HeaderRead buf buf))
        (⟨.read .handshake fd 1024 buf.length 1, r⟩ :: g) :=
      Always.ask trivial fun _ _ => always_pure.mpr ⟨trivial, by simp⟩
    rcases r with ⟨bytes, hne, hle⟩ | _ | e
    · obtain ⟨b, rfl⟩ : ∃ b, bytes = [b] := by
        match bytes, hne, hle with
        | [b], _, _ => exact ⟨b, rfl⟩
      have hrec : received fd (⟨.read .handshake fd 1024 buf.length 1, .data [b] hne hle⟩ :: g) =
          buf ++ [b] := by simp [received, hr.received_eq]
      have hsnoc : ∀ p, p <+: buf ++ [b] → p ≠ buf ++ [b] → ¬Stops p := fun _ =>
        hr.snoc (by omega)
      refine Always.ite (fun hseen => ?_) fun hseen => ?_
      · refine always_pure.mpr ⟨trivial, ?_⟩
        rintro _ ⟨⟩
        refine ⟨hrec, List.prefix_rfl, Or.inl hseen, fun p hp hstop => ?_⟩
        by_contra hne
        exact hsnoc p hp hne hstop
      · exact always_pure.mpr ⟨trivial, hrec, List.prefix_rfl, hsnoc, by simpa using hseen⟩
    · exact hfail
    · exact hfail
  · refine always_pure.mpr ⟨trivial, ?_⟩
    rintro _ ⟨⟩
    exact ⟨hr.received_eq, hr.full (by omega)⟩

/-- **The negotiation**, whatever the connection does: a beginning of the request is written, and
where it succeeds all of it was, and the answer was taken. -/
theorem always_httpConnect_dialogue (hsock : fd.isSocket = true) (dstHost dstPort : Bytes) :
    Always legal (fun g => InDialogue fd g ∧ writtenTo fd g <+: httpConnectRequest dstHost dstPort)
      (httpConnectNegotiate fd dstHost dstPort)
      (fun ok g => ok = true → writtenTo fd g = httpConnectRequest dstHost dstPort ∧
        AnswerTaken (received fd g)) [] := by
  have hdialogue : Within (Dialogue fd) (httpConnectNegotiate fd dstHost dstPort) fun _ => True :=
    within_httpConnectNegotiate (still_of_quiet fun e he => .inl (offline_of_quiet e he))
      (fun cap off len => .inr (.inl ⟨cap, off, len, rfl⟩)) (fun buf => .inr (.inr ⟨buf, rfl⟩)) _ _
  suffices hwrites : Always legal
      (fun g => writtenTo fd g <+: httpConnectRequest dstHost dstPort)
      (httpConnectNegotiate fd dstHost dstPort)
      (fun ok g => ok = true → writtenTo fd g = httpConnectRequest dstHost dstPort ∧
        AnswerTaken (received fd g)) [] by
    exact ((always_inDialogue hsock hdialogue).and hwrites).post_mono fun _ _ hQ => hQ.2
  by_cases hfit : (httpConnectRequest dstHost dstPort).length < 512
  swap
  · rw [httpConnectNegotiate, if_pos (by omega)]
    refine Always.ask List.nil_prefix fun _ _ => Always.ask List.nil_prefix fun _ _ => ?_
    exact always_pure.mpr ⟨List.nil_prefix, by simp⟩
  rw [httpConnectNegotiate_eq hfit, always_bind']
  -- nothing is read while the request is written
  have hunread : Within (fun e => ∀ cap off len, e ≠ .read .handshake fd cap off len)
      (wcatFullWrite .handshake fd (httpConnectRequest dstHost dstPort)) fun _ => True :=
    within_wcatFullWrite (fun _ => by simp) _
  have hreceived : Always legal (fun g => received fd g = [])
      (wcatFullWrite .handshake fd (httpConnectRequest dstHost dstPort)) (fun _ _ => True) [] := by
    refine (hunread.always (S := fun g => received fd g = []) rfl fun g e r hg he _ => ?_).post_mono
      fun _ _ _ => trivial
    rw [← hg]
    cases e with
    | read via fd' cap off len =>
      cases via with
      | handshake =>
        have hne : fd' ≠ fd := fun heq => he cap off len (heq ▸ rfl)
        cases r <;> simp [received, hne]
      | _ => rfl
    | _ => rfl
  have houtputs : Outputs legal fd False (wcatFullWrite .handshake fd
      (httpConnectRequest dstHost dstPort)) (httpConnectRequest dstHost dstPort) _ _ :=
    outputs_wcatFullWrite .handshake _
  refine ((houtputs []).and hreceived).mono ?_ ?_
  · rintro g ⟨⟨-, ⟨begun, hpre, hw⟩, -⟩, -⟩
    exact hw ▸ hpre
  rintro n g ⟨⟨-, ⟨begun, hpre, hw⟩, -⟩, hnone⟩ ⟨hdone, -⟩
  have hbegun : writtenTo fd g <+: httpConnectRequest dstHost dstPort := hw ▸ hpre
  refine Always.ite (fun hshort => ?_) fun hall => ?_
  · exact Always.ask hbegun fun _ _ => always_pure.mpr ⟨hbegun, by simp⟩
  have hwhole : writtenTo fd g = httpConnectRequest dstHost dstPort := by
    rcases hdone with ⟨-, hprinted⟩ | ⟨hne, -⟩
    · exact hprinted.written
    · exact absurd hne hall
  have hkeeps : ∀ {α : Type} {p : Proc α} {Q : α → Prop} {g : Hist},
      writtenTo fd g = httpConnectRequest dstHost dstPort → Within (NotTo fd) p Q →
        Always legal (fun g => writtenTo fd g = httpConnectRequest dstHost dstPort) p
          (fun a _ => Q a) g := by
    intro α p Q g hg hp
    refine (hp.always hg fun g e r hg he _ => ?_).post_mono fun _ _ hQ => hQ.2
    exact (writtenTo_other (notTo_iff.mp he)).trans hg
  have hreply : Within (NotTo fd) (readReply fd) fun _ => True := by
    refine Within.loop (fun _ => True) trivial fun buf _ => ?_
    refine Within.ite (fun _ => ?_) fun _ => trivial
    refine Within.step trivial fun r => ?_
    rcases r with ⟨bytes, hne, hle⟩ | _ | e
    · exact Within.ite (fun _ => trivial) fun _ => trivial
    · exact Within.step trivial fun _ => trivial
    · exact Within.step trivial fun _ => trivial
  refine always_bind'.mpr (((hkeeps hwhole hreply).and (always_readReply_taken hnone)).mono
    (fun _ hS => hS.1 ▸ List.prefix_rfl) fun r g hS hQ => ?_)
  obtain ⟨-, htaken⟩ := hQ
  rcases r with _ | buf
  · exact always_pure.mpr ⟨hS.1 ▸ List.prefix_rfl, by simp⟩
  obtain ⟨hgot, hread⟩ := htaken buf rfl
  refine Always.ite (fun _ => ?_) fun hstatus => ?_
  · refine Always.ask (hS.1 ▸ List.prefix_rfl) fun _ _ => always_pure.mpr ⟨?_, by simp⟩
    exact hS.1 ▸ List.prefix_rfl
  · refine always_pure.mpr ⟨hS.1 ▸ List.prefix_rfl, fun _ => ⟨hS.1, hgot ▸ ⟨hread, ?_⟩⟩⟩
    simpa using hstatus

/-! ### The relay of the client -/

/-- The requests of a relay between a socket, which is `net`, and a stream on this side. -/
def Sorted (e : Sys) : Prop :=
  Offline e ∨ ∃ o x, (o = .net ↔ x.isSocket = true) ∧
    ((∃ cap off len, e = .read (.stream o) x cap off len) ∨ ∃ buf, e = .write (.stream o) x buf)

theorem sorted_of_quiet (e : Sys) (he : Quiet e = true) : Sorted e := .inl (offline_of_quiet e he)

/-- What the relay exchanges on sockets is what `net` exchanges. -/
theorem parts_of_sorted {e : Sys} (he : Sorted e) (r : Resp e) :
    sentPart ⟨e, r⟩ = putTo .net (obs e r).toList ∧
      takenPart ⟨e, r⟩ = gotFrom .net (obs e r).toList := by
  rcases he with he | ⟨o, x, hiff, ⟨cap, off, len, rfl⟩ | ⟨buf, rfl⟩⟩
  · obtain ⟨hsent, htaken⟩ := parts_of_offline he r
    obtain ⟨hgot, hput⟩ := unobserved_of_offline he r .net
    exact ⟨hsent.trans hput.symm, htaken.trans hgot.symm⟩
  · rcases r with ⟨bytes, hpos, hle⟩ | _ | err
    · simp [sentPart, takenPart, obs, readObs, gotFrom, putTo, hiff]
    · exact ⟨rfl, rfl⟩
    · simp only [obs, readObs]
      split_ifs <;> exact ⟨rfl, rfl⟩
  · rcases r with ⟨_ | n, hn⟩ | err
    · simp [sentPart, takenPart, obs, writeObs, gotFrom, putTo]
    · simp [sentPart, takenPart, obs, writeObs, gotFrom, putTo, hiff]
    · simp only [obs, writeObs]
      split_ifs <;> exact ⟨rfl, rfl⟩

theorem traffic_of_sorted (hext : ∀ ev ∈ ext, Sorted ev.1) :
    socketSent ext = bytesWritten .net ext ∧ socketTaken ext = bytesRead .net ext := by
  induction ext with
  | nil => exact ⟨rfl, rfl⟩
  | cons ev ext ih =>
    obtain ⟨e, r⟩ := ev
    obtain ⟨hsent, htaken⟩ := ih fun ev hev => hext ev (List.mem_cons_of_mem _ hev)
    obtain ⟨hput, hgot⟩ := parts_of_sorted (hext _ List.mem_cons_self) r
    rw [socketSent, socketTaken, hsent, htaken, hput, hgot, bytesWritten, bytesWritten, bytesRead,
      bytesRead, trace_cons, putTo_append, gotFrom_append]
    exact ⟨rfl, rfl⟩

/-! ### The client -/

/-- The stream of `wcat connect` on this side: the child, or standard input and output. -/
def near (cfg : Config) : Obj := if cfg.execPath.isSome then .procStream else .stdioStream

theorem near_ne_net (cfg : Config) : near cfg ≠ .net := by
  rw [near]
  split_ifs <;> decide

theorem stdioStream_obj {cfg : Config} (hexec : ¬cfg.execPath.isSome = true) :
    stdioStream.obj = near cfg := by
  rw [near, if_neg hexec]
  rfl

theorem procStream_obj {cfg : Config} (hexec : cfg.execPath.isSome = true) (proc : ProcessHandle) :
    (procStream proc).obj = near cfg := by
  rw [near, if_pos hexec]
  rfl

theorem writable_pair {o : Obj} {x y : Fd} : (wcatStreamFromFdPair o x y).Writable :=
  fun _ _ hio => by simp [wcatStreamFromFdPair] at hio

/-- The request for the target of the command line. -/
def ownRequest (cfg : Config) : Bytes := httpConnectRequest cfg.hostArg cfg.portArg

/-- **The client of the tunnel**, behind its dialogue: the answer was taken, and the two ends of
the relay have accepted beginnings of what the other gave. -/
structure ThroughTunnel (cfg : Config) (h : Hist) : Prop where
  answered : ∃ answer, AnswerTaken answer ∧ socketTaken h = answer ++ bytesRead .net h
  sent : socketSent h = ownRequest cfg ++ bytesWritten .net h
  shown : bytesWritten (near cfg) h <+: bytesRead .net h
  typed : bytesWritten .net h <+: bytesRead (near cfg) h

/-- What is true of the client at every moment. -/
inductive ClientSide (cfg : Config) (h : Hist) : Prop
  /-- It is about to ask, or has asked. -/
  | asking (begun : socketSent h <+: ownRequest cfg) (unseen : Unseen h)
  /-- It was answered. -/
  | through (tunnel : ThroughTunnel cfg h)

/-- What the client comes to: with the status `0`, nothing of what it relayed is missing. -/
def ThroughWhole (cfg : Config) (rc : ℕ) (h : Hist) : Prop :=
  rc = 0 → ThroughTunnel cfg h ∧ bytesWritten (near cfg) h = bytesRead .net h ∧
    bytesWritten .net h = bytesRead (near cfg) h

/-- The client when its dialogue is over. -/
structure Asked (cfg : Config) (h : Hist) : Prop where
  sent : socketSent h = ownRequest cfg
  answer : AnswerTaken (socketTaken h)
  unseen : Unseen h

variable {cfg : Config}

theorem Asked.clientSide (ha : Asked cfg h) : ClientSide cfg h :=
  .asking (ha.sent ▸ List.prefix_rfl) ha.unseen

theorem Asked.later (ha : Asked cfg h) (hn : NoTraffic ext) : Asked cfg (ext ++ h) := by
  obtain ⟨hsent, htaken, -⟩ := hn.same (h := h)
  exact ⟨hsent.trans ha.sent, htaken ▸ ha.answer, hn.unseen.append ha.unseen⟩

theorem ThroughTunnel.later (ht : ThroughTunnel cfg h) (hn : NoTraffic ext) :
    ThroughTunnel cfg (ext ++ h) := by
  obtain ⟨hsent, htaken, hobj⟩ := hn.same (h := h)
  obtain ⟨answer, hanswer, heq⟩ := ht.answered
  refine ⟨⟨answer, hanswer, ?_⟩, ?_, ?_, ?_⟩
  · rw [htaken, (hobj _).1, heq]
  · rw [hsent, (hobj _).2, ht.sent]
  · rw [(hobj _).1, (hobj _).2]
    exact ht.shown
  · rw [(hobj _).1, (hobj _).2]
    exact ht.typed

theorem ClientSide.later (hc : ClientSide cfg h) (hn : NoTraffic ext) :
    ClientSide cfg (ext ++ h) := by
  cases hc with
  | asking begun unseen =>
    refine .asking ?_ (hn.unseen.append unseen)
    rwa [hn.same.1]
  | through tunnel => exact .through (tunnel.later hn)

/-- A part of the client that exchanges no bytes. -/
theorem ClientSide.offline (hc : ClientSide cfg h) {p : Proc α} (hp : Within Offline p Q) :
    Always legal (ClientSide cfg) p (fun a g => (∃ ext, g = ext ++ h ∧ NoTraffic ext) ∧ Q a) h := by
  refine (always_offline hp).mono ?_ fun _ _ _ hQ => hQ
  rintro _ ⟨ext, rfl, hn⟩
  exact hc.later hn

/-- **The relay of the client** begins where the answer ended. -/
theorem Asked.relay (ha : Asked cfg h) {a b : Stream} (hobj : a.obj = .net)
    (hnear : b.obj = near cfg) (hwa : a.Writable) (hwb : b.Writable) (hina : StreamIn Sorted a)
    (hinb : StreamIn Sorted b) (opts : RelayOptions) :
    Always legal (ClientSide cfg) (wcatRelayBidirectional a b opts)
      (fun ok g => ThroughTunnel cfg g ∧ (ok = true → WholeExchange .net (near cfg) g)) h := by
  have hab : a.obj ≠ b.obj := by
    rw [hobj, hnear]
    exact (near_ne_net cfg).symm
  have hexchange : Always legal _ _ _ h := ha.unseen.relay hab hwa hwb opts
  rw [hobj, hnear] at hexchange
  have hwithin := within_wcatRelayBidirectional (still_of_quiet sorted_of_quiet) (.inl trivial) hina
    hinb opts
  have hevents : Always (After legal h) (fun ext => ∀ ev ∈ ext, Sorted ev.1)
      (wcatRelayBidirectional a b opts) (fun _ ext => ∀ ev ∈ ext, Sorted ev.1) [] :=
    (hwithin.always (S := fun ext => ∀ ev ∈ ext, Sorted ev.1)
      (fun _ hev => absurd hev List.not_mem_nil)
      fun g e r hg he _ => List.forall_mem_cons.mpr ⟨he, hg⟩).post_mono fun _ _ hQ => hQ.1
  -- behind the answer, the traffic is what the relay exchanges
  have hthrough : ∀ ext, (∀ ev ∈ ext, Sorted ev.1) → Exchange .net (near cfg) (ext ++ h) →
      ThroughTunnel cfg (ext ++ h) := by
    intro ext hext hx
    obtain ⟨hsent, htaken⟩ := traffic_of_sorted hext
    refine ⟨⟨_, ha.answer, ?_⟩, ?_, hx.there, hx.back⟩
    · rw [socketTaken_append, htaken, bytesRead_append, (ha.unseen _).1, List.nil_append]
    · rw [socketSent_append, hsent, bytesWritten_append, (ha.unseen _).2, List.nil_append, ha.sent]
  refine (hexchange.and hevents.shift).mono ?_ ?_
  · rintro _ ⟨hx, ext, rfl, hext⟩
    exact .through (hthrough ext hext hx)
  · rintro ok _ - ⟨⟨hx, hall⟩, ext, rfl, hext⟩
    exact ⟨hthrough ext hext hx, hall⟩

theorem streamIn_net (hsock : fd.isSocket = true) : StreamIn Sorted (wcatStreamFromFd .net fd) := by
  have hiff : Obj.net = .net ↔ fd.isSocket = true := iff_of_true rfl hsock
  refine ⟨fun len => .inr ⟨_, _, hiff, .inl ⟨_, _, _, rfl⟩⟩, ?_⟩
  rintro _ ⟨⟩
  exact ⟨fun buf => .inr ⟨_, _, hiff, .inr ⟨_, rfl⟩⟩, fun _ => .inl trivial⟩

theorem streamIn_near {o : Obj} {x y : Fd} (ho : o ≠ .net) (hx : x.isSocket = false)
    (hy : y.isSocket = false) : StreamIn Sorted (wcatStreamFromFdPair o x y) := by
  have hiff : ∀ {z : Fd}, z.isSocket = false → (o = .net ↔ z.isSocket = true) := fun hz =>
    iff_of_false ho (by simp [hz])
  refine ⟨fun len => .inr ⟨_, _, hiff hx, .inl ⟨_, _, _, rfl⟩⟩, ?_⟩
  rintro _ ⟨⟩
  exact ⟨fun buf => .inr ⟨_, _, hiff hy, .inr ⟨_, rfl⟩⟩, fun _ => .inl trivial⟩

theorem not_isSocket_of_isChild (hfd : fd.isChild = true) : fd.isSocket = false := by
  cases fd <;> first | rfl | exact absurd hfd Bool.false_ne_true

/-- Behind the relay the client only closes. -/
theorem ThroughTunnel.closing {p : Proc Unit} {ok : Bool} (ht : ThroughTunnel cfg h)
    (hall : ok = true → WholeExchange .net (near cfg) h) (hp : Within Offline p fun _ => True) :
    Always legal (ClientSide cfg) (do p; pure (if ok then 0 else 1)) (ThroughWhole cfg) h := by
  have hclose : Within Offline (do p; pure (if ok then 0 else 1))
      fun rc => rc = if ok then 0 else 1 := hp.next fun _ => within_pure.mpr rfl
  refine (ClientSide.offline (.through ht) hclose).post_mono ?_
  rintro rc _ ⟨⟨ext, rfl, hn⟩, rfl⟩ hrc
  have hok : ok = true := by
    by_contra hno
    rw [if_neg hno] at hrc
    exact absurd hrc (by simp)
  have hwhole : WholeExchange .net (near cfg) (ext ++ h) := (hall hok).later hn.unseen
  exact ⟨ht.later hn, hwhole.there, hwhole.back⟩

/-- **Relaying the tunnel**, to standard input and output or to a child. -/
theorem Asked.relayPeer (ha : Asked cfg h) (hsock : fd.isSocket = true) (htls : cfg.tls = false)
    (hsctp : cfg.sctp = false) :
    Always legal (ClientSide cfg) (relayPeer cfg fd false) (ThroughWhole cfg) h := by
  have hstream : peerStream cfg fd false = pure (some (wcatStreamFromFd .net fd)) := by
    rw [peerStream, networkStream, htls, hsctp]
    rfl
  have hnet : (wcatStreamFromFd .net fd).Writable :=
    fun _ _ hio => by simp [wcatStreamFromFd] at hio
  have hclose : ∀ x, Within Offline (wcatCloseQuiet x) fun _ => True := fun x =>
    within_wcatCloseQuiet trivial
  by_cases hexec : cfg.execPath.isSome = true
  · rw [Wirecat.relayPeer, if_pos hexec, relayPeerToProcess]
    have hspawn : Within Offline (spawnExec cfg)
        fun r => ∀ proc ∈ r, proc.inFd.isChild = true ∧ proc.outFd.isChild = true := by
      refine (within_wcatProcessSpawn offline_of_quiet (fun _ => trivial) _ _).bind' fun r hr => ?_
      rcases r with _ | proc
      · exact Within.step trivial fun _ _ h => absurd h (by simp)
      · exact hr
    refine always_bind'.mpr ((ha.clientSide.offline hspawn).mono (fun _ => id) fun r g hs hQ => ?_)
    obtain ⟨⟨ext, rfl, hn⟩, hproc⟩ := hQ
    rcases r with _ | proc
    · exact always_pure.mpr ⟨hs, by simp [ThroughWhole]⟩
    obtain ⟨hin, hout⟩ := hproc proc rfl
    rw [hstream]
    refine always_bind'.mpr (always_pure.mpr ⟨hs, ?_⟩)
    refine always_bind'.mpr (((ha.later hn).relay (a := { wcatStreamFromFd .net fd with
      closeOnEof := false }) rfl (procStream_obj hexec proc) hnet writable_pair
      (streamIn_net hsock) (streamIn_near (by decide) (not_isSocket_of_isChild hout)
        (not_isSocket_of_isChild hin))
      _).mono (fun _ => id) fun ok g _ hQ => ?_)
    have hfinish : Within Offline (do
        processFinish proc
        closeNetwork (wcatStreamFromFd .net fd)) fun _ => True :=
      ((within_wcatProcessClose trivial trivial).next fun _ => within_wcatProcessWait
        (still_of_quiet offline_of_quiet) proc).next fun _ => hclose fd
    simpa using hQ.1.closing hQ.2 hfinish
  · rw [Wirecat.relayPeer, if_neg hexec, relayPeerToStdio, hstream]
    refine always_bind'.mpr (always_pure.mpr ⟨ha.clientSide, ?_⟩)
    refine always_bind'.mpr ((ha.relay rfl (stdioStream_obj hexec) hnet writable_pair
      (streamIn_net hsock) (streamIn_near (by decide) rfl rfl) _).mono (fun _ => id)
      fun ok g _ hQ => ?_)
    exact hQ.1.closing hQ.2 (hclose fd)

/-- **Reaching the proxy**, and asking it. -/
theorem always_wcatProxyConnect_asked {proxy : Proxy} (htype : proxy.type = .http) :
    Always legal (ClientSide cfg)
      (wcatProxyConnect proxy cfg.hostArg cfg.portArg cfg.family cfg.timeoutMs)
      (fun r g => ∀ fd ∈ r, fd.isSocket = true ∧ Asked cfg g) [] := by
  have hstart : ClientSide cfg [] := .asking List.nil_prefix fun _ => ⟨rfl, rfl⟩
  have hconnect : Within Offline (wcatTcpConnect proxy.host proxy.port cfg.family cfg.timeoutMs)
      (SockOf .tcp) :=
    within_inetConnect offline_of_quiet trivial (fun _ _ => trivial) (fun _ => trivial) _ _
  rw [wcatProxyConnect, if_neg (by simp [htype])]
  refine always_bind'.mpr ((hstart.offline hconnect).mono (fun _ => id) fun r g hs hQ => ?_)
  obtain ⟨⟨ext, rfl, hn⟩, hsock⟩ := hQ
  rcases r with _ | fd
  · exact always_pure.mpr ⟨hs, by simp⟩
  obtain ⟨m, rfl⟩ := hsock fd rfl
  rw [List.append_nil] at hs ⊢
  have hdialogue : Always (After legal ext) _
      (httpConnectNegotiate (.sock .tcp m) cfg.hostArg cfg.portArg) _ [] :=
    always_httpConnect_dialogue rfl _ _
  simp only [htype, negotiate]
  refine always_bind'.mpr (hdialogue.shift.mono ?_ ?_)
  · rintro _ ⟨ext', rfl, hd, hpre⟩
    refine .asking ?_ (hd.unseen.append hn.unseen)
    rw [socketSent_append, hn.sent, List.nil_append, hd.sent]
    exact hpre
  · rintro ok _ ⟨ext', rfl, hd, hpre⟩ ⟨ext'', heq, hall⟩
    obtain rfl := List.append_cancel_right heq
    have hsent : socketSent (ext' ++ ext) = writtenTo (.sock .tcp m) ext' := by
      rw [socketSent_append, hn.sent, List.nil_append, hd.sent]
    have htaken : socketTaken (ext' ++ ext) = received (.sock .tcp m) ext' := by
      rw [socketTaken_append, hn.taken, List.nil_append, hd.taken]
    cases ok with
    | true =>
      obtain ⟨hwhole, hanswer⟩ := hall rfl
      have hasked : Asked cfg (ext' ++ ext) :=
        ⟨hsent.trans hwhole, htaken ▸ hanswer, hd.unseen.append hn.unseen⟩
      refine always_pure.mpr ⟨hasked.clientSide, ?_⟩
      rintro _ ⟨⟩
      exact ⟨rfl, hasked⟩
    | false =>
      have hcs : ClientSide cfg (ext' ++ ext) :=
        .asking (hsent ▸ hpre) (hd.unseen.append hn.unseen)
      have hfail : Within Offline (do
          sys (.log .error "proxy" "proxy negotiation failed" [])
          wcatCloseQuiet (.sock .tcp m)
          pure (none : Option Fd)) fun r => r = none :=
        Within.step trivial fun _ => (within_wcatCloseQuiet trivial).next fun _ => rfl
      refine (hcs.offline hfail).post_mono ?_
      rintro r _ ⟨-, rfl⟩ fd hfd
      cases hfd

/-- **The client**, from its start. -/
theorem always_runConnect_tunnel {proxy : Proxy} (hproxy : wcatProxyParse cfg.proxyUrl = some proxy)
    (htype : proxy.type = .http) (hudp : cfg.udp = false) (htls : cfg.tls = false)
    (hother : cfg.sctp = false ∧ cfg.unixSocket = false ∧ cfg.vsock = false) :
    Always legal (ClientSide cfg) (runConnect cfg) (ThroughWhole cfg) [] := by
  obtain ⟨hsctp, hunix, hvsock⟩ := hother
  have hsocket : connectSocket cfg =
      wcatProxyConnect proxy cfg.hostArg cfg.portArg cfg.family cfg.timeoutMs := by
    simp only [connectSocket, hudp, hunix, hvsock, hsctp, hproxy, Bool.false_eq_true, if_false]
  rw [runConnect, hsocket]
  refine always_bind'.mpr ((always_wcatProxyConnect_asked htype).mono (fun _ => id) ?_)
  intro r g hs hr
  rcases r with _ | fd
  · have hfail : Within Offline (do
        sys (.logErrno "connect" (lit "connect failed"))
        pure 1) fun rc => rc ≠ 0 := Within.step trivial fun _ => within_pure.mpr (by simp)
    exact (hs.offline hfail).post_mono fun rc _ hQ hrc => absurd hrc hQ.2
  obtain ⟨hsock, hasked⟩ := hr fd rfl
  refine always_bind'.mpr ((hs.offline (within_sys (by trivial))).mono (fun _ => id) ?_)
  rintro _ _ - ⟨⟨ext, rfl, hn⟩, -⟩
  exact (hasked.later hn).relayPeer hsock htls hsctp

end

end Wirecat
