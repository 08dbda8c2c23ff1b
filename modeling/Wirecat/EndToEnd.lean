import Wirecat.Agreement
import Wirecat.Interaction.Parties
import Wirecat.Tunnel
import Wirecat.TunnelClient

/-!
# From end to end

A user connects to a target through a proxy, and the proxy is this program too. Two processes with
a connection between them: `wcat connect --proxy` on the one side, a session of the CONNECT server
on the other, and what the one reads the other has written (`Wirecat.Wire`).

Each of the two has its own idea of where the dialogue ends and the relay begins. The client looks
for the empty line behind the status, the server for the one behind the request, and neither is
told by the other that it was found. They come to the same place nevertheless
(`Wirecat.FromEndToEnd`): what is shown on the one side is the beginning of what the target says,
and what the target is given is the beginning of what is typed, at every moment of every
interleaving of the two; the answer is taken for an agreement only when the target was reached; and
nobody but the target of the command line is connected to.

What is asked of the target is what the two ends need to agree on it at all (`Wirecat.PortOk`).
-/

namespace Wirecat

open CString Interaction Conduit

/-- **A connection** between a client and the session that serves it: what is read from it was
written to it, in that order. -/
structure Wire (conn : Fd) (c s : Hist) : Prop where
  up : clientBytes conn s <+: socketSent c
  down : socketTaken c <+: writtenTo conn s

instance (conn : Fd) (c s : Hist) : Decidable (Wire conn c s) :=
  decidable_of_iff (clientBytes conn s <+: socketSent c ∧ socketTaken c <+: writtenTo conn s)
    ⟨fun h => ⟨h.1, h.2⟩, fun h => ⟨h.up, h.down⟩⟩

/-- Everything that was written to a connection was read from it. -/
structure Drained (conn : Fd) (c s : Hist) : Prop where
  up : clientBytes conn s = socketSent c
  down : socketTaken c = writtenTo conn s

/-- A command line that connects to a target, over TCP and in the clear, through an HTTP proxy. -/
structure AsksProxy (cfg : Config) : Prop where
  proxy : ∃ proxy, wcatProxyParse cfg.proxyUrl = some proxy ∧ proxy.type = .http
  udp : cfg.udp = false
  tls : cfg.tls = false
  other : cfg.sctp = false ∧ cfg.unixSocket = false ∧ cfg.vsock = false

/-- A target that both ends can name. -/
structure TargetOk (cfg : Config) : Prop where
  host : HostOk cfg.hostArg
  port : (wcatParsePort cfg.portArg).isSome = true
  spelled : PortOk cfg.portArg
  fits : (ownRequest cfg).length < 512

/-- The target of the command line was connected to, in the session that `k` was before. -/
def OwnTargetReached (cfg scfg : Config) (k s : Hist) : Prop :=
  ∃ g g' upstream, g' <:+ s ∧ Runs (After Legal k)
    (wcatTcpConnect cfg.hostArg cfg.portArg scfg.family scfg.timeoutMs) g g' (some (some upstream))

/-- **What holds of a client and its session** at every moment. -/
structure FromEndToEnd (cfg scfg : Config) (k c s : Hist) : Prop where
  /-- What is shown is a beginning of what the target says. -/
  shown : bytesWritten (near cfg) c <+: bytesRead .upstreamStream s
  /-- What the target is given is a beginning of what is typed. -/
  typed : bytesWritten .upstreamStream s <+: bytesRead (near cfg) c
  /-- Nobody else is connected to. -/
  dialed : ∀ fd addr r g, ⟨.connect fd addr, r⟩ :: g <:+ s →
    ∃ i, addr = .inet cfg.hostArg cfg.portArg i
  /-- An answer that the client takes for an agreement is one: the target was reached. -/
  agreed : ∀ answer, AnswerTaken answer → answer <+: socketTaken c → OwnTargetReached cfg scfg k s

section
variable {cfg scfg : Config} {conn : Fd} {k c s : Hist}

/-! ### The answer -/

theorem headerRead_established (more : Bytes) : HeaderRead (established ++ more) established := by
  have hplain : Plain established established :=
    plain_self (by decide +kernel) (by decide +kernel) (by decide +kernel) (by decide +kernel)
  exact ⟨List.prefix_append _ _, hplain.headerRead.stops, hplain.headerRead.first⟩

/-- No refusal is taken for an agreement. -/
theorem not_answerTaken_of_refusal {answer b : Bytes} (hrefusal : answer ∈ refusals)
    (hpre : b <+: answer) : ¬AnswerTaken b := by
  intro ha
  have hin : lit " 200 " <:+: answer :=
    (isInfix_iff.mp ha.status).trans ((ofBuffer_isPrefix b).isInfix.trans hpre.isInfix)
  have hnone : ∀ answer ∈ refusals, isInfix (lit " 200 ") answer = false := by decide +kernel
  have hsome := isInfix_iff.mpr hin
  rw [hnone answer hrefusal] at hsome
  cases hsome

/-- **What is taken for an agreement is one**: it is the whole of that answer, and behind it comes
what the target says. -/
theorem AnswerTaken.agreed {answer : Bytes} (ha : AnswerTaken answer)
    (hpre : answer <+: writtenTo conn s) (ht : Told (After Legal k) scfg conn s) :
    answer = established ∧ Reached (After Legal k) scfg conn s ∧
      ∃ said, writtenTo conn s = established ++ said ∧ said <+: bytesRead .upstreamStream s := by
  have hread : ∀ more, answer <+: established ++ more → answer = established := fun more hp =>
    HeaderRead.unique ⟨hp, ha.read.stops, ha.read.first⟩ (headerRead_established more)
  cases ht with
  | refused text known begun _ =>
    exact absurd ha (not_answerTaken_of_refusal known (hpre.trans begun))
  | opened reached begun unread =>
    obtain rfl := hread [] (by rw [List.append_nil]; exact hpre.trans begun)
    have hwhole : writtenTo conn s = established :=
      begun.eq_of_length_le hpre.length_le
    exact ⟨rfl, reached, [], by rw [hwhole, List.append_nil], List.nil_prefix⟩
  | relayed said reached begun heard =>
    exact ⟨hread said (begun ▸ hpre), reached, said, begun, heard⟩

/-! ### The request -/

/-- A target that is found in a beginning of a text is found in the text. -/
theorem parseConnectRequest_mono {p q : Bytes} {hostLen portLen : ℕ} {target : Bytes × Bytes}
    (hpq : p <+: q) (hp : parseConnectRequest p hostLen portLen = some target) :
    parseConnectRequest q hostLen portLen = some target := by
  obtain ⟨more, rfl⟩ := hpq
  rw [parseConnectRequest] at hp ⊢
  split_ifs at hp with hconnect
  rw [Bool.not_eq_true', Bool.not_eq_false, List.isPrefixOf_iff_prefix] at hconnect
  obtain ⟨rest, rfl⟩ := hconnect
  rw [if_neg (by simp [List.isPrefixOf_iff_prefix, List.append_assoc])]
  rw [show 8 = (lit "CONNECT ").length from rfl, List.drop_left] at hp
  rw [List.append_assoc, show 8 = (lit "CONNECT ").length from rfl, List.drop_left]
  split at hp
  · exact absurd hp (by simp)
  rename_i endpoint t hfirst
  obtain ⟨rfl, hspace⟩ := splitFirst_eq_some.mp hfirst
  have hfirst' : splitFirst (chr ' ') (endpoint ++ chr ' ' :: t ++ more) =
      some (endpoint, t ++ more) := splitFirst_eq_some.mpr ⟨by simp, hspace⟩
  rw [hfirst']
  exact hp

/-- **Only the own target is found** in what the client says. -/
theorem TargetOk.found (hok : TargetOk cfg) {buf more : Bytes} {target : Bytes × Bytes}
    (hpre : buf <+: ownRequest cfg ++ more)
    (hfound : parseConnectRequest (ofBuffer buf) 256 32 = some target) :
    target = (cfg.hostArg, cfg.portArg) := by
  obtain ⟨p, hport⟩ := Option.isSome_iff_exists.mp hok.port
  have hown : parseConnectRequest (ownRequest cfg ++ more) 256 32 =
      some (cfg.hostArg, cfg.portArg) :=
    parseConnectRequest_mono (List.prefix_append _ _)
      (parseConnectRequest_request hok.host hport hok.fits hok.spelled.space hok.spelled.room)
  have hsame := parseConnectRequest_mono ((ofBuffer_isPrefix buf).trans hpre) hfound
  exact Option.some.inj (hsame.symm.trans hown)

/-- **The rest is what follows the request**: the server's division of what the client says is the
client's. -/
theorem TargetOk.rest_sent (hok : TargetOk cfg) {header rest more : Bytes}
    (hheader : rest ≠ [] → IsHeader (header ++ rest) header)
    (hpre : header ++ rest <+: ownRequest cfg ++ more) : rest <+: more := by
  by_cases hrest : rest = []
  · exact hrest ▸ List.nil_prefix
  obtain ⟨p, hport⟩ := Option.isSome_iff_exists.mp hok.port
  have hown : IsHeader (ownRequest cfg ++ more) (ownRequest cfg) :=
    isHeader_request hok.host hport hok.spelled.line more
  obtain rfl : header = ownRequest cfg := ((hheader hrest).extend hpre).unique hown
  exact (List.prefix_append_right_inj _).mp hpre

/-! ### Both together -/

/-- What the client has said is its request, and a beginning of what was typed. -/
theorem ClientSide.said (hc : ClientSide cfg c) : ∃ more,
    socketSent c <+: ownRequest cfg ++ more ∧ more <+: bytesRead (near cfg) c := by
  cases hc with
  | asking begun unseen => exact ⟨[], by rwa [List.append_nil], List.nil_prefix⟩
  | through tunnel => exact ⟨_, tunnel.sent ▸ List.prefix_rfl, tunnel.typed⟩

/-- **What each of the two keeps, and the connection between them**, make up the whole. -/
theorem fromEndToEnd (hok : TargetOk cfg) (hc : ClientSide cfg c)
    (hs : Attended (After Legal k) scfg conn s) (hparts : InParts conn s) (hwire : Wire conn c s) :
    FromEndToEnd cfg scfg k c s := by
  obtain ⟨more, hsaid, htyped⟩ := hc.said
  have hup : clientBytes conn s <+: ownRequest cfg ++ more := hwire.up.trans hsaid
  -- what the server has found in it at any time is the own target
  have hfound : ∀ {g : Hist} {target : Bytes × Bytes}, g <:+ s →
      parseConnectRequest (ofBuffer (clientBytes conn g)) 256 32 = some target →
        target = (cfg.hostArg, cfg.portArg) := by
    rintro g target ⟨later, rfl⟩ hfound
    refine hok.found (List.IsPrefix.trans ?_ hup) hfound
    rw [clientBytes_append]
    exact List.prefix_append _ _
  refine ⟨?_, ?_, ?_, ?_⟩
  · cases hc with
    | asking begun unseen => exact (unseen _).2 ▸ List.nil_prefix
    | through tunnel =>
      obtain ⟨answer, hanswer, htaken⟩ := tunnel.answered
      have hdown := hwire.down
      rw [htaken] at hdown
      obtain ⟨rfl, -, said, hwritten, hheard⟩ :=
        hanswer.agreed ((List.prefix_append _ _).trans hdown) hs.told
      rw [hwritten, List.prefix_append_right_inj] at hdown
      exact tunnel.shown.trans (hdown.trans hheard)
  · obtain ⟨header, rest, hd⟩ := hparts
    have hrest := hok.rest_sent hd.isHeader (hd.taken ▸ hup)
    exact hd.accepted.trans (hrest.trans htyped)
  · intro fd addr r g hev
    obtain ⟨host, port, i, hparse, rfl⟩ := hs.named _ g hev (List.nil_suffix) fd addr rfl
    obtain ⟨rfl, rfl⟩ := Prod.mk.inj (hfound ((List.suffix_cons _ _).trans hev) hparse)
    exact ⟨i, rfl⟩
  · intro answer hanswer hpre
    obtain ⟨-, hreached, -⟩ := hanswer.agreed (hpre.trans hwire.down) hs.told
    obtain ⟨host, port, g, g', upstream, hsuf, hparse, hr⟩ := hreached
    obtain ⟨rfl, rfl⟩ := Prod.mk.inj (hfound (hr.suffix.trans hsuf) hparse)
    exact ⟨g, g', upstream, hsuf, hr⟩

end

/-! ### Every interleaving -/

/-- **A tunnel is faithful from end to end**: in every interleaving of a client and of a session of
the CONNECT server that are connected, at every moment; and when both end well, with nothing left
on the connection, nothing is missing on either side. -/
theorem joint_fromEndToEnd {cfg scfg : Config} {t : Transport} {n : ℕ} {k : Hist}
    {w : Interleaving Sys Resp Sys Resp} {o o' : Option ℕ} (hasks : AsksProxy cfg)
    (hok : TargetOk cfg)
    (hj : Joint Legal Legal (Wire (.conn t n)) (runConnect cfg) []
      (serveProxyClient scfg (.conn t n)) k w o o') :
    (∀ w', w' <:+ w → FromEndToEnd cfg scfg k (firstOf w') (secondOf w')) ∧
      (o = some 0 → o' = some 0 → Drained (.conn t n) (firstOf w) (secondOf w) →
        bytesWritten (near cfg) (firstOf w) = bytesRead .upstreamStream (secondOf w) ∧
          bytesWritten .upstreamStream (secondOf w) = bytesRead (near cfg) (firstOf w)) := by
  obtain ⟨proxy, hproxy, htype⟩ := hasks.proxy
  have hclient : Always Legal (ClientSide cfg) (runConnect cfg) (ThroughWhole cfg) [] :=
    always_runConnect_tunnel hproxy htype hasks.udp hasks.tls hasks.other
  have hsession : Always (After Legal k)
      (fun s => Attended (After Legal k) scfg (.conn t n) s ∧ InParts (.conn t n) s)
      (serveProxyClient scfg (.conn t n))
      (fun rc s => ToldAll (.conn t n) rc s ∧ Served (.conn t n) rc s) [] :=
    (always_serveProxyClient_told scfg t n).and (always_serveProxyClient scfg _)
  refine ⟨fun w' hw => ?_, ?_⟩
  · have hj' := hj.before hw
    have hfirst := hj'.first
    rw [List.append_nil] at hfirst
    have hs := hsession.safe hj'.second.ext
    exact fromEndToEnd hok (hclient.safe hfirst) hs.1 hs.2 (hj'.linked w' (List.suffix_refl _))
  · rintro rfl rfl hdrained
    have hfirst := hj.first
    rw [List.append_nil] at hfirst
    obtain ⟨htunnel, hshown, htyped⟩ := hclient.post hfirst rfl
    have hs := hsession.safe hj.second.ext
    obtain ⟨htold, hserved⟩ := hsession.post hj.second.ext
    obtain ⟨header, rest, hd, hheader, hall⟩ := hserved rfl
    obtain ⟨answer, hanswer, htaken⟩ := htunnel.answered
    have hdown := hdrained.down
    rw [htaken, htold rfl] at hdown
    have hpre : answer <+: writtenTo (.conn t n) (secondOf w) := by
      rw [← hdrained.down, htaken]
      exact List.prefix_append _ _
    obtain ⟨rfl, -⟩ := hanswer.agreed hpre hs.1.told
    have hup := hdrained.up
    rw [hd.taken, htunnel.sent] at hup
    obtain ⟨p, hport⟩ := Option.isSome_iff_exists.mp hok.port
    have hown : IsHeader (header ++ rest) (ownRequest cfg) :=
      hup ▸ isHeader_request hok.host hport hok.spelled.line _
    obtain rfl : header = ownRequest cfg := hheader.unique hown
    exact ⟨hshown.trans (List.append_cancel_left hdown),
      hall.trans ((List.append_cancel_left hup).trans htyped)⟩

/-! ### A tunnel -/

/-- The command line of a client of it. -/
def typistConfig : Config :=
  { mode := .connect, host := some (lit "h"), port := some (lit "2")
    proxyUrl := some (lit "http://p:1") }

/-- What surrounds the client: it is answered, then "hi" is typed, and then "yo" comes back. -/
def typist (h : Hist) : (e : Sys) → Resp e
  | .stop => false
  | .getaddrinfo _ _ _ _ _ => some 1
  | .socket _ => .ok 3
  | .connect _ _ | .close _ => none
  | .write _ _ buf => .all buf
  | .read .handshake _ _ off len => readByByte established off len
  | .read (.stream .net) _ _ _ len => readOnce .net (lit "yo") h len
  | .read (.stream .stdioStream) _ _ _ len => readOnce .stdioStream (lit "hi") h len
  | .poll fds _ => .reporting fds (fds.map fun p =>
      { pollin := p.fd = some .stdin ∨ bytesRead .stdioStream h ≠ [] })
  | e => refuse e

/-- The run of the client. -/
def typistRun : Hist × Option ℕ := exec (lawful typist) 400 (runConnect typistConfig) []

/-- The run of the session. -/
def targetRun : Hist × Option ℕ := visitRun (ownRequest typistConfig)

/-- The two, by turns: the request, the answer, what is typed, what it is answered, and the end. -/
def byTurns (c s : Hist) : Interleaving Sys Resp Sys Resp :=
  (c.take 10).map .inl ++ ((s.take 14).map .inr ++ (((c.drop 10).take 44).map .inl ++
    ((s.drop 14).map .inr ++ ((c.drop 10).drop 44).map .inl)))

theorem of_byTurns (c s : Hist) : firstOf (byTurns c s) = c ∧ secondOf (byTurns c s) = s := by
  simp only [byTurns, firstOf_append, secondOf_append, firstOf_map_inl, firstOf_map_inr,
    secondOf_map_inl, secondOf_map_inr, List.nil_append, List.append_nil, List.take_append_drop,
    and_self]

theorem joint_byTurns :
    Joint Legal Legal (Wire (.conn .tcp 4)) (runConnect typistConfig) []
      (serveProxyClient {} (.conn .tcp 4)) [] (byTurns typistRun.1 targetRun.1) (some 0)
      (some 0) := by
  obtain ⟨hfirst, hsecond⟩ := of_byTurns typistRun.1 targetRun.1
  have hc := exec_runs (legal_lawful typist) 400 (runConnect typistConfig) []
  have hs := runs_visitRun (ownRequest typistConfig)
  have hrc : typistRun.2 = some 0 := by decide +kernel
  have hrs : targetRun.2 = some 0 := by decide +kernel
  refine ⟨?_, ?_, ?_⟩
  · rw [hfirst, List.append_nil]
    exact hrc ▸ hc
  · rw [hsecond, List.append_nil]
    exact hrs ▸ hs
  · have hall : ∀ w ∈ (byTurns typistRun.1 targetRun.1).tails,
        Wire (.conn .tcp 4) (firstOf w) (secondOf w) := by decide +kernel
    exact fun w hw => hall w ((List.mem_tails _ _).mpr hw)

/-- What is typed comes to the target, and what the target says is shown. -/
theorem joint_fromEndToEnd_byTurns :
    bytesWritten .stdioStream typistRun.1 = bytesRead .upstreamStream targetRun.1 ∧
      bytesWritten .upstreamStream targetRun.1 = bytesRead .stdioStream typistRun.1 := by
  obtain ⟨hfirst, hsecond⟩ := of_byTurns typistRun.1 targetRun.1
  have hparse : (wcatProxyParse typistConfig.proxyUrl).any (fun proxy => proxy.type = .http) = true := by
    decide +kernel
  obtain ⟨proxy, hproxy, htype⟩ := (Option.any_eq_true _ _).mp hparse
  have hasks : AsksProxy typistConfig :=
    ⟨⟨proxy, hproxy, of_decide_eq_true htype⟩, rfl, rfl, rfl, rfl, rfl⟩
  have hok : TargetOk typistConfig := by
    refine ⟨⟨by decide +kernel, by decide +kernel⟩, by decide +kernel, ?_, by decide +kernel⟩
    exact ⟨by decide +kernel, by decide +kernel, by decide +kernel⟩
  have hdrained : Drained (.conn .tcp 4) (firstOf (byTurns typistRun.1 targetRun.1))
      (secondOf (byTurns typistRun.1 targetRun.1)) := by
    rw [hfirst, hsecond]
    exact ⟨by decide +kernel, by decide +kernel⟩
  have hboth := (joint_fromEndToEnd hasks hok joint_byTurns).2 rfl rfl hdrained
  rwa [hfirst, hsecond] at hboth

/-- And this is not nothing. -/
example : bytesWritten .stdioStream typistRun.1 = lit "yo" ∧
    bytesWritten .upstreamStream targetRun.1 = lit "hi" := by decide +kernel

end Wirecat
