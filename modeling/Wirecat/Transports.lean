import Wirecat.Coherence
import Wirecat.CommandLine
import Wirecat.Openings

/-!
# The transport of a run

An operator names a transport by an option, or TCP by none; in a relay the endpoints name theirs. What
a run uses is decided where it opens its sockets, by testing the options in an order of its own.
The two are the same when one option at most is given and what the run opens is what that option
says, and then the operands mean what the transport takes them for (`Wirecat.Exclusive`).

The parser counts four of the options against each other, and QUIC against UDP only, by way of TLS.
So QUIC can be asked for together with another transport, and then a socket path is taken for a
host name. The broker and the proxy server look at no option for UDP, and a relay at no option for a
transport at all. All other command lines that are accepted are exclusive
(`Wirecat.exclusive_iff`).
-/

namespace Wirecat

open CString Interaction

/-- The sockets of a transport. -/
def NamedTransport.sockets : NamedTransport → Transport
  | .tcp => .tcp
  | .udp | .quic => .udp
  | .sctp => .sctp
  | .unix => .unix
  | .vsock => .vsock

/-- The one of these that is not QUIC. -/
def NamedTransport.over : Transport → NamedTransport
  | .tcp => .tcp
  | .udp => .udp
  | .sctp => .sctp
  | .unix => .unix
  | .vsock => .vsock

@[simp] theorem NamedTransport.sockets_over (t : Transport) : (NamedTransport.over t).sockets = t := by
  cases t <;> rfl

/-- The transports that are selected by options. -/
def selectedTransports (cfg : Config) : List NamedTransport :=
  (if cfg.udp then [.udp] else []) ++ (if cfg.sctp then [.sctp] else []) ++
    (if cfg.unixSocket then [.unix] else []) ++ (if cfg.vsock then [.vsock] else []) ++
    (if cfg.quic then [.quic] else [])

theorem mem_selectedTransports {cfg : Config} {t : NamedTransport} :
    t ∈ selectedTransports cfg ↔ t.selectedIn cfg = true := by
  cases hu : cfg.udp <;> cases hs : cfg.sctp <;> cases hx : cfg.unixSocket <;>
    cases hv : cfg.vsock <;> cases hq : cfg.quic <;> cases t <;>
      simp [selectedTransports, NamedTransport.selectedIn, *]

/-- **The transport a mode uses**, of those that take a host and a port. -/
def transportUsed (cfg : Config) : NamedTransport :=
  match cfg.mode with
  | .connect => if cfg.quic then .quic else .over (connectTransport cfg)
  | .listen => if cfg.quic then .quic else .over (listenTransport cfg)
  | .send | .recv => .over (sendTransport cfg)
  | .broker => .over (listenerTransport cfg)
  | .proxy | .relay | .none => .tcp

/-- It is the transport of the sockets that are opened. -/
theorem socketsOf_eq {cfg : Config} (hmode : cfg.mode ≠ .none) (hrelay : cfg.mode ≠ .relay) :
    socketsOf cfg = [(transportUsed cfg).sockets] := by
  rw [socketsOf, transportUsed]
  cases hm : cfg.mode with
  | none => exact absurd hm hmode
  | relay => exact absurd hm hrelay
  | connect | listen =>
    by_cases hquic : cfg.quic = true
    · simp [hquic, NamedTransport.sockets]
    · simp [hquic]
  | proxy => rfl
  | _ => simp

/-! ### One transport, and the operands it takes -/

/-- The operand before the port is the path of a socket: there is no other, and the port is `0`. -/
def readAsPath (cfg : Config) : Prop :=
  cfg.unixSocket = true ∧ (cfg.mode = .connect ∨ cfg.mode = .listen ∨ cfg.mode = .broker)

/-- **What the operator means** by a socket of the transport `t`: an option for it, if there is an option
for a transport; otherwise the endpoint of a relay, and outside of relays TCP. -/
def Meant (cfg : Config) (t : Transport) : Prop :=
  (∀ s ∈ selectedTransports cfg, t = s.sockets) ∧
    (selectedTransports cfg = [] → if cfg.mode = .relay
      then endpointTransport (cfg.left.getD []) = some t ∨ endpointTransport (cfg.right.getD []) = some t
      else t = .tcp)

/-- **One transport**: one option for a transport at most is given, and in every run the sockets that are
opened are those the operator means. Outside of the relay, whose endpoints name their own, the
operand is read as the path of a socket exactly when the transport that is used takes paths, and
otherwise there is a port. -/
structure Exclusive (cfg : Config) : Prop where
  one : (selectedTransports cfg).length ≤ 1
  opened : ∀ (h : Hist) (o : Option ℕ), Runs Legal (dispatch cfg) [] h o →
    ∀ (e : Sys) (r : Resp e) (t : Transport), ⟨e, r⟩ ∈ h → socketAsked e = some t → Meant cfg t
  used : cfg.mode ≠ .relay → transportUsed cfg = (selectedTransports cfg).headD .tcp
  path : cfg.mode ≠ .relay → (readAsPath cfg ↔ transportUsed cfg = .unix)
  port : cfg.mode ≠ .relay → transportUsed cfg ≠ .unix →
    ∃ s p, cfg.port = some s ∧ wcatParsePort s = some p

/-- The combinations of transports that are refused. -/
structure TransportsChecked (cfg : Config) : Prop where
  tls : cfg.tls = true → cfg.udp = false
  four : flag cfg.udp + flag cfg.sctp + flag cfg.unixSocket + flag cfg.vsock ≤ 1
  modes : cfg.sctp = true ∨ cfg.unixSocket = true ∨ cfg.vsock = true →
    cfg.mode = .connect ∨ cfg.mode = .listen ∨ cfg.mode = .broker ∨ cfg.mode = .relay

theorem transportsChecked_of_not_refused {cfg : Config} (hr : refused cfg = false) :
    TransportsChecked cfg := by
  simp only [refused, Bool.or_eq_false_iff] at hr
  obtain ⟨⟨⟨⟨⟨⟨⟨⟨⟨⟨⟨⟨⟨-, htls⟩, hfour⟩, -⟩, -⟩, hmodes⟩, -⟩, -⟩, -⟩, -⟩, -⟩, -⟩, -⟩, -⟩ := hr
  refine ⟨fun h => ?_, ?_, fun h => ?_⟩
  · simpa [h] using htls
  · simpa using hfour
  · by_contra hmode
    push Not at hmode
    have hany : (cfg.sctp || cfg.unixSocket || cfg.vsock) = true := by simpa [or_assoc] using h
    simp [hany, hmode] at hmodes

theorem connectTransport_of_not_udp {cfg : Config} (hudp : cfg.udp = false) :
    connectTransport cfg = listenerTransport cfg := by
  rw [connectTransport, listenerTransport, hudp]
  rfl

/-- Without QUIC beside another transport, the one that is selected is found in the order of
`connect_socket`. -/
theorem selectedTransports_eq {cfg : Config} (ht : TransportsChecked cfg)
    (hquic : ¬(cfg.quic = true ∧ (cfg.sctp = true ∨ cfg.unixSocket = true ∨ cfg.vsock = true)))
    (htls : cfg.quic = true → cfg.tls = true) : (selectedTransports cfg).length ≤ 1 ∧
      (selectedTransports cfg).headD .tcp =
        if cfg.quic then .quic else .over (connectTransport cfg) := by
  have hudp : cfg.quic = true → cfg.udp = false := fun hq => ht.tls (htls hq)
  have hfour := ht.four
  rw [selectedTransports, connectTransport]
  cases hu : cfg.udp <;> cases hs : cfg.sctp <;> cases hx : cfg.unixSocket <;>
    cases hv : cfg.vsock <;> cases hq : cfg.quic <;> simp_all [flag, NamedTransport.over]

/-- **The transport that is used is the one that was named**, but for UDP in two modes. -/
theorem transportUsed_eq {cfg : Config} (hc : Coherent cfg) (ht : TransportsChecked cfg)
    (hmode : cfg.mode ≠ .none) (hrelay : cfg.mode ≠ .relay)
    (hudp : ¬(cfg.udp = true ∧ (cfg.mode = .broker ∨ cfg.mode = .proxy))) :
    transportUsed cfg = if cfg.quic then .quic else .over (connectTransport cfg) := by
  have hnoquic : ∀ mode, cfg.mode = mode → mode ≠ .connect → mode ≠ .listen → cfg.quic = false := by
    rintro _ rfl hconnect hlisten
    by_contra hq
    exact (hc.quic (Bool.not_eq_false _ ▸ hq)).2.elim hconnect hlisten
  have hothers : (cfg.mode = .send ∨ cfg.mode = .recv ∨ cfg.mode = .proxy) →
      connectTransport cfg = if cfg.udp then .udp else .tcp := by
    intro hm
    have hnone : ¬(cfg.sctp = true ∨ cfg.unixSocket = true ∨ cfg.vsock = true) := by
      intro hany
      rcases hm with hm | hm | hm <;> simpa [hm] using ht.modes hany
    push Not at hnone
    simp only [connectTransport, hnone, Bool.false_eq_true, if_false]
  rw [transportUsed]
  cases hm : cfg.mode with
  | none => exact absurd hm hmode
  | relay => exact absurd hm hrelay
  | connect => rfl
  | listen =>
    have hlisten : listenTransport cfg = connectTransport cfg := by
      rw [listenTransport]
      split_ifs with hu
      · rw [connectTransport, if_pos hu.2]
      · refine (connectTransport_of_not_udp ?_).symm
        cases hmulti : cfg.multi with
        | true => exact (hc.multi hmulti).2.1
        | false => simpa [hmulti] using hu
    rw [← hlisten]
  | send =>
    rw [hnoquic .send hm (by simp) (by simp), hothers (.inl hm)]
    rfl
  | recv =>
    rw [hnoquic .recv hm (by simp) (by simp), hothers (.inr (.inl hm))]
    rfl
  | broker =>
    have hu : cfg.udp = false := by
      by_contra hu
      exact hudp ⟨Bool.not_eq_false _ ▸ hu, .inl hm⟩
    rw [hnoquic .broker hm (by simp) (by simp), connectTransport_of_not_udp hu]
    rfl
  | proxy =>
    have hu : cfg.udp = false := by
      by_contra hu
      exact hudp ⟨Bool.not_eq_false _ ▸ hu, .inr hm⟩
    rw [hnoquic .proxy hm (by simp) (by simp), hothers (.inr (.inr hm)), hu]
    rfl

/-- A socket path is what QUIC is not given. -/
theorem over_unix_iff {cfg : Config} (ht : TransportsChecked cfg) :
    NamedTransport.over (connectTransport cfg) = .unix ↔ cfg.unixSocket = true := by
  have hfour := ht.four
  rw [connectTransport]
  cases hu : cfg.udp <;> cases hx : cfg.unixSocket <;> cases hv : cfg.vsock <;>
    cases hs : cfg.sctp <;> simp_all [flag, NamedTransport.over]

/-! ### What the operator named -/

/-- The endpoints of a relay are over `t`, as far as they are opened. -/
def EndpointsOver (t : Transport) (left right : Bytes) : Prop :=
  (∀ t' ∈ endpointTransport left, t' = t) ∧
    (readsEndpoint left = true → ∀ t' ∈ endpointTransport right, t' = t)

/-- **A command line that names one transport**: QUIC is not named together with a transport it is not
counted against, UDP is not named in a mode that does not look at it, and no transport in a relay that
opens an endpoint over another. -/
structure Undisputed (argv : List Bytes) : Prop where
  quic : NamedTransport.quic.NamedIn argv →
    ¬(NamedTransport.sctp.NamedIn argv ∨ NamedTransport.unix.NamedIn argv ∨
      NamedTransport.vsock.NamedIn argv)
  udp : NamedTransport.udp.NamedIn argv →
    ¬(modeOf argv = some .broker ∨ modeOf argv = some .proxy)
  relay : modeOf argv = some .relay → ∀ t : NamedTransport, t.NamedIn argv →
    ∀ left right, operandsOf (argv.drop 2) = [left, right] → EndpointsOver t.sockets left right

section
variable {argv : List Bytes} {cfg : Config}

/-- A run of a relay that opens a socket for its first endpoint, or for its second. -/
theorem exists_relay_socket {t : Transport} (hmode : cfg.mode = .relay)
    (ht : endpointTransport (cfg.left.getD []) = some t ∨
      readsEndpoint (cfg.left.getD []) = true ∧ endpointTransport (cfg.left.getD []) ≠ some .tcp ∧
        endpointTransport (cfg.right.getD []) = some t) :
    ∃ h r, Runs Legal (dispatch cfg) [] (⟨.socket t, r⟩ :: h) none := by
  rw [dispatch, hmode]
  exact opens_runRelay ht [] rfl

/-- What every run opens in a relay whose endpoints are over the transport that is named. -/
theorem EndpointsOver.meant {s : NamedTransport} {t : Transport} (hrelay : cfg.mode = .relay)
    (hends : EndpointsOver s.sockets (cfg.left.getD []) (cfg.right.getD []))
    (ht : t ∈ socketsOf cfg) : t = s.sockets := by
  rw [socketsOf, hrelay] at ht
  rcases List.mem_append.mp ht with ht | ht
  · exact hends.1 t (Option.mem_toList.mp ht)
  · split_ifs at ht with hread
    · exact hends.2 hread t (Option.mem_toList.mp ht)
    · exact absurd ht (by simp)

/-- **When the transport is the one that was named.** -/
theorem exclusive_iff (hp : wcatParseArgs argv = .ok cfg) : Exclusive cfg ↔ Undisputed argv := by
  have hcoherent : Coherent cfg := by simpa [hp, Parses] using parses_coherent argv
  have hchecked := transportsChecked_of_not_refused (refused_of_ok hp)
  have hasked := askedFor_of_ok hp
  have htls : cfg.quic = true → cfg.tls = true := fun hq => (hcoherent.quic hq).1
  have hmode : ∀ m, modeOf argv = some m ↔ cfg.mode = m := fun m => by
    rw [hasked.mode, Option.some.injEq]
  constructor
  · intro he
    refine ⟨fun hq hother => ?_, fun hu hm => ?_, fun hm s hs left right hends => ?_⟩
    · -- two transports are selected
      have hone := he.one
      simp only [← hasked.selected, NamedTransport.selectedIn] at hq hother
      rw [selectedTransports, hq] at hone
      rcases hother with hother | hother | hother <;> simp [hother] at hone <;> omega
    · -- TCP is used, or what a listener takes, which is not UDP
      rw [hmode, hmode] at hm
      have hrelay : cfg.mode ≠ .relay := by rcases hm with hm | hm <;> simp [hm]
      have hused := he.used hrelay
      rw [← hasked.selected, NamedTransport.selectedIn] at hu
      rw [show selectedTransports cfg = .udp :: (selectedTransports cfg).tail by
        simp [selectedTransports, hu], List.headD_cons, transportUsed] at hused
      rcases hm with hm | hm <;> rw [hm] at hused
      · change NamedTransport.over (listenerTransport cfg) = _ at hused
        rw [listenerTransport] at hused
        split_ifs at hused <;> cases hused
      · cases hused
    · -- a run opens the endpoint, whatever was named
      rw [hmode] at hm
      obtain ⟨hleft, hright⟩ : cfg.left.getD [] = left ∧ cfg.right.getD [] = right := by
        simpa using (hasked.endpoints hm).symm.trans hends
      have hopened : ∀ {t}, (∃ h r, Runs Legal (dispatch cfg) [] (⟨.socket t, r⟩ :: h) none) →
          t = s.sockets := by
        rintro t ⟨h, r, hr⟩
        have hmem := mem_selectedTransports.mpr ((hasked.selected s).mpr hs)
        exact (he.opened _ _ hr _ r t List.mem_cons_self rfl).1 s hmem
      have hover : ∀ t' ∈ endpointTransport left, t' = s.sockets := fun t' ht' =>
        hopened (exists_relay_socket hm (.inl (by rw [hleft]; exact ht')))
      refine ⟨hover, fun hread t' ht' => ?_⟩
      refine hopened (exists_relay_socket hm (.inr ⟨by rw [hleft, hread], ?_, by rw [hright]; exact ht'⟩))
      rw [hleft]
      intro htcp
      -- no option names TCP
      have hs' := hover .tcp htcp
      cases s with
      | tcp => exact NamedTransport.not_namedIn_tcp argv hs
      | _ => cases hs'
  · rintro ⟨hquicArgv, hudpArgv, hrelayArgv⟩
    simp only [← hasked.selected, NamedTransport.selectedIn, hmode] at hquicArgv hudpArgv
    have hquic : ¬(cfg.quic = true ∧ (cfg.sctp = true ∨ cfg.unixSocket = true ∨ cfg.vsock = true)) :=
      fun h => hquicArgv h.1 h.2
    obtain ⟨hone, hhead⟩ := selectedTransports_eq hchecked hquic htls
    have hused : cfg.mode ≠ .relay →
        transportUsed cfg = if cfg.quic then .quic else .over (connectTransport cfg) := fun hrelay =>
      transportUsed_eq hcoherent hchecked (wcatParseArgs_accepted hp).mode_ne hrelay fun h =>
        hudpArgv h.1 h.2
    have hunix : cfg.mode ≠ .relay → (transportUsed cfg = .unix ↔ cfg.unixSocket = true) := by
      intro hrelay
      rw [hused hrelay]
      split_ifs with hq
      · exact iff_of_false (by simp) fun hx => hquic ⟨hq, .inr (.inl hx)⟩
      · exact over_unix_iff hchecked
    refine ⟨hone, fun h o hr e r t hev ht => ?_, fun hrelay => (hused hrelay).trans hhead.symm,
      fun hrelay => ?_, fun hrelay hnot => ?_⟩
    · have hsockets := dispatch_sockets hr hev ht
      by_cases hrelay : cfg.mode = .relay
      · refine ⟨fun s hs => ?_, fun _ => ?_⟩
        · refine (hrelayArgv ((hmode _).mpr hrelay) s ?_ _ _ (hasked.endpoints hrelay)).meant hrelay
            hsockets
          exact (hasked.selected s).mp (mem_selectedTransports.mp hs)
        · rw [if_pos hrelay]
          rw [socketsOf, hrelay] at hsockets
          rcases List.mem_append.mp hsockets with ht | ht
          · exact .inl (Option.mem_toList.mp ht)
          · split_ifs at ht
            · exact .inr (Option.mem_toList.mp ht)
            · exact absurd ht (by simp)
      · rw [socketsOf_eq (wcatParseArgs_accepted hp).mode_ne hrelay, List.mem_singleton,
          (hused hrelay).trans hhead.symm] at hsockets
        refine ⟨fun s hs => ?_, fun hnil => ?_⟩
        · obtain ⟨s', hs'⟩ := List.length_eq_one_iff.mp (by
            have hpos := List.length_pos_of_mem hs
            omega : (selectedTransports cfg).length = 1)
          rw [hs', List.mem_singleton] at hs
          rw [hsockets, hs', hs]
          rfl
        · rw [if_neg hrelay, hsockets, hnil]
          rfl
    · rw [hunix hrelay, readAsPath]
      refine ⟨And.left, fun hx => ⟨hx, ?_⟩⟩
      rcases hchecked.modes (.inr (.inl hx)) with hm | hm | hm | hm
      · exact .inl hm
      · exact .inr (.inl hm)
      · exact .inr (.inr hm)
      · exact absurd hm hrelay
    · have hpath : cfg.unixSocket = false := by
        rw [← Bool.not_eq_true, ← hunix hrelay]
        exact hnot
      obtain ⟨s, p, hs, hport, -⟩ := hcoherent.port hpath hrelay
      exact ⟨s, p, hs, hport⟩

end

/-- A relay to the path of a socket, over the transport that is named. -/
def unixRelay : Config :=
  { mode := .relay
    left := some (lit "unix:/tmp/s")
    right := some (lit "-")
    unixSocket := true }

theorem exclusive_unixRelay : Exclusive unixRelay := by
  have hp : wcatParseArgs (["wcat", "relay", "--unix", "unix:/tmp/s", "-"].map lit) = .ok unixRelay := by
    decide +kernel
  refine (exclusive_iff hp).mpr ⟨by decide +kernel, by decide +kernel, fun _ s hs left right hends => ?_⟩
  have hoperands : operandsOf ((["wcat", "relay", "--unix", "unix:/tmp/s", "-"].map lit).drop 2) =
      [lit "unix:/tmp/s", lit "-"] := by decide +kernel
  have hleft : endpointTransport (lit "unix:/tmp/s") = some .unix := by decide +kernel
  have hright : endpointTransport (lit "-") = none := by decide +kernel
  obtain rfl : s = .unix := by
    revert hs
    cases s <;> decide +kernel
  obtain ⟨rfl, rfl⟩ : left = lit "unix:/tmp/s" ∧ right = lit "-" := by
    simpa using hends.symm.trans hoperands
  rw [EndpointsOver, hleft, hright]
  exact ⟨fun _ h => (Option.some.inj h).symm, fun _ _ h => absurd h (by simp)⟩

/-- What is asked for by QUIC and by the path of a socket. -/
def quicPath : Config :=
  { mode := .connect
    host := some (lit "/tmp/s")
    port := some (lit "0")
    quic := true
    tls := true
    unixSocket := true }

/-- **QUIC over a socket path**: it is accepted, and the path is taken for a host name. -/
theorem not_exclusive :
    wcatParseArgs (["wcat", "connect", "--quic", "--unix", "/tmp/s"].map lit) = .ok quicPath ∧
      readAsPath quicPath ∧ transportUsed quicPath = .quic ∧ ¬Exclusive quicPath := by
  refine ⟨by decide +kernel, ⟨rfl, .inl rfl⟩, rfl, fun he => ?_⟩
  exact absurd he.one (by decide)

end Wirecat
