import Wirecat.Mediation

/-!
# The sockets a run opens

Which sockets a run may open is decided before it does anything else: by the mode, by the options
for a transport, and in a relay by what its endpoints are (`Wirecat.socketsOf`). Nothing that happens
afterwards opens a socket of another transport: `Wirecat.dispatch_sockets` says it of every run of
`wcat`.

It is shown with a ledger in which a socket of any other transport needs what nobody holds
(`Wirecat.socketLedger`). The modes that keep a table of connections are walked through once for every
ledger, and the others have their footprints.
-/

namespace Wirecat

open CString Interaction

/-! ### The ledger of sockets -/

/-- The transport of the socket that is asked for, if one is. -/
def socketAsked : Sys → Option Transport
  | .socket t => some t
  | _ => none

/-- The requests that open no socket but of a transport in `T`. -/
def OpensOnly (T : Set Transport) (e : Sys) : Prop := ∀ t ∈ socketAsked e, t ∈ T

/-- **The ledger of sockets**: a socket of a transport that is not in `T` needs what nobody holds. -/
def socketLedger (T : Set Transport) : Accounts Sys Resp Transport where
  opened _ := ∅
  closed _ := ∅
  needed ev := {t | socketAsked ev.1 = some t ∧ t ∉ T}

variable {T S : Set Transport} {cfg : Config} {α : Type} {h : Hist}

theorem opensOnly_socket {t : Transport} (ht : t ∈ T) : OpensOnly T (.socket t) := by
  rintro _ ⟨⟩
  exact ht

theorem opensOnly_of_none {e : Sys} (he : socketAsked e = none) : OpensOnly T e := by
  rw [OpensOnly, he]
  exact fun _ ht => absurd ht (by simp)

theorem opensOnly_of_domestic (e : Sys) (he : Domestic e = true) : OpensOnly T e := by
  cases e with
  | socket => cases he
  | _ => exact opensOnly_of_none rfl

theorem opensOnly_of_exchangedOn {e : Sys} {fd : Fd} (he : exchangedOn e = some fd) : OpensOnly T e := by
  cases e with
  | socket => cases he
  | _ => exact opensOnly_of_none rfl

theorem opensOnly_of_converses (fd : Fd) (e : Sys) (he : Converses cfg fd e) : OpensOnly T e :=
  opensOnly_of_exchangedOn (exchangedOn_of_converses he)

theorem inert_of_opensOnly {e : Sys} (he : OpensOnly T e) (r : Resp e) :
    (socketLedger T).Inert S ⟨e, r⟩ :=
  ⟨rfl, rfl, fun t ht => absurd (he t ht.1) ht.2⟩

/-- A program that opens no other socket. -/
theorem keeps_opensOnly {p : Proc α} {Q : α → Prop} (hp : Within (OpensOnly T) p Q) :
    (socketLedger T).Keeps Legal S p fun a _ => Q a :=
  (Accounts.keeps_of_within hp fun _ r he => inert_of_opensOnly he r).mono fun _ _ h => h.2

/-- **The rule for a table of connections**: none of its steps opens a socket. -/
def socketRule (T : Set Transport) (cfg : Config) (max : ℕ) : TableRule Transport cfg where
  legal := Legal
  ledger := socketLedger T
  max := max
  Seated _ _ := True
  Arrived _ _ _ := True
  Admitted _ _ _ := True
  uninvolved := by
    intro e he r
    refine inert_of_opensOnly ?_ r
    cases e with
    | socket => cases he
    | _ => exact opensOnly_of_none rfl
  read _ _ _ _ _ _ r := inert_of_opensOnly (opensOnly_of_none rfl) r
  write _ _ _ _ r := inert_of_opensOnly (opensOnly_of_none rfl) r
  leave := by
    intro fds S _ i
    refine (keeps_opensOnly (Q := fun _ => True) ?_).mono fun _ _ _ => trivial
    cases fds i with
    | none => trivial
    | some fd => exact within_wcatCloseQuiet (opensOnly_of_none rfl)
  accept := by
    intro fds S _ listener sizes
    refine (keeps_opensOnly (within_wcatAccept (still_of_domestic opensOnly_of_domestic)
      (opensOnly_of_none rfl) sizes)).mono fun r _ _ => ?_
    cases r <;> trivial
  check := by
    intro fds S fd _
    refine (keeps_opensOnly (within_wcatAccessCheckFd (still_of_domestic opensOnly_of_domestic)
      (opensOnly_of_none rfl) cfg)).mono fun ok _ _ => ?_
    cases ok <;> trivial
  arrived _ := trivial
  dismiss _ := (keeps_opensOnly (within_wcatCloseQuiet (opensOnly_of_none rfl))).mono fun _ _ _ => trivial
  join _ _ _ _ := trivial

/-! ### The modes -/

section
variable (T)

theorem within_opens_relayPeer (fd : Fd) (serverSide : Bool) :
    Within (OpensOnly T) (relayPeer cfg fd serverSide) fun _ => True :=
  within_relayPeer opensOnly_of_domestic (opensOnly_of_converses fd) serverSide

/-- Serving one client after the other. -/
theorem within_opens_listenRounds (listener : Fd) :
    Within (OpensOnly T) (Prog.loop (listenRound cfg listener) 0) fun _ => True := by
  have hd : ∀ e, Domestic e = true → OpensOnly T e := opensOnly_of_domestic
  refine Within.loop (fun _ => True) trivial fun status _ => ?_
  have hagain : ∀ status, Within (OpensOnly T) (listenAgain cfg status)
      (Sum.elim (fun _ => True) fun _ => True) := by
    intro status
    refine Within.ite (fun _ => Within.step (hd _ rfl) fun _ => Within.ite (fun _ => ?_) fun _ => ?_)
      fun _ => ?_ <;> trivial
  refine (within_acceptWhenReady (still_of_domestic hd) (hd _ rfl) (opensOnly_of_none rfl) _).bind'
    fun r _ => ?_
  rcases r with _ | peer
  · refine Within.step (hd _ rfl) fun _ => Within.ite (fun _ => ?_) fun _ => Within.step (hd _ rfl)
      fun _ => ?_ <;> trivial
  refine (within_wcatAccessCheckFd (still_of_domestic hd) (opensOnly_of_none rfl) cfg).next fun ok =>
    Within.ite (fun _ => (within_wcatCloseQuiet (hd _ rfl)).next fun _ => hagain _) fun _ => ?_
  exact Within.step (hd _ rfl) fun _ => (within_opens_relayPeer T _ _).next fun status => hagain status

/-- The clients of the proxy server. -/
theorem within_opens_proxyRounds (ht : .tcp ∈ T) (listener : Fd) :
    Within (OpensOnly T) (Prog.loop (proxyRound cfg listener) ()) fun _ => True := by
  have hd : ∀ e, Domestic e = true → OpensOnly T e := opensOnly_of_domestic
  have hplain : ∀ fd e, PlainOn fd e → OpensOnly T e := fun _ _ he =>
    opensOnly_of_exchangedOn (exchangedOn_of_plainOn he)
  refine Within.loop (fun _ => True) trivial fun _ _ => Within.step (hd _ rfl) fun stop =>
    Within.ite (fun _ => trivial) fun _ => ?_
  refine (within_wcatAccept (still_of_domestic hd) (opensOnly_of_none rfl) _).bind' fun r _ => ?_
  rcases r with _ | peer
  · exact Within.step (hd _ rfl) fun _ => trivial
  refine (within_wcatAccessCheckFd (still_of_domestic hd) (opensOnly_of_none rfl) cfg).next fun ok =>
    Within.ite (fun _ => (within_wcatCloseQuiet (hd _ rfl)).next fun _ => trivial) fun _ => ?_
  refine Within.step (hd _ rfl) fun _ => Within.next (within_serveProxyClient hd
    (fun _ _ _ => opensOnly_of_none rfl) (fun _ => opensOnly_of_none rfl) (hplain _)
    (opensOnly_socket ht) (fun _ _ _ _ => opensOnly_of_none rfl) fun _ => hplain _) fun rc => ?_
  refine (within_wcatCloseQuiet (hd _ rfl)).next fun _ => Within.ite (fun _ => ?_) fun _ => ?_ <;> trivial

/-- The client that sends the file. -/
theorem within_opens_recvClient (listener : Fd) (n : ℕ) :
    Within (OpensOnly T) (recvClient cfg listener (.file n)) fun _ => True := by
  have hd : ∀ e, Domestic e = true → OpensOnly T e := opensOnly_of_domestic
  have hclose : ∀ fd, Within (OpensOnly T) (wcatCloseQuiet fd) fun _ => True := fun _ =>
    within_wcatCloseQuiet (hd _ rfl)
  refine (within_acceptWhenReady (still_of_domestic hd) (hd _ rfl) (opensOnly_of_none rfl) _).bind'
    fun r _ => ?_
  rcases r with _ | peer
  · exact (hclose _).next fun _ => (hclose _).next fun _ => trivial
  refine (within_wcatAccessCheckFd (still_of_domestic hd) (opensOnly_of_none rfl) cfg).next fun ok =>
    Within.ite (fun _ => (hclose _).next fun _ => (hclose _).next fun _ => (hclose _).next fun _ => trivial)
      fun _ => Within.step (hd _ rfl) fun _ => ?_
  refine (within_peer_networkStream hd (opensOnly_of_converses peer.fd) .src true).bind' fun r hsrc => ?_
  rcases r with _ | src
  · exact (hclose _).next fun _ => (hclose _).next fun _ => trivial
  · exact within_recvStream hd (hsrc src rfl) listener n

end

/-- The transport of the listener of `listen`. -/
def listenTransport (cfg : Config) : Transport :=
  if cfg.multi = false ∧ cfg.udp = true then .udp else listenerTransport cfg

/-- **The transports of the sockets a mode opens.** -/
def socketsOf (cfg : Config) : List Transport :=
  match cfg.mode with
  | .connect => [if cfg.quic then .udp else connectTransport cfg]
  | .listen => [if cfg.quic then .udp else listenTransport cfg]
  | .send | .recv => [sendTransport cfg]
  | .relay => (endpointTransport (cfg.left.getD [])).toList ++
      if readsEndpoint (cfg.left.getD []) then (endpointTransport (cfg.right.getD [])).toList else []
  | .broker => [listenerTransport cfg]
  | .proxy => [.tcp]
  | .none => []

theorem keeps_opens_wcatBrokerRun (ht : listenerTransport cfg ∈ T) :
    (socketLedger T).Keeps Legal S (wcatBrokerRun cfg) fun _ _ => True := by
  have hd : ∀ e, Domestic e = true → OpensOnly T e := opensOnly_of_domestic
  have hopen : Within (OpensOnly T) (brokerOpen cfg) fun _ => True := by
    refine Within.ite (fun _ => Within.step (hd _ rfl) fun _ => trivial) fun _ =>
      (within_openListener hd (opensOnly_socket ht)).bind' fun r _ => ?_
    rcases r with _ | listener
    · exact Within.step (hd _ rfl) fun _ => trivial
    · refine Within.next ?_ fun _ => trivial
      exact Within.ite (fun _ => within_sys (hd _ rfl)) fun _ => within_sys (hd _ rfl)
  refine (keeps_opensOnly hopen).bind fun r S₁ _ => ?_
  rcases r with status | listener
  · exact Accounts.keeps_pure trivial
  let D := socketRule T cfg cfg.maxClients
  refine Accounts.Keeps.bind (Q := fun _ _ => True) (Accounts.Keeps.loop (fun _ _ => True) trivial
    fun s S' _ => (TableRule.keeps_brokerRound (D := D) rfl listener trivial).mono ?_) ?_
  · rintro (_ | _) _ _ <;> trivial
  rintro ⟨result, s⟩ S' -
  exact (TableRule.keeps_dropClients (D := D) trivial cfg.maxClients).bind fun s' S'' _ =>
    (keeps_opensOnly (within_wcatCloseQuiet (hd _ rfl))).bind fun _ _ _ => Accounts.keeps_pure trivial

theorem keeps_opens_runMultiListen (ht : listenerTransport cfg ∈ T) :
    (socketLedger T).Keeps Legal S (runMultiListen cfg) fun _ _ => True := by
  have hd : ∀ e, Domestic e = true → OpensOnly T e := opensOnly_of_domestic
  have hraw : Within (OpensOnly T) multiRawInput fun _ => True :=
    Within.step (hd _ rfl) fun _ => Within.ite (fun _ => Within.step (hd _ rfl) fun _ =>
      Within.ite (fun _ => within_sys (hd _ rfl)) fun _ => trivial) fun _ => trivial
  have hopen : Within (OpensOnly T) (multiOpen cfg) fun _ => True := by
    refine Within.ite (fun _ => Within.step (hd _ rfl) fun _ => trivial) fun _ =>
      (within_openListener hd (opensOnly_socket ht)).bind' fun r _ => ?_
    rcases r with _ | listener
    · exact Within.step (hd _ rfl) fun _ => trivial
    refine hraw.next fun interactive => Within.step (hd _ rfl) fun _ => ?_
    refine Within.next ?_ fun _ => trivial
    exact Within.ite (fun _ => drawn_multiRedrawInput (fun _ => hd _ rfl) (fun _ => hd _ rfl) _)
      fun _ => within_sys (hd _ rfl)
  refine (keeps_opensOnly hopen).bind fun r S₁ _ => ?_
  rcases r with status | ⟨listener, interactive⟩
  · exact Accounts.keeps_pure trivial
  let D := socketRule T cfg cfg.brokerMaxClients.toNat
  refine Accounts.Keeps.bind (Q := fun _ _ => True) (Accounts.Keeps.loop (fun _ _ => True) trivial
    fun s S' _ => (TableRule.keeps_multiRound (D := D) rfl listener trivial).mono ?_) fun s S' _ => ?_
  · rintro (_ | _) _ _ <;> trivial
  refine (TableRule.keeps_multiSessionCloses (D := D) trivial cfg.brokerMaxClients.toNat).bind
    fun s' S'' _ => ?_
  have hrestore : Within (OpensOnly T) (if interactive then sys (.tcsetattr false) else pure true)
      fun _ => True := Within.ite (fun _ => within_sys (hd _ rfl)) fun _ => trivial
  exact (keeps_opensOnly hrestore).bind fun _ _ _ =>
    (keeps_opensOnly (within_wcatCloseQuiet (hd _ rfl))).bind fun _ _ _ => Accounts.keeps_pure trivial

theorem keeps_opens_runListen (ht : listenTransport cfg ∈ T) :
    (socketLedger T).Keeps Legal S (runListen cfg) fun _ _ => True := by
  have hd : ∀ e, Domestic e = true → OpensOnly T e := opensOnly_of_domestic
  rw [listenTransport] at ht
  refine Accounts.Keeps.ite (fun hmulti => ?_) fun hmulti => Accounts.Keeps.ite (fun hudp => ?_)
    fun hudp => ?_
  · rw [if_neg (by simp [hmulti])] at ht
    exact keeps_opens_runMultiListen ht
  · rw [if_pos ⟨by simpa using hmulti, hudp⟩] at ht
    refine keeps_opensOnly (Q := fun _ => True) ((within_wcatUdpBind (quiet_of_domestic hd)
      (opensOnly_socket ht) (fun _ => hd _ rfl) _ _ _).bind' fun r _ => ?_)
    rcases r with _ | fd
    · exact Within.step (hd _ rfl) fun _ => trivial
    · exact within_opens_relayPeer T fd true
  · rw [if_neg (by simp [hudp])] at ht
    refine keeps_opensOnly (Q := fun _ => True) ((within_openListener hd (opensOnly_socket ht)).bind'
      fun r _ => ?_)
    rcases r with _ | listener
    · exact Within.step (hd _ rfl) fun _ => trivial
    refine Within.next (Within.ite (fun _ => within_sys (hd _ rfl)) fun _ => within_sys (hd _ rfl))
      fun _ => (within_opens_listenRounds T listener).next fun status => ?_
    exact (within_wcatCloseQuiet (hd _ rfl)).next fun _ => trivial

theorem within_opens_wcatRecvFile (ht : sendTransport cfg ∈ T) :
    Within (OpensOnly T) (wcatRecvFile cfg) fun _ => True := by
  have hd : ∀ e, Domestic e = true → OpensOnly T e := opensOnly_of_domestic
  refine Within.step (hd _ rfl) fun r => ?_
  rcases r with err | n
  · exact Within.step (hd _ rfl) fun _ => trivial
  have hlisten : Within (OpensOnly T) (if cfg.udp then wcatUdpBind cfg.hostArg cfg.portArg cfg.family
      else wcatTcpListen cfg.hostArg cfg.portArg cfg.family 16) (SockOf (sendTransport cfg)) := by
    rw [sendTransport] at ht ⊢
    split_ifs at ht ⊢
    · exact within_wcatUdpBind (quiet_of_domestic hd) (opensOnly_socket ht) (fun _ => hd _ rfl) _ _ _
    · exact within_inetListen (quiet_of_domestic hd) (opensOnly_socket ht) (fun _ => hd _ rfl) _ _ _ _
  refine hlisten.bind' fun r hr => ?_
  rcases r with _ | listener
  · exact Within.step (hd _ rfl) fun _ => (within_wcatCloseQuiet (hd _ rfl)).next fun _ => trivial
  refine Within.ite (fun _ => within_recvStream hd ⟨plainOn_stream (fun _ he => ?_) (hd _ rfl),
    within_wcatCloseQuiet (hd _ rfl)⟩ listener n) fun _ => within_opens_recvClient T listener n
  exact opensOnly_of_exchangedOn (exchangedOn_of_plainOn he)

/-- **Every mode** opens the sockets of the table, and no others. -/
theorem keeps_opens_dispatch (hT : ∀ t ∈ socketsOf cfg, t ∈ T) :
    (socketLedger T).Keeps Legal S (dispatch cfg) fun _ _ => True := by
  have hd : ∀ e, Domestic e = true → OpensOnly T e := opensOnly_of_domestic
  have hssl : ∀ m e, SslOn (.sock .udp m) e → OpensOnly T e := fun _ _ he =>
    opensOnly_of_exchangedOn (exchangedOn_of_sslOn he)
  rw [socketsOf] at hT
  rw [dispatch]
  cases hmode : cfg.mode with
  | connect =>
    rw [hmode] at hT
    have ht := hT _ List.mem_cons_self
    refine Accounts.Keeps.ite (fun hquic => keeps_opensOnly ?_) fun hquic => keeps_opensOnly ?_
    · rw [if_pos hquic] at ht
      exact within_runQuicConnect hd (opensOnly_socket ht) (fun _ _ => opensOnly_of_none rfl) hssl
    · rw [if_neg hquic] at ht
      exact within_runConnect hd (opensOnly_socket ht) (fun _ _ _ _ => opensOnly_of_none rfl)
        (fun _ _ _ _ => opensOnly_of_none rfl) (fun _ _ => opensOnly_of_none rfl)
        fun _ _ => opensOnly_of_converses _
  | listen =>
    rw [hmode] at hT
    have ht := hT _ List.mem_cons_self
    refine Accounts.Keeps.ite (fun hquic => keeps_opensOnly ?_) fun hquic => ?_
    · rw [if_pos hquic] at ht
      exact within_runQuicListen hd (opensOnly_socket ht) hssl
    · rw [if_neg hquic] at ht
      exact keeps_opens_runListen ht
  | send =>
    rw [hmode] at hT
    exact keeps_opensOnly (within_wcatSendFile hd (opensOnly_socket (hT _ List.mem_cons_self))
      (fun _ _ _ _ => opensOnly_of_none rfl) (fun _ _ _ _ => opensOnly_of_none rfl)
      (fun _ _ => opensOnly_of_none rfl) fun _ _ => opensOnly_of_converses _)
  | recv =>
    rw [hmode] at hT
    exact keeps_opensOnly (within_opens_wcatRecvFile (hT _ List.mem_cons_self))
  | relay =>
    rw [hmode] at hT
    have hplain : ∀ fd e, PlainOn fd e → OpensOnly T e := fun _ _ he =>
      opensOnly_of_exchangedOn (exchangedOn_of_plainOn he)
    refine keeps_opensOnly (within_runRelay hd (fun t ht => opensOnly_socket (hT t ?_))
      (fun hread t ht => opensOnly_socket (hT t ?_)) (fun _ _ _ => opensOnly_of_none rfl)
      (fun _ _ => hplain _) fun _ _ _ _ _ => ⟨opensOnly_of_none rfl, fun _ => hplain _⟩)
    · exact List.mem_append_left _ (Option.mem_toList.mpr ht)
    · exact List.mem_append_right _ (by rw [if_pos hread]; exact Option.mem_toList.mpr ht)
  | broker =>
    rw [hmode] at hT
    exact keeps_opens_wcatBrokerRun (hT _ List.mem_cons_self)
  | proxy =>
    rw [hmode] at hT
    have ht := hT _ List.mem_cons_self
    refine keeps_opensOnly (Q := fun _ => True) ((within_inetListen (quiet_of_domestic hd)
      (opensOnly_socket ht) (fun _ => hd _ rfl) _ _ _ _).bind' fun r _ => ?_)
    rcases r with _ | listener
    · exact Within.step (hd _ rfl) fun _ => trivial
    · exact Within.step (hd _ rfl) fun _ => (within_opens_proxyRounds T ht listener).next fun _ =>
        (within_wcatCloseQuiet (hd _ rfl)).next fun _ => trivial
  | none => exact Accounts.keeps_pure trivial

/-- **No run opens another socket.** -/
theorem dispatch_sockets {o : Option ℕ} (hr : Runs Legal (dispatch cfg) [] h o) {e : Sys} {r : Resp e}
    {t : Transport} (hev : ⟨e, r⟩ ∈ h) (ht : socketAsked e = some t) : t ∈ socketsOf cfg := by
  have hkeeps := keeps_opens_dispatch (T := {t | t ∈ socketsOf cfg})
    (S := (socketLedger {t | t ∈ socketsOf cfg}).held []) fun _ => id
  obtain ⟨new, old, rfl⟩ := List.append_of_mem hev
  have hneeded := (hkeeps.run hr).1 ⟨e, r⟩ old ⟨new, rfl⟩ List.nil_suffix
  by_contra hnot
  -- nothing is ever held in this ledger
  have hheld : ∀ g : Hist, (socketLedger {t | t ∈ socketsOf cfg}).held g = ∅ := by
    intro g
    induction g with
    | nil => rfl
    | cons ev g ih =>
      rw [Accounts.held_cons, ih]
      simp [socketLedger]
  have hmem := hneeded ⟨ht, hnot⟩
  rw [hheld] at hmem
  exact hmem

end Wirecat
