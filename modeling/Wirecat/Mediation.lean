import Wirecat.Modes
import Wirecat.Roster

/-!
# Nobody is served unchecked

The access lists are looked at in six places, one for each loop that accepts, and none of
them knows of the others. What they have in common is told by a ledger (`Wirecat.permissions`)
of what stands to a descriptor's credit: that it is open, and that its peer was looked at and
found to be permitted, since it was opened (`Wirecat.Vetted`). Exchanging bytes on a
connection that was accepted needs the second.

For the broker and the multi-session listener this is one more ledger of a table
(`Wirecat.permissionRule`); the other modes serve one peer at a time, and have a footprint that
names it. The relay is different. An endpoint `listen:` or `unix-listen:` accepts whoever
comes, and the lists are accepted on the command line all the same; without such an endpoint
the relay accepts nobody.
-/

namespace Wirecat

open CString Interaction

/-! ### What was found out about a peer -/

/-- An event that finds the peer of a descriptor to be permitted. -/
def clears (cfg : Config) : Ev → Fd → Prop
  | ⟨.getpeername fd', r⟩, fd => fd' = fd ∧ ∃ family addr,
      r.bind SockAddr.peerAddr = some (family, addr) ∧ permits cfg family addr = true
  | _, _ => False

/-- **A descriptor is vetted**: since it was opened, its peer was looked at and found to be
permitted. -/
def Vetted (cfg : Config) : Hist → Fd → Prop
  | [], _ => False
  | ev :: h, fd => clears cfg ev fd ∨ fd ∉ opens ev ∧ Vetted cfg h fd

/-- The descriptor that bytes are exchanged on. -/
def exchangedOn : Sys → Option Fd
  | .read _ fd _ _ _ | .write _ fd _ | .sslConnect fd | .sslAccept fd | .sslRead _ fd _
  | .sslWrite _ fd _ | .sslStreamConclude fd | .sslShutdown fd => some fd
  | _ => none

/-- What can stand to the credit of a descriptor. -/
inductive Standing
  /-- It is open. -/
  | live (fd : Fd)
  /-- It is vetted. -/
  | vetted (fd : Fd)

/-- **The ledger of permissions**: exchanging bytes on an accepted connection needs one. -/
def permissions (cfg : Config) : Accounts Sys Resp Standing where
  opened ev := {k | match k with
    | .live fd => fd ∈ opens ev
    | .vetted fd => clears cfg ev fd}
  closed ev := {k | match k with
    | .live fd => ev.1 = .close fd
    | .vetted fd => fd ∈ opens ev}
  needed ev := {k | match k with
    | .live _ => False
    | .vetted fd => fd.isConn = true ∧ exchangedOn ev.1 = some fd}

variable {cfg : Config} {h : Hist} {fd : Fd}

theorem vetted_iff : Vetted cfg h fd ↔ .vetted fd ∈ (permissions cfg).held h := by
  induction h with
  | nil => simp [Vetted, Accounts.held]
  | cons ev h ih => simp [Vetted, ih, permissions, or_comm, and_comm]

theorem isOpen_iff_live : isOpen h fd = true ↔ .live fd ∈ (permissions cfg).held h := by
  rw [isOpen_iff]
  induction h with
  | nil => simp [Accounts.held]
  | cons ev h ih =>
    rw [Accounts.held_cons, Accounts.held_cons]
    exact or_congr (and_congr ih Iff.rfl) Iff.rfl

/-! ### The steps of a table -/

section Table

variable {S : Set Standing} {fds : ℕ → Option Fd}

/-- Every connection of a table is open and vetted, and in one slot. -/
structure Guarded (fds : ℕ → Option Fd) (S : Set Standing) : Prop where
  live : ∀ i fd, fds i = some fd → .live fd ∈ S
  vetted : ∀ i fd, fds i = some fd → .vetted fd ∈ S
  once : ∀ i j fd, fds i = some fd → fds j = some fd → i = j

/-- A connection that is in no slot yet. -/
structure Guarded.Beside (fds : ℕ → Option Fd) (fd : Fd) (S : Set Standing) : Prop where
  guarded : Guarded fds S
  live : .live fd ∈ S
  apart : ∀ i, fds i ≠ some fd

theorem guarded_empty : Guarded (fun _ => none) S := ⟨by simp, by simp, by simp⟩

/-- What stands to the credit of the table is left alone. -/
theorem Guarded.mono {S' : Set Standing} (hs : Guarded fds S)
    (hlive : ∀ i fd, fds i = some fd → .live fd ∈ S')
    (hsub : ∀ fd, .vetted fd ∈ S → .vetted fd ∈ S') : Guarded fds S' :=
  ⟨hlive, fun i fd hi => hsub fd (hs.vetted i fd hi), hs.once⟩

/-- A request that opens nothing, closes nothing and looks at nobody is inert, unless bytes are
exchanged. -/
theorem permissions_inert {e : Sys} (hopen : Opening e = false) (hclose : Closing e = false)
    (hpeer : ∀ fd, e ≠ .getpeername fd)
    (hex : ∀ fd, exchangedOn e = some fd → fd.isConn = true → .vetted fd ∈ S) (r : Resp e) :
    (permissions cfg).Inert S ⟨e, r⟩ := by
  have hopens := opens_eq_nil hopen r
  refine ⟨?_, ?_, ?_⟩
  · ext (fd | fd)
    · simp [permissions, hopens]
    · suffices ¬clears cfg ⟨e, r⟩ fd by simpa [permissions]
      intro hclears
      cases e with
      | getpeername fd' => exact hpeer fd' rfl
      | _ => exact hclears
  · ext (fd | fd)
    · simp only [permissions, Set.mem_ofPred_eq, Set.mem_empty_iff_false, iff_false]
      rintro rfl
      cases hclose
    · simp [permissions, hopens]
  · rintro (fd | fd) hk
    · exact hk.elim
    · exact hex fd hk.2 hk.1

theorem permissions_inert_of_uninvolved {e : Sys} (he : Uninvolved e = true) (r : Resp e) :
    (permissions cfg).Inert ∅ ⟨e, r⟩ := by
  refine permissions_inert ?_ ?_ ?_ ?_ r
  · cases e <;> first | rfl | exact absurd he Bool.false_ne_true
  · cases e <;> first | rfl | exact absurd he Bool.false_ne_true
  · rintro fd rfl
    cases he
  · intro fd hex hconn
    cases e with
    | read _ x | write _ x =>
      obtain rfl : x = fd := Option.some.inj hex
      have hnot : (!x.isConn) = true := he
      rw [hconn] at hnot
      cases hnot
    | sslConnect | sslAccept | sslRead | sslWrite | sslStreamConclude | sslShutdown => cases he
    | _ => cases hex

/-- Closing a descriptor, as often as it takes. -/
theorem permissions_wcatCloseQuiet (fd : Fd) :
    (permissions cfg).Keeps Legal S (wcatCloseQuiet fd) fun _ S' => S' = S \ {.live fd} := by
  have hclosed : ∀ r, (permissions cfg).closed ⟨.close fd, r⟩ = {.live fd} := by
    intro r
    ext (x | x)
    · simp only [permissions, Set.mem_ofPred_eq, Set.mem_singleton_iff, Sys.close.injEq,
        Standing.live.injEq]
      exact eq_comm
    · simp [permissions, opens]
  have hopened : ∀ r, (permissions cfg).opened ⟨.close fd, r⟩ = ∅ := by
    intro r
    ext (x | x)
    · simp [permissions, opens]
    · simp [permissions, clears]
  have hneeded : ∀ r, (permissions cfg).needed ⟨.close fd, r⟩ = ∅ := by
    intro r
    ext (x | x)
    · simp [permissions]
    · simp [permissions, exchangedOn]
  refine Accounts.Keeps.loop (fun _ S' => S' \ {.live fd} = S \ {.live fd}) rfl fun _ S' hS' => ?_
  refine Accounts.Keeps.ask fun h r hl _ => ⟨by simp [hneeded], ?_⟩
  rw [hclosed, hopened, Set.union_empty]
  rcases r with _ | err
  · exact Accounts.keeps_pure hS'
  · cases err with
    | eintr => exact Accounts.keeps_pure (by simpa using hS')
    | _ => exact Accounts.keeps_pure hS'

/-- A slot that is closed is freed. -/
theorem Guarded.leave (hs : Guarded fds S) (i : ℕ) :
    (permissions cfg).Keeps Legal S (wcatCloseQuiet? (fds i))
      fun _ => Guarded (Function.update fds i none) := by
  have hkept : ∀ {S'}, (∀ j fd, j ≠ i → fds j = some fd → .live fd ∈ S') →
      (∀ fd, .vetted fd ∈ S → .vetted fd ∈ S') → Guarded (Function.update fds i none) S' := by
    intro S' hlive hsub
    have hfds : ∀ j fd, Function.update fds i none j = some fd → j ≠ i ∧ fds j = some fd := by
      intro j fd hj
      rcases eq_or_ne j i with rfl | hne
      · rw [Function.update_self] at hj
        cases hj
      · rw [Function.update_of_ne hne] at hj
        exact ⟨hne, hj⟩
    exact ⟨fun j fd hj => hlive j fd (hfds j fd hj).1 (hfds j fd hj).2,
      fun j fd hj => hsub fd (hs.vetted j fd (hfds j fd hj).2),
      fun j k fd hj hk => hs.once j k fd (hfds j fd hj).2 (hfds k fd hk).2⟩
  rcases hi : fds i with _ | fd
  · exact Accounts.keeps_pure (hkept (fun j fd _ hj => hs.live j fd hj) fun _ => id)
  · refine (permissions_wcatCloseQuiet fd).mono ?_
    rintro - _ rfl
    refine hkept (fun j fd' hne hj => ⟨hs.live j fd' hj, ?_⟩) fun fd' hfd' => ⟨hfd', by simp⟩
    rintro ⟨⟩
    exact hne (hs.once j i fd hj hi)

/-- What is known of a connection that was accepted: it is open, and it is a connection. -/
theorem Guarded.accept (hs : Guarded fds S) (listener : Fd) (sizes : Option (ℕ × ℕ)) :
    (permissions cfg).Keeps Legal S (wcatAccept listener sizes)
      fun r S' => r.elim (Guarded fds S') fun peer => Guarded.Beside fds peer.fd S' := by
  refine Accounts.Keeps.loop (fun _ S' => Guarded fds S') hs fun _ S hs => ?_
  refine Accounts.Keeps.ask fun h r hl hheld => ⟨?_, ?_⟩
  · rintro (fd | fd) hk
    · exact hk.elim
    · exact absurd hk.2 (by simp [exchangedOn])
  rcases r with err | n
  · have hsame : S \ (permissions cfg).closed ⟨.accept listener, .error err⟩ ∪
        (permissions cfg).opened ⟨.accept listener, .error err⟩ = S := by
      ext (x | x)
      · simp [permissions, opens]
      · simp [permissions, opens, clears]
    rw [hsame]
    cases err <;> exact Accounts.keeps_pure hs
  · have hnew : .live (listener.accepted n) ∉ S := by
      rw [← hheld, ← isOpen_iff_live, Bool.not_eq_true]
      exact hl.1 _ (by simp [opens])
    have hapart : ∀ i, fds i ≠ some (listener.accepted n) := fun i hi => hnew (hs.live i _ hi)
    have hbeside : Guarded.Beside fds (listener.accepted n)
        (S \ (permissions cfg).closed ⟨.accept listener, .ok n⟩ ∪
          (permissions cfg).opened ⟨.accept listener, .ok n⟩) := by
      refine ⟨⟨fun i fd hi => Or.inl ⟨hs.live i fd hi, by simp [permissions]⟩,
        fun i fd hi => Or.inl ⟨hs.vetted i fd hi, ?_⟩, hs.once⟩,
        Or.inr (by simp [permissions, opens]), hapart⟩
      rintro hmem
      have hfd : fd = listener.accepted n := by simpa [permissions, opens] using hmem
      exact hapart i (hfd ▸ hi)
    refine Accounts.Keeps.inert (fun r => permissions_inert rfl rfl (by simp)
      (by simp [exchangedOn]) r) fun _ _ _ => ?_
    rcases sizes with _ | ⟨hostLen, portLen⟩
    · exact Accounts.keeps_pure hbeside
    · exact Accounts.Keeps.inert (fun r => permissions_inert rfl rfl (by simp)
        (by simp [exchangedOn]) r) fun _ _ _ => Accounts.keeps_pure hbeside

variable (hlists : ¬(cfg.allowList = none ∧ cfg.denyList = none))

include hlists

/-- **The check** finds a peer to be permitted, or answers no. -/
theorem permissions_wcatAccessCheckFd {fd : Fd} :
    (permissions cfg).Keeps Legal S (wcatAccessCheckFd cfg fd)
      fun ok S' => S ⊆ S' ∧ (ok = true → .vetted fd ∈ S') := by
  rw [wcatAccessCheckFd, if_neg hlists, fdPeerAddr, bind_assoc]
  have hlog : ∀ {S' : Set Standing} {level event fmt args}, S ⊆ S' →
      (permissions cfg).Keeps Legal S' (sys (.log level event fmt args) >>= fun _ => pure false)
        fun ok S' => S ⊆ S' ∧ (ok = true → .vetted fd ∈ S') := by
    intro S' level event fmt args hsub
    exact Accounts.Keeps.inert (fun r => permissions_inert rfl rfl (by simp)
      (by simp [exchangedOn]) r) fun _ _ _ => Accounts.keeps_pure ⟨hsub, by simp⟩
  refine Accounts.Keeps.ask fun h r hl _ => ⟨?_, ?_⟩
  · rintro (x | x) hk
    · exact hk.elim
    · exact absurd hk.2 (by simp [exchangedOn])
  have hclosed : (permissions cfg).closed ⟨.getpeername fd, r⟩ = ∅ := by
    ext (x | x)
    · simp [permissions]
    · simp [permissions, opens]
  rw [hclosed, Set.sdiff_empty]
  generalize hT : S ∪ (permissions cfg).opened ⟨.getpeername fd, r⟩ = T
  have hsub : S ⊆ T := hT ▸ Set.subset_union_left
  have herror : (permissions cfg).Keeps Legal T (sys (.logErrno "access"
      (lit "failed to read peer address")) >>= fun _ => pure false)
      fun ok S' => S ⊆ S' ∧ (ok = true → .vetted fd ∈ S') :=
    Accounts.Keeps.inert (fun r => permissions_inert rfl rfl (by simp)
      (by simp [exchangedOn]) r) fun _ _ _ => Accounts.keeps_pure ⟨hsub, by simp⟩
  have hdecides : ∀ family addr, r.bind SockAddr.peerAddr = some (family, addr) →
      (permissions cfg).Keeps Legal T (do
        if cfg.denyList.any fun list => listMatches list family addr then do
          sys (.log .warn "access_denied" "denied peer %s" [.addr addr])
          pure false
        else if cfg.allowList.any fun list => !listMatches list family addr then do
          sys (.log .warn "access_denied" "peer %s not in allow list" [.addr addr])
          pure false
        else pure true) fun ok S' => S ⊆ S' ∧ (ok = true → .vetted fd ∈ S') := by
    intro family addr haddr
    refine Accounts.Keeps.ite (fun _ => hlog hsub) fun hdeny => Accounts.Keeps.ite
      (fun _ => hlog hsub) fun hallow => Accounts.keeps_pure ⟨hsub, fun _ => ?_⟩
    rw [← hT]
    refine Or.inr ⟨rfl, family, addr, haddr, ?_⟩
    simp [permits, hdeny, hallow]
  rcases r with _ | (a | a | _)
  · exact herror
  · exact hdecides .inet a.1 rfl
  · exact hdecides .inet6 a.1 rfl
  · exact herror

/-- **The ledger of permissions is kept by a table.** -/
def permissionRule (max : ℕ) : TableRule Standing cfg where
  legal := Legal
  ledger := permissions cfg
  max := max
  Seated := Guarded
  Arrived := Guarded.Beside
  Admitted fds fd S := Guarded.Beside fds fd S ∧ .vetted fd ∈ S
  uninvolved := permissions_inert_of_uninvolved
  read := by
    intro fds S i fd hs hi via cap off len r
    refine permissions_inert rfl rfl (by simp) ?_ r
    rintro _ ⟨⟩ -
    exact hs.vetted i fd hi
  write := by
    intro fds S i fd hs hi via buf r
    refine permissions_inert rfl rfl (by simp) ?_ r
    rintro _ ⟨⟩ -
    exact hs.vetted i fd hi
  leave := Guarded.leave
  accept := Guarded.accept
  check := by
    intro fds S fd hs
    refine (permissions_wcatAccessCheckFd hlists).mono fun ok S' h => ?_
    obtain ⟨hsub, hok⟩ := h
    have hbeside : Guarded.Beside fds fd S' :=
      ⟨hs.guarded.mono (fun i x hi => hsub (hs.guarded.live i x hi)) fun x hx => hsub hx,
        hsub hs.live, hs.apart⟩
    cases ok
    · exact hbeside
    · exact ⟨hbeside, hok rfl⟩
  arrived h := h.1
  dismiss := by
    intro fds S fd hs
    refine (permissions_wcatCloseQuiet fd).mono ?_
    rintro - _ rfl
    refine hs.guarded.mono (fun i x hi => ⟨hs.guarded.live i x hi, ?_⟩) fun x hx => ⟨hx, by simp⟩
    rintro ⟨⟩
    exact hs.apart i hi
  join := by
    rintro fds S fd ⟨hs, hvetted⟩ i - hfree
    have hfds : ∀ j x, Function.update fds i (some fd) j = some x →
        j = i ∧ x = fd ∨ j ≠ i ∧ fds j = some x := by
      intro j x hj
      rcases eq_or_ne j i with rfl | hne
      · rw [Function.update_self] at hj
        exact Or.inl ⟨rfl, (Option.some.inj hj).symm⟩
      · rw [Function.update_of_ne hne] at hj
        exact Or.inr ⟨hne, hj⟩
    refine ⟨fun j x hj => ?_, fun j x hj => ?_, fun j k x hj hk => ?_⟩
    · rcases hfds j x hj with ⟨-, rfl⟩ | ⟨-, hj⟩
      · exact hs.live
      · exact hs.guarded.live j x hj
    · rcases hfds j x hj with ⟨-, rfl⟩ | ⟨-, hj⟩
      · exact hvetted
      · exact hs.guarded.vetted j x hj
    · rcases hfds j x hj with ⟨hji, hx⟩ | ⟨-, hj'⟩ <;> rcases hfds k x hk with ⟨hki, hx'⟩ | ⟨-, hk'⟩
      · exact hji.trans hki.symm
      · exact absurd (hx ▸ hk') (hs.apart k)
      · exact absurd (hx' ▸ hj') (hs.apart j)
      · exact hs.guarded.once j k x hj' hk'

end Table

/-! ### One peer at a time -/

/-- The requests that exchange bytes on no accepted connection. -/
def Guestless (e : Sys) : Prop := ∀ fd, exchangedOn e = some fd → fd.isConn = false

/-- The requests that accept nobody, and exchange bytes on no accepted connection but `fd`. -/
def OnlyOn (fd : Fd) (e : Sys) : Prop :=
  (∀ listener, e ≠ .accept listener) ∧ ∀ fd', exchangedOn e = some fd' → fd'.isConn = true → fd' = fd

theorem guestless_of_domestic (e : Sys) (he : Domestic e = true) : Guestless e := by
  intro fd hfd
  cases e with
  | read _ x | write _ x =>
    obtain rfl : x = fd := Option.some.inj hfd
    have hnot : (!x.isSocket) = true := he
    cases x <;> first | rfl | cases hnot
  | sslConnect | sslAccept | sslRead | sslWrite | sslStreamConclude | sslShutdown => cases he
  | _ => cases hfd

theorem guestless_socket {t : Transport} : Guestless (.socket t) := fun _ h => absurd h (by simp [exchangedOn])

theorem onlyOn_of_domestic (e : Sys) (he : Domestic e = true) : OnlyOn fd e := by
  refine ⟨?_, fun fd' hfd' hconn => ?_⟩
  · rintro listener rfl
    cases he
  · rw [guestless_of_domestic e he fd' hfd'] at hconn
    cases hconn

/-- A conversation is on its own descriptor. -/
theorem exchangedOn_of_sslOn {e : Sys} (he : SslOn fd e) : exchangedOn e = some fd := by
  cases e <;> first | exact he.elim | exact congrArg some he

theorem exchangedOn_of_plainOn {e : Sys} (he : PlainOn fd e) : exchangedOn e = some fd := by
  cases e with
  | read via | write via => cases via <;> first | exact he.elim | exact congrArg some he
  | _ => exact he.elim

theorem exchangedOn_of_converses {e : Sys} (he : Converses cfg fd e) : exchangedOn e = some fd := by
  rw [Converses] at he
  split_ifs at he
  · exact exchangedOn_of_sslOn he
  · exact exchangedOn_of_plainOn he

theorem onlyOn_of_exchangedOn {e : Sys} (he : exchangedOn e = some fd) : OnlyOn fd e := by
  refine ⟨?_, fun fd' hfd' _ => Option.some.inj (hfd'.symm.trans he)⟩
  rintro listener rfl
  cases he

theorem guestless_of_exchangedOn {e : Sys} (hfd : fd.isConn = false) (he : exchangedOn e = some fd) :
    Guestless e := by
  intro fd' hfd'
  rw [← Option.some.inj (he.symm.trans hfd')]
  exact hfd

/-- Only `accept` opens a connection that was accepted. -/
theorem opens_conn {e : Sys} {r : Resp e} (hfd : fd ∈ opens ⟨e, r⟩) (hconn : fd.isConn = true) :
    ∃ listener, e = .accept listener := by
  cases e with
  | accept listener => exact ⟨listener, rfl⟩
  | socket | openFile =>
    rcases r with _ | n
    · cases hfd
    · obtain rfl := List.mem_singleton.mp hfd
      cases hconn
  | pipe =>
    rcases r with _ | ⟨a, b⟩
    · cases hfd
    · rcases List.mem_pair.mp hfd with rfl | rfl <;> cases hconn
  | forkpty =>
    rcases r with _ | ⟨pid, n⟩
    · cases hfd
    · obtain rfl := List.mem_singleton.mp hfd
      cases hconn
  | _ => cases hfd

section Loops

variable {α : Type} {S : Set Standing}

/-- A program that exchanges bytes with nobody who was accepted. -/
theorem keeps_guestless {p : Proc α} {Q : α → Prop} (hp : Within Guestless p Q) :
    (permissions cfg).Keeps Legal S p fun a _ => Q a := by
  refine (Accounts.keeps_above hp (Set.empty_subset S) fun h e r he _ _ => ⟨?_, ?_⟩).mono
    fun _ _ h => h.2
  · rintro (x | x) hk
    · exact hk.elim
    · have hconn := he x hk.2
      rw [hk.1] at hconn
      cases hconn
  · exact Set.disjoint_left.mpr fun _ hk => hk.elim

/-- A program for one connection that was accepted and is vetted. -/
theorem keeps_onlyOn {p : Proc α} {Q : α → Prop} (hp : Within (OnlyOn fd) p Q)
    (hconn : fd.isConn = true) (hvetted : .vetted fd ∈ S) :
    (permissions cfg).Keeps Legal S p fun a _ => Q a := by
  refine (Accounts.keeps_above (T := {.vetted fd}) hp (Set.singleton_subset_iff.mpr hvetted)
    fun h e r he _ _ => ⟨?_, ?_⟩).mono fun _ _ h => h.2
  · rintro (x | x) hk
    · exact hk.elim
    · rw [he.2 x hk.2 hk.1]
      exact rfl
  · refine Set.disjoint_singleton_left.mpr fun hopens => ?_
    obtain ⟨listener, rfl⟩ := opens_conn hopens hconn
    exact he.1 listener rfl

/-- A request that has to do with no peer. -/
theorem keeps_uninvolved {β : Type} {e : Sys} {k : Resp e → Proc β} {Q : β → Set Standing → Prop}
    (he : Uninvolved e = true) (hk : ∀ r, (permissions cfg).Keeps Legal S (k r) Q) :
    (permissions cfg).Keeps Legal S (Prog.request e >>= k) Q :=
  Accounts.Keeps.inert (fun r => (permissions_inert_of_uninvolved he r).mono (Set.empty_subset S))
    fun _ r _ => hk r

theorem guestless_acceptWhenReady (listener : Fd) (sizes : Option (ℕ × ℕ)) :
    Within Guestless (acceptWhenReady listener sizes) fun r => ∀ peer ∈ r, peer.fd.isConn = true := by
  refine (within_acceptWhenReady (still_of_domestic guestless_of_domestic) (guestless_of_domestic _ rfl)
    (fun _ h => absurd h (by simp [exchangedOn])) sizes).post_mono fun r hr peer hpeer => ?_
  obtain ⟨n, hn⟩ := hr peer hpeer
  rw [hn]
  rfl

theorem onlyOn_relayPeer (serverSide : Bool) :
    Within (OnlyOn fd) (relayPeer cfg fd serverSide) fun _ => True :=
  within_relayPeer onlyOn_of_domestic
    (fun _ he => onlyOn_of_exchangedOn (exchangedOn_of_converses he)) serverSide

variable (hlists : ¬(cfg.allowList = none ∧ cfg.denyList = none))

include hlists

/-- **The listener that serves one peer at a time** serves nobody unchecked. -/
theorem keeps_vetted_listenRounds (listener : Fd) :
    (permissions cfg).Keeps Legal S (Prog.loop (listenRound cfg listener) 0) fun _ _ => True := by
  refine Accounts.Keeps.loop (fun _ _ => True) trivial fun status S _ => ?_
  have hanything : ∀ (r : ℕ ⊕ ℕ) (S' : Set Standing), True →
      Sum.elim (fun _ => True) (fun _ => True) r := by
    rintro (_ | _) _ _ <;> trivial
  have hagain : ∀ (S' : Set Standing) (status : ℕ), (permissions cfg).Keeps Legal S'
      (listenAgain cfg status) fun r _ => Sum.elim (fun _ => True) (fun _ => True) r := by
    intro S' status
    refine (keeps_guestless (p := listenAgain cfg status) (Q := fun _ => True) ?_).mono hanything
    refine Within.ite (fun _ => ?_) fun _ => trivial
    exact Within.step (guestless_of_domestic _ rfl) fun _ => Within.ite (fun _ => trivial) fun _ => trivial
  refine (keeps_guestless (guestless_acceptWhenReady listener _)).bind fun r S₁ hr => ?_
  rcases r with _ | peer
  · refine (keeps_guestless (Q := fun _ => True) ?_).mono hanything
    exact Within.step (guestless_of_domestic _ rfl) fun _ => Within.ite (fun _ => trivial) fun _ =>
      Within.step (guestless_of_domestic _ rfl) fun _ => trivial
  have hconn := hr peer rfl
  refine (permissions_wcatAccessCheckFd hlists).bind fun ok S₂ hok =>
    Accounts.Keeps.ite (fun _ => ?_) fun hnot => ?_
  · exact (keeps_guestless (within_wcatCloseQuiet (guestless_of_domestic _ rfl))).bind fun _ S₃ _ =>
      hagain S₃ status
  · have hvetted : .vetted peer.fd ∈ S₂ := hok.2 (by simpa using hnot)
    refine keeps_uninvolved rfl fun _ => ?_
    exact (keeps_onlyOn (onlyOn_relayPeer true) hconn hvetted).bind fun status S₃ _ =>
      hagain S₃ status

/-- **The receiver of a file** takes it from nobody unchecked. -/
theorem keeps_vetted_recvClient (listener : Fd) (n : ℕ) :
    (permissions cfg).Keeps Legal S (recvClient cfg listener (.file n)) fun _ _ => True := by
  have hclose : ∀ fd, Within Guestless (wcatCloseQuiet fd) fun _ => True := fun fd =>
    within_wcatCloseQuiet (guestless_of_domestic _ rfl)
  refine (keeps_guestless (guestless_acceptWhenReady listener _)).bind fun r S₁ hr => ?_
  rcases r with _ | peer
  · exact keeps_guestless (Q := fun _ => True)
      ((hclose _).next fun _ => (hclose _).next fun _ => trivial)
  have hconn := hr peer rfl
  refine (permissions_wcatAccessCheckFd hlists).bind fun ok S₂ hok =>
    Accounts.Keeps.ite (fun _ => ?_) fun hnot => ?_
  · exact keeps_guestless (Q := fun _ => True) ((hclose _).next fun _ => (hclose _).next fun _ =>
      (hclose _).next fun _ => trivial)
  have hvetted : .vetted peer.fd ∈ S₂ := hok.2 (by simpa using hnot)
  refine keeps_uninvolved rfl fun _ => keeps_onlyOn (Q := fun _ => True) ?_ hconn hvetted
  refine (within_peer_networkStream onlyOn_of_domestic
    (fun _ he => onlyOn_of_exchangedOn (exchangedOn_of_converses he)) .src true).bind' fun r hsrc => ?_
  rcases r with _ | src
  · exact (within_wcatCloseQuiet (onlyOn_of_domestic _ rfl)).next fun _ =>
      (within_wcatCloseQuiet (onlyOn_of_domestic _ rfl)).next fun _ => trivial
  · exact within_recvStream onlyOn_of_domestic (hsrc src rfl) listener n

/-- **The proxy server** serves nobody unchecked. -/
theorem keeps_vetted_proxyRounds (listener : Fd) :
    (permissions cfg).Keeps Legal S (Prog.loop (proxyRound cfg listener) ()) fun _ _ => True := by
  refine Accounts.Keeps.loop (fun _ _ => True) trivial fun _ S _ => ?_
  have hanything : ∀ {S' : Set Standing} (r : Unit ⊕ ℕ), (permissions cfg).Keeps Legal S'
      (pure r) fun r _ => Sum.elim (fun _ => True) (fun _ => True) r := by
    rintro S' (_ | _) <;> exact Accounts.keeps_pure trivial
  have hclose : ∀ {S' : Set Standing} (fd : Fd) {k : Unit → Proc (Unit ⊕ ℕ)},
      (∀ S', (permissions cfg).Keeps Legal S' (k ())
        fun r _ => Sum.elim (fun _ => True) (fun _ => True) r) →
      (permissions cfg).Keeps Legal S' (wcatCloseQuiet fd >>= k)
        fun r _ => Sum.elim (fun _ => True) (fun _ => True) r := fun fd k hk =>
    (keeps_guestless (within_wcatCloseQuiet (guestless_of_domestic _ rfl))).bind fun _ S' _ => hk S'
  refine keeps_uninvolved rfl fun stop => Accounts.Keeps.ite (fun _ => hanything _) fun _ => ?_
  refine (keeps_guestless (within_wcatAccept (still_of_domestic guestless_of_domestic)
    (fun _ h => absurd h (by simp [exchangedOn])) _)).bind fun r S₁ hr => ?_
  rcases r with _ | peer
  · exact keeps_uninvolved rfl fun _ => hanything _
  obtain ⟨n, hfd⟩ := hr peer rfl
  have hconn : peer.fd.isConn = true := by rw [hfd]; rfl
  refine (permissions_wcatAccessCheckFd hlists).bind fun ok S₂ hok =>
    Accounts.Keeps.ite (fun _ => hclose _ fun _ => hanything _) fun hnot => ?_
  have hvetted : .vetted peer.fd ∈ S₂ := hok.2 (by simpa using hnot)
  have hplain : ∀ fd e, PlainOn fd e → exchangedOn e = some fd := fun _ _ => exchangedOn_of_plainOn
  refine keeps_uninvolved rfl fun _ => (keeps_onlyOn (within_serveProxyClient onlyOn_of_domestic
    (fun _ _ _ => onlyOn_of_exchangedOn rfl) (fun _ => onlyOn_of_exchangedOn rfl)
    (fun _ he => onlyOn_of_exchangedOn (exchangedOn_of_plainOn he)) ⟨by simp, by simp [exchangedOn]⟩
    (fun _ _ _ _ => ⟨by simp, by simp [exchangedOn]⟩) fun m e he => ⟨?_, ?_⟩) hconn hvetted).bind
      fun rc S₃ _ => hclose _ fun _ => Accounts.Keeps.ite (fun _ => hanything _) fun _ => hanything _
  · rintro listener rfl
    exact he
  · intro fd' hfd' hconn'
    rw [exchangedOn_of_plainOn he] at hfd'
    obtain rfl := Option.some.inj hfd'
    cases hconn'

theorem keeps_vetted_wcatProxyServerRun :
    (permissions cfg).Keeps Legal S (wcatProxyServerRun cfg) fun _ _ => True := by
  refine (keeps_guestless (within_inetListen (quiet_of_domestic guestless_of_domestic) guestless_socket
    (fun _ => guestless_of_domestic _ rfl) _ _ _ _)).bind fun r S₁ _ => ?_
  rcases r with _ | listener
  · exact keeps_uninvolved rfl fun _ => Accounts.keeps_pure trivial
  refine keeps_uninvolved rfl fun _ => (keeps_vetted_proxyRounds hlists listener).bind fun _ S₂ _ => ?_
  exact (keeps_guestless (within_wcatCloseQuiet (guestless_of_domestic _ rfl))).bind fun _ _ _ =>
    Accounts.keeps_pure trivial

/-- **The broker** serves nobody unchecked. -/
theorem keeps_vetted_wcatBrokerRun :
    (permissions cfg).Keeps Legal S (wcatBrokerRun cfg) fun _ _ => True := by
  have hopen : Within Guestless (brokerOpen cfg) fun _ => True := by
    refine Within.ite (fun _ => Within.step (guestless_of_domestic _ rfl) fun _ => trivial) fun _ =>
      (within_openListener guestless_of_domestic guestless_socket).bind' fun r _ => ?_
    rcases r with _ | listener
    · exact Within.step (guestless_of_domestic _ rfl) fun _ => trivial
    · refine Within.next ?_ fun _ => trivial
      exact Within.ite (fun _ => within_sys (guestless_of_domestic _ rfl))
        fun _ => within_sys (guestless_of_domestic _ rfl)
  refine (keeps_guestless hopen).bind fun r S₁ _ => ?_
  rcases r with status | listener
  · exact Accounts.keeps_pure trivial
  let D := permissionRule hlists cfg.maxClients
  refine Accounts.Keeps.bind (Q := fun (p : ℕ × BrokerState) => D.Seated p.2.slotFds)
    (Accounts.Keeps.loop (fun (s : BrokerState) => D.Seated s.slotFds) guarded_empty
      fun s T hT => TableRule.keeps_brokerRound (D := D) rfl listener hT) ?_
  rintro ⟨result, s⟩ T hT
  exact (TableRule.keeps_dropClients hT cfg.maxClients).bind fun s' T' _ =>
    (keeps_guestless (within_wcatCloseQuiet (guestless_of_domestic _ rfl))).bind fun _ _ _ =>
      Accounts.keeps_pure trivial

/-- **The multi-session listener** serves nobody unchecked. -/
theorem keeps_vetted_runMultiListen :
    (permissions cfg).Keeps Legal S (runMultiListen cfg) fun _ _ => True := by
  have hraw : Within Guestless multiRawInput fun _ => True :=
    Within.step (guestless_of_domestic _ rfl) fun _ => Within.ite (fun _ =>
      Within.step (guestless_of_domestic _ rfl) fun _ => Within.ite
        (fun _ => within_sys (guestless_of_domestic _ rfl)) fun _ => trivial) fun _ => trivial
  have hopen : Within Guestless (multiOpen cfg) fun _ => True := by
    refine Within.ite (fun _ => Within.step (guestless_of_domestic _ rfl) fun _ => trivial) fun _ =>
      (within_openListener guestless_of_domestic guestless_socket).bind' fun r _ => ?_
    rcases r with _ | listener
    · exact Within.step (guestless_of_domestic _ rfl) fun _ => trivial
    refine hraw.next fun interactive => Within.step (guestless_of_domestic _ rfl) fun _ => ?_
    refine Within.next ?_ fun _ => trivial
    exact Within.ite (fun _ => drawn_multiRedrawInput (fun _ => guestless_of_domestic _ rfl)
      (fun _ => guestless_of_domestic _ rfl) _) fun _ => within_sys (guestless_of_domestic _ rfl)
  refine (keeps_guestless hopen).bind fun r S₁ _ => ?_
  rcases r with status | ⟨listener, interactive⟩
  · exact Accounts.keeps_pure trivial
  let D := permissionRule hlists cfg.brokerMaxClients.toNat
  refine Accounts.Keeps.bind (Q := fun (s : MultiState) => D.Seated s.slotFds)
    (Accounts.Keeps.loop (fun (s : MultiState) => D.Seated s.slotFds) guarded_empty
      fun s T hT => TableRule.keeps_multiRound (D := D) rfl listener hT) fun s T hT => ?_
  refine (TableRule.keeps_multiSessionCloses hT cfg.brokerMaxClients.toNat).bind fun s' T' _ => ?_
  have hrestore : Within Guestless (if interactive then sys (.tcsetattr false) else pure true)
      fun _ => True :=
    Within.ite (fun _ => within_sys (guestless_of_domestic _ rfl)) fun _ => trivial
  refine (keeps_guestless hrestore).bind fun _ _ _ => ?_
  exact (keeps_guestless (within_wcatCloseQuiet (guestless_of_domestic _ rfl))).bind fun _ _ _ =>
    Accounts.keeps_pure trivial

omit hlists in
theorem guestless_of_converses (t : Transport) (m : ℕ) (e : Sys) (he : Converses cfg (.sock t m) e) :
    Guestless e :=
  guestless_of_exchangedOn rfl (exchangedOn_of_converses he)

/-- **The listening modes** serve nobody unchecked. -/
theorem keeps_vetted_runListen :
    (permissions cfg).Keeps Legal S (runListen cfg) fun _ _ => True := by
  refine Accounts.Keeps.ite (fun _ => keeps_vetted_runMultiListen hlists) fun _ =>
    Accounts.Keeps.ite (fun _ => ?_) fun _ => ?_
  · refine keeps_guestless (Q := fun _ => True) ((within_wcatUdpBind (quiet_of_domestic guestless_of_domestic) guestless_socket
      (fun _ => guestless_of_domestic _ rfl) _ _ _).bind' fun r hr => ?_)
    rcases r with _ | fd
    · exact Within.step (guestless_of_domestic _ rfl) fun _ => trivial
    · obtain ⟨m, rfl⟩ := hr fd rfl
      exact within_relayPeer guestless_of_domestic (guestless_of_converses .udp m) true
  · refine (keeps_guestless (within_openListener guestless_of_domestic guestless_socket)).bind fun r S₁ _ => ?_
    rcases r with _ | listener
    · exact keeps_uninvolved rfl fun _ => Accounts.keeps_pure trivial
    refine (keeps_guestless (Q := fun _ => True) ?_).bind fun _ S₂ _ => ?_
    · exact Within.ite (fun _ => within_sys (guestless_of_domestic _ rfl))
        fun _ => within_sys (guestless_of_domestic _ rfl)
    exact (keeps_vetted_listenRounds hlists listener).bind fun status S₃ _ =>
      (keeps_guestless (within_wcatCloseQuiet (guestless_of_domestic _ rfl))).bind fun _ _ _ =>
        Accounts.keeps_pure trivial

theorem keeps_vetted_wcatRecvFile :
    (permissions cfg).Keeps Legal S (wcatRecvFile cfg) fun _ _ => True := by
  have hq := quiet_of_domestic guestless_of_domestic
  have hclose : ∀ fd, Within Guestless (wcatCloseQuiet fd) fun _ => True := fun fd =>
    within_wcatCloseQuiet (guestless_of_domestic _ rfl)
  refine (keeps_guestless (within_sys (guestless_of_domestic _ rfl))).bind fun r S₁ _ => ?_
  rcases r with err | n
  · exact keeps_uninvolved rfl fun _ => Accounts.keeps_pure trivial
  by_cases hudp : cfg.udp = true
  · simp only [hudp, if_true]
    refine keeps_guestless (Q := fun _ => True) ((within_wcatUdpBind hq guestless_socket
      (fun _ => guestless_of_domestic _ rfl) _ _ _).bind' fun r hr => ?_)
    rcases r with _ | listener
    · exact Within.step (guestless_of_domestic _ rfl) fun _ => (hclose _).next fun _ => trivial
    obtain ⟨m, rfl⟩ := hr listener rfl
    have hsrc : PeerIn Guestless (wcatStreamFromFd .src (.sock .udp m)) :=
      ⟨plainOn_stream (fun _ he => guestless_of_exchangedOn rfl (exchangedOn_of_plainOn he))
        (guestless_of_domestic _ rfl), within_wcatCloseQuiet (guestless_of_domestic _ rfl)⟩
    exact within_recvStream guestless_of_domestic hsrc _ n
  · simp only [hudp, if_false, Bool.false_eq_true]
    refine (keeps_guestless (within_inetListen hq guestless_socket (fun _ => guestless_of_domestic _ rfl) _ _ _ _)).bind
      fun r S₂ _ => ?_
    rcases r with _ | listener
    · exact keeps_guestless (Q := fun _ => True) (Within.step (guestless_of_domestic _ rfl) fun _ =>
        (hclose _).next fun _ => trivial)
    · exact keeps_vetted_recvClient hlists listener n

/-- **Every mode** serves nobody unchecked, a relay if it is not to accept anybody. -/
theorem keeps_vetted_dispatch
    (hrelay : cfg.mode = .relay → ∀ spec ∈ [cfg.left.getD [], cfg.right.getD []],
      (lit "listen:").isPrefixOf spec = false ∧ (lit "unix-listen:").isPrefixOf spec = false) :
    (permissions cfg).Keeps Legal S (dispatch cfg) fun _ _ => True := by
  have hconnect : ∀ fd addr, Guestless (.connect fd addr) := fun _ _ _ h => by simp [exchangedOn] at h
  have hread : ∀ via t m cap off len, Guestless (.read via (.sock t m) cap off len) :=
    fun _ _ _ _ _ _ => guestless_of_exchangedOn rfl rfl
  have hwrite : ∀ via t m buf, Guestless (.write via (.sock t m) buf) :=
    fun _ _ _ _ => guestless_of_exchangedOn rfl rfl
  have hssl : ∀ m e, SslOn (.sock .udp m) e → Guestless e := fun _ _ he =>
    guestless_of_exchangedOn rfl (exchangedOn_of_sslOn he)
  rw [dispatch]
  cases hmode : cfg.mode with
  | connect =>
    refine Accounts.Keeps.ite (fun _ => keeps_guestless ?_) fun _ => keeps_guestless ?_
    · exact within_runQuicConnect guestless_of_domestic guestless_socket (fun _ _ => hconnect _ _) hssl
    · exact within_runConnect guestless_of_domestic guestless_socket (fun _ _ _ _ => hconnect _ _)
        (fun _ => hread _ _ _) (fun _ => hwrite _ _ _) guestless_of_converses
  | listen =>
    exact Accounts.Keeps.ite (fun _ => keeps_guestless (within_runQuicListen guestless_of_domestic guestless_socket hssl))
      fun _ => keeps_vetted_runListen hlists
  | send =>
    exact keeps_guestless (within_wcatSendFile guestless_of_domestic guestless_socket (fun _ _ _ _ => hconnect _ _)
      (fun _ => hread _ _ _) (fun _ => hwrite _ _ _) guestless_of_converses)
  | recv => exact keeps_vetted_wcatRecvFile hlists
  | relay =>
    exact keeps_guestless (within_runRelay guestless_of_domestic (fun _ _ => guestless_socket) (fun _ _ _ => guestless_socket)
      (fun _ _ _ => hconnect _ _)
      (fun _ _ _ he => guestless_of_exchangedOn rfl (exchangedOn_of_plainOn he))
      fun spec hmem hl => absurd hl (by simp [Listens, hrelay hmode spec hmem]))
  | broker => exact keeps_vetted_wcatBrokerRun hlists
  | proxy => exact keeps_vetted_wcatProxyServerRun hlists
  | none => exact Accounts.keeps_pure trivial

end Loops

/-- **Complete mediation**: whenever bytes are exchanged on a connection that was accepted, its
peer was looked at and found to be permitted since it was accepted. -/
theorem dispatch_mediated {cfg : Config} {h g : Hist} {o : Option ℕ} {e : Sys} {r : Resp e} {fd : Fd}
    (hlists : ¬(cfg.allowList = none ∧ cfg.denyList = none))
    (hrelay : cfg.mode = .relay → ∀ spec ∈ [cfg.left.getD [], cfg.right.getD []],
      (lit "listen:").isPrefixOf spec = false ∧ (lit "unix-listen:").isPrefixOf spec = false)
    (hr : Runs Legal (dispatch cfg) [] h o) (hev : ⟨e, r⟩ :: g <:+ h) (hconn : fd.isConn = true)
    (hex : exchangedOn e = some fd) : Vetted cfg g fd := by
  have hkeeps := keeps_vetted_dispatch (S := (permissions cfg).held []) hlists hrelay
  have hneeded := (hkeeps.run hr).1 _ g hev List.nil_suffix
  exact vetted_iff.mpr (hneeded ⟨hconn, hex⟩)

/-- A listener for one network. -/
def networkConfig : Config :=
  { mode := .listen, port := some (lit "1"), allowList := some (lit "10.0.0.0/8") }

/-- An environment in which one client of that network comes, and ends at once. -/
def localGuest (_ : Hist) : (e : Sys) → Resp e
  | .stop => false
  | .getaddrinfo _ _ _ _ _ => some 1
  | .socket _ => .ok 3
  | .bind _ _ | .listen _ _ | .close _ => none
  | .accept _ => .ok 4
  | .getpeername _ => some (.inet ⟨[10, 1, 2, 3], rfl⟩)
  | .poll fds _ => .reporting fds (fds.map fun p => { pollin := p.fd.isSome })
  | e => refuse e

/-- The run against it. -/
def localGuestRun : Hist × Option ℕ := exec (lawful localGuest) 100 (dispatch networkConfig) []

/-- The client is read from, and was looked at before. -/
theorem dispatch_mediated_localGuest : ∃ ev, ev :: localGuestRun.1.drop 3 <:+ localGuestRun.1 ∧
    exchangedOn ev.1 = some (.conn .tcp 4) ∧
      Vetted networkConfig (localGuestRun.1.drop 3) (.conn .tcp 4) := by
  have hany : (localGuestRun.1[2]?.any fun ev => exchangedOn ev.1 = some (.conn .tcp 4)) = true := by
    decide +kernel
  obtain ⟨ev, hread, hex⟩ := (Option.any_eq_true _ _).mp hany
  have hex := of_decide_eq_true hex
  have hsuf : ev :: localGuestRun.1.drop 3 <:+ localGuestRun.1 := by
    obtain ⟨hlen, hget⟩ := List.getElem?_eq_some_iff.mp hread
    rw [← hget, ← List.drop_eq_getElem_cons hlen]
    exact List.drop_suffix _ _
  have hr : Runs Legal (dispatch networkConfig) [] localGuestRun.1 localGuestRun.2 :=
    exec_runs (legal_lawful localGuest) 100 _ []
  exact ⟨ev, hsuf, hex, dispatch_mediated (by decide) (by decide) hr hsuf rfl hex⟩

end Wirecat
