import Wirecat.Responsive

/-!
# What ends the CONNECT server

A client of the server is served to its end before the next is accepted, and the status
its session comes to is looked at once: without `--keep-open` a session that failed ends
the server with it. Nothing else a client does is an end of it. What a round comes to is listed in
`Wirecat.RoundOutcome`: the stop flag is seen, or `accept` fails, or a client comes, who is turned away
or served; and only then the server is at its next `accept`.

That a session comes to its end at all is up to the client and to the tunnel it asked for, since
nothing in the server bounds the wait for either; `Wirecat.returns_serveProxyClient` says of what
environments it does. All of this together is `Wirecat.ProxyServes`.
-/

namespace Wirecat

open CString Interaction

variable {cfg : Config} {listener fd : Fd} {h h' : Hist} {rc : ℕ}

theorem legal_log {level : LogLevel} {event format : String} {args : List LogArg} :
    Legal h (.log level event format args) () := ⟨by simp [opens], by simp [opens], trivial⟩

/-! ### What a round comes to -/

/-- **A client comes**: it is accepted, and the access lists have decided about it. -/
def ClientComes (cfg : Config) (listener : Fd) (h : Hist) (peer : Peer) (allowed : Bool)
    (h' : Hist) : Prop :=
  Legal h .stop false ∧ ∃ g,
    Runs Legal (wcatAccept listener (some (128, 32))) (⟨.stop, false⟩ :: h) g (some (some peer)) ∧
    Runs Legal (wcatAccessCheckFd cfg peer.fd) g h' (some allowed)

/-- **A client is turned away**: its connection is closed. -/
def ClientTurnedAway (cfg : Config) (listener : Fd) (h h' : Hist) : Prop :=
  ∃ peer g, ClientComes cfg listener h peer false g ∧
    Runs Legal (wcatCloseQuiet peer.fd) g h' (some ())

/-- **A client is served**: it is let in, its session has come to the status `rc`, and its connection
is closed. -/
def ClientServed (cfg : Config) (listener : Fd) (h : Hist) (rc : ℕ) (h' : Hist) : Prop :=
  ∃ peer g g', ClientComes cfg listener h peer true g ∧
    Runs Legal (serveProxyClient cfg peer.fd)
      (⟨.log .info "proxy_accept" "accepted proxy client %s:%s" [.str peer.host, .str peer.port], ()⟩
        :: g) g' (some rc) ∧
    Runs Legal (wcatCloseQuiet peer.fd) g' h' (some ())

/-- The server leaves on its own account: it was asked to stop, or `accept` failed. -/
inductive OwnAccount (listener : Fd) (h : Hist) : Hist → ℕ → Prop
  | stopped : OwnAccount listener h (⟨.stop, true⟩ :: h) 0
  | acceptFailed {g : Hist} {e : Errno} (fatal : e ≠ .eintr) (since : h <:+ g) :
      OwnAccount listener h
        (⟨.logErrno "proxy_accept" (lit "proxy accept failed"), ()⟩ ::
          ⟨.accept listener, .error e⟩ :: g) 1

/-- The server leaves on account of a client: it was served, and its session came to the
status `rc`. -/
structure ClientFailed (cfg : Config) (listener : Fd) (h h' : Hist) (rc : ℕ) : Prop where
  not_keepOpen : cfg.keepOpen = false
  failed : rc ≠ 0
  served : ClientServed cfg listener h rc h'

/-- **What a round comes to**: the server leaves, or it goes on after a client. -/
inductive RoundOutcome (cfg : Config) (listener : Fd) (h h' : Hist) : Unit ⊕ ℕ → Prop
  | leaves {rc : ℕ} (hown : OwnAccount listener h h' rc) : RoundOutcome cfg listener h h' (.inr rc)
  | turnedAway (ht : ClientTurnedAway cfg listener h h') : RoundOutcome cfg listener h h' (.inl ())
  | served {rc : ℕ} (hs : ClientServed cfg listener h rc h') (hgo : rc ≠ 0 → cfg.keepOpen = true) :
      RoundOutcome cfg listener h h' (.inl ())
  | failed {rc : ℕ} (hf : ClientFailed cfg listener h h' rc) : RoundOutcome cfg listener h h' (.inr rc)

/-- What `wcat_accept` has come to. -/
def AcceptOutcome (listener : Fd) (h : Hist) : Option Peer → Hist → Prop
  | none, h' => ∃ (e : Errno) (g : Hist), e ≠ .eintr ∧ h <:+ g ∧
      h' = ⟨.accept listener, .error e⟩ :: g
  | some peer, h' => ∃ (n : ℕ) (g : Hist), peer.fd = listener.accepted n ∧ h <:+ g ∧
      ⟨.accept listener, .ok n⟩ :: g <:+ h'

theorem always_acceptOutcome (sizes : Option (ℕ × ℕ)) :
    Always Legal (fun _ => True) (wcatAccept listener sizes) (AcceptOutcome listener h) h := by
  refine Always.loop (fun _ h' => h <:+ h') (List.suffix_refl h) fun _ g hg => ?_
  refine Always.ask trivial fun r _ => ?_
  rcases r with e | n
  · cases e with
    | eintr => exact always_pure.mpr ⟨trivial, hg.trans (List.suffix_cons _ _)⟩
    | _ => exact always_pure.mpr ⟨trivial, _, g, by simp, hg, rfl⟩
  refine Always.ask trivial fun _ _ => ?_
  rcases sizes with _ | ⟨hostLen, portLen⟩
  · exact always_pure.mpr ⟨trivial, n, g, rfl, hg, List.suffix_cons _ _⟩
  · refine Always.ask trivial fun _ _ => ?_
    refine always_pure.mpr ⟨trivial, n, g, rfl, hg, ?_⟩
    exact (List.suffix_cons _ _).trans (List.suffix_cons _ _)

theorem proxyRound_outcome {r : Unit ⊕ ℕ} (hr : Runs Legal (proxyRound cfg listener ()) h h' (some r)) :
    RoundOutcome cfg listener h h' r := by
  rw [proxyRound] at hr
  obtain ⟨stop, hlegal, hr⟩ := runs_ask.mp hr
  cases stop with
  | true =>
    obtain ⟨rfl, rfl⟩ := runs_pure.mp hr
    exact .leaves .stopped
  | false =>
    rw [if_neg (by simp)] at hr
    obtain ⟨peer, g₁, hacc, hr⟩ := runs_bind_some'.mp hr
    rcases peer with _ | peer
    · obtain ⟨e, g, he, hg, rfl⟩ := (always_acceptOutcome _).post hacc
      obtain ⟨_, -, hr⟩ := runs_ask.mp hr
      obtain ⟨rfl, rfl⟩ := runs_pure.mp hr
      exact .leaves (.acceptFailed he ((List.suffix_cons _ _).trans hg))
    · obtain ⟨allowed, g₂, hcheck, hr⟩ := runs_bind_some'.mp hr
      cases allowed with
      | false =>
        obtain ⟨_, g₃, hclose, hr⟩ := runs_bind_some'.mp hr
        obtain ⟨rfl, rfl⟩ := runs_pure.mp hr
        exact .turnedAway ⟨peer, g₂, ⟨hlegal, g₁, hacc, hcheck⟩, hclose⟩
      | true =>
        rw [if_neg (by simp)] at hr
        obtain ⟨_, -, hr⟩ := runs_ask.mp hr
        obtain ⟨rc, g₄, hserve, hr⟩ := runs_bind_some'.mp hr
        obtain ⟨_, g₅, hclose, hr⟩ := runs_bind_some'.mp hr
        have hserved : ClientServed cfg listener h rc g₅ :=
          ⟨peer, g₂, g₄, ⟨hlegal, g₁, hacc, hcheck⟩, hserve, hclose⟩
        split_ifs at hr with hleave
        · obtain ⟨rfl, rfl⟩ := runs_pure.mp hr
          exact .failed ⟨by simpa using hleave.2, hleave.1, hserved⟩
        · obtain ⟨rfl, rfl⟩ := runs_pure.mp hr
          refine .served hserved fun hrc => ?_
          by_contra hkeep
          exact hleave ⟨hrc, by simpa using hkeep⟩

/-- **Why a round leaves the loop.** -/
theorem proxyRound_leaves (hr : Runs Legal (proxyRound cfg listener ()) h h' (some (.inr rc))) :
    OwnAccount listener h h' rc ∨ ClientFailed cfg listener h h' rc := by
  cases proxyRound_outcome hr with
  | leaves hown => exact Or.inl hown
  | failed hf => exact Or.inr hf

/-- A round with a client that is turned away is over, and the server goes on. -/
theorem runs_proxyRound_turnedAway (ht : ClientTurnedAway cfg listener h h') :
    Runs Legal (proxyRound cfg listener ()) h h' (some (.inl ())) := by
  obtain ⟨peer, g, ⟨hlegal, g₁, hacc, hcheck⟩, hclose⟩ := ht
  refine runs_ask.mpr ⟨false, hlegal, ?_⟩
  rw [if_neg (by simp)]
  refine runs_bind_some'.mpr ⟨some peer, g₁, hacc, runs_bind_some'.mpr ⟨false, g, hcheck, ?_⟩⟩
  exact runs_bind_some'.mpr ⟨(), h', hclose, runs_pure.mpr ⟨rfl, rfl⟩⟩

/-- **A round with a client that is served is over** when its session is; what it comes to is decided
by the status of the session, and by nothing else. -/
theorem runs_proxyRound_served (hs : ClientServed cfg listener h rc h') :
    Runs Legal (proxyRound cfg listener ()) h h'
      (some (if rc ≠ 0 ∧ !cfg.keepOpen then .inr rc else .inl ())) := by
  obtain ⟨peer, g, g', ⟨hlegal, g₁, hacc, hcheck⟩, hserve, hclose⟩ := hs
  refine runs_ask.mpr ⟨false, hlegal, ?_⟩
  rw [if_neg (by simp)]
  refine runs_bind_some'.mpr ⟨some peer, g₁, hacc, runs_bind_some'.mpr ⟨true, g, hcheck, ?_⟩⟩
  refine runs_ask.mpr ⟨(), legal_log, runs_bind_some'.mpr ⟨rc, g', hserve, ?_⟩⟩
  refine runs_bind_some'.mpr ⟨(), h', hclose, ?_⟩
  split_ifs
  · exact runs_pure.mpr ⟨rfl, rfl⟩
  · exact runs_pure.mpr ⟨rfl, rfl⟩

/-! ### Whole runs -/

/-- The listener of the server. -/
def proxyListen (cfg : Config) : Proc (Option Fd) :=
  wcatTcpListen cfg.hostArg cfg.portArg cfg.family 64

/-- The server could not listen. -/
def NotListening (cfg : Config) (h : Hist) (rc : ℕ) : Prop :=
  rc = 1 ∧ ∃ h₀, Runs Legal (proxyListen cfg) [] h₀ (some none) ∧
    h = ⟨.logErrno "proxy_listen" (lit "HTTP CONNECT proxy listen failed"), ()⟩ :: h₀

/-- **The server is at the head of its loop**: it listens, and has had some number of clients. -/
def AtHead (cfg : Config) (listener : Fd) (h : Hist) : Prop :=
  ∃ h₀, Runs Legal (proxyListen cfg) [] h₀ (some (some listener)) ∧
    Reaches Legal (proxyRound cfg listener) ()
      (⟨.log .info "proxy_listen" "HTTP CONNECT proxy listening on %s:%s"
        [.str cfg.hostArg, .str cfg.portArg], ()⟩ :: h₀) () h

/-- **A finished run that left its loop for the reason `P`**: after any number of clients
a round left the loop, and the listener was closed. -/
def LeavesBy (cfg : Config) (P : Fd → Hist → Hist → ℕ → Prop) (h : Hist) (rc : ℕ) : Prop :=
  ∃ listener h₁ h₂, AtHead cfg listener h₁ ∧ P listener h₁ h₂ rc ∧
    Runs Legal (wcatCloseQuiet listener) h₂ h (some ())

/-- What ends the server. -/
theorem wcatProxyServerRun_leaves (hr : Runs Legal (wcatProxyServerRun cfg) [] h (some rc)) :
    NotListening cfg h rc ∨ LeavesBy cfg (fun listener h₁ h₂ rc =>
      OwnAccount listener h₁ h₂ rc ∨ ClientFailed cfg listener h₁ h₂ rc) h rc := by
  obtain ⟨listener, h₀, hlisten, hr⟩ := runs_bind_some'.mp hr
  rcases listener with _ | listener
  · obtain ⟨_, -, hr⟩ := runs_ask.mp hr
    obtain ⟨rfl, rfl⟩ := runs_pure.mp hr
    exact Or.inl ⟨rfl, h₀, hlisten, rfl⟩
  · obtain ⟨_, -, hr⟩ := runs_ask.mp hr
    obtain ⟨rc', h₂, hloop, hr⟩ := runs_bind_some'.mp hr
    obtain ⟨_, h₃, hclose, hr⟩ := runs_bind_some'.mp hr
    obtain ⟨rfl, rfl⟩ := runs_pure.mp hr
    obtain ⟨⟨⟩, h₁, hreach, ⟨-, hno⟩ | ⟨b, h₄, hround, hret⟩⟩ := hloop
    · exact absurd hno (by simp)
    · obtain ⟨rfl, rfl⟩ := runs_ret.mp hret
      exact Or.inr ⟨listener, h₁, _, ⟨h₀, hlisten, hreach⟩, proxyRound_leaves hround, hclose⟩

/-- A run that has come to the head of its loop goes through the round that begins there. -/
theorem AtHead.runs_round (hh : AtHead cfg listener h)
    (hr : Runs Legal (proxyRound cfg listener ()) h h' none) :
    Runs Legal (wcatProxyServerRun cfg) [] h' none := by
  obtain ⟨h₀, hlisten, hreach⟩ := hh
  have hloop : Runs Legal (Prog.loop (proxyRound cfg listener) ()) _ h' none :=
    ⟨(), h, hreach, Or.inl ⟨hr, rfl⟩⟩
  refine runs_bind.mpr (Or.inr ⟨some listener, h₀, hlisten, ?_⟩)
  refine runs_bind.mpr (Or.inr ⟨(), _, runs_request.mpr ⟨legal_log, rfl⟩, ?_⟩)
  exact runs_bind.mpr (Or.inl ⟨hloop, rfl⟩)

/-- A round that leaves the loop brings the server to its end. -/
theorem AtHead.runs_leave (hh : AtHead cfg listener h)
    (hr : Runs Legal (proxyRound cfg listener ()) h h' (some (.inr rc))) {h₂ : Hist}
    (hclose : Runs Legal (wcatCloseQuiet listener) h' h₂ (some ())) :
    Runs Legal (wcatProxyServerRun cfg) [] h₂ (some rc) := by
  obtain ⟨h₀, hlisten, hreach⟩ := hh
  have hloop : Runs Legal (Prog.loop (proxyRound cfg listener) ()) _ h' (some rc) :=
    ⟨(), h, hreach, Or.inr ⟨rc, h', hr, runs_ret.mpr ⟨rfl, rfl⟩⟩⟩
  refine runs_bind_some'.mpr ⟨some listener, h₀, hlisten, runs_ask.mpr ⟨(), legal_log, ?_⟩⟩
  refine runs_bind_some'.mpr ⟨rc, h', hloop, runs_bind_some'.mpr ⟨(), h₂, hclose, ?_⟩⟩
  exact runs_pure.mpr ⟨rfl, rfl⟩

theorem AtHead.goesOn (hh : AtHead cfg listener h)
    (hr : Runs Legal (proxyRound cfg listener ()) h h' (some (.inl ()))) : AtHead cfg listener h' := by
  obtain ⟨h₀, hlisten, hreach⟩ := hh
  exact ⟨h₀, hlisten, hreach.step hr⟩

/-- **The server comes to accept the next client**, as long as it is not asked to stop. -/
theorem AtHead.accepts (hh : AtHead cfg listener h) (hstop : Legal h .stop false)
    {r : Except Errno ℕ} (hr : Legal (⟨.stop, false⟩ :: h) (.accept listener) r) :
    Runs Legal (wcatProxyServerRun cfg) [] (⟨.accept listener, r⟩ :: ⟨.stop, false⟩ :: h) none := by
  have hacc : Runs Legal (wcatAccept listener (some (128, 32))) (⟨.stop, false⟩ :: h)
      (⟨.accept listener, r⟩ :: ⟨.stop, false⟩ :: h) none :=
    ⟨(), _, .refl, Or.inl ⟨Or.inr ⟨r, hr, Runs.cut _ _⟩, rfl⟩⟩
  refine hh.runs_round (runs_bind.mpr (Or.inr ⟨false, _, runs_request.mpr ⟨hstop, rfl⟩, ?_⟩))
  rw [if_neg (by simp)]
  exact runs_bind.mpr (Or.inl ⟨hacc, rfl⟩)

/-- **What its clients can do to the server.** -/
structure ProxyServes (cfg : Config) : Prop where
  /-- It is asked to stop, or `accept` fails; or, without `--keep-open`, the session of a client failed,
  and then that is the exit status. Nothing else ends it. -/
  leaves : ∀ h rc, Runs Legal (wcatProxyServerRun cfg) [] h (some rc) →
    NotListening cfg h rc ∨ LeavesBy cfg (fun listener h₁ h₂ rc =>
      OwnAccount listener h₁ h₂ rc ∨ ClientFailed cfg listener h₁ h₂ rc) h rc
  /-- After a client whose session is over the server is at the head of its loop again, whatever the client
  has sent, unless its session failed and `--keep-open` was not given. -/
  goesOn : ∀ listener h rc h', AtHead cfg listener h → ClientServed cfg listener h rc h' →
    (rc ≠ 0 → cfg.keepOpen = true) → AtHead cfg listener h'
  /-- So it is after one that is turned away. -/
  turnedAway : ∀ listener h h', AtHead cfg listener h → ClientTurnedAway cfg listener h h' →
    AtHead cfg listener h'
  /-- At the head of its loop it accepts, as long as it is not asked to stop. -/
  accepts : ∀ listener h, AtHead cfg listener h → Legal h .stop false →
    ∀ r, Legal (⟨.stop, false⟩ :: h) (.accept listener) r →
      Runs Legal (wcatProxyServerRun cfg) [] (⟨.accept listener, r⟩ :: ⟨.stop, false⟩ :: h) none
  /-- A session that failed does end the server, without `--keep-open`. -/
  failed : ∀ listener h rc h' h₂, AtHead cfg listener h → ClientFailed cfg listener h h' rc →
    Runs Legal (wcatCloseQuiet listener) h' h₂ (some ()) →
    Runs Legal (wcatProxyServerRun cfg) [] h₂ (some rc)
  /-- A session is over, in every environment that answers and in which tunnels end, whatever the client
  sends; and so is the round it is part of. -/
  returns : ∀ legal, Answering legal → TunnelsEnd legal cfg → ∀ fd,
    Returns legal (serveProxyClient cfg fd) (fun _ => True) ∧
      Returns legal (proxyRound cfg fd ()) fun _ => True
  /-- In all others it waits for an answer, and any takes it further. -/
  getsOn : ∀ h, GetsOn Legal (wcatProxyServerRun cfg) h

/-- **One client cannot stop the server**, but for a session that failed where `--keep-open` was
not given. -/
theorem wcatProxyServerRun_serves (cfg : Config) : ProxyServes cfg where
  leaves _ _ hr := wcatProxyServerRun_leaves hr
  goesOn listener h rc h' hh hs hgo := by
    have hround := runs_proxyRound_served hs
    rw [if_neg fun hleave => by simp [hgo hleave.1] at hleave] at hround
    exact hh.goesOn hround
  turnedAway _ _ _ hh ht := hh.goesOn (runs_proxyRound_turnedAway ht)
  accepts _ _ hh hstop _ hr := hh.accepts hstop hr
  failed listener h rc h' h₂ hh hf hclose := by
    have hround := runs_proxyRound_served hf.served
    rw [if_pos ⟨hf.failed, by simp [hf.not_keepOpen]⟩] at hround
    exact hh.runs_leave hround hclose
  returns _ ha ht fd := ⟨returns_serveProxyClient ha ht fd, returns_proxyRound ha ht fd⟩
  getsOn _ := (busy_wcatProxyServerRun cfg).getsOn fun h e => ⟨refuse e, legal_refuse h e⟩

/-- An environment in which one client comes, and closes at once. -/
def earlyClose (_ : Hist) : (e : Sys) → Resp e
  | .stop => false
  | .getaddrinfo _ _ _ _ _ => some 1
  | .socket _ => .ok 3
  | .bind _ _ | .listen _ _ | .close _ => none
  | .accept _ => .ok 4
  | .write _ _ buf => WriteRes.all buf
  | e => refuse e

/-- A server without `--keep-open` in it. -/
def earlyCloseRun : Hist × Option ℕ := exec (lawful earlyClose) 60 (wcatProxyServerRun {}) []

theorem runs_earlyCloseRun : Runs Legal (wcatProxyServerRun {}) [] earlyCloseRun.1 (some 1) := by
  have hr := exec_runs (legal_lawful earlyClose) 60 (wcatProxyServerRun {}) []
  have hrc : earlyCloseRun.2 = some 1 := by decide +kernel
  rw [earlyCloseRun] at hrc ⊢
  exact hrc ▸ hr

/-- Whether an event is a look at the stop flag that finds it set, or the report of a
listener that failed. -/
def endsServer : Ev → Bool
  | ⟨.stop, true⟩ => true
  | ⟨.logErrno event _, _⟩ => event = "proxy_accept" || event = "proxy_listen"
  | _ => false

theorem earlyCloseRun_clear : ∀ ev ∈ earlyCloseRun.1, endsServer ev = false := by
  have : earlyCloseRun.1.all (fun ev => !endsServer ev) = true := by decide +kernel
  simpa using this

/-- Without `--keep-open` a client can end the server. -/
theorem not_leaves_ownAccount : ¬∀ (cfg : Config) (h : Hist) (rc : ℕ),
    Runs Legal (wcatProxyServerRun cfg) [] h (some rc) →
      NotListening cfg h rc ∨ LeavesBy cfg OwnAccount h rc := by
  intro hall
  rcases hall _ _ _ runs_earlyCloseRun with ⟨-, h₀, -, heq⟩ | ⟨_, h₁, h₂, -, hown, hclose⟩
  · exact absurd (earlyCloseRun_clear _ (heq ▸ List.mem_cons_self)) (by simp [endsServer])
  · have hlast : ∀ ev ∈ h₂, endsServer ev = false := fun ev hev =>
      earlyCloseRun_clear ev (hclose.suffix.subset hev)
    cases hown with
    | acceptFailed => exact absurd (hlast _ List.mem_cons_self) (by simp [endsServer])

end Wirecat
