import Wirecat.Sockets

/-!
# Runs that open a socket

That a run may open a socket of some transport is shown by leading it there: whoever listens at the
other end, every request on the way can be answered so that the program goes on. `Wirecat.Opens` is
about a program that can be led to open one, `Wirecat.Yields` about one that can be led to its
result on the way.

A relay opens its second endpoint when the first is open. A first endpoint that can be read at all
can be opened (`Wirecat.yields_openRelayEndpoint`), so what the second one is matters just then
(`Wirecat.opens_runRelay`).
-/

namespace Wirecat

open CString Interaction

variable {α β : Type} {Q : α → Prop} {Q' : β → Prop} {t : Transport} {cfg : Config}

/-! ### Leading a run -/

/-- **The program can be led to open a socket** of the transport `t`, from whatever has happened, as
long as it was not asked to stop. -/
def Opens (t : Transport) (p : Proc α) : Prop :=
  ∀ h, stopped h = false → ∃ h' r, Runs Legal p h (⟨.socket t, r⟩ :: h') none

/-- **The program can be led to a result** of which `Q` holds. -/
def Yields (p : Proc α) (Q : α → Prop) : Prop :=
  ∀ h, stopped h = false → ∃ h' a, Runs Legal p h h' (some a) ∧ stopped h' = false ∧ Q a

/-- An answer that opens nothing, and asks nobody to stop. -/
def Harmless (ev : Ev) : Prop :=
  opens ev = [] ∧ ∀ h, stopped h = false → stopped (ev :: h) = false ∧ stopSticks h ev

theorem Harmless.legal {e : Sys} {r : Resp e} (hr : Harmless ⟨e, r⟩) {h : Hist}
    (hh : stopped h = false) : Legal h e r :=
  ⟨by simp [hr.1], by simp [hr.1], (hr.2 h hh).2⟩

theorem yields_pure {a : α} (ha : Q a) : Yields (pure a) Q := fun h hh =>
  ⟨h, a, runs_pure.mpr ⟨rfl, rfl⟩, hh, ha⟩

/-- A request that is answered with `r`, and the rest. -/
theorem Yields.ask {e : Sys} {k : Resp e → Proc α} (r : Resp e) (hr : Harmless ⟨e, r⟩)
    (hk : Yields (k r) Q) : Yields (sys e >>= k) Q := by
  intro h hh
  obtain ⟨h', a, hrun, hrest⟩ := hk (⟨e, r⟩ :: h) (hr.2 h hh).1
  exact ⟨h', a, runs_ask.mpr ⟨r, hr.legal hh, hrun⟩, hrest⟩

theorem Yields.bind' {p : Proc α} {f : α → Proc β} (hp : Yields p Q) (hf : ∀ a, Q a → Yields (f a) Q') :
    Yields (p >>= f) Q' := by
  intro h hh
  obtain ⟨h₁, a, hrun, hh₁, ha⟩ := hp h hh
  obtain ⟨h', b, hrun', hrest⟩ := hf a ha h₁ hh₁
  exact ⟨h', b, runs_bind_some'.mpr ⟨a, h₁, hrun, hrun'⟩, hrest⟩

theorem yields_sys {e : Sys} {P : Resp e → Prop} (r : Resp e) (hr : Harmless ⟨e, r⟩) (hP : P r) :
    Yields (sys e) P := fun h hh =>
  ⟨_, r, runs_request.mpr ⟨hr.legal hh, rfl⟩, (hr.2 h hh).1, hP⟩

/-- A loop that is left in its first round. -/
theorem Yields.loop {σ : Type} {body : σ → Proc (σ ⊕ α)} {s : σ}
    (hbody : Yields (body s) fun r => ∃ a, r = .inr a ∧ Q a) : Yields (Prog.loop body s) Q := by
  intro h hh
  obtain ⟨h', r, hrun, hh', a, rfl, ha⟩ := hbody h hh
  exact ⟨h', a, Runs.leave hrun (runs_ret.mpr ⟨rfl, rfl⟩), hh', ha⟩

/-- Of the descriptors of a kind, one is not open. -/
theorem exists_closed {fd : ℕ → Fd} (hfd : Function.Injective fd) (fds : List Fd) (h : Hist) :
    ∃ n, isOpen h (fd n) = false ∧ fd n ∉ fds := by
  have hopened : ∀ x, isOpen h x = true → x ∈ h.flatMap opens := by
    intro x
    induction h with
    | nil => exact fun hx => absurd hx (by simp [isOpen])
    | cons ev h ih =>
      intro hx
      rw [List.flatMap_cons, List.mem_append]
      rw [isOpen.eq_def] at hx
      split at hx
      · contradiction
      · rename_i heq
        obtain ⟨rfl, rfl⟩ := List.cons.inj heq
        exact .inr (ih (Bool.and_eq_true_iff.mp hx).2)
      · rename_i heq
        obtain ⟨rfl, rfl⟩ := List.cons.inj heq
        rcases Bool.or_eq_true_iff.mp hx with hx | hx
        · exact .inl (of_decide_eq_true hx)
        · exact .inr (ih hx)
  by_contra hnone
  push Not at hnone
  refine (Set.infinite_range_of_injective hfd) ((List.finite_toSet (h.flatMap opens ++ fds)).subset ?_)
  rintro _ ⟨n, rfl⟩
  rw [Set.mem_ofPred_eq, List.mem_append]
  by_cases hopen : isOpen h (fd n) = true
  · exact .inl (hopened _ hopen)
  · exact .inr (hnone n (by simpa using hopen))

/-- A request that opens a descriptor, and the rest. -/
theorem Yields.grant {e : Sys} {k : Resp e → Proc α} (fd : ℕ → Fd) (hfd : Function.Injective fd)
    (r : ℕ → Resp e) (hopens : ∀ n, opens ⟨e, r n⟩ = [fd n])
    (hstop : ∀ n h, stopped (⟨e, r n⟩ :: h) = stopped h) (hsticks : ∀ n h, stopSticks h ⟨e, r n⟩)
    (hk : ∀ n, Yields (k (r n)) Q) : Yields (sys e >>= k) Q := by
  intro h hh
  obtain ⟨n, hclosed, -⟩ := exists_closed hfd [] h
  obtain ⟨h', a, hrun, hrest⟩ := hk n (⟨e, r n⟩ :: h) (by rw [hstop, hh])
  exact ⟨h', a, runs_ask.mpr ⟨r n, ⟨by simpa [hopens] using hclosed, by simp [hopens], hsticks n h⟩,
    hrun⟩, hrest⟩

theorem Opens.now {k : Resp (.socket t) → Proc α} : Opens t (sys (.socket t) >>= k) := fun h _ =>
  ⟨h, .error .eio, Or.inr ⟨_, legal_refuse h (.socket t), Runs.cut _ _⟩⟩

theorem Opens.ask {e : Sys} {k : Resp e → Proc α} (r : Resp e) (hr : Harmless ⟨e, r⟩)
    (hk : Opens t (k r)) : Opens t (sys e >>= k) := by
  intro h hh
  obtain ⟨h', r', hrun⟩ := hk (⟨e, r⟩ :: h) (hr.2 h hh).1
  exact ⟨h', r', Or.inr ⟨r, hr.legal hh, hrun⟩⟩

theorem Opens.bind' {p : Proc α} {f : α → Proc β} (hp : Opens t p) : Opens t (p >>= f) := by
  intro h hh
  obtain ⟨h', r, hrun⟩ := hp h hh
  exact ⟨h', r, runs_bind.mpr (Or.inl ⟨hrun, rfl⟩)⟩

theorem Opens.after {p : Proc α} {f : α → Proc β} (hp : Yields p Q) (hf : ∀ a, Q a → Opens t (f a)) :
    Opens t (p >>= f) := by
  intro h hh
  obtain ⟨h₁, a, hrun, hh₁, ha⟩ := hp h hh
  obtain ⟨h', r, hrun'⟩ := hf a ha h₁ hh₁
  exact ⟨h', r, runs_bind.mpr (Or.inr ⟨a, h₁, hrun, hrun'⟩)⟩

theorem Opens.loop {σ : Type} {body : σ → Proc (σ ⊕ α)} {s : σ} (hbody : Opens t (body s)) :
    Opens t (Prog.loop body s) := by
  intro h hh
  obtain ⟨h', r, hrun⟩ := hbody h hh
  exact ⟨h', r, s, h, .refl, Or.inl ⟨hrun, rfl⟩⟩

/-! ### Sockets -/

theorem yields_resolve (host port : Bytes) (family : Family) (t : Transport) (passive : Bool) :
    Yields (resolve host port family t passive) fun r => r = some 1 :=
  Yields.ask (some 1) ⟨rfl, fun _ hh => ⟨hh, trivial⟩⟩ (yields_pure rfl)

theorem opens_firstAddress (attempt : Fd → ℕ → Proc Bool) : Opens t (firstAddress t 1 attempt) := by
  refine Opens.loop ?_
  rw [if_pos Nat.one_pos]
  exact Opens.now

theorem opens_inetConnect (host port : Bytes) (family : Family) (timeoutMs : ℤ) :
    Opens t (inetConnect host port family t timeoutMs) := by
  refine Opens.after (yields_resolve _ _ _ _ _) ?_
  rintro _ rfl
  exact opens_firstAddress _

theorem opens_inetListen (host port : Bytes) (family : Family) (backlog : ℕ) :
    Opens t (inetListen host port family t backlog) := by
  refine Opens.after (yields_resolve _ _ _ _ _) ?_
  rintro _ rfl
  exact opens_firstAddress _

/-! ### Endpoints -/

/-- An endpoint that is a socket can be led to open it. -/
theorem opens_openRelayEndpoint (obj : Obj) {spec : Bytes} (ht : endpointTransport spec = some t) :
    Opens t (openRelayEndpoint cfg obj spec) := by
  rw [endpointTransport] at ht
  rw [openRelayEndpoint]
  split_ifs at ht ⊢ with hstdio htcp hunix hlong hl hul hlong
  · obtain ⟨⟨host, port⟩, hsplit, rfl⟩ := Option.map_eq_some_iff.mp ht
    rw [hsplit]
    exact Opens.bind' (opens_inetConnect _ _ _ _)
  · obtain rfl := Option.some.inj ht
    rw [wcatUnixConnect, if_neg hlong]
    exact Opens.bind' Opens.now
  · obtain ⟨⟨host, port⟩, hsplit, rfl⟩ := Option.map_eq_some_iff.mp ht
    rw [hsplit]
    exact Opens.bind' (opens_inetListen _ _ _ _)
  · obtain rfl := Option.some.inj ht
    rw [wcatUnixListen, if_neg hlong]
    exact Opens.bind' Opens.now

/-- What opening an endpoint comes to when it is opened. -/
private def IsOpened (r : Except ℕ Stream × RelayEndpoint) : Prop := ∃ s, r.1 = .ok s

private theorem yields_openedEndpoint (obj : Obj) (event : String) (context : Bytes) (fd : Fd) :
    Yields (openedEndpoint obj event context (some fd)) IsOpened :=
  yields_pure ⟨_, rfl⟩

theorem yields_wcatCloseQuiet (fd : Fd) : Yields (wcatCloseQuiet fd) fun _ => True :=
  Yields.loop (Yields.ask none ⟨rfl, fun _ hh => ⟨hh, trivial⟩⟩ (yields_pure ⟨(), rfl, trivial⟩))

theorem yields_wcatAccept (listener : Fd) :
    Yields (wcatAccept listener none) fun r => r.isSome = true := by
  refine Yields.loop (Yields.grant listener.accepted (fun n n' heq => ?_) .ok (fun _ => rfl)
    (fun _ _ => rfl) (fun _ _ => trivial) fun n => ?_)
  · injection heq
  · exact Yields.ask () ⟨rfl, fun _ hh => ⟨hh, trivial⟩⟩ (yields_pure ⟨_, rfl, rfl⟩)

/-- A peer that is there is accepted. -/
theorem yields_acceptWhenReady (listener : Fd) :
    Yields (acceptWhenReady listener none) fun r => r.isSome = true := by
  refine Yields.loop (Yields.ask false ⟨rfl, fun _ hh => ⟨hh, hh⟩⟩ ?_)
  rw [if_neg (by simp)]
  have hready : ∀ p ∈ [({ fd := some listener, pollin := true } : PollFd)].zip
      [({ pollin := true } : Revents)], p.1.fd = none → p.2 = Revents.none := by simp
  refine Yields.ask (.ready [{ pollin := true }] rfl (by decide) hready)
    ⟨rfl, fun _ hh => ⟨hh, trivial⟩⟩ ?_
  exact (yields_wcatAccept listener).bind' fun r hr => yields_pure ⟨r, rfl, hr⟩

private theorem yields_acceptEndpoint (obj : Obj) (kind : String) (listener : Fd) :
    Yields (acceptEndpoint obj kind (some listener)) IsOpened := by
  refine (yields_acceptWhenReady listener).bind' fun r hr => ?_
  obtain ⟨peer, rfl⟩ := Option.isSome_iff_exists.mp hr
  exact (yields_wcatCloseQuiet listener).bind' fun _ _ => yields_pure ⟨_, rfl⟩

/-- A child that can be forked. -/
theorem yields_wcatProcessSpawn (path : Bytes) (usePty : Bool) :
    Yields (wcatProcessSpawn path usePty) fun r => r.isSome = true := by
  have hclose : ∀ fd, Yields (closeFd fd) fun _ => True := fun fd =>
    Yields.ask none ⟨rfl, fun _ hh => ⟨hh, trivial⟩⟩ (yields_pure trivial)
  rw [wcatProcessSpawn]
  split_ifs
  · exact Yields.grant Fd.pty (fun _ _ => Fd.pty.inj) (fun n => some (1, n)) (fun _ => rfl)
      (fun _ _ => rfl) (fun _ _ => trivial) fun n => yields_pure rfl
  -- the ends of a pipe are two descriptors that are not open
  have hpipe : ∀ {k : Resp .pipe → Proc (Option ProcessHandle)},
      (∀ r w, Yields (k (some (r, w))) fun r => r.isSome = true) →
      Yields (sys .pipe >>= k) fun r => r.isSome = true := by
    intro k hk h hh
    obtain ⟨r, hr, -⟩ := exists_closed (fun _ _ => Fd.pipe.inj) [] h
    obtain ⟨w, hw, hne⟩ := exists_closed (fun _ _ => Fd.pipe.inj) [.pipe r] h
    obtain ⟨h', a, hrun, hrest⟩ := hk r w (⟨.pipe, some (r, w)⟩ :: h) hh
    refine ⟨h', a, runs_ask.mpr ⟨some (r, w), ⟨?_, ?_, trivial⟩, hrun⟩, hrest⟩
    · rintro fd hfd
      rcases List.mem_pair.mp hfd with rfl | rfl
      · exact hr
      · exact hw
    · have hrw : Fd.pipe r ≠ .pipe w := fun heq => hne (by simp [heq])
      simpa [opens] using hrw
  refine hpipe fun in0 in1 => hpipe fun out0 out1 => ?_
  refine Yields.ask (some 1) ⟨rfl, fun _ hh => ⟨hh, trivial⟩⟩ ?_
  exact (hclose _).bind' fun _ _ => (hclose _).bind' fun _ _ => yields_pure rfl

private theorem yields_execEndpoint (obj : Obj) (path : Bytes) (usePty : Bool) :
    Yields (execEndpoint obj path usePty) IsOpened := by
  refine (yields_wcatProcessSpawn path usePty).bind' fun r hr => ?_
  obtain ⟨proc, rfl⟩ := Option.isSome_iff_exists.mp hr
  exact yields_pure ⟨_, rfl⟩

theorem yields_connectTimed (fd : Fd) (addr : Addr) (timeoutMs : ℤ) :
    Yields (connectTimed fd addr timeoutMs) fun ok => ok = true := by
  refine Yields.ask () ⟨rfl, fun _ hh => ⟨hh, trivial⟩⟩ (Yields.bind' (Q := fun _ => True) ?_ fun _ _ => ?_)
  · split_ifs
    · exact yields_sys true ⟨rfl, fun _ hh => ⟨hh, trivial⟩⟩ trivial
    · exact yields_pure trivial
  · exact Yields.ask none ⟨rfl, fun _ hh => ⟨hh, trivial⟩⟩ (yields_pure rfl)

theorem yields_socketConnect (t : Transport) (addr : Addr) (timeoutMs : ℤ) :
    Yields (socketConnect t addr timeoutMs) fun r => r.isSome = true := by
  refine Yields.grant (Fd.sock t) (fun n n' heq => ?_) .ok (fun _ => rfl) (fun _ _ => rfl)
    (fun _ _ => trivial) fun n => (yields_connectTimed _ _ _).bind' fun ok hok => ?_
  · injection heq
  · rw [if_pos hok]
    exact Yields.ask true ⟨rfl, fun _ hh => ⟨hh, trivial⟩⟩ (yields_pure rfl)

theorem yields_socketListen (t : Transport) (addr : Addr) {prepare : Proc Unit} (backlog : ℕ)
    (hprep : Yields prepare fun _ => True) :
    Yields (socketListen t addr prepare backlog) fun r => r.isSome = true := by
  refine Yields.grant (Fd.sock t) (fun n n' heq => ?_) .ok (fun _ => rfl) (fun _ _ => rfl)
    (fun _ _ => trivial) fun n => Yields.ask () ⟨rfl, fun _ hh => ⟨hh, trivial⟩⟩ ?_
  · injection heq
  · exact hprep.bind' fun _ _ => Yields.ask none ⟨rfl, fun _ hh => ⟨hh, trivial⟩⟩
      (Yields.ask none ⟨rfl, fun _ hh => ⟨hh, trivial⟩⟩ (yields_pure rfl))

/-- **An endpoint that can be read can be opened**; those over TCP are left out here. -/
theorem yields_openRelayEndpoint (obj : Obj) {spec : Bytes} (hread : readsEndpoint spec = true)
    (htcp : endpointTransport spec ≠ some .tcp) : Yields (openRelayEndpoint cfg obj spec) IsOpened := by
  have hopened : ∀ {event context} {p : Proc (Option Fd)}, Yields p (fun r => r.isSome = true) →
      Yields (p >>= openedEndpoint obj event context) IsOpened := by
    intro event context p hp
    refine hp.bind' fun r hr => ?_
    obtain ⟨fd, rfl⟩ := Option.isSome_iff_exists.mp hr
    exact yields_openedEndpoint _ _ _ _
  have haccepted : ∀ {kind} {p : Proc (Option Fd)}, Yields p (fun r => r.isSome = true) →
      Yields (p >>= acceptEndpoint obj kind) IsOpened := by
    intro kind p hp
    refine hp.bind' fun r hr => ?_
    obtain ⟨fd, rfl⟩ := Option.isSome_iff_exists.mp hr
    exact yields_acceptEndpoint _ _ _
  have hunix : ∀ {n : ℕ}, decide (n < sunPathSize) = true → ¬sunPathSize ≤ n := fun h =>
    Nat.not_le.mpr (of_decide_eq_true h)
  rw [readsEndpoint] at hread
  rw [endpointTransport] at htcp
  rw [openRelayEndpoint]
  by_cases hstdio : spec = lit "-" ∨ spec = lit "stdio"
  · rw [if_pos hstdio]
    exact yields_pure ⟨_, rfl⟩
  rw [if_neg hstdio] at hread htcp ⊢
  by_cases htcpSpec : (lit "tcp:").isPrefixOf spec = true
  · rw [if_pos htcpSpec] at hread htcp
    obtain ⟨x, hx⟩ := Option.isSome_iff_exists.mp hread
    exact absurd (by rw [hx]; rfl) htcp
  rw [if_neg htcpSpec] at hread htcp ⊢
  by_cases hunixSpec : (lit "unix:").isPrefixOf spec = true
  · rw [if_pos hunixSpec] at hread ⊢
    refine hopened ?_
    rw [wcatUnixConnect, if_neg (hunix hread)]
    exact yields_socketConnect _ _ _
  rw [if_neg hunixSpec] at hread htcp ⊢
  by_cases hlisten : (lit "listen:").isPrefixOf spec = true
  · rw [if_pos hlisten] at hread htcp
    obtain ⟨x, hx⟩ := Option.isSome_iff_exists.mp hread
    exact absurd (by rw [hx]; rfl) htcp
  rw [if_neg hlisten] at hread ⊢
  by_cases hunixListen : (lit "unix-listen:").isPrefixOf spec = true
  · rw [if_pos hunixListen] at hread ⊢
    refine haccepted ?_
    rw [wcatUnixListen, if_neg (hunix hread)]
    exact yields_socketListen _ _ _ (yields_sys () ⟨rfl, fun _ hh => ⟨hh, trivial⟩⟩ trivial)
  rw [if_neg hunixListen] at hread ⊢
  split_ifs with hfile hexec hpty
  · exact Yields.grant Fd.file (fun _ _ => Fd.file.inj) .ok (fun _ => rfl) (fun _ _ => rfl)
      (fun _ _ => trivial) fun n => yields_openedEndpoint _ _ _ _
  · exact yields_execEndpoint _ _ _
  · exact yields_execEndpoint _ _ _
  · simp [hfile, hexec, hpty] at hread

/-- **A relay can be led to open its endpoints**: the first, and the second if the first can be read
and is not over TCP. -/
theorem opens_runRelay (ht : endpointTransport (cfg.left.getD []) = some t ∨
    readsEndpoint (cfg.left.getD []) = true ∧ endpointTransport (cfg.left.getD []) ≠ some .tcp ∧
      endpointTransport (cfg.right.getD []) = some t) : Opens t (runRelay cfg) := by
  rcases ht with ht | ⟨hread, htcp, ht⟩
  · exact Opens.bind' (opens_openRelayEndpoint .left ht)
  · refine Opens.after (yields_openRelayEndpoint .left hread htcp) ?_
    rintro ⟨left, leftEp⟩ ⟨s, hs⟩
    obtain rfl : left = .ok s := hs
    exact Opens.bind' (opens_openRelayEndpoint .right ht)

end Wirecat
