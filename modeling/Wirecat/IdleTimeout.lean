import Wirecat.Footprint

/-!
# The idle timeout of a relay

A relay ends when a poll of its two descriptors reports nothing for as long as the
timeout says. Streams with a tick – the TLS and the QUIC ones – have their poll cut into
slices of 50 ms, and the loop goes round after an empty slice *without counting it*. So
the timeout works when a poll is as long as the timeout: without a tick, or up to 50 ms.
Otherwise the relay waits for ever (`Wirecat.idleBounded_iff`).

`Wirecat.idle` is how long the relay has been waiting: the sum of the timeouts of its last
polls that reported nothing. The polls of the relay are those of two entries; a TLS stream
also polls its own descriptor, in the middle of a write, and that is no waiting of the
relay.
-/

namespace Wirecat

open CString Interaction

/-! ### Waiting -/

/-- **How long the relay has been waiting**: the sum of the timeouts of its polls since the
last one that reported something. -/
def idle : Hist → ℤ
  | [] => 0
  | ⟨.poll [_, _] timeout, .timeout⟩ :: h => timeout + idle h
  | ⟨.poll [_, _] _, _⟩ :: _ => 0
  | _ :: h => idle h

/-- **The timeout is kept**: at no moment of a run has the relay been waiting for longer
than the timeout and one slice. -/
def IdleBounded (a b : Stream) (opts : RelayOptions) (h : Hist) : Prop :=
  ∀ ext o, Runs Legal (wcatRelayBidirectional a b opts) h (ext ++ h) o →
    idle ext ≤ opts.timeoutMs + 50

/-- The requests that are not a poll of the relay. -/
def Elsewhere : Sys → Prop
  | .poll fds _ => fds.length = 1
  | _ => True

theorem idle_elsewhere {e : Sys} (he : Elsewhere e) (r : Resp e) (h : Hist) :
    idle (⟨e, r⟩ :: h) = idle h := by
  rw [idle.eq_def]
  split
  · simp at *
  · rename_i heq
    obtain ⟨hev, -⟩ := List.cons.inj heq
    obtain ⟨rfl, -⟩ := Sigma.mk.inj hev
    simp [Elsewhere] at he
  · rename_i heq
    obtain ⟨hev, -⟩ := List.cons.inj heq
    obtain ⟨rfl, -⟩ := Sigma.mk.inj hev
    simp [Elsewhere] at he
  · rename_i heq
    rw [(List.cons.inj heq).2]

/-! ### What happens between two polls -/

theorem elsewhere_quicHandleEvents (t : TlsStream) :
    Within Elsewhere (quicHandleEvents t) fun _ => True :=
  Within.ite (fun _ => Within.step trivial fun _ => trivial) fun _ => trivial

theorem elsewhere_waitReady (fd : Fd) (pollin : Bool) (timeout : ℤ) :
    Within Elsewhere (waitReady fd pollin timeout) fun _ => True := by
  refine Within.loop (fun _ => True) trivial fun _ _ => Within.step rfl fun r => ?_
  rcases r with e | _ | _
  · cases e <;> trivial
  · trivial
  · trivial

theorem elsewhere_read (s : Stream) (len : ℕ) : Within Elsewhere (s.read len) fun _ => True := by
  obtain ⟨o, _ | t, close⟩ := s
  · exact within_sys trivial
  · refine (elsewhere_quicHandleEvents t).next fun _ => Within.step trivial fun r => ?_
    rcases r with _ | e
    · trivial
    · exact Within.ite (fun _ => (elsewhere_quicHandleEvents t).next fun _ => trivial)
        fun _ => trivial

theorem elsewhere_wcatTlsWrite (o : Obj) (t : TlsStream) (buf : Bytes) :
    Within Elsewhere (wcatTlsWrite o t buf) fun _ => True := by
  have hev := elsewhere_quicHandleEvents t
  refine Within.loop (fun _ => True) trivial fun off _ => Within.ite (fun _ => ?_) fun _ => ?_
  · refine hev.next fun _ => Within.step trivial fun r => ?_
    rcases r with _ | e
    · exact hev.next fun _ => trivial
    refine Within.ite (fun _ => hev.next fun _ => (elsewhere_waitReady _ _ _).next fun res => ?_)
      fun _ => trivial
    rcases res with _ | _ | _ <;> trivial
  · exact hev.next fun _ => trivial

theorem elsewhere_write (s : Stream) (buf : Bytes) :
    Within Elsewhere (s.write buf) fun _ => True := by
  obtain ⟨o, ⟨rawFd, _ | writeFd, can⟩ | t, close⟩ := s
  · trivial
  · exact within_wcatFullWrite (fun _ => trivial) buf
  · exact elsewhere_wcatTlsWrite o t buf

theorem elsewhere_wcatTlsShutdownWrite (t : TlsStream) :
    Within Elsewhere (wcatTlsShutdownWrite t) fun _ => True := by
  refine Within.ite (fun _ => trivial) fun _ => Within.ite (fun _ => ?_) fun _ =>
    Within.step trivial fun _ => trivial
  refine Within.loop (fun _ => True) trivial fun _ _ => Within.step trivial fun stop =>
    Within.ite (fun _ => trivial) fun _ => ?_
  refine (elsewhere_quicHandleEvents t).next fun _ => Within.step trivial fun r => ?_
  rcases r with _ | e
  · trivial
  refine Within.ite (fun _ => (elsewhere_waitReady _ _ _).next fun res => ?_) fun _ => trivial
  rcases res with _ | _ <;> trivial

/-- Half closing a stream leaves its tick as it is. -/
theorem elsewhere_shutdownWrite (s : Stream) :
    Within Elsewhere s.shutdownWrite fun s' => s'.hasTick = s.hasTick := by
  obtain ⟨o, ⟨rawFd, _ | writeFd, _ | _⟩ | t, close⟩ := s
  · exact rfl
  · exact rfl
  · exact rfl
  · exact Within.ite (fun _ => Within.step trivial fun _ => rfl) fun _ =>
      (within_wcatCloseQuiet trivial).next fun _ => rfl
  · exact (elsewhere_wcatTlsShutdownWrite t).next fun _ => rfl

theorem elsewhere_pumpOnce (src dst : Stream) (label : String) (opts : RelayOptions) :
    Within Elsewhere (pumpOnce src dst label opts) fun _ => True := by
  refine Within.next (Within.loop (fun _ => True) trivial fun _ _ =>
    (elsewhere_read src _).next fun r => ?_) fun r => ?_
  · rcases r with _ | _ | e
    · trivial
    · trivial
    · cases e <;> trivial
  rcases r with _ | _ | e
  · refine (Within.optional trivial).next fun _ => (elsewhere_write dst _).next fun n => ?_
    exact Within.ite (fun _ => trivial) fun _ => trivial
  · trivial
  · cases e <;> trivial

/-- The ticks of the two streams of a relay. -/
def RelayState.ticks (s : RelayState) : Bool := s.a.hasTick || s.b.hasTick

theorem elsewhere_pumpDir (d : Dir) (opts : RelayOptions) (s : RelayState) :
    Within Elsewhere (pumpDir d opts s) (Sum.elim (fun s' => s'.ticks = s.ticks) fun _ => True) := by
  refine (elsewhere_pumpOnce _ _ _ _).next fun r => ?_
  cases r with
  | more => rfl
  | failed => trivial
  | ended =>
    refine (elsewhere_shutdownWrite _).bind' fun t ht => Within.ite (fun _ => trivial) fun _ => ?_
    cases d
    · exact congrArg (s.a.hasTick || ·) ht
    · exact congrArg (· || s.b.hasTick) ht

theorem elsewhere_pumpReady (ra rb : Revents) (opts : RelayOptions) (s : RelayState) :
    Within Elsewhere (pumpReady ra rb opts s)
      (Sum.elim (fun s' => s'.ticks = s.ticks) fun _ => True) := by
  refine Within.bind' (Q := Sum.elim (fun s' : RelayState => s'.ticks = s.ticks) fun _ => True)
    (Within.ite (fun _ => elsewhere_pumpDir .ab opts s) fun _ => rfl) fun r hr => ?_
  rcases r with s' | b
  · refine Within.ite (fun _ => (elsewhere_pumpDir .ba opts s').post_mono ?_) fun _ => hr
    rintro (s'' | b) h
    · exact Eq.trans h hr
    · trivial
  · trivial

theorem elsewhere_tickBoth (s : RelayState) : Within Elsewhere (tickBoth s) fun _ => True := by
  have htick : ∀ t : Stream, Within Elsewhere t.tick fun _ => True := by
    rintro ⟨o, _ | t, close⟩
    · trivial
    · exact Within.ite (fun _ => within_sys trivial) fun _ => trivial
  exact (htick _).next fun _ => Within.ite (fun _ => htick _) fun _ => trivial

theorem elsewhere_hasPending (active : Bool) (t : Stream) :
    Within Elsewhere (hasPending active t) fun _ => True := by
  have hpending : Within Elsewhere t.pending fun _ => True := by
    obtain ⟨o, _ | t, close⟩ := t
    · trivial
    · exact (elsewhere_quicHandleEvents t).next fun _ => within_sys trivial
  exact Within.ite (fun _ => hpending.next fun _ => trivial) fun _ => trivial

/-! ### A poll as long as the timeout -/

section Kept

variable {legal : Hist → (e : Sys) → Resp e → Prop} {opts : RelayOptions} {s : RelayState} {h : Hist}

/-- Between two polls nobody waits. -/
theorem Within.waits {α : Type} {p : Proc α} {Q : α → Prop} (hp : Within Elsewhere p Q)
    (ht : 0 ≤ opts.timeoutMs) (hidle : idle h = 0) :
    Always legal (fun g => idle g ≤ opts.timeoutMs + 50) p (fun a g => idle g = 0 ∧ Q a) h := by
  refine (hp.always (S := fun g => idle g = 0) hidle ?_).mono ?_ fun _ _ _ hQ => hQ
  · exact fun g e r hg he _ => (idle_elsewhere he r g).trans hg
  · intro g hg
    omega

theorem pollTimeout_eq (hwhole : s.ticks = false ∨ opts.timeoutMs ≤ 50) (ht : 0 ≤ opts.timeoutMs) :
    pollTimeout opts.timeoutMs s = opts.timeoutMs := by
  rw [pollTimeout, if_neg]
  rintro hslice
  obtain ⟨hticks, hlong⟩ := (Bool.and_eq_true_iff).mp hslice
  rw [Bool.or_eq_true, decide_eq_true_iff, decide_eq_true_iff] at hlong
  rcases hwhole with hno | hle
  · exact absurd (hno.symm.trans hticks) (by simp)
  · omega

/-- The poll that reports nothing ends the relay. -/
theorem always_pollRound_kept (hwhole : s.ticks = false ∨ opts.timeoutMs ≤ 50)
    (ht : 0 ≤ opts.timeoutMs) (hidle : idle h = 0) (af bf : Fd) :
    Always legal (fun g => idle g ≤ opts.timeoutMs + 50) (pollRound af bf opts s)
      (roundPost (fun s' g => idle g = 0 ∧ s'.ticks = s.ticks) fun _ _ => True) h := by
  rw [pollRound, pollTimeout_eq hwhole ht]
  refine Always.ask (by omega) fun r _ => ?_
  rcases r with e | _ | ⟨revents, hlen, hev, hig⟩
  · have hzero : idle (⟨.poll [pollEntry af s.aActive, pollEntry bf s.bActive] opts.timeoutMs,
        .error e⟩ :: h) = 0 := rfl
    cases e <;> exact always_pure.mpr ⟨by omega, by first | exact ⟨hzero, rfl⟩ | trivial⟩
  · have hwaited : idle (⟨.poll [pollEntry af s.aActive, pollEntry bf s.bActive] opts.timeoutMs,
        .timeout⟩ :: h) = opts.timeoutMs := by
      change opts.timeoutMs + idle h = _
      omega
    refine Always.ite (fun hne => absurd rfl hne) fun _ => ?_
    refine Always.ask (by omega) fun _ _ => always_pure.mpr ⟨?_, trivial⟩
    rw [idle_elsewhere (e := .log _ _ _ _) trivial]
    omega
  · have hzero : idle (⟨.poll [pollEntry af s.aActive, pollEntry bf s.bActive] opts.timeoutMs,
        .ready revents hlen hev hig⟩ :: h) = 0 := rfl
    refine (Within.waits (elsewhere_pumpReady _ _ opts s) ht hzero).post_mono ?_
    rintro (s' | b) g ⟨hg, hs⟩
    · exact ⟨hg, hs⟩
    · trivial

/-- A round of the relay, with polls as long as the timeout. -/
theorem always_relayRound_kept (hwhole : s.ticks = false ∨ opts.timeoutMs ≤ 50)
    (ht : 0 ≤ opts.timeoutMs) (hidle : idle h = 0) (af bf : Fd) :
    Always legal (fun g => idle g ≤ opts.timeoutMs + 50) (relayRound af bf opts s)
      (roundPost (fun s' g => idle g = 0 ∧ s'.ticks = s.ticks) fun _ _ => True) h := by
  have hle : ∀ g, idle g = 0 → idle g ≤ opts.timeoutMs + 50 := fun g hg => by omega
  have hturn : ∀ (d : Dir) (g : Hist), idle g = 0 →
      Always legal (fun g => idle g ≤ opts.timeoutMs + 50) (pumpDir d opts s)
        (roundPost (fun s' g => idle g = 0 ∧ s'.ticks = s.ticks) fun _ _ => True) g := by
    intro d g hg
    refine (Within.waits (elsewhere_pumpDir d opts s) ht hg).post_mono ?_
    rintro (s' | b) g ⟨hg, hs⟩
    · exact ⟨hg, hs⟩
    · trivial
  refine Always.ask (hle h hidle) fun stop _ => ?_
  have hstop : idle (⟨.stop, stop⟩ :: h) = 0 := hidle
  refine Always.ite (fun _ => always_pure.mpr ⟨hle _ hstop, trivial⟩) fun _ => ?_
  refine Always.ite (fun _ => always_pure.mpr ⟨hle _ hstop, trivial⟩) fun _ => ?_
  refine always_bind'.mpr ((Within.waits (elsewhere_tickBoth s) ht hstop).post_mono ?_)
  rintro tick g ⟨hg, -⟩
  refine Always.ite (fun _ => always_pure.mpr ⟨hle _ hg, trivial⟩) fun _ => ?_
  refine always_bind'.mpr ((Within.waits (elsewhere_hasPending _ _) ht hg).post_mono ?_)
  rintro aPending g₁ ⟨hg₁, -⟩
  refine Always.ite (fun _ => hturn .ab g₁ hg₁) fun _ => ?_
  refine always_bind'.mpr ((Within.waits (elsewhere_hasPending _ _) ht hg₁).post_mono ?_)
  rintro bPending g₂ ⟨hg₂, -⟩
  exact Always.ite (fun _ => hturn .ba g₂ hg₂) fun _ => always_pollRound_kept hwhole ht hg₂ af bf

/-- **Polls as long as the timeout keep it.** -/
theorem idleBounded_of_whole {a b : Stream} (hwhole : (a.hasTick || b.hasTick) = false ∨
    opts.timeoutMs ≤ 50) (ht : 0 ≤ opts.timeoutMs) : IdleBounded a b opts h := by
  intro ext o hr
  refine (@Always.loop _ _ _ _ (After Legal h) (fun g => idle g ≤ opts.timeoutMs + 50) _ _
    (fun s g => idle g = 0 ∧ s.ticks = (a.hasTick || b.hasTick)) (fun _ _ => True) _ ⟨rfl, rfl⟩ ?_).safe hr.ext
  rintro s g ⟨hg, hs⟩
  refine (always_relayRound_kept (by rwa [hs]) ht hg a.fd b.fd).post_mono ?_
  rintro (s' | r) g' hpost
  · exact ⟨hpost.1, hpost.2.trans hs⟩
  · trivial

end Kept

/-! ### Slices -/

/-- In some run from any history that has not seen the stop flag, `p` comes to `a` with
nobody having waited. -/
def Unwaited {α : Type} (p : Proc α) (a : α) : Prop :=
  ∀ h, stopped h = false → ∃ g, Runs Legal p h (g ++ h) (some a) ∧ stopped (g ++ h) = false ∧
    ∀ ext, idle (g ++ ext) = idle ext

theorem unwaited_pure {α : Type} (a : α) : Unwaited (pure a : Proc α) a :=
  fun _ hs => ⟨[], runs_pure.mpr ⟨rfl, rfl⟩, hs, fun _ => rfl⟩

theorem Unwaited.bind {α β : Type} {p : Proc α} {f : α → Proc β} {a : α} {b : β}
    (hp : Unwaited p a) (hf : Unwaited (f a) b) : Unwaited (p >>= f) b := by
  intro h hs
  obtain ⟨g, hr, hs₁, hidle⟩ := hp h hs
  obtain ⟨g', hr', hs₂, hidle'⟩ := hf (g ++ h) hs₁
  refine ⟨g' ++ g, ?_, by rwa [List.append_assoc], fun ext => ?_⟩
  · rw [List.append_assoc]
    exact runs_bind_some'.mpr ⟨a, g ++ h, hr, hr'⟩
  · rw [List.append_assoc, hidle', hidle]

/-- A request that was answered with `r`. -/
theorem unwaited_sys {e : Sys} {r : Resp e} (he : Elsewhere e)
    (hl : ∀ h, stopped h = false → Legal h e r ∧ stopped (⟨e, r⟩ :: h) = false) :
    Unwaited (sys e) r := by
  intro h hs
  obtain ⟨hlegal, hs'⟩ := hl h hs
  exact ⟨[⟨e, r⟩], runs_request.mpr ⟨hlegal, rfl⟩, hs', fun ext => idle_elsewhere he r ext⟩

theorem unwaited_stop : Unwaited (sys .stop) false :=
  unwaited_sys trivial fun _ hs => ⟨⟨by simp [opens], by simp [opens], hs⟩, hs⟩

theorem unwaited_handleEvents (fd : Fd) : Unwaited (sys (.sslHandleEvents fd)) true :=
  unwaited_sys trivial fun _ hs => ⟨⟨by simp [opens], by simp [opens], trivial⟩, hs⟩

theorem unwaited_pending (fd : Fd) : Unwaited (sys (.sslPending fd)) (0 : ℕ) :=
  unwaited_sys trivial fun _ hs => ⟨⟨by simp [opens], by simp [opens], trivial⟩, hs⟩

theorem unwaited_tick (t : Stream) : Unwaited t.tick true := by
  obtain ⟨o, _ | t, close⟩ := t
  · exact unwaited_pure true
  · simp only [Stream.tick, wcatTlsTick]
    split_ifs
    · exact unwaited_handleEvents _
    · exact unwaited_pure true

theorem unwaited_tickBoth (s : RelayState) : Unwaited (tickBoth s) true :=
  (unwaited_tick s.a).bind (by rw [if_pos rfl]; exact unwaited_tick s.b)

theorem unwaited_hasPending (active : Bool) (t : Stream) : Unwaited (hasPending active t) false := by
  have hpending : Unwaited t.pending 0 := by
    obtain ⟨o, _ | t, close⟩ := t
    · exact unwaited_pure 0
    · simp only [Stream.pending, wcatTlsPending, quicHandleEvents]
      refine Unwaited.bind (a := ()) ?_ (unwaited_pending _)
      split_ifs
      · exact (unwaited_handleEvents _).bind (unwaited_pure ())
      · exact unwaited_pure ()
  rw [hasPending]
  split_ifs
  · exact hpending.bind (unwaited_pure _)
  · exact unwaited_pure false

/-- **Up to the poll** nothing is asked that could not be answered at once. -/
theorem runs_to_poll {s : RelayState} {opts : RelayOptions}
    (hactive : (!s.aActive && !s.bActive) = false) (af bf : Fd) {h : Hist}
    (hs : stopped h = false) :
    ∃ g, (∀ h' r, Runs Legal (pollRound af bf opts s) (g ++ h) h' (some r) →
        Runs Legal (relayRound af bf opts s) h h' (some r)) ∧
      stopped (g ++ h) = false ∧ (∀ ext, idle (g ++ ext) = idle ext) ∧
      ∀ ev ∈ g, Quiet ev.1 = true ∨ ev.1 = .stop := by
  have hbefore : Unwaited (do
      let stop ← sys .stop
      let tick ← tickBoth s
      let aPending ← hasPending s.aActive s.a
      let bPending ← hasPending s.bActive s.b
      pure (stop, tick, aPending, bPending)) (false, true, false, false) :=
    unwaited_stop.bind ((unwaited_tickBoth s).bind ((unwaited_hasPending _ _).bind
      ((unwaited_hasPending _ _).bind (unwaited_pure _))))
  have hquiet : Within (fun e => Quiet e = true ∨ e = .stop) (do
      let stop ← sys .stop
      let tick ← tickBoth s
      let aPending ← hasPending s.aActive s.a
      let bPending ← hasPending s.bActive s.b
      pure (stop, tick, aPending, bPending)) fun _ => True := by
    have hq : ∀ e, Quiet e = true → Quiet e = true ∨ e = .stop := fun _ => .inl
    refine Within.step (.inr rfl) fun _ => (within_tickBoth (still_of_quiet hq) s).next fun _ => ?_
    refine (within_hasPending_quiet (still_of_quiet hq) _ _).next fun _ => ?_
    exact (within_hasPending_quiet (still_of_quiet hq) _ _).next fun _ => trivial
  obtain ⟨g, hr, hs', hidle⟩ := hbefore h hs
  refine ⟨g, fun h' r hpoll => ?_, hs', hidle, fun ev hev => ?_⟩
  · obtain ⟨stop, h₁, hstop, hr⟩ := runs_bind_some'.mp hr
    obtain ⟨tick, h₂, htick, hr⟩ := runs_bind_some'.mp hr
    obtain ⟨aPending, h₃, ha, hr⟩ := runs_bind_some'.mp hr
    obtain ⟨bPending, h₄, hb, hr⟩ := runs_bind_some'.mp hr
    obtain ⟨heq, hres⟩ := runs_pure.mp hr
    obtain ⟨rfl, rfl, rfl, rfl⟩ : stop = false ∧ tick = true ∧ aPending = false ∧
        bPending = false := by simpa [eq_comm] using hres
    rw [relayRound]
    refine runs_bind_some'.mpr ⟨false, h₁, hstop, ?_⟩
    rw [if_neg (by simp), if_neg (by simp [hactive])]
    refine runs_bind_some'.mpr ⟨true, h₂, htick, ?_⟩
    rw [if_neg (by simp)]
    refine runs_bind_some'.mpr ⟨false, h₃, ha, ?_⟩
    rw [if_neg (by simp)]
    refine runs_bind_some'.mpr ⟨false, h₄, hb, ?_⟩
    rw [if_neg (by simp), ← heq]
    exact hpoll
  · obtain ⟨new, hnew, hall⟩ := hquiet.events hr
    rw [List.append_cancel_right hnew] at hev
    exact hall ev hev

/-- **An empty slice**: the relay goes round again as it was. -/
theorem runs_slice {s : RelayState} {opts : RelayOptions} (hticks : s.ticks = true)
    (hactive : (!s.aActive && !s.bActive) = false) (hlong : 50 < opts.timeoutMs) (af bf : Fd)
    {h : Hist} (hs : stopped h = false) :
    ∃ g, Runs Legal (relayRound af bf opts s) h (g ++ h) (some (.inl s)) ∧
      stopped (g ++ h) = false ∧ ∀ ext, idle (g ++ ext) = 50 + idle ext := by
  obtain ⟨g, hround, hs', hidle, -⟩ := @runs_to_poll s opts hactive af bf h hs
  have htimeout : pollTimeout opts.timeoutMs s = 50 := by
    rw [pollTimeout, if_pos]
    rw [RelayState.ticks] at hticks
    rw [hticks, Bool.true_and, Bool.or_eq_true, decide_eq_true_iff, decide_eq_true_iff]
    exact Or.inr hlong
  set poll : Ev := ⟨.poll [pollEntry af s.aActive, pollEntry bf s.bActive] 50, .timeout⟩
  have hpoll : Runs Legal (pollRound af bf opts s) (g ++ h) (poll :: (g ++ h)) (some (.inl s)) := by
    rw [pollRound, htimeout]
    refine runs_ask.mpr ⟨.timeout, ⟨by simp [opens], by simp [opens], trivial⟩, ?_⟩
    simp only
    rw [if_pos (by omega)]
    exact runs_pure.mpr ⟨rfl, rfl⟩
  refine ⟨poll :: g, hround _ _ hpoll, hs', fun ext => ?_⟩
  change 50 + idle (g ++ ext) = _
  rw [hidle]

/-- Any number of empty slices. -/
theorem reaches_slices {s : RelayState} {opts : RelayOptions} (hticks : s.ticks = true)
    (hactive : (!s.aActive && !s.bActive) = false) (hlong : 50 < opts.timeoutMs) (af bf : Fd)
    {h : Hist} (hs : stopped h = false) (n : ℕ) :
    ∃ ext, Reaches Legal (relayRound af bf opts) s h s (ext ++ h) ∧ stopped (ext ++ h) = false ∧
      idle ext = 50 * n := by
  induction n with
  | zero => exact ⟨[], Reaches.start s h, hs, rfl⟩
  | succ n ih =>
    obtain ⟨ext, hreach, hs', hidle⟩ := ih
    obtain ⟨g, hr, hs'', hg⟩ := runs_slice hticks hactive hlong af bf hs'
    refine ⟨g ++ ext, ?_, by rwa [List.append_assoc], ?_⟩
    · rw [List.append_assoc]
      exact hreach.step hr
    · rw [hg, hidle]
      push_cast
      ring

/-! ### When the timeout is kept -/

/-- A relay that has been asked to stop does not wait at all. -/
theorem idleBounded_of_stopped {a b : Stream} {opts : RelayOptions} {h : Hist}
    (ht : 0 ≤ opts.timeoutMs) (hs : stopped h = true) : IdleBounded a b opts h := by
  intro ext o hr
  refine (@Always.loop _ _ _ _ (After Legal h) (fun g => idle g ≤ opts.timeoutMs + 50) _ _
    (fun _ g => g = []) (fun _ _ => True) _ rfl ?_).safe hr.ext
  rintro s g rfl
  have hzero : (0 : ℤ) ≤ opts.timeoutMs + 50 := by omega
  refine Always.ask hzero fun stop hl => ?_
  cases stop with
  | true => exact always_pure.mpr ⟨hzero, trivial⟩
  | false => exact absurd (hl.2.2.symm.trans hs) (by simp)

/-- A relay that polls in slices waits for ever. -/
theorem not_idleBounded {a b : Stream} {opts : RelayOptions} {h : Hist}
    (hticks : (a.hasTick || b.hasTick) = true) (hlong : 50 < opts.timeoutMs)
    (hs : stopped h = false) : ¬IdleBounded a b opts h := by
  intro hbound
  obtain ⟨ext, hreach, -, hidle⟩ := @reaches_slices ⟨a, b, true, true⟩ opts hticks rfl hlong a.fd b.fd _ hs (opts.timeoutMs.toNat + 2)
  have hle := hbound ext none ⟨_, _, hreach, Or.inl ⟨Runs.cut _ _, rfl⟩⟩
  rw [hidle] at hle
  push_cast at hle
  omega

/-- **Exactly when the timeout is kept**: no stream has a tick, or the timeout is no longer
than a slice; or the relay has been asked to stop before it began. -/
theorem idleBounded_iff (a b : Stream) (opts : RelayOptions) (h : Hist)
    (ht : 0 ≤ opts.timeoutMs) :
    IdleBounded a b opts h ↔
      (a.hasTick || b.hasTick) = false ∨ opts.timeoutMs ≤ 50 ∨ stopped h = true := by
  constructor
  · intro hbound
    by_contra hnot
    rw [not_or, not_or, Bool.not_eq_false, not_le, Bool.not_eq_true] at hnot
    exact not_idleBounded hnot.1 hnot.2.1 hnot.2.2 hbound
  · rintro (hno | hshort | hs)
    · exact idleBounded_of_whole (Or.inl hno) ht
    · exact idleBounded_of_whole (Or.inr hshort) ht
    · exact idleBounded_of_stopped ht hs

/-- Between two descriptors the timeout is kept. -/
theorem idleBounded_descriptors :
    IdleBounded (wcatStreamFromFd .net (.sock .tcp 3)) (wcatStreamFromFdPair .stdioStream .stdin
      .stdout) ⟨10000, false⟩ [] :=
  (idleBounded_iff _ _ _ _ (by decide)).mpr (Or.inl rfl)

/-- Between a TLS stream and the standard streams a timeout of ten seconds is not. -/
theorem not_idleBounded_tls :
    ¬IdleBounded (wcatStreamFromTls .net ⟨.sock .tcp 3, true, true, false⟩)
      (wcatStreamFromFdPair .stdioStream .stdin .stdout) ⟨10000, false⟩ [] :=
  not_idleBounded rfl (by decide) rfl

end Wirecat
