import Wirecat.Flow

/-!
# What a relay does with the bytes

The loop of `wcat_relay_bidirectional`, followed as a conduit. A relay wires its two
streams to each other (`Wirecat.relayWiring`): what is read from the one is to be written
to the other. Every round keeps the discipline of `Conduit.step` and finds nothing in hand
at the loop head, so the whole run does (`Wirecat.always_wcatRelayBidirectional`), and a
relay that returns has settled.

What follows for its bytes is in `Wirecat.Fidelity`; `Wirecat.Copy` follows the copy from
one stream to another in the same way.
-/

namespace Wirecat

open CString Interaction Conduit

/-! ### Both ways -/

/-- The wiring of a relay: each stream is the peer of the other. -/
def relayWiring (a b : Stream) : Wiring Obj where
  peer o := if o = a.obj then b.obj else if o = b.obj then a.obj else o
  closes o := if o = a.obj then a.closeOnEof else b.closeOnEof

/-- The conduit of a relay with nothing in hand. -/
def relaySt (a b : Stream) (aActive bActive : Bool) : St Obj UInt8 where
  carry := none
  live o := (o = a.obj && aActive) || (o = b.obj && bActive)
  closed := false

/-- The two streams of a relay, by the direction that reads them. -/
def source (a b : Stream) : Dir → Stream
  | .ab => a
  | .ba => b

/-- The other direction. -/
def Dir.other : Dir → Dir
  | .ab => .ba
  | .ba => .ab

variable {a b : Stream}

theorem relayWiring_peer (hab : a.obj ≠ b.obj) (d : Dir) :
    (relayWiring a b).peer (source a b d).obj = (source a b d.other).obj := by
  cases d with
  | ab => simp [relayWiring, source, Dir.other]
  | ba => simp [relayWiring, source, Dir.other, hab.symm]

theorem relayWiring_closes (hab : a.obj ≠ b.obj) (d : Dir) :
    (relayWiring a b).closes (source a b d).obj = (source a b d).closeOnEof := by
  cases d with
  | ab => simp [relayWiring, source]
  | ba => simp [relayWiring, source, hab.symm]

/-- Only the other stream supplies a stream. -/
theorem relayWiring_peer_iff (hab : a.obj ≠ b.obj) (d : Dir) (o : Obj) :
    (relayWiring a b).peer o = (source a b d.other).obj ↔ o = (source a b d).obj := by
  cases d with
  | ab =>
    simp only [relayWiring, source, Dir.other]
    split_ifs with h1 h2
    · simp [h1]
    · simp [h1, hab]
    · simp [h1, h2]
  | ba =>
    simp only [relayWiring, source, Dir.other]
    split_ifs with h1 h2
    · simp [h1, hab, hab.symm]
    · simp [h2]
    · simp [h1, h2]

/-- **The invariant of the relay's loop**: the streams are the ones it was given, up
to a writing side that was given up, and this only after the end of the stream that
was written there; nothing is in hand. -/
structure RelayInv (a b : Stream) (s : RelayState) (h : Hist) : Prop where
  obj : ∀ d, (s.src d).obj = (source a b d).obj
  closes : ∀ d, (s.src d).closeOnEof = (source a b d).closeOnEof
  writable : ∀ d, s.active d = true → (s.dst d).Writable
  view_eq : view (relayWiring a b) (relaySt a b true true) h =
    some (relaySt a b s.aActive s.bActive)

theorem RelayInv.dst_obj {s : RelayState} {h : Hist} (hinv : RelayInv a b s h) (d : Dir) :
    (s.dst d).obj = (source a b d.other).obj := by
  cases d
  · exact hinv.obj .ba
  · exact hinv.obj .ab

theorem RelayInv.ready {s : RelayState} {h : Hist} (hinv : RelayInv a b s h) {d : Dir}
    (hact : s.active d = true) : Ready (relaySt a b s.aActive s.bActive) (s.src d).obj := by
  refine ⟨rfl, ?_, rfl⟩
  rw [hinv.obj]
  cases d
  · simp only [RelayState.active] at hact
    simp [relaySt, source, hact]
  · simp only [RelayState.active] at hact
    simp [relaySt, source, hact]

/-- The state of a relay with one direction no longer read. -/
theorem relaySt_deactivate (hab : a.obj ≠ b.obj) (d : Dir) (s : RelayState) :
    { relaySt a b s.aActive s.bActive with
      live := Function.update (relaySt a b s.aActive s.bActive).live (source a b d).obj false,
      closed := false } =
    relaySt a b (s.deactivate d).aActive (s.deactivate d).bActive := by
  cases d with
  | ab =>
    simp only [relaySt, source, RelayState.deactivate, St.mk.injEq, true_and, and_true]
    funext o
    by_cases ho : o = a.obj
    · simp [ho, hab]
    · simp [ho]
  | ba =>
    simp only [relaySt, source, RelayState.deactivate, St.mk.injEq, true_and, and_true]
    funext o
    by_cases ho : o = b.obj
    · simp [ho, hab.symm]
    · simp [ho]

variable {legal : Hist → (e : Sys) → Resp e → Prop} {α : Type}

/-- Half closing a stream changes at most its writing side. -/
theorem within_shutdownWrite (t : Stream) :
    Within (fun _ => True) t.shutdownWrite
      (fun t' => t'.obj = t.obj ∧ t'.closeOnEof = t.closeOnEof) := by
  obtain ⟨o, ⟨rawFd, _ | writeFd, _ | _⟩ | s, close⟩ := t
  · exact ⟨rfl, rfl⟩
  · exact ⟨rfl, rfl⟩
  · exact ⟨rfl, rfl⟩
  · rw [Stream.shutdownWrite]
    simp only
    split_ifs
    · exact (Within.all _).bind' fun _ _ => ⟨rfl, rfl⟩
    · exact (Within.all _).bind' fun _ _ => ⟨rfl, rfl⟩
  · exact (Within.all _).bind' fun _ _ => ⟨rfl, rfl⟩

/-- Half closing a stream, as the loop sees it. -/
theorem always_shutdownWrite {w : Wiring Obj} {s₀ st : St Obj UInt8} {h : Hist} (t : Stream)
    (hv : At w s₀ st h) :
    Always legal (Follows w s₀) t.shutdownWrite
      (fun t' h' => view w s₀ h' = some st ∧ t'.obj = t.obj ∧ t'.closeOnEof = t.closeOnEof) h := by
  have hwithin := @Within.always _ _ _ legal (fun _ => True) h _ _ _ (within_shutdownWrite t)
    trivial fun _ _ _ _ _ _ => trivial
  refine ((silent_shutdownWrite t legal w s₀ st h hv).and hwithin).mono (fun _ hS => hS.1) ?_
  exact fun _ _ _ hQ => ⟨hQ.1.view_eq, hQ.2.2⟩

/-- What a pump in the direction `d` makes of the loop's state. -/
def Turned (a b : Stream) (s : RelayState) (d : Dir) : RelayState ⊕ Bool → Hist → Prop
  | .inl s', h => RelayInv a b s' h ∧ s'.active d.other = s.active d.other
  | .inr true, h => ∃ st, view (relayWiring a b) (relaySt a b true true) h = some st ∧
      st.carry = none ∧ st.closed = true
  | .inr false, h => BrokenOff (relayWiring a b) (relaySt a b true true) h

/-- The invariant after the end of a source, whose destination became `t`. -/
theorem RelayInv.deactivate {s : RelayState} {h h' : Hist} (hinv : RelayInv a b s h) {d : Dir}
    {t : Stream} (hobj : t.obj = (s.dst d).obj) (hclose : t.closeOnEof = (s.dst d).closeOnEof)
    (hv : view (relayWiring a b) (relaySt a b true true) h' =
      some (relaySt a b (s.deactivate d).aActive (s.deactivate d).bActive)) :
    RelayInv a b ((s.setDst d t).deactivate d) h' := by
  cases d with
  | ab =>
    refine ⟨?_, ?_, ?_, hv⟩
    · rintro (_ | _)
      · exact hinv.obj .ab
      · exact hobj.trans (hinv.obj .ba)
    · rintro (_ | _)
      · exact hinv.closes .ab
      · exact hclose.trans (hinv.closes .ba)
    · rintro (_ | _) hact
      · exact absurd hact (by simp [RelayState.active, RelayState.deactivate])
      · exact hinv.writable .ba hact
  | ba =>
    refine ⟨?_, ?_, ?_, hv⟩
    · rintro (_ | _)
      · exact hobj.trans (hinv.obj .ab)
      · exact hinv.obj .ba
    · rintro (_ | _)
      · exact hclose.trans (hinv.closes .ab)
      · exact hinv.closes .ba
    · rintro (_ | _) hact
      · exact hinv.writable .ab hact
      · exact absurd hact (by simp [RelayState.active, RelayState.deactivate])

/-- **One direction of a round.** -/
theorem always_pumpDir (hab : a.obj ≠ b.obj) {s : RelayState} {h : Hist} {opts : RelayOptions}
    (hinv : RelayInv a b s h) {d : Dir} (hact : s.active d = true) :
    Always legal (Follows (relayWiring a b) (relaySt a b true true)) (pumpDir d opts s)
      (Turned a b s d) h := by
  rw [pumpDir, always_bind']
  have hpeer : (relayWiring a b).peer (s.src d).obj = (s.dst d).obj := by
    rw [hinv.obj, hinv.dst_obj, relayWiring_peer hab]
  refine (always_pumpOnce (hinv.ready hact) hpeer (hinv.writable d hact) hinv.view_eq).mono
    (fun _ => id) ?_
  rintro (_ | _ | _) h hfollows hr
  · exact always_pure.mpr ⟨hfollows, ⟨hinv.obj, hinv.closes, hinv.writable, hr⟩, rfl⟩
  · -- the source has ended: half close the destination, and stop or go on
    rw [hinv.obj] at hr
    refine always_bind'.mpr ((always_shutdownWrite (s.dst d) ⟨hr, whole_of_idle rfl⟩).mono (fun _ => id) ?_)
    rintro t h hfollows ⟨hv, hobj, hclose⟩
    have hsrc : ((s.setDst d t).src d).closeOnEof = (source a b d).closeOnEof := by
      rw [← hinv.closes d]
      cases d <;> rfl
    rw [relayWiring_closes hab] at hv
    simp only [hsrc]
    split_ifs with hcl
    · rw [hcl] at hv
      exact always_pure.mpr ⟨hfollows, _, hv, rfl, rfl⟩
    · rw [Bool.not_eq_true] at hcl
      rw [hcl, relaySt_deactivate hab] at hv
      refine always_pure.mpr ⟨hfollows, hinv.deactivate hobj hclose hv, ?_⟩
      cases d <;> rfl
  · exact always_pure.mpr ⟨hfollows, hr⟩

/-- The program has seen that it is asked to stop. -/
def StopSeen (h : Hist) : Prop := (⟨.stop, true⟩ : Ev) ∈ h

/-- Whether an event is the flag `wcat_stop` read set. -/
def seesStop : Ev → Bool
  | ⟨.stop, true⟩ => true
  | _ => false

theorem seesStop_iff {ev : Ev} : seesStop ev = true ↔ ev = ⟨.stop, true⟩ := by
  constructor
  · intro h
    unfold seesStop at h
    split at h
    · rfl
    · exact absurd h (by simp)
  · rintro rfl
    rfl

instance (h : Hist) : Decidable (StopSeen h) :=
  decidable_of_iff (h.any seesStop = true) (by simp [StopSeen, seesStop_iff])

/-- The relay has timed out, and said so. -/
def TimedOut (h : Hist) : Prop :=
  ∃ level fmt args, (⟨.log level "timeout" fmt args, ()⟩ : Ev) ∈ h

/-- How a relay ends. When it succeeds, nothing is in hand, and it was stopped, or
timed out, or a closing stream has ended, or both have. -/
def Settled (a b : Stream) : Bool → Hist → Prop
  | true, h => ∃ st, view (relayWiring a b) (relaySt a b true true) h = some st ∧
      st.carry = none ∧ (StopSeen h ∨ TimedOut h ∨ st.closed = true ∨
        (st.live a.obj = false ∧ st.live b.obj = false))
  | false, h => Follows (relayWiring a b) (relaySt a b true true) h

theorem Settled.follows {ok : Bool} {h : Hist} (hs : Settled a b ok h) :
    Follows (relayWiring a b) (relaySt a b true true) h := by
  cases ok with
  | true => exact follows_of_view hs.choose_spec.1
  | false => exact hs

variable {opts : RelayOptions} {s : RelayState} {h : Hist}

theorem RelayInv.at (hinv : RelayInv a b s h) :
    At (relayWiring a b) (relaySt a b true true) (relaySt a b s.aActive s.bActive) h :=
  ⟨hinv.view_eq, whole_of_open rfl⟩

/-- A relay that is asked to stop. -/
theorem settled_of_stop (hinv : RelayInv a b s h) : Settled a b true (⟨.stop, true⟩ :: h) :=
  ⟨_, (hinv.at.silent rfl).view_eq, rfl, Or.inl (by simp [StopSeen])⟩

/-- What a turn says of the whole round. -/
theorem Turned.round {d : Dir} {r : RelayState ⊕ Bool} {h : Hist}
    (ht : Turned a b s d r h) : roundPost (RelayInv a b) (Settled a b) r h := by
  rcases r with s' | _ | _
  · exact ht.1
  · exact ht.follows
  · obtain ⟨st, hv, hc, hcl⟩ := ht
    exact ⟨st, hv, hc, Or.inr (Or.inr (Or.inl hcl))⟩

/-- Away from the pumps a round is not observed, and the invariant only needs the
view. -/
theorem RelayInv.of_view (hinv : RelayInv a b s h) {h' : Hist}
    (hv : view (relayWiring a b) (relaySt a b true true) h' =
      some (relaySt a b s.aActive s.bActive)) : RelayInv a b s h' :=
  ⟨hinv.obj, hinv.closes, hinv.writable, hv⟩

/-- One turn, as a whole round. -/
theorem always_turn (hab : a.obj ≠ b.obj) (hinv : RelayInv a b s h) {d : Dir} (hact : s.active d = true) :
    Always legal (Follows (relayWiring a b) (relaySt a b true true)) (pumpDir d opts s)
      (roundPost (RelayInv a b) (Settled a b)) h :=
  (always_pumpDir hab hinv hact).post_mono fun _ _ => Turned.round

theorem always_pumpReady (hab : a.obj ≠ b.obj) (hinv : RelayInv a b s h) {ra rb : Revents}
    (hra : ra.pollin || ra.pollhup → s.aActive = true)
    (hrb : rb.pollin || rb.pollhup → s.bActive = true) :
    Always legal (Follows (relayWiring a b) (relaySt a b true true)) (pumpReady ra rb opts s)
      (roundPost (RelayInv a b) (Settled a b)) h := by
  have hsecond : ∀ {s' : RelayState} {h'}, RelayInv a b s' h' → s'.bActive = s.bActive →
      Always legal (Follows (relayWiring a b) (relaySt a b true true))
        (if rb.pollin || rb.pollhup then pumpDir .ba opts s' else pure (.inl s'))
        (roundPost (RelayInv a b) (Settled a b)) h' := by
    intro s' h' hinv' hact
    split_ifs with hr
    · exact always_turn hab hinv' (d := .ba) (hact.trans (hrb hr))
    · exact Always.done hinv'.view_eq hinv'
  rw [pumpReady, always_bind']
  by_cases hr : (ra.pollin || ra.pollhup) = true
  · rw [if_pos hr]
    refine (always_pumpDir hab hinv (d := .ab) (hra hr)).mono (fun _ => id) ?_
    rintro (s' | ok) h' hfollows ht
    · exact hsecond ht.1 ht.2
    · exact always_pure.mpr ⟨hfollows, ht.round⟩
  · rw [if_neg hr]
    exact Always.done hinv.view_eq (hsecond hinv rfl)

/-- An entry of the array that is not polled reports nothing. -/
theorem active_of_revents {fd : Fd} {active : Bool} {r : Revents}
    (hign : (pollEntry fd active).fd = none → r = .none) (hr : (r.pollin || r.pollhup) = true) :
    active = true := by
  by_contra hact
  rw [hign (by simp [pollEntry, hact])] at hr
  exact absurd hr (by decide)

theorem always_pollRound (hab : a.obj ≠ b.obj) {af bf : Fd} (hinv : RelayInv a b s h) :
    Always legal (Follows (relayWiring a b) (relaySt a b true true)) (pollRound af bf opts s)
      (roundPost (RelayInv a b) (Settled a b)) h := by
  refine Always.observe hinv.at ?_
  rintro (err | _ | ⟨revents, hlen, hev, hign⟩)
  · refine ⟨_, rfl, fun h' hv => ?_⟩
    cases err <;> first
      | exact Always.done hv (hinv.of_view hv)
      | exact Always.done hv (follows_of_view hv)
  · refine ⟨_, rfl, fun h' hv => ?_⟩
    simp only
    by_cases ht : pollTimeout opts.timeoutMs s ≠ opts.timeoutMs
    · rw [if_pos ht]
      exact Always.done hv (hinv.of_view hv)
    · rw [if_neg ht, always_bind', sys, always_request]
      refine ⟨follows_of_view hv, fun r _ => ?_⟩
      have hv' := ((hinv.of_view hv).at.silent (r := r)
        (rfl : obs (.log .warn "timeout" "relay timed out" []) r = none)).view_eq
      refine ⟨follows_of_view hv', Always.done hv' ⟨_, hv', rfl, Or.inr (Or.inl ?_)⟩⟩
      exact ⟨_, _, _, List.mem_cons_self⟩
  · refine ⟨_, rfl, fun h' hv => ?_⟩
    obtain ⟨ra, rb, rfl⟩ := List.length_eq_two.mp hlen
    exact always_pumpReady hab (hinv.of_view hv)
      (active_of_revents (hign (pollEntry af s.aActive, ra) (by simp)))
      (active_of_revents (hign (pollEntry bf s.bActive, rb) (by simp)))

theorem silent_hasPending (active : Bool) (t : Stream) : Silent (hasPending active t) := by
  rw [hasPending]
  split_ifs
  · exact (silent_pending t).bind fun _ => silent_pure _
  · exact silent_pure _

theorem silent_tickBoth (s : RelayState) : Silent (tickBoth s) := by
  refine (silent_tick s.a).bind fun tick => ?_
  split_ifs
  · exact silent_tick s.b
  · exact silent_pure _

/-- Only a stream that is still read is found to have bytes buffered. -/
theorem within_hasPending (active : Bool) (t : Stream) :
    Within (fun _ => True) (hasPending active t) fun b => b = true → active = true := by
  cases active with
  | false => simp [hasPending]
  | true => exact (Within.all _).post_mono fun _ _ _ => rfl

theorem always_hasPending {t : Stream} {active : Bool} {w : Wiring Obj} {s₀ st : St Obj UInt8}
    (hv : At w s₀ st h) :
    Always legal (Follows w s₀) (hasPending active t)
      (fun b h' => view w s₀ h' = some st ∧ (b = true → active = true)) h := by
  have hwithin := @Within.always _ _ _ legal (fun _ => True) h _ _ _ (within_hasPending active t)
    trivial fun _ _ _ _ _ _ => trivial
  exact ((silent_hasPending active t legal w s₀ st h hv).and hwithin).mono (fun _ hS => hS.1)
    fun _ _ _ hQ => ⟨hQ.1.view_eq, hQ.2.2⟩

/-- **A round of the relay** keeps the invariant, or ends the relay. -/
theorem always_relayRound (hab : a.obj ≠ b.obj) {af bf : Fd} (hinv : RelayInv a b s h) :
    Always legal (Follows (relayWiring a b) (relaySt a b true true)) (relayRound af bf opts s)
      (roundPost (RelayInv a b) (Settled a b)) h := by
  rw [relayRound, always_bind', sys, always_request]
  refine ⟨follows_of_view hinv.view_eq, fun stop _ => ?_⟩
  have hv : view (relayWiring a b) (relaySt a b true true) (⟨.stop, stop⟩ :: h) =
      some (relaySt a b s.aActive s.bActive) := (hinv.at.silent rfl).view_eq
  refine ⟨follows_of_view hv, ?_⟩
  cases stop with
  | true =>
    have hset := settled_of_stop hinv
    exact always_pure.mpr ⟨hset.follows, hset⟩
  | false =>
    rw [if_neg (by simp)]
    by_cases hidle : (!s.aActive && !s.bActive) = true
    · rw [if_pos hidle]
      refine Always.done hv ⟨_, hv, rfl, Or.inr (Or.inr (Or.inr ?_))⟩
      simp only [Bool.and_eq_true, Bool.not_eq_true'] at hidle
      simp [relaySt, hidle.1, hidle.2]
    rw [if_neg hidle]
    refine (silent_tickBoth s).always (hinv.of_view hv).at fun tick h hv => ?_
    by_cases htick : (!tick) = true
    · rw [if_pos htick]
      exact Always.done hv.view_eq (follows_of_view hv.view_eq)
    rw [if_neg htick, always_bind']
    refine (always_hasPending hv).mono (fun _ => id) ?_
    rintro aPending h - ⟨hv, ha⟩
    by_cases hap : aPending = true
    · rw [if_pos hap]
      exact always_turn hab (hinv.of_view hv) (d := .ab) (ha hap)
    rw [if_neg hap, always_bind']
    refine (always_hasPending (hinv.of_view hv).at).mono (fun _ => id) ?_
    rintro bPending h - ⟨hv, hb⟩
    by_cases hbp : bPending = true
    · rw [if_pos hbp]
      exact always_turn hab (hinv.of_view hv) (d := .ba) (hb hbp)
    rw [if_neg hbp]
    exact always_pollRound hab (hinv.of_view hv)

theorem relayInv_start (ha : a.Writable) (hb : b.Writable) : RelayInv a b ⟨a, b, true, true⟩ [] := by
  refine ⟨?_, ?_, ?_, rfl⟩
  · rintro (_ | _) <;> rfl
  · rintro (_ | _) <;> rfl
  · rintro (_ | _) -
    · exact hb
    · exact ha

/-- **A relay keeps the discipline of a conduit**, from nothing and in any
environment. -/
theorem always_wcatRelayBidirectional (hab : a.obj ≠ b.obj) (ha : a.Writable) (hb : b.Writable)
    (opts : RelayOptions) :
    Always legal (Follows (relayWiring a b) (relaySt a b true true))
      (wcatRelayBidirectional a b opts) (Settled a b) [] :=
  Always.loop (RelayInv a b) (relayInv_start ha hb) fun _ _ hinv => always_relayRound hab hinv

end Wirecat
