import Wirecat.Footprint
import Wirecat.Interaction.Progress
import Wirecat.RelayRun

/-!
# Byte fidelity of the relay

What `Wirecat.RelayRun` says of the conduit of a relay, said of its runs: what each
stream has accepted is at every moment a prefix of what was read from the other
(`Wirecat.Fidelity`).

The last part of that statement is about what a relay does *not* do: after a write
that came up short there is no further event. This alone would allow a relay that
hangs, so it is shown that the relay is busy – it goes round no loop without asking
the system for something – and therefore returns when nothing further may be asked.
-/

namespace Wirecat

open CString Interaction Conduit

/-! ### The relay is busy -/

theorem busy_wcatFullWrite (via : Via) (fd : Fd) (buf : Bytes) : Busy (wcatFullWrite via fd buf) := by
  refine Busy.loop (fun off => ?_) (fun off => ?_) 0
  · split_ifs
    · refine (busy_request _).bind' ?_
      rintro (⟨_ | n, -⟩ | err)
      · exact busy_pure _
      · exact busy_pure _
      · cases err <;> exact busy_pure _
    · exact busy_pure _
  · split_ifs
    · trivial
    · rfl

theorem busy_wcatCloseQuiet (fd : Fd) : Busy (wcatCloseQuiet fd) := by
  refine Busy.loop (fun _ => (busy_request _).bind' fun r => ?_) (fun _ => asks_request) ()
  rcases r with _ | err
  · exact busy_pure _
  · cases err <;> exact busy_pure _

theorem busy_quicHandleEvents (t : TlsStream) : Busy (quicHandleEvents t) := by
  rw [quicHandleEvents]
  split_ifs
  · exact (busy_request _).bind' fun _ => busy_pure ()
  · exact busy_pure ()

theorem busy_waitReady (fd : Fd) (pollin : Bool) (timeout : ℤ) :
    Busy (waitReady fd pollin timeout) := by
  refine Busy.loop (fun _ => (busy_request _).bind' fun r => ?_) (fun _ => asks_request) ()
  rcases r with err | _ | _
  · cases err <;> exact busy_pure _
  · exact busy_pure _
  · exact busy_pure _

theorem busy_wcatTlsRead (o : Obj) (t : TlsStream) (len : ℕ) : Busy (wcatTlsRead o t len) := by
  refine (busy_quicHandleEvents t).bind' fun _ => (busy_request _).bind' fun r => ?_
  rcases r with _ | err
  · exact busy_pure _
  · simp only
    split_ifs
    · exact (busy_quicHandleEvents t).bind' fun _ => busy_pure _
    · exact busy_pure _

theorem busy_wcatTlsWrite (o : Obj) (t : TlsStream) (buf : Bytes) : Busy (wcatTlsWrite o t buf) := by
  refine Busy.loop (fun off => ?_) (fun off => ?_) 0
  · split_ifs
    · refine (busy_quicHandleEvents t).bind' fun _ => (busy_request _).bind' fun r => ?_
      rcases r with _ | err
      · exact (busy_quicHandleEvents t).bind' fun _ => busy_pure _
      · simp only
        split_ifs
        · refine (busy_quicHandleEvents t).bind' fun _ => (busy_waitReady _ _ _).bind' fun res => ?_
          rcases res with _ | _ | _ <;> exact busy_pure _
        · exact busy_pure _
    · exact (busy_quicHandleEvents t).bind' fun _ => busy_pure _
  · split_ifs
    · exact Asks.bind' (Asks.all fun _ => trivial)
    · exact Asks.bind' (Asks.all fun _ => rfl)

theorem busy_wcatTlsShutdownWrite (t : TlsStream) : Busy (wcatTlsShutdownWrite t) := by
  rw [wcatTlsShutdownWrite]
  split_ifs
  · exact busy_pure ()
  · refine Busy.loop (fun _ => (busy_request _).bind' fun stop => ?_) (fun _ => asks_request) ()
    split_ifs
    · exact busy_pure _
    · refine (busy_quicHandleEvents t).bind' fun _ => (busy_request _).bind' fun r => ?_
      rcases r with _ | err
      · exact busy_pure _
      · simp only
        split_ifs
        · refine (busy_waitReady _ _ _).bind' fun res => ?_
          cases res <;> exact busy_pure _
        · exact busy_pure _
  · exact (busy_request _).bind' fun _ => busy_pure ()

section Streams

variable (s : Stream)

theorem busy_read (len : ℕ) : Busy (s.read len) := by
  obtain ⟨o, _ | t, close⟩ := s
  · exact busy_request _
  · exact busy_wcatTlsRead o t len

theorem busy_write (buf : Bytes) : Busy (s.write buf) := by
  obtain ⟨o, ⟨rawFd, _ | writeFd, can⟩ | t, close⟩ := s
  · exact busy_pure _
  · exact busy_wcatFullWrite _ _ _
  · exact busy_wcatTlsWrite o t buf

theorem busy_shutdownWrite : Busy s.shutdownWrite := by
  obtain ⟨o, ⟨rawFd, _ | writeFd, _ | _⟩ | t, close⟩ := s
  · exact busy_pure _
  · exact busy_pure _
  · exact busy_pure _
  · rw [Stream.shutdownWrite]
    simp only
    split_ifs
    · exact (busy_request _).bind' fun _ => busy_pure _
    · exact (busy_wcatCloseQuiet _).bind' fun _ => busy_pure _
  · exact (busy_wcatTlsShutdownWrite t).bind' fun _ => busy_pure _

theorem busy_pending : Busy s.pending := by
  obtain ⟨o, _ | t, close⟩ := s
  · exact busy_pure _
  · exact (busy_quicHandleEvents t).bind' fun _ => busy_request _

theorem busy_tick : Busy s.tick := by
  obtain ⟨o, _ | t, close⟩ := s
  · exact busy_pure _
  · rw [Stream.tick]
    simp only [wcatTlsTick]
    split_ifs
    · exact busy_request _
    · exact busy_pure _

/-- A stream is read by a request. -/
theorem asks_read (len : ℕ) {Q : ReadRes len → Prop} : Asks (s.read len) Q := by
  obtain ⟨o, _ | t, close⟩ := s
  · trivial
  · exact Asks.bind' (Asks.all fun _ => trivial)

end Streams

theorem busy_pumpOnce (src dst : Stream) (label : String) (opts : RelayOptions) :
    Busy (pumpOnce src dst label opts) := by
  refine Busy.bind' (Busy.loop (fun _ => (busy_read src _).bind' fun r => ?_)
    (fun _ => Asks.bind' (asks_read src _)) ()) fun r => ?_
  · rcases r with _ | _ | err
    · exact busy_pure _
    · exact busy_pure _
    · cases err <;> exact busy_pure _
  rcases r with ⟨buf, -, -⟩ | _ | err
  · have hdump : Busy (if opts.hex = true then sys (.hexdump label buf) else pure ()) := by
      split_ifs
      · exact busy_request _
      · exact busy_pure ()
    refine hdump.bind' fun _ => (busy_write dst buf).bind' fun n => ?_
    split_ifs <;> exact busy_pure _
  · exact busy_pure _
  · cases err <;> exact busy_pure _

theorem busy_pumpDir (d : Dir) (opts : RelayOptions) (s : RelayState) : Busy (pumpDir d opts s) := by
  refine (busy_pumpOnce _ _ _ _).bind' fun r => ?_
  cases r with
  | more => exact busy_pure _
  | failed => exact busy_pure _
  | ended =>
    refine (busy_shutdownWrite _).bind' fun t => ?_
    simp only
    split_ifs <;> exact busy_pure _

theorem busy_pumpReady (ra rb : Revents) (opts : RelayOptions) (s : RelayState) :
    Busy (pumpReady ra rb opts s) := by
  have hfirst : Busy (if (ra.pollin || ra.pollhup) = true then pumpDir .ab opts s
      else pure (.inl s)) := by
    split_ifs
    · exact busy_pumpDir _ _ _
    · exact busy_pure _
  refine hfirst.bind' fun r => ?_
  rcases r with s | result
  · simp only
    split_ifs
    · exact busy_pumpDir _ _ _
    · exact busy_pure _
  · exact busy_pure _

theorem busy_pollRound (af bf : Fd) (opts : RelayOptions) (s : RelayState) :
    Busy (pollRound af bf opts s) := by
  refine (busy_request _).bind' fun r => ?_
  rcases r with err | _ | ⟨revents, hlen, hev, hign⟩
  · cases err <;> exact busy_pure _
  · simp only
    split_ifs
    · exact busy_pure _
    · exact (busy_request _).bind' fun _ => busy_pure _
  · exact busy_pumpReady _ _ _ _

theorem busy_hasPending (active : Bool) (t : Stream) : Busy (hasPending active t) := by
  rw [hasPending]
  split_ifs
  · exact (busy_pending t).bind' fun _ => busy_pure _
  · exact busy_pure _

theorem busy_relayRound (af bf : Fd) (opts : RelayOptions) (s : RelayState) :
    Busy (relayRound af bf opts s) := by
  refine (busy_request _).bind' fun stop => ?_
  split_ifs
  · exact busy_pure _
  · exact busy_pure _
  · have htick : Busy (tickBoth s) := by
      refine (busy_tick s.a).bind' fun tick => ?_
      split_ifs
      · exact busy_tick s.b
      · exact busy_pure _
    refine htick.bind' fun tick => ?_
    split_ifs
    · exact busy_pure _
    · refine (busy_hasPending _ _).bind' fun pending => ?_
      split_ifs
      · exact busy_pumpDir _ _ _
      · refine (busy_hasPending _ _).bind' fun pending => ?_
        split_ifs
        · exact busy_pumpDir _ _ _
        · exact busy_pollRound _ _ _ _

/-- **A relay is always waiting for an answer**, or it has returned. -/
theorem busy_wcatRelayBidirectional (a b : Stream) (opts : RelayOptions) :
    Busy (wcatRelayBidirectional a b opts) :=
  Busy.loop (busy_relayRound _ _ _) (fun _ => asks_request) _

/-! ### After a write that came up short -/

variable {w : Wiring Obj} {s₀ s : St Obj UInt8} {h : Hist} {ev : Ev}

/-- Nothing happens once the conduit has broken off. -/
theorem BrokenOff.last {e : Sys} {r : Resp e} (hb : BrokenOff w s₀ h) :
    ¬Follows w s₀ (⟨e, r⟩ :: h) := by
  obtain ⟨s, hv, hclosed, hcarry⟩ := hb
  intro hf
  obtain ⟨s', hv'⟩ := Option.isSome_iff_exists.mp hf
  obtain ⟨s₁, hv₁, hwhole, -⟩ := view_cons.mp hv'
  obtain rfl := Option.some.inj (hv.symm.trans hv₁)
  exact hcarry (hwhole hclosed)

/-- A short write breaks the conduit off, so it is the last event. -/
theorem brokenOff_of_short (hv : view w s₀ h = some s) (hmem : ev ∈ h)
    (hobs : obs ev.1 ev.2 = some .short) : BrokenOff w s₀ h ∧ ∃ older, h = ev :: older := by
  induction h generalizing s with
  | nil => simp at hmem
  | cons ev' h ih =>
    obtain ⟨e, r⟩ := ev'
    obtain ⟨s₁, hv₁, hwhole, hadv⟩ := view_cons.mp hv
    rcases List.mem_cons.mp hmem with rfl | hmem
    · rw [hobs] at hadv
      obtain ⟨⟨-, hcarry⟩, rfl⟩ := (step_short (w := w)).mp hadv
      exact ⟨⟨_, hv, rfl, hcarry⟩, h, rfl⟩
    · exact absurd (follows_of_view hv) (ih hv₁ hmem).1.last

/-! ### Fidelity -/

/-- What a stream is used for: under its name bytes are read from the descriptor it reads, and
written to the one it writes. -/
def Stream.Uses (s : Stream) : Sys → Prop
  | .read (.stream o) fd _ _ _ => o = s.obj ∧ ∃ w c, s.io = .fd fd w c
  | .write (.stream o) fd _ => o = s.obj ∧ ∃ r c, s.io = .fd r (some fd) c
  | .sslRead o fd _ | .sslWrite o fd _ => o = s.obj ∧ ∃ t : TlsStream, s.io = .tls t ∧ t.fd = fd
  | _ => True

theorem streamIn_uses (s : Stream) : StreamIn s.Uses s := by
  obtain ⟨o, ⟨r, w, c⟩ | t, close⟩ := s
  · refine ⟨fun _ => ⟨rfl, w, c, rfl⟩, fun fd hfd => ⟨fun _ => ⟨rfl, r, c, ?_⟩, fun _ => trivial⟩⟩
    rw [Option.mem_def.mp hfd]
  · exact ⟨fun _ => ⟨rfl, t, rfl, rfl⟩, fun _ => ⟨rfl, t, rfl, rfl⟩, trivial, trivial⟩

theorem Stream.uses_of_still (s : Stream) (e : Sys) (he : Still e = true) : s.Uses e := by
  cases e with
  | read | write | sslRead | sslWrite => exact absurd he Bool.false_ne_true
  | _ => trivial

variable {a b : Stream}

/-- A relay does nothing under the name of a stream but on the descriptors of its own. -/
theorem uses_of_runs {opts : RelayOptions} {h ext : Hist} {o : Option Bool}
    (hr : Runs Legal (wcatRelayBidirectional a b opts) h (ext ++ h) o) :
    ∀ ev ∈ ext, a.Uses ev.1 ∨ b.Uses ev.1 := by
  have hwithin : Within (fun e => a.Uses e ∨ b.Uses e) (wcatRelayBidirectional a b opts)
      fun _ => True :=
    within_wcatRelayBidirectional (fun e he => .inl (a.uses_of_still e he)) (.inl trivial)
      ((streamIn_uses a).mono fun _ => .inl) ((streamIn_uses b).mono fun _ => .inr) opts
  obtain ⟨new, hnew, hev⟩ := hwithin.events hr
  rwa [List.append_cancel_right hnew]

/-- **Byte fidelity** of a relay between `a` and `b` that is started after the history
`h`. What happens from then on is a list `ext` of events, newest first. -/
structure Fidelity (a b : Stream) (opts : RelayOptions) (h : Hist) : Prop where
  /-- What is read from a stream, and what it accepts, goes through its own descriptors. -/
  own_descriptors : ∀ ext o, Runs Legal (wcatRelayBidirectional a b opts) h (ext ++ h) o →
    ∀ ev ∈ ext, a.Uses ev.1 ∨ b.Uses ev.1
  /-- At a loop head, each stream has accepted all that was read from the other. -/
  loop_head : ∀ s₁ h₁, Reaches Legal (relayRound a.fd b.fd opts) ⟨a, b, true, true⟩ h s₁ h₁ →
    ∃ ext, h₁ = ext ++ h ∧ bytesWritten b.obj ext = bytesRead a.obj ext ∧
      bytesWritten a.obj ext = bytesRead b.obj ext
  /-- At any moment, each stream has accepted a prefix of what was read from the other. -/
  accepted_prefix : ∀ h' o, Runs Legal (wcatRelayBidirectional a b opts) h h' o →
    ∃ ext, h' = ext ++ h ∧ bytesWritten b.obj ext <+: bytesRead a.obj ext ∧
      bytesWritten a.obj ext <+: bytesRead b.obj ext
  /-- When the relay returns `0`, each stream has accepted all that was read from the
  other. -/
  success : ∀ ext, Runs Legal (wcatRelayBidirectional a b opts) h (ext ++ h) (some true) →
    bytesWritten b.obj ext = bytesRead a.obj ext ∧ bytesWritten a.obj ext = bytesRead b.obj ext
  /-- A write that comes up short is the last thing that happens, and the relay
  returns `-1`. -/
  short_write : ∀ ext o, Runs Legal (wcatRelayBidirectional a b opts) h (ext ++ h) o →
    ∀ ev ∈ ext, obs ev.1 ev.2 = some .short → (∃ older, ext = ev :: older) ∧ o ≠ some true ∧
      Runs Legal (wcatRelayBidirectional a b opts) h (ext ++ h) (some false)

/-- The bytes accepted by each stream of a relay, and those in hand for it, are those
read from the other. -/
theorem written_append_owed (hab : a.obj ≠ b.obj) {h : Hist}
    (hv : view (relayWiring a b) (relaySt a b true true) h = some s) :
    bytesWritten b.obj h ++ s.owed b.obj = bytesRead a.obj h ∧
      bytesWritten a.obj h ++ s.owed a.obj = bytesRead b.obj h := by
  have hrun := run_of_view hv
  have hb := put_append_owed rfl hrun b.obj
  have ha := put_append_owed rfl hrun a.obj
  exact ⟨hb.trans (routedTo_eq_gotFrom (relayWiring_peer_iff hab .ab) _),
    ha.trans (routedTo_eq_gotFrom (relayWiring_peer_iff hab .ba) _)⟩

/-- With nothing in hand, each stream has accepted all that was read from the other. -/
theorem written_eq_read (hab : a.obj ≠ b.obj) {h : Hist}
    (hv : view (relayWiring a b) (relaySt a b true true) h = some s) (hc : s.carry = none) :
    bytesWritten b.obj h = bytesRead a.obj h ∧ bytesWritten a.obj h = bytesRead b.obj h := by
  obtain ⟨hb, ha⟩ := written_append_owed hab hv
  simp only [St.owed, hc, List.append_nil] at hb ha
  exact ⟨hb, ha⟩

/-- **The relay is faithful**, from any history on. -/
theorem wcatRelayBidirectional_fidelity (hab : a.obj ≠ b.obj) (ha : a.Writable) (hb : b.Writable)
    (opts : RelayOptions) (h : Hist) : Fidelity a b opts h where
  own_descriptors _ _ hr := uses_of_runs hr
  loop_head s₁ h₁ hr := by
    obtain ⟨ext, rfl, hr'⟩ := Reaches.shift (g := []) (fun _ _ _ _ hb => Runs.shift hb) hr
    have hinv := Reaches.always hr' (relayInv_start ha hb) fun _ _ hinv => always_relayRound hab hinv
    exact ⟨ext, rfl, written_eq_read hab hinv.view_eq rfl⟩
  accepted_prefix h' o hr := by
    obtain ⟨ext, rfl, hr'⟩ := Runs.shift (g := []) hr
    have hfollows := (always_wcatRelayBidirectional hab ha hb opts).safe hr'
    obtain ⟨s, hv⟩ := Option.isSome_iff_exists.mp hfollows
    obtain ⟨hb, ha⟩ := written_append_owed hab hv
    exact ⟨ext, rfl, ⟨_, hb⟩, ⟨_, ha⟩⟩
  success ext hr := by
    obtain ⟨s, hv, hc, -⟩ := (always_wcatRelayBidirectional hab ha hb opts).post hr.ext
    exact written_eq_read hab hv hc
  short_write ext o hr ev hmem hobs := by
    have halways := @always_wcatRelayBidirectional _ _ (After Legal h) hab ha hb opts
    obtain ⟨s, hv⟩ := Option.isSome_iff_exists.mp (halways.safe hr.ext)
    obtain ⟨hbroken, hlast⟩ := brokenOff_of_short hv hmem hobs
    have hfail : ∀ ok, Runs Legal (wcatRelayBidirectional a b opts) h (ext ++ h) (some ok) →
        ok = false := by
      rintro (_ | _) hok
      · rfl
      · obtain ⟨s', hv', hc', -⟩ := halways.post hok.ext
        obtain ⟨s'', hv'', -, hcarry⟩ := hbroken
        obtain rfl := Option.some.inj (hv'.symm.trans hv'')
        exact absurd hc' hcarry
    refine ⟨hlast, fun ho => absurd (hfail true (ho ▸ hr)) (by simp), ?_⟩
    rcases o with _ | ok
    · -- a run that is cut here has only to return: any request would be one too many
      rcases hr.progress (busy_wcatRelayBidirectional a b opts) with ⟨ok, hok⟩ | ⟨e, he⟩
      · exact hfail ok hok ▸ hok
      · have hmore := he (refuse e) (legal_refuse _ e)
        rw [← List.cons_append] at hmore
        exact absurd (halways.safe hmore.ext) hbroken.last
    · exact hfail ok hr ▸ hr

/-- A text that comes in one piece, and then the end. -/
def readOnce (o : Obj) (text : Bytes) (h : Hist) (len : ℕ) : ReadRes len :=
  if hfits : bytesRead o h = [] ∧ text ≠ [] ∧ text.length ≤ len then .data text hfits.2.1 hfits.2.2
  else .eof

/-- The relay of `wcat connect` without TLS. -/
theorem fidelity_socket_stdio :
    Fidelity (wcatStreamFromFd .net (.sock .tcp 3)) (wcatStreamFromFdPair .stdioStream .stdin .stdout)
      ⟨-1, false⟩ [] :=
  wcatRelayBidirectional_fidelity (by decide) (fun _ _ h => by simp [wcatStreamFromFd] at h)
    (fun _ _ h => by simp [wcatStreamFromFdPair] at h) _ _

end Wirecat
