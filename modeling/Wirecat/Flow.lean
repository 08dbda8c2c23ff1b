import Wirecat.Conduit
import Wirecat.Relay

/-!
# A relay is a conduit

The streams of `Wirecat.Relay` do their work through many requests: a chunk is
written in several pieces, a write that is interrupted is made again, a TLS stream
handles events and polls before it goes on. `Wirecat.obs` reads off an event what a
stream observes by it, and forgets the rest, and `Wirecat.view` is the state of the
conduit a history has brought about.

The lemmas of this file follow the code once, from a single write up to a pump, and
say of each function where it takes the conduit. They hold in any environment: no
answer is excluded. What is then true of every relay is a matter of conduits, and
`Wirecat.RelayRun` reads it off.
-/

namespace Wirecat

open CString Interaction Conduit

/-! ### Observations -/

/-- What a stream observes by the answer to a `read`. -/
def readObs (o : Obj) {len : ℕ} : ReadRes len → Option (Obs Obj UInt8)
  | .data bytes _ _ => some (.got o bytes)
  | .eof => some (.ended o true)
  | .error e => if e = .eintr ∨ e = .eagain then none else some (.ended o false)

/-- What a stream observes by the answer to `SSL_read`. -/
def sslReadObs (o : Obj) {len : ℕ} : SslReadRes len → Option (Obs Obj UInt8)
  | .data bytes _ _ => some (.got o bytes)
  | .error .zeroReturn => some (.ended o true)
  | .error .fatal => some (.ended o false)
  | .error _ => none

/-- What a stream observes by the answer to a `write`. -/
def writeObs (o : Obj) (buf : Bytes) : WriteRes buf.length → Option (Obs Obj UInt8)
  | .wrote n _ => if n = 0 then some .short else some (.put o (buf.take n))
  | .error e => if e = .eintr then none else some .short

/-- What a stream observes by the answer to `SSL_write`. -/
def sslWriteObs (o : Obj) (buf : Bytes) : SslWriteRes buf.length → Option (Obs Obj UInt8)
  | .wrote n _ _ => some (.put o (buf.take n))
  | .error e => if e = .wantRead ∨ e = .wantWrite then none else some .short

/-- A TLS stream that waits for its descriptor in the middle of a write, without a
timeout, and cannot. -/
def waitObs {fds : List PollFd} (timeout : ℤ) : PollRes fds → Option (Obs Obj UInt8)
  | .error e => if fds.length = 1 ∧ timeout = -1 ∧ e ≠ .eintr then some .short else none
  | .timeout => if fds.length = 1 ∧ timeout = -1 then some .short else none
  | .ready _ _ _ _ => none

/-- **What the streams observe by an event.** -/
def obs : (e : Sys) → Resp e → Option (Obs Obj UInt8)
  | .read (.stream o) _ _ _ _, r => readObs o r
  | .sslRead o _ _, r => sslReadObs o r
  | .write (.stream o) _ buf, r => writeObs o buf r
  | .sslWrite o _ buf, r => sslWriteObs o buf r
  | .poll _ timeout, r => waitObs timeout r
  | _, _ => none

/-- The observations of a history. -/
def trace (h : Hist) : List (Obs Obj UInt8) := h.filterMap fun ev => obs ev.1 ev.2

/-- The bytes read from a stream. -/
def bytesRead (o : Obj) (h : Hist) : Bytes := gotFrom o (trace h)

/-- The bytes a stream has accepted. -/
def bytesWritten (o : Obj) (h : Hist) : Bytes := putTo o (trace h)

/-- The conduit after an observation, or after none. -/
def advance (w : Wiring Obj) (s : St Obj UInt8) : Option (Obs Obj UInt8) → Option (St Obj UInt8)
  | none => some s
  | some ob => step w s ob

/-- A conduit that did not break off: it is not over with bytes in hand. -/
def Whole (s : St Obj UInt8) : Prop := s.closed = true → s.carry = none

instance (s : St Obj UInt8) : Decidable (Whole s) :=
  inferInstanceAs (Decidable (s.closed = true → s.carry = none))

/-- **The state of the conduit after a history.** Not even an event that nobody
observes may follow when the conduit has broken off. -/
def view (w : Wiring Obj) (s₀ : St Obj UInt8) : Hist → Option (St Obj UInt8)
  | [] => some s₀
  | ⟨e, r⟩ :: h => (view w s₀ h).bind fun s => if Whole s then advance w s (obs e r) else none

variable {w : Wiring Obj} {s₀ s : St Obj UInt8} {h : Hist} {e : Sys} {r : Resp e}

theorem trace_cons : trace (⟨e, r⟩ :: h) = (obs e r).toList ++ trace h := by
  rw [trace, List.filterMap_cons]
  cases obs e r <;> rfl

theorem trace_append (g h : Hist) : trace (g ++ h) = trace g ++ trace h := List.filterMap_append

theorem bytesWritten_append (o : Obj) (g h : Hist) :
    bytesWritten o (g ++ h) = bytesWritten o h ++ bytesWritten o g := by
  rw [bytesWritten, trace_append, putTo_append]
  rfl

theorem view_cons {s' : St Obj UInt8} : view w s₀ (⟨e, r⟩ :: h) = some s' ↔
    ∃ s, view w s₀ h = some s ∧ Whole s ∧ advance w s (obs e r) = some s' := by
  simp [view, Option.bind_eq_some_iff]

/-- The view of a history is the run of its observations. -/
theorem run_of_view (hv : view w s₀ h = some s) : run w s₀ (trace h) = some s := by
  induction h generalizing s with
  | nil => exact hv
  | cons ev h ih =>
    obtain ⟨e, r⟩ := ev
    obtain ⟨s₁, hv₁, -, hs⟩ := view_cons.mp hv
    rw [trace_cons]
    cases hobs : obs e r with
    | none =>
      rw [hobs] at hs
      obtain rfl := Option.some.inj hs
      exact ih hv₁
    | some ob =>
      rw [hobs] at hs
      exact run_cons.mpr ⟨s₁, ih hv₁, hs⟩

/-- The conduit is in the state `s`, and did not break off. -/
structure At (w : Wiring Obj) (s₀ s : St Obj UInt8) (h : Hist) : Prop where
  view_eq : view w s₀ h = some s
  whole : Whole s

theorem At.advance {s' : St Obj UInt8} (hv : At w s₀ s h) (hs : advance w s (obs e r) = some s') :
    view w s₀ (⟨e, r⟩ :: h) = some s' :=
  view_cons.mpr ⟨s, hv.view_eq, hv.whole, hs⟩

/-- An event nobody observes leaves the conduit as it is. -/
theorem At.silent (hv : At w s₀ s h) (hobs : obs e r = none) : At w s₀ s (⟨e, r⟩ :: h) :=
  ⟨hv.advance (by rw [hobs]; rfl), hv.whole⟩

theorem whole_of_open (hopen : s.closed = false) : Whole s := by
  rw [Whole, hopen]
  exact fun h => absurd h (by simp)

theorem whole_of_idle (hidle : s.carry = none) : Whole s := fun _ => hidle

/-- The conduit follows its discipline: the safety half of every lemma below. -/
def Follows (w : Wiring Obj) (s₀ : St Obj UInt8) (h : Hist) : Prop := (view w s₀ h).isSome

theorem follows_of_view (hv : view w s₀ h = some s) : Follows w s₀ h := by
  rw [Follows, hv]
  rfl

/-- The state with the bytes `rest` in hand for `d`. -/
def holding (s : St Obj UInt8) (d : Obj) (rest : Bytes) : St Obj UInt8 :=
  { s with carry := if rest = [] then none else some (d, rest) }

/-- Delivering the first `n` bytes in hand. -/
theorem step_deliver (w : Wiring Obj) {d : Obj} {rest : Bytes} {n : ℕ}
    (hover : s.closed = false) (hn : 0 < n) (hle : n ≤ rest.length) :
    step w (holding s d rest) (.put d (rest.take n)) = some (holding s d (rest.drop n)) := by
  have hne : rest ≠ [] := by
    rintro rfl
    simp only [List.length_nil] at hle
    omega
  have hlen : (rest.take n).length = n := by
    rw [List.length_take]
    omega
  refine step_put.mpr ⟨rest, by simp [holding, hne], hover, List.take_prefix n rest, ?_⟩
  rw [hlen]
  by_cases heq : n = rest.length
  · simp [holding, heq]
  · have hdrop : rest.drop n ≠ [] := by
      rw [Ne, List.drop_eq_nil_iff]
      omega
    simp [holding, heq, hdrop]

/-- A delivery that comes up short ends the conduit. -/
theorem step_give_up (w : Wiring Obj) {d : Obj} {rest : Bytes} (hover : s.closed = false)
    (hne : rest ≠ []) :
    step w (holding s d rest) .short = some { holding s d rest with closed := true } :=
  step_short.mpr ⟨⟨hover, by simp [holding, hne]⟩, rfl⟩

/-- The conduit is over with bytes in hand. -/
def BrokenOff (w : Wiring Obj) (s₀ : St Obj UInt8) (h : Hist) : Prop :=
  ∃ s, view w s₀ h = some s ∧ s.closed = true ∧ s.carry ≠ none

theorem BrokenOff.follows (hb : BrokenOff w s₀ h) : Follows w s₀ h :=
  follows_of_view hb.choose_spec.1

/-- Where a write of `buf` to `d` leaves the conduit: with nothing in hand when it
accepted all of it, broken off when it did not. -/
def Wrote (w : Wiring Obj) (s₀ s : St Obj UInt8) (buf : Bytes) (n : Option ℕ) (h : Hist) : Prop :=
  if n = some buf.length then view w s₀ h = some { s with carry := none } else BrokenOff w s₀ h

/-! ### Following a program -/

variable {legal : Hist → (e : Sys) → Resp e → Prop} {α β : Type} {Q : α → Hist → Prop}

/-- **One request**: the conduit takes the step its answer says, and the rest of the
program is followed from there. -/
theorem Always.observe {k : Resp e → Proc α} (hv : At w s₀ s h)
    (hk : ∀ r, ∃ s', advance w s (obs e r) = some s' ∧
      ∀ h', view w s₀ h' = some s' → Always legal (Follows w s₀) (k r) Q h') :
    Always legal (Follows w s₀) (sys e >>= k) Q h := by
  rw [sys, Prog.request_bind', always_call]
  refine ⟨follows_of_view hv.view_eq, fun r _ => ?_⟩
  obtain ⟨s', hs, hrest⟩ := hk r
  exact hrest _ (hv.advance hs)

theorem Always.done {a : α} (hv : view w s₀ h = some s) (hQ : Q a h) :
    Always legal (Follows w s₀) (pure a) Q h :=
  always_pure.mpr ⟨follows_of_view hv, hQ⟩

/-- A part of a program that leaves the conduit as it is. -/
def Silent (p : Proc α) : Prop :=
  ∀ (legal : Hist → (e : Sys) → Resp e → Prop) (w : Wiring Obj) (s₀ s : St Obj UInt8) (h : Hist),
    At w s₀ s h → Always legal (Follows w s₀) p (fun _ h' => At w s₀ s h') h

theorem Silent.always {p : Proc β} {k : β → Proc α} (hp : Silent p) (hv : At w s₀ s h)
    (hk : ∀ b h', At w s₀ s h' → Always legal (Follows w s₀) (k b) Q h') :
    Always legal (Follows w s₀) (p >>= k) Q h :=
  always_bind'.mpr ((hp legal w s₀ s h hv).post_mono hk)

theorem silent_pure (a : α) : Silent (pure a : Proc α) :=
  fun _ _ _ _ _ hv => Always.done hv.view_eq hv

theorem silent_sys (hobs : ∀ r, obs e r = none) : Silent (sys e) :=
  fun _ _ _ _ _ hv => always_request.mpr ⟨follows_of_view hv.view_eq, fun r _ =>
    ⟨follows_of_view (hv.silent (hobs r)).view_eq, hv.silent (hobs r)⟩⟩

theorem Silent.bind {p : Proc β} {k : β → Proc α} (hp : Silent p) (hk : ∀ b, Silent (k b)) :
    Silent (p >>= k) :=
  fun _ _ _ _ _ hv => hp.always hv fun b _ hv => hk b _ _ _ _ _ hv

theorem Silent.loop {σ : Type} {body : σ → Proc (σ ⊕ α)} (hbody : ∀ x, Silent (body x)) (x : σ) :
    Silent (Prog.loop body x) := by
  intro legal w s₀ s h hv
  refine Always.loop (fun _ h => At w s₀ s h) hv fun x h hv => ?_
  refine (hbody x legal w s₀ s h hv).post_mono ?_
  rintro (_ | _) h' hv' <;> exact hv'

/-! ### Writing -/

/-- `wcat_full_write` delivers what it is given, in order, or breaks off. -/
theorem always_wcatFullWrite {d : Obj} {fd : Fd} {buf : Bytes} (hover : s.closed = false)
    (hv : view w s₀ h = some (holding s d buf)) :
    Always legal (Follows w s₀) (wcatFullWrite (.stream d) fd buf) (Wrote w s₀ s buf) h := by
  refine Always.loop (fun off h => off ≤ buf.length ∧
    view w s₀ h = some (holding s d (buf.drop off))) ⟨by omega, hv⟩ ?_
  rintro off h ⟨hoff, hv⟩
  split_ifs with hlt
  · have hne : buf.drop off ≠ [] := by
      rw [Ne, List.drop_eq_nil_iff]
      omega
    refine Always.observe ⟨hv, whole_of_open hover⟩ ?_
    rintro (⟨_ | n, hn⟩ | err)
    · -- nothing was accepted
      refine ⟨_, step_give_up w hover hne, fun h' hv' => Always.done hv' ?_⟩
      rw [roundPost_inr, Wrote, if_neg (by simp only [Option.some.injEq]; omega)]
      exact ⟨_, hv', rfl, by simp [holding, hne]⟩
    · rw [List.length_drop] at hn
      refine ⟨_, step_deliver w hover (Nat.succ_pos n) (by simpa using hn), fun h' hv' => ?_⟩
      rw [List.drop_drop] at hv'
      exact Always.done hv' ⟨by omega, hv'⟩
    · by_cases he : err = .eintr
      · subst he
        exact ⟨_, rfl, fun h' hv' => Always.done hv' ⟨hoff, hv'⟩⟩
      · refine ⟨{ holding s d (buf.drop off) with closed := true }, ?_, fun h' hv' => ?_⟩
        · simp only [obs, writeObs, if_neg he]
          exact step_give_up w hover hne
        · have hQ : Wrote w s₀ s buf none h' := by
            rw [Wrote, if_neg (by simp)]
            exact ⟨_, hv', rfl, by simp [holding, hne]⟩
          cases err <;> first | exact absurd rfl he | exact Always.done hv' hQ
  · refine Always.done hv ?_
    obtain rfl : off = buf.length := by omega
    rw [roundPost_inr, Wrote, if_pos rfl, hv]
    simp [holding]

theorem silent_quicHandleEvents (t : TlsStream) : Silent (quicHandleEvents t) := by
  rw [quicHandleEvents]
  split_ifs
  · exact (silent_sys fun _ => rfl).bind fun _ => silent_pure ()
  · exact silent_pure ()

/-- Waiting in the middle of a write: the bytes stay in hand, or the conduit breaks
off. -/
theorem always_waitReady {d : Obj} {rest : Bytes} {fd : Fd} {pollin : Bool}
    (hover : s.closed = false) (hne : rest ≠ []) (hv : view w s₀ h = some (holding s d rest)) :
    Always legal (Follows w s₀) (waitReady fd pollin (-1))
      (fun res h' => match res with
        | .ok true => view w s₀ h' = some (holding s d rest)
        | _ => BrokenOff w s₀ h') h := by
  refine Always.loop (fun _ h => view w s₀ h = some (holding s d rest)) hv ?_
  rintro - h hv
  refine Always.observe ⟨hv, whole_of_open hover⟩ ?_
  have hbroken : ∀ h', view w s₀ h' = some { holding s d rest with closed := true } →
      BrokenOff w s₀ h' := fun h' hv' => ⟨_, hv', rfl, by simp [holding, hne]⟩
  rintro (err | _ | ⟨revents, hlen, hev, hign⟩)
  · by_cases he : err = .eintr
    · subst he
      exact ⟨_, rfl, fun h' hv' => Always.done hv' hv'⟩
    · refine ⟨{ holding s d rest with closed := true }, ?_, fun h' hv' => ?_⟩
      · simp only [obs, waitObs, List.length_singleton, ne_eq, he, not_false_eq_true, and_self,
          if_true]
        exact step_give_up w hover hne
      · have hQ := hbroken h' hv'
        cases err <;> first | exact absurd rfl he | exact Always.done hv' hQ
  · exact ⟨_, step_give_up w hover hne, fun h' hv' => Always.done hv' (hbroken h' hv')⟩
  · exact ⟨_, rfl, fun h' hv' => Always.done hv' hv'⟩

/-- `wcat_tls_write` delivers what it is given, in order, or breaks off. -/
theorem always_wcatTlsWrite {d : Obj} {t : TlsStream} {buf : Bytes} (hover : s.closed = false)
    (hv : view w s₀ h = some (holding s d buf)) :
    Always legal (Follows w s₀) (wcatTlsWrite d t buf) (Wrote w s₀ s buf) h := by
  refine Always.loop (fun off h => off ≤ buf.length ∧
    view w s₀ h = some (holding s d (buf.drop off))) ⟨by omega, hv⟩ ?_
  rintro off h ⟨hoff, hv⟩
  have hbroken : ∀ h', BrokenOff w s₀ h' → Wrote w s₀ s buf none h' := by
    intro h' hb
    rwa [Wrote, if_neg (by simp)]
  split_ifs with hlt
  · have hne : buf.drop off ≠ [] := by
      rw [Ne, List.drop_eq_nil_iff]
      omega
    refine (silent_quicHandleEvents t).always ⟨hv, whole_of_open hover⟩ fun _ h hv =>
      Always.observe hv ?_
    rintro (⟨n, hpos, hn⟩ | err)
    · rw [List.length_drop] at hn
      refine ⟨_, step_deliver w hover hpos (by simpa using hn), fun h' hv' => ?_⟩
      rw [List.drop_drop] at hv'
      exact (silent_quicHandleEvents t).always ⟨hv', whole_of_open hover⟩ fun _ h hv =>
        Always.done hv.view_eq ⟨by omega, hv.view_eq⟩
    · by_cases he : err = .wantRead ∨ err = .wantWrite
      · refine ⟨holding s d (buf.drop off), by simp only [obs, sslWriteObs, if_pos he]; rfl, ?_⟩
        intro h' hv'
        simp only [if_pos he]
        refine (silent_quicHandleEvents t).always ⟨hv', whole_of_open hover⟩ fun _ h hv =>
          always_bind'.mpr ?_
        refine (always_waitReady hover hne hv.view_eq).mono (fun _ => id) ?_
        rintro (err | ready) h - hQ
        · exact always_pure.mpr ⟨hQ.follows, hbroken h hQ⟩
        · cases ready with
          | false => exact always_pure.mpr ⟨BrokenOff.follows hQ, hbroken h hQ⟩
          | true => exact Always.done hQ ⟨hoff, hQ⟩
      · refine ⟨{ holding s d (buf.drop off) with closed := true }, ?_, fun h' hv' => ?_⟩
        · simp only [obs, sslWriteObs, if_neg he]
          exact step_give_up w hover hne
        · simp only [if_neg he]
          exact Always.done hv' (hbroken h' ⟨_, hv', rfl, by simp [holding, hne]⟩)
  · refine (silent_quicHandleEvents t).always ⟨hv, whole_of_open hover⟩ fun _ h hv =>
      Always.done hv.view_eq ?_
    obtain rfl : off = buf.length := by omega
    rw [roundPost_inr, Wrote, if_pos rfl, hv.view_eq]
    simp [holding]

/-! ### Reading -/

/-- The conduit after a read of the stream `o` was answered by `r`. -/
def afterRead (w : Wiring Obj) (s : St Obj UInt8) (o : Obj) {len : ℕ} : ReadRes len → St Obj UInt8
  | .data bytes _ _ => { s with carry := some (w.peer o, bytes) }
  | .eof => { s with live := Function.update s.live o false, closed := w.closes o }
  | .error e =>
      if e = .eintr ∨ e = .eagain then s
      else { s with live := Function.update s.live o false, closed := w.closes o }

/-- A stream that may be read: the conduit is open, nothing is in hand, and the
stream has not ended. -/
structure Ready (s : St Obj UInt8) (o : Obj) : Prop where
  opened : s.closed = false
  live : s.live o = true
  idle : s.carry = none

theorem Ready.step_got {o : Obj} (hs : Ready s o) {bytes : Bytes} (hne : bytes ≠ []) :
    step w s (.got o bytes) = some { s with carry := some (w.peer o, bytes) } :=
  Conduit.step_got.mpr ⟨⟨hs.opened, hs.live, hs.idle, hne⟩, rfl⟩

theorem Ready.step_ended {o : Obj} (hs : Ready s o) (c : Bool) :
    step w s (.ended o c) =
      some { s with live := Function.update s.live o false, closed := w.closes o } :=
  Conduit.step_ended.mpr ⟨⟨hs.opened, hs.live, hs.idle⟩, rfl⟩

/-- Reading a stream: what is returned says what was observed. -/
theorem always_read {src : Stream} {len : ℕ} (hs : Ready s src.obj) (hv : view w s₀ h = some s) :
    Always legal (Follows w s₀) (src.read len)
      (fun r h' => view w s₀ h' = some (afterRead w s src.obj r)) h := by
  obtain ⟨o, ⟨rawFd, writeFd, can⟩ | t, close⟩ := src
  · rw [Stream.read, always_request]
    refine ⟨follows_of_view hv, fun r _ => ?_⟩
    have hv' : view w s₀ (⟨.read (.stream o) rawFd len 0 len, r⟩ :: h) =
        some (afterRead w s o r) := by
      refine At.advance ⟨hv, whole_of_open hs.opened⟩ ?_
      rcases r with ⟨bytes, hne, -⟩ | - | err
      · exact hs.step_got hne
      · exact hs.step_ended true
      · simp only [obs, readObs, afterRead]
        split_ifs
        · rfl
        · exact hs.step_ended false
    exact ⟨follows_of_view hv', hv'⟩
  · rw [Stream.read]
    refine (silent_quicHandleEvents t).always ⟨hv, whole_of_open hs.opened⟩ fun _ h hv =>
      Always.observe hv ?_
    rintro (⟨bytes, hne, hle⟩ | err)
    · exact ⟨_, hs.step_got hne, fun h' hv' => Always.done hv' hv'⟩
    · cases err with
      | wantRead =>
        exact ⟨s, rfl, fun h' hv' => (silent_quicHandleEvents t).always ⟨hv', hv.whole⟩ fun _ h hv =>
          Always.done hv.view_eq hv.view_eq⟩
      | wantWrite =>
        exact ⟨s, rfl, fun h' hv' => (silent_quicHandleEvents t).always ⟨hv', hv.whole⟩ fun _ h hv =>
          Always.done hv.view_eq hv.view_eq⟩
      | zeroReturn => exact ⟨_, hs.step_ended true, fun h' hv' => Always.done hv' hv'⟩
      | fatal => exact ⟨_, hs.step_ended false, fun h' hv' => Always.done hv' hv'⟩

/-! ### Streams -/

/-- Whether a stream still has its writing side. -/
def Stream.Writable (s : Stream) : Prop := ∀ rawFd can, s.io ≠ .fd rawFd none can

/-- Writing to a stream. -/
theorem always_write {dst : Stream} {buf : Bytes} (hover : s.closed = false)
    (hdst : dst.Writable) (hv : view w s₀ h = some (holding s dst.obj buf)) :
    Always legal (Follows w s₀) (dst.write buf) (Wrote w s₀ s buf) h := by
  obtain ⟨d, ⟨rawFd, _ | writeFd, can⟩ | t, close⟩ := dst
  · exact absurd rfl (hdst rawFd can)
  · exact always_wcatFullWrite hover hv
  · exact always_wcatTlsWrite hover hv

theorem silent_wcatCloseQuiet (fd : Fd) : Silent (wcatCloseQuiet fd) := by
  refine Silent.loop (fun _ => (silent_sys fun _ => rfl).bind fun r => ?_) ()
  rcases r with _ | err
  · exact silent_pure _
  · cases err <;> exact silent_pure _

/-- A wait with a timeout is not observed. -/
theorem silent_waitReady {fd : Fd} {pollin : Bool} {timeout : ℤ} (ht : timeout ≠ -1) :
    Silent (waitReady fd pollin timeout) := by
  refine Silent.loop (fun _ => (silent_sys fun r => ?_).bind fun r => ?_) ()
  · rcases r with err | _ | _
    · exact if_neg fun h => ht h.2.1
    · exact if_neg fun h => ht h.2
    · rfl
  · rcases r with err | _ | _
    · cases err <;> exact silent_pure _
    · exact silent_pure _
    · exact silent_pure _

theorem silent_wcatTlsShutdownWrite (t : TlsStream) : Silent (wcatTlsShutdownWrite t) := by
  rw [wcatTlsShutdownWrite]
  split_ifs
  · exact silent_pure ()
  · refine Silent.loop (fun _ => (silent_sys fun _ => rfl).bind fun stop => ?_) ()
    split_ifs
    · exact silent_pure _
    · refine (silent_quicHandleEvents t).bind fun _ => (silent_sys fun _ => rfl).bind fun r => ?_
      rcases r with _ | err
      · exact silent_pure _
      · simp only
        split_ifs
        · refine (silent_waitReady (by decide)).bind fun res => ?_
          cases res <;> exact silent_pure _
        · exact silent_pure _
  · exact (silent_sys fun _ => rfl).bind fun _ => silent_pure ()

/-- Half closing a stream. -/
theorem silent_shutdownWrite (dst : Stream) : Silent dst.shutdownWrite := by
  obtain ⟨d, ⟨rawFd, _ | writeFd, _ | _⟩ | t, close⟩ := dst
  · exact silent_pure _
  · exact silent_pure _
  · exact silent_pure _
  · rw [Stream.shutdownWrite]
    simp only
    split_ifs
    · exact (silent_sys fun _ => rfl).bind fun _ => silent_pure _
    · exact (silent_wcatCloseQuiet _).bind fun _ => silent_pure _
  · exact (silent_wcatTlsShutdownWrite t).bind fun _ => silent_pure _

theorem silent_pending (src : Stream) : Silent src.pending := by
  obtain ⟨o, _ | t, close⟩ := src
  · exact silent_pure _
  · exact (silent_quicHandleEvents t).bind fun _ => silent_sys fun _ => rfl

theorem silent_tick (src : Stream) : Silent src.tick := by
  obtain ⟨o, _ | t, close⟩ := src
  · exact silent_pure _
  · rw [Stream.tick]
    simp only [wcatTlsTick]
    split_ifs
    · exact silent_sys fun _ => rfl
    · exact silent_pure _

/-! ### Pumping -/

/-- Where a pump from `o` leaves the conduit. -/
def Pumped (w : Wiring Obj) (s₀ s : St Obj UInt8) (o : Obj) : PumpResult → Hist → Prop
  | .more, h => view w s₀ h = some s
  | .ended, h => view w s₀ h =
      some { s with live := Function.update s.live o false, closed := w.closes o }
  | .failed, h => BrokenOff w s₀ h

/-- **A pump** moves a chunk in full, or finds the end of its source, or breaks off. -/
theorem always_pumpOnce {src dst : Stream} {label : String} {opts : RelayOptions}
    (hs : Ready s src.obj) (hpeer : w.peer src.obj = dst.obj) (hdst : dst.Writable)
    (hv : view w s₀ h = some s) :
    Always legal (Follows w s₀) (pumpOnce src dst label opts) (Pumped w s₀ s src.obj) h := by
  rw [pumpOnce, always_bind']
  refine Always.mono
    (Q := fun r h' => view w s₀ h' = some (afterRead w s src.obj r) ∧ r ≠ .error .eintr)
    (Always.loop (fun _ h => view w s₀ h = some s) hv fun _ h hv => ?_) (fun _ => id) ?_
  · rw [always_bind']
    refine (always_read hs hv).mono (fun _ => id) fun r h _ hr => ?_
    rcases r with ⟨bytes, hne, hle⟩ | - | err
    · exact Always.done hr ⟨hr, by simp⟩
    · exact Always.done hr ⟨hr, by simp⟩
    · cases err <;> first | exact Always.done hr hr | exact Always.done hr ⟨hr, by simp⟩
  rintro r h - ⟨hr, hne⟩
  rcases r with ⟨bytes, hbytes, hle⟩ | - | err
  · -- a chunk: it is in hand for the destination
    simp only [afterRead, hpeer] at hr
    have hr' : view w s₀ h = some (holding s dst.obj bytes) := by
      rw [hr, holding, if_neg hbytes]
    have hdump : Silent (if opts.hex = true then sys (.hexdump label bytes) else pure ()) := by
      split_ifs
      · exact silent_sys fun _ => rfl
      · exact silent_pure ()
    refine hdump.always ⟨hr', whole_of_open hs.opened⟩ fun _ h hv => always_bind'.mpr ?_
    refine (always_write hs.opened hdst hv.view_eq).mono (fun _ => id) fun n h _ hn => ?_
    rw [Wrote] at hn
    split_ifs at hn with heq
    · rw [if_neg (not_not.mpr heq)]
      have hidle : s = { s with carry := none } := by rw [← hs.idle]
      exact Always.done hn (hn.trans (congrArg some hidle.symm))
    · rw [if_pos heq]
      exact always_pure.mpr ⟨hn.follows, hn⟩
  · exact Always.done hr hr
  · by_cases hagain : err = .eagain
    · subst hagain
      exact Always.done hr hr
    · have hend : Pumped w s₀ s src.obj .ended h := by
        simp only [afterRead] at hr
        rwa [if_neg (by simpa [hagain] using hne)] at hr
      cases err <;> first | exact absurd rfl hagain | exact Always.done hend hend

end Wirecat
