import Wirecat.Interaction.Notes
import Wirecat.RelayRun

/-!
# Half closing

When a source of the relay ends, `shutdown_write` of the stream that was written from it is called. The
call may do nothing, so it cannot be read off the history; `Wirecat.notedRelay` is the relay with
a note at the call, and the relay without its notes is the relay
(`Wirecat.erase_notedRelay`).

The code of the call is written out four times, and only one thing is asked of it: that the last
thing the streams observed before a call was the end of the source (`Wirecat.CallsOk`). The rest
is a matter of conduits. When a source ends nothing is in hand, so all that was read from it has been
written; a source that has ended delivers nothing more, and what nothing is delivered for accepts
nothing more; and it does not end a second time, so there is no second call.
-/

namespace Wirecat

open CString Interaction Conduit

/-! ### The relay with its calls -/

/-- A part of the relay that notes the calls of `shutdown_write`, by the direction. -/
abbrev Noted (α : Type) : Type 1 := Prog (Sys ⊕ Dir) (NotedResp Dir Resp) α

/-- A history with those notes. -/
abbrev NotedHist : Type := History (Sys ⊕ Dir) (NotedResp Dir Resp)

/-- The note of a call. -/
def called (d : Dir) : Event (Sys ⊕ Dir) (NotedResp Dir Resp) := ⟨.inr d, ()⟩

/-- `Wirecat.pumpDir` with a note where `shutdown_write` is called. -/
def notedPumpDir (d : Dir) (opts : RelayOptions) (s : RelayState) : Noted (RelayState ⊕ Bool) := do
  match ← Prog.plain Dir (pumpOnce (s.src d) (s.dst d) d.label opts) with
  | .more => pure (.inl s)
  | .failed => pure (.inr false)
  | .ended => do
      note d
      let t ← Prog.plain Dir (s.dst d).shutdownWrite
      let s := s.setDst d t
      if (s.src d).closeOnEof then pure (.inr true) else pure (.inl (s.deactivate d))

/-- `Wirecat.pumpReady` with the notes. -/
def notedPumpReady (ra rb : Revents) (opts : RelayOptions) (s : RelayState) :
    Noted (RelayState ⊕ Bool) := do
  match ← (if ra.pollin || ra.pollhup then notedPumpDir .ab opts s else pure (.inl s)) with
  | .inr result => pure (.inr result)
  | .inl s => if rb.pollin || rb.pollhup then notedPumpDir .ba opts s else pure (.inl s)

/-- `Wirecat.pollRound` with the notes. -/
def notedPollRound (af bf : Fd) (opts : RelayOptions) (s : RelayState) :
    Noted (RelayState ⊕ Bool) := do
  let timeout := pollTimeout opts.timeoutMs s
  match ← Prog.plain Dir (sys (.poll [pollEntry af s.aActive, pollEntry bf s.bActive] timeout)) with
  | .error .eintr => pure (.inl s)
  | .error _ => pure (.inr false)
  | .timeout =>
      if timeout ≠ opts.timeoutMs then pure (.inl s)
      else do
        let _ ← Prog.plain Dir (sys (.log .warn "timeout" "relay timed out" []))
        pure (.inr true)
  | .ready revents _ _ _ => notedPumpReady (revents.getD 0 .none) (revents.getD 1 .none) opts s

/-- `Wirecat.relayRound` with the notes. -/
def notedRound (af bf : Fd) (opts : RelayOptions) (s : RelayState) :
    Noted (RelayState ⊕ Bool) := do
  if ← Prog.plain Dir (sys .stop) then pure (.inr true)
  else if !s.aActive && !s.bActive then pure (.inr true)
  else if !(← Prog.plain Dir (tickBoth s)) then pure (.inr false)
  else if ← Prog.plain Dir (hasPending s.aActive s.a) then notedPumpDir .ab opts s
  else if ← Prog.plain Dir (hasPending s.bActive s.b) then notedPumpDir .ba opts s
  else notedPollRound af bf opts s

/-- **The relay, with a note at each call of `shutdown_write`.** -/
def notedRelay (a b : Stream) (opts : RelayOptions) : Noted Bool :=
  Prog.loop (notedRound a.fd b.fd opts) ⟨a, b, true, true⟩

theorem erase_notedPumpDir (d : Dir) (opts : RelayOptions) (s : RelayState) :
    (notedPumpDir d opts s).erase = pumpDir d opts s := by
  rw [notedPumpDir, pumpDir, Prog.erase_bind, Prog.erase_plain]
  refine congrArg (pumpOnce (s.src d) (s.dst d) d.label opts >>= ·) (funext fun r => ?_)
  cases r with
  | more => rfl
  | failed => rfl
  | ended =>
    rw [Prog.erase_note, Prog.erase_bind, Prog.erase_plain]
    refine congrArg ((s.dst d).shutdownWrite >>= ·) (funext fun t => ?_)
    exact Prog.erase_ite _ _

theorem erase_notedPumpReady (ra rb : Revents) (opts : RelayOptions) (s : RelayState) :
    (notedPumpReady ra rb opts s).erase = pumpReady ra rb opts s := by
  rw [notedPumpReady, pumpReady, Prog.erase_bind, Prog.erase_ite, erase_notedPumpDir]
  refine congrArg ((if ra.pollin || ra.pollhup then pumpDir .ab opts s else pure (.inl s)) >>= ·)
    (funext fun r => ?_)
  cases r with
  | inr result => rfl
  | inl s' =>
    dsimp only
    rw [Prog.erase_ite, erase_notedPumpDir]
    rfl

theorem erase_notedPollRound (af bf : Fd) (opts : RelayOptions) (s : RelayState) :
    (notedPollRound af bf opts s).erase = pollRound af bf opts s := by
  rw [notedPollRound, pollRound, Prog.erase_bind, Prog.erase_plain]
  refine congrArg (sys (.poll [pollEntry af s.aActive, pollEntry bf s.bActive]
    (pollTimeout opts.timeoutMs s)) >>= ·) (funext fun r => ?_)
  rcases r with err | _ | ⟨revents, hlen, hev, hign⟩
  · cases err <;> rfl
  · exact Prog.erase_ite _ _
  · exact erase_notedPumpReady _ _ opts s

theorem erase_notedRound (af bf : Fd) (opts : RelayOptions) (s : RelayState) :
    (notedRound af bf opts s).erase = relayRound af bf opts s := by
  simp only [notedRound, relayRound, Prog.erase_bind, Prog.erase_plain, Prog.erase_ite,
    erase_notedPumpDir, erase_notedPollRound, Prog.erase_pure]

/-- **Without its notes it is the relay.** -/
theorem erase_notedRelay (a b : Stream) (opts : RelayOptions) :
    (notedRelay a b opts).erase = wcatRelayBidirectional a b opts := by
  rw [notedRelay, wcatRelayBidirectional, Prog.erase_loop]
  exact congrArg (Prog.loop · _) (funext fun s => erase_notedRound _ _ opts s)

/-! ### The end of a source -/

section
variable {legal : Hist → (e : Sys) → Resp e → Prop} {h h' : Hist} {o : Obj}

/-- What a read of the stream `o` has observed, when `r` is what was returned. -/
def Observed (o : Obj) (h : Hist) {len : ℕ} (r : ReadRes len) (h' : Hist) : Prop :=
  match r with
  | .data bytes _ _ => trace h' = .got o bytes :: trace h
  | .eof => ∃ c, trace h' = .ended o c :: trace h
  | .error e => if e = .eintr ∨ e = .eagain then trace h' = trace h
      else ∃ c, trace h' = .ended o c :: trace h

theorem trace_silent {e : Sys} {r : Resp e} (hobs : obs e r = none) :
    trace (⟨e, r⟩ :: h) = trace h := by
  rw [trace_cons, hobs]
  rfl

theorem runs_quicHandleEvents_trace {t : TlsStream}
    (hr : Runs legal (quicHandleEvents t) h h' (some ())) : trace h' = trace h := by
  rw [quicHandleEvents] at hr
  split_ifs at hr
  · obtain ⟨r, -, hr⟩ := runs_ask.mp hr
    rw [(runs_pure.mp hr).1]
    exact trace_silent rfl
  · rw [(runs_pure.mp hr).1]

theorem runs_read_observed {src : Stream} {len : ℕ} {r : ReadRes len}
    (hr : Runs legal (src.read len) h h' (some r)) : Observed src.obj h r h' := by
  obtain ⟨o, ⟨rawFd, writeFd, can⟩ | t, close⟩ := src
  · obtain ⟨-, rfl⟩ := runs_request.mp hr
    rcases r with ⟨bytes, hne, hle⟩ | _ | err
    · exact trace_cons
    · exact ⟨true, trace_cons⟩
    · rw [Observed]
      split_ifs with hagain
      · exact trace_silent (if_pos hagain)
      · refine ⟨false, ?_⟩
        rw [trace_cons, obs, readObs, if_neg hagain]
        rfl
  · obtain ⟨_, h₁, hevents, hr⟩ := runs_bind_some'.mp hr
    have h₁trace := runs_quicHandleEvents_trace hevents
    obtain ⟨r', -, hr⟩ := runs_ask.mp hr
    rcases r' with ⟨bytes, hne, hle⟩ | err
    · obtain ⟨rfl, rfl⟩ := runs_pure.mp hr
      exact trace_cons.trans (congrArg (Obs.got o bytes :: ·) h₁trace)
    · dsimp only at hr
      split_ifs at hr with hagain
      · obtain ⟨_, h₂, hevents, hr⟩ := runs_bind_some'.mp hr
        obtain ⟨rfl, rfl⟩ := runs_pure.mp hr
        have hnone : obs (.sslRead o t.fd len) (.error err) = none := by
          rcases hagain with rfl | rfl <;> rfl
        rw [Observed, if_pos (by simp), runs_quicHandleEvents_trace hevents, trace_silent hnone,
          h₁trace]
      · -- a connection that failed is an end, too
        obtain ⟨rfl, rfl⟩ := runs_pure.mp hr
        rw [Observed]
        cases err
        case zeroReturn => exact ⟨true, trace_cons.trans (congrArg (Obs.ended o true :: ·) h₁trace)⟩
        case fatal => exact ⟨false, trace_cons.trans (congrArg (Obs.ended o false :: ·) h₁trace)⟩
        all_goals exact absurd (by simp) hagain

/-- **A pump that returns `0`** has observed the end of its source, and nothing else. -/
theorem runs_pumpOnce_ended {src dst : Stream} {label : String} {opts : RelayOptions}
    (hr : Runs legal (pumpOnce src dst label opts) h h' (some .ended)) :
    ∃ c, trace h' = .ended src.obj c :: trace h := by
  obtain ⟨r, h₁, hread, hr⟩ := runs_bind_some'.mp hr
  have hseen : Observed src.obj h r h₁ ∧ r ≠ .error .eintr := by
    refine Always.post (S := fun _ => True)
      (Q := fun r h' => Observed src.obj h r h' ∧ r ≠ .error .eintr) ?_ hread
    -- interrupted reads are not observed
    refine Always.loop (fun _ g => trace g = trace h) rfl fun _ g hg => ?_
    refine always_bind'.mpr (Always.of_runs fun g' r hr => ?_)
    have hobs : Observed src.obj h r g' := by
      have hobs := runs_read_observed hr
      unfold Observed at hobs ⊢
      rwa [hg] at hobs
    rcases r with ⟨bytes, hne, hle⟩ | _ | err
    · exact always_pure.mpr ⟨trivial, hobs, by simp⟩
    · exact always_pure.mpr ⟨trivial, hobs, by simp⟩
    · cases err
      case eintr => exact always_pure.mpr ⟨trivial, hobs⟩
      all_goals
        exact (always_pure (a := Sum.inr _) (Q := roundPost _ _)).mpr ⟨trivial, hobs, by simp⟩
  obtain ⟨hobs, hne⟩ := hseen
  rcases r with ⟨bytes, hbytes, hle⟩ | _ | err
  · obtain ⟨_, h₂, -, hr⟩ := runs_bind_some'.mp hr
    obtain ⟨n, h₃, -, hr⟩ := runs_bind_some'.mp hr
    split_ifs at hr
    · exact absurd (runs_pure.mp hr).2 (by simp)
    · exact absurd (runs_pure.mp hr).2 (by simp)
  · rw [(runs_pure.mp hr).1]
    exact hobs
  · by_cases hagain : err = .eagain
    · subst hagain
      exact absurd (runs_pure.mp hr).2 (by simp)
    · have hend : Runs legal (pure .ended : Proc PumpResult) h₁ h' (some .ended) := by
        cases err <;> first | exact hr | exact absurd rfl hagain
      rw [(runs_pure.mp hend).1]
      rw [Observed, if_neg (by simpa [hagain] using hne)] at hobs
      exact hobs

end

/-! ### Every call is at the end of a source -/

section
variable {legal : Hist → (e : Sys) → Resp e → Prop} {a b : Stream} {H : NotedHist}

/-- **Where a call is noted**, the last thing that was observed is the end of the source, and no
other call was noted since before it. -/
def CallsOk (a b : Stream) (H : NotedHist) : Prop :=
  ∀ d before, called d :: before <:+ H → ∃ ext mid c, before = plainHist Dir ext ++ mid ∧
    trace ext = [.ended (source a b d).obj c]

theorem called_not_mem_plainHist (d : Dir) (ext : Hist) : called d ∉ plainHist Dir ext := by
  intro hmem
  obtain ⟨ev, -, hev⟩ := List.mem_map.mp hmem
  exact absurd (congrArg Sigma.fst hev) (by simp [called])

theorem CallsOk.plain (hH : CallsOk a b H) (ext : Hist) : CallsOk a b (plainHist Dir ext ++ H) := by
  intro d before hsuf
  induction ext with
  | nil => exact hH d before hsuf
  | cons ev ext ih =>
    rcases List.suffix_cons_iff.mp hsuf with heq | hsuf
    · exact absurd (congrArg Sigma.fst (List.cons.inj heq).1) (by simp [called])
    · exact ih hsuf

/-- A call at the end of its source. -/
theorem CallsOk.call (hH : CallsOk a b H) {d : Dir} {ext : Hist} {c : Bool}
    (hext : trace ext = [.ended (source a b d).obj c]) :
    CallsOk a b (called d :: (plainHist Dir ext ++ H)) := by
  intro d' before hsuf
  rcases List.suffix_cons_iff.mp hsuf with heq | hsuf
  · obtain ⟨hd, rfl⟩ := List.cons.inj heq
    obtain rfl : d' = d := Sum.inr.inj (congrArg Sigma.fst hd)
    exact ⟨ext, H, c, rfl, hext⟩
  · exact hH.plain ext d' before hsuf

/-- A part without calls, and what comes after it. -/
theorem CallsOk.next (hH : CallsOk a b H) {α β : Type} {p : Proc α} {f : α → Noted β}
    {Q : β → NotedHist → Prop}
    (hf : ∀ ext r, CallsOk a b (plainHist Dir ext ++ H) →
      Runs legal p (eraseNotes H) (ext ++ eraseNotes H) (some r) →
        Always (Noting legal) (CallsOk a b) (f r) Q (plainHist Dir ext ++ H)) :
    Always (Noting legal) (CallsOk a b) (Prog.plain Dir p >>= f) Q H := by
  refine always_bind'.mpr ((Always.plain hH.plain).mono (fun _ => id) ?_)
  rintro r _ - ⟨ext, rfl, hrun⟩
  exact hf ext r (hH.plain ext) hrun

/-- The streams are the ones the relay was given. -/
def Keeps (a b : Stream) (s : RelayState) : Prop := ∀ d, (s.src d).obj = (source a b d).obj

theorem Keeps.dst {s : RelayState} (hs : Keeps a b s) (d : Dir) :
    (s.dst d).obj = (source a b d.other).obj := by
  cases d
  · exact hs .ba
  · exact hs .ab

theorem Keeps.setDst {s : RelayState} (hs : Keeps a b s) {d : Dir} {t : Stream}
    (ht : t.obj = (s.dst d).obj) : Keeps a b ((s.setDst d t).deactivate d) := by
  cases d with
  | ab =>
    rintro (_ | _)
    · exact hs .ab
    · exact ht.trans (hs .ba)
  | ba =>
    rintro (_ | _)
    · exact ht.trans (hs .ab)
    · exact hs .ba

/-- What a part of a round leaves behind. -/
def Passed (a b : Stream) : RelayState ⊕ Bool → NotedHist → Prop
  | .inl s, H => CallsOk a b H ∧ Keeps a b s
  | .inr _, H => CallsOk a b H

theorem always_notedPumpDir (hH : CallsOk a b H) {s : RelayState} (hs : Keeps a b s) (d : Dir)
    (opts : RelayOptions) :
    Always (Noting legal) (CallsOk a b) (notedPumpDir d opts s) (Passed a b) H := by
  refine hH.next fun ext r hext hrun => ?_
  cases r with
  | more => exact always_pure.mpr ⟨hext, hext, hs⟩
  | failed => exact always_pure.mpr ⟨hext, hext⟩
  | ended =>
    -- what was observed in this pump is the end of the source
    obtain ⟨c, htrace⟩ := runs_pumpOnce_ended hrun
    rw [trace_append, List.append_eq_cons_iff] at htrace
    have hone : trace ext = [.ended (source a b d).obj c] := by
      rcases htrace with ⟨-, hlong⟩ | ⟨rest, hrest, heq⟩
      · exact absurd (congrArg List.length hlong) (by simp)
      · have hnil : rest = [] := by
          have hlen := congrArg List.length heq
          rw [List.length_append] at hlen
          exact List.length_eq_zero_iff.mp (by omega)
        rw [hrest, hnil, hs d]
    have hcall : CallsOk a b (called d :: (plainHist Dir ext ++ H)) := hH.call hone
    refine always_call.mpr ⟨hext, fun _ _ => hcall.next fun ext' t hext' hshut => ?_⟩
    have hobj : t.obj = (s.dst d).obj := ((within_shutdownWrite (s.dst d)).result hshut).1
    refine Always.ite (fun _ => always_pure.mpr ⟨hext', hext'⟩) fun _ => ?_
    exact always_pure.mpr ⟨hext', hext', hs.setDst hobj⟩

theorem always_notedPumpReady (hH : CallsOk a b H) {s : RelayState} (hs : Keeps a b s)
    (ra rb : Revents) (opts : RelayOptions) :
    Always (Noting legal) (CallsOk a b) (notedPumpReady ra rb opts s) (Passed a b) H := by
  have hfirst : Always (Noting legal) (CallsOk a b)
      (if ra.pollin || ra.pollhup then notedPumpDir .ab opts s else pure (.inl s)) (Passed a b) H :=
    Always.ite (fun _ => always_notedPumpDir hH hs .ab opts)
      fun _ => always_pure.mpr ⟨hH, hH, hs⟩
  refine always_bind'.mpr (hfirst.mono (fun _ => id) ?_)
  rintro (s' | ok) H' - hQ
  · exact Always.ite (fun _ => always_notedPumpDir hQ.1 hQ.2 .ba opts)
      fun _ => always_pure.mpr ⟨hQ.1, hQ⟩
  · exact always_pure.mpr ⟨hQ, hQ⟩

/-- **A round keeps the calls in order.** -/
theorem always_notedRound (hH : CallsOk a b H) {s : RelayState} (hs : Keeps a b s) (af bf : Fd)
    (opts : RelayOptions) :
    Always (Noting legal) (CallsOk a b) (notedRound af bf opts s) (Passed a b) H := by
  refine hH.next fun ext stop hH _ => Always.ite (fun _ => always_pure.mpr ⟨hH, hH⟩) fun _ => ?_
  refine Always.ite (fun _ => always_pure.mpr ⟨hH, hH⟩) fun _ => ?_
  refine hH.next fun ext ticked hH _ => Always.ite (fun _ => always_pure.mpr ⟨hH, hH⟩) fun _ => ?_
  refine hH.next fun ext pending hH _ =>
    Always.ite (fun _ => always_notedPumpDir hH hs .ab opts) fun _ => ?_
  refine hH.next fun ext pending hH _ =>
    Always.ite (fun _ => always_notedPumpDir hH hs .ba opts) fun _ => ?_
  refine hH.next fun ext r hH _ => ?_
  rcases r with err | _ | ⟨revents, hlen, hev, hign⟩
  · cases err
    case eintr =>
      exact (always_pure (a := Sum.inl s) (Q := Passed a b)).mpr ⟨hH, hH, hs⟩
    all_goals exact (always_pure (a := Sum.inr false) (Q := Passed a b)).mpr ⟨hH, hH⟩
  · refine Always.ite (fun _ => always_pure.mpr ⟨hH, hH, hs⟩) fun _ => ?_
    exact hH.next fun ext _ hH _ => always_pure.mpr ⟨hH, hH⟩
  · exact always_notedPumpReady hH hs _ _ opts

/-- **The calls of a relay**, from an empty history. -/
theorem always_notedRelay (a b : Stream) (opts : RelayOptions) :
    Always (Noting legal) (CallsOk a b) (notedRelay a b opts) (fun _ => CallsOk a b) [] := by
  have hstart : CallsOk a b [] := fun d before hsuf => absurd (List.suffix_nil.mp hsuf) (by simp)
  have hkeeps : Keeps a b ⟨a, b, true, true⟩ := by
    rintro (_ | _)
    · rfl
    · rfl
  refine Always.loop (fun s H => CallsOk a b H ∧ Keeps a b s) ⟨hstart, hkeeps⟩ ?_
  rintro s H ⟨hH, hs⟩
  refine (always_notedRound hH hs _ _ opts).post_mono ?_
  rintro (s' | ok) H' hQ
  · exact hQ
  · exact hQ

end

/-! ### What a call says of the bytes -/

section
variable {a b : Stream} {H : NotedHist}

/-- **One call**: nothing is noted of the direction after it; before it, the destination has accepted
all that was read from the source; and after it nothing is read from the source and nothing
accepted by the destination. -/
structure OneCall (a b : Stream) (d : Dir) (after before : NotedHist) : Prop where
  once : called d ∉ after
  drained : bytesWritten (source a b d.other).obj (eraseNotes before) =
    bytesRead (source a b d).obj (eraseNotes before)
  unread : bytesRead (source a b d).obj (eraseNotes after) = []
  unwritten : bytesWritten (source a b d.other).obj (eraseNotes after) = []

theorem eraseNotes_called (d : Dir) (before : NotedHist) :
    eraseNotes (called d :: before) = eraseNotes before := rfl

/-- Calls in order, of a relay that keeps the discipline of a conduit. -/
theorem oneCall_of_callsOk (hab : a.obj ≠ b.obj) (hH : CallsOk a b H)
    (hfollows : Follows (relayWiring a b) (relaySt a b true true) (eraseNotes H)) {d : Dir}
    {after before : NotedHist} (hsplit : H = after ++ called d :: before) :
    OneCall a b d after before := by
  obtain ⟨st, hv⟩ := Option.isSome_iff_exists.mp hfollows
  obtain ⟨ext, mid, c, rfl, htrace⟩ := hH d before ⟨after, hsplit.symm⟩
  have hbefore : trace (eraseNotes (plainHist Dir ext ++ mid)) =
      .ended (source a b d).obj c :: trace (eraseNotes mid) := by
    rw [eraseNotes_append, eraseNotes_plainHist, trace_append, htrace]
    rfl
  have hrun := run_of_view hv
  rw [hsplit, eraseNotes_append, eraseNotes_called, trace_append, hbefore] at hrun
  obtain ⟨hall, hgot, hput, hended⟩ := ended_spec rfl (relayWiring_peer_iff hab d) hrun
  refine ⟨fun hmem => ?_, ?_, hgot, hput⟩
  · -- a second call would be at a second end
    obtain ⟨after₂, after₁, rfl⟩ := List.append_of_mem hmem
    rw [List.append_assoc, List.cons_append] at hsplit
    obtain ⟨ext₂, mid₂, c₂, hmid, htrace₂⟩ := hH d _ ⟨after₂, hsplit.symm⟩
    have hpre : plainHist Dir ext₂ <+: after₁ := by
      rcases List.append_eq_append_iff.mp hmid with ⟨u, hu, hcall⟩ | ⟨u, rfl, -⟩
      · cases u with
        | nil =>
          rw [List.append_nil] at hu
          rw [hu]
        | cons x u =>
          obtain ⟨rfl, -⟩ := List.cons.inj hcall
          exact absurd (hu ▸ by simp) (called_not_mem_plainHist d ext₂)
      · exact List.prefix_append _ _
    obtain ⟨u, rfl⟩ := hpre
    refine hended c₂ ?_
    rw [eraseNotes_append, eraseNotes_called, eraseNotes_append, eraseNotes_plainHist, trace_append,
      trace_append, htrace₂]
    simp
  · rw [bytesWritten, bytesRead, hbefore]
    exact hall

/-! ### The discipline -/

/-- A source has ended. -/
def EndedIn (o : Obj) (ext : Hist) : Prop := ∃ c, .ended o c ∈ trace ext

/-- **The discipline of half closing**, of a relay that is started after the history `h`. -/
structure HalfClose (a b : Stream) (opts : RelayOptions) (h : Hist) : Prop where
  /-- Every run is a run with the calls noted, and those are runs of the relay. -/
  noted : ∀ ext o, Runs (After Legal h) (wcatRelayBidirectional a b opts) [] ext o ↔
    ∃ H, eraseNotes H = ext ∧ Runs (Noting (After Legal h)) (notedRelay a b opts) [] H o
  /-- In every one of them there is at most one call in each direction, after everything that was read
  from the source was written, and before nothing more. -/
  calls : ∀ H o, Runs (Noting (After Legal h)) (notedRelay a b opts) [] H o →
    ∀ d after before, H = after ++ called d :: before → OneCall a b d after before
  /-- A source is read as long as it has not ended itself. -/
  active : ∀ s₁ h₁, Reaches Legal (relayRound a.fd b.fd opts) ⟨a, b, true, true⟩ h s₁ h₁ →
    ∃ ext, h₁ = ext ++ h ∧ ∀ d, s₁.active d = false ↔ EndedIn (source a b d).obj ext
  /-- A relay that returns `0`, and was neither stopped nor timed out, has seen the end of a source
  that closes it, or of both. -/
  returns : ∀ ext, Runs Legal (wcatRelayBidirectional a b opts) h (ext ++ h) (some true) →
    StopSeen ext ∨ TimedOut ext ∨
      (∃ d, (source a b d).closeOnEof = true ∧ EndedIn (source a b d).obj ext) ∨
      ∀ d, EndedIn (source a b d).obj ext

/-- The sources of a relay are live at first. -/
theorem relaySt_live_start (d : Dir) : (relaySt a b true true).live (source a b d).obj = true := by
  cases d with
  | ab => simp [relaySt, source]
  | ba => simp [relaySt, source]

/-- **The relay half closes with discipline.** -/
theorem halfClose (hab : a.obj ≠ b.obj) (ha : a.Writable) (hb : b.Writable) (opts : RelayOptions)
    (h : Hist) : HalfClose a b opts h where
  noted ext o := by
    constructor
    · intro hr
      rw [← erase_notedRelay] at hr
      exact exists_noted hr
    · rintro ⟨H, rfl, hr⟩
      rw [← erase_notedRelay]
      exact runs_erase hr
  calls H o hr d after before hsplit := by
    have hfollows := runs_erase hr
    rw [erase_notedRelay] at hfollows
    exact oneCall_of_callsOk hab ((always_notedRelay a b opts).safe hr)
      ((always_wcatRelayBidirectional hab ha hb opts).safe hfollows) hsplit
  active s₁ h₁ hr := by
    obtain ⟨ext, rfl, hr'⟩ := Reaches.shift (g := []) (fun _ _ _ _ hb => Runs.shift hb) hr
    have hinv := Reaches.always hr' (relayInv_start ha hb) fun _ _ hinv => always_relayRound hab hinv
    refine ⟨ext, rfl, fun d => ?_⟩
    have hlive : (relaySt a b s₁.aActive s₁.bActive).live (source a b d).obj = s₁.active d := by
      cases d with
      | ab => simp [relaySt, source, RelayState.active, hab]
      | ba => simp [relaySt, source, RelayState.active, hab.symm]
    rw [← hlive]
    exact live_eq_false_iff (relaySt_live_start d) (run_of_view hinv.view_eq)
  returns ext hr := by
    obtain ⟨st, hv, hidle, hwhy⟩ := (always_wcatRelayBidirectional hab ha hb opts).post hr.ext
    have hrun := run_of_view hv
    have hended : ∀ d, st.live (source a b d).obj = false → EndedIn (source a b d).obj ext :=
      fun d hl => (live_eq_false_iff (relaySt_live_start d) hrun).mp hl
    rcases hwhy with hstop | htime | hclosed | ⟨hla, hlb⟩
    · exact .inl hstop
    · exact .inr (.inl htime)
    · obtain ⟨o, c, t', htrace, hcloses⟩ := (closed_iff rfl hrun hidle).mp hclosed
      have hmem : .ended o c ∈ trace ext := htrace ▸ List.mem_cons_self
      -- what has ended was live at first, so it is one of the two sources
      obtain ⟨d, rfl⟩ : ∃ d, o = (source a b d).obj := by
        rw [htrace] at hrun
        obtain ⟨s₁, hrun₁, hs⟩ := run_cons.mp hrun
        have hlive := live_mono hrun₁ (step_ended.mp hs).1.2.1
        simp only [relaySt, Bool.and_true, Bool.or_eq_true, decide_eq_true_eq] at hlive
        rcases hlive with rfl | rfl
        · exact ⟨.ab, rfl⟩
        · exact ⟨.ba, rfl⟩
      rw [relayWiring_closes hab] at hcloses
      exact .inr (.inr (.inl ⟨d, hcloses, c, hmem⟩))
    · refine .inr (.inr (.inr ?_))
      rintro (_ | _)
      · exact hended .ab hla
      · exact hended .ba hlb

/-- A relay of the CONNECT server, which goes on when its client has ended. -/
theorem halfClose_server : HalfClose
    { wcatStreamFromFd .clientStream (.conn .tcp 4) with closeOnEof := false }
    (wcatStreamFromFd .upstreamStream (.sock .tcp 5)) ⟨-1, false⟩ [] :=
  halfClose (by decide) (fun _ _ h => by simp [wcatStreamFromFd] at h)
    (fun _ _ h => by simp [wcatStreamFromFd] at h) _ _

end

end Wirecat
