import Wirecat.Fidelity
import Wirecat.Footprint

/-!
# When a copy is complete

`wcat_copy_stream` moves chunks from a source to a destination until the source ends,
and so do `wcat send` and `wcat recv`. What it has written is all it has read; whether
that is all there *was* to read, its return value does not say.

* A read that fails – with anything but `EINTR` and `EAGAIN` – is taken for the end of
  the source, and so is a fatal error of `SSL_read`. The copy then succeeds.
* A copy that is asked to stop between two chunks succeeds as well.

These are the only two ways: a finished copy keeps its promise exactly when no read
failed and no stop was seen (`Wirecat.copy_complete_iff`), and so does a
transfer (`Wirecat.transfer_complete_iff`).
-/

namespace Wirecat

open CString Interaction Conduit

/-! ### The copy as a conduit -/

/-- The wiring of a copy: as of a relay, but the end of the source is the end of all. -/
def copyWiring (src dst : Stream) : Wiring Obj :=
  { relayWiring src dst with closes := fun _ => true }

/-- The conduit of a copy between two chunks: only the source is read. -/
def copySt (src : Stream) : St Obj UInt8 where
  carry := none
  live o := o = src.obj
  closed := false

/-- The source has come to its end: a read of nothing, or an orderly end of the TLS
stream. -/
def CleanEnd (o : Obj) (h : Hist) : Prop := Obs.ended o true ∈ trace h

/-- A read of the source has failed for good. -/
def FailedRead (o : Obj) (h : Hist) : Prop := Obs.ended o false ∈ trace h

instance (o : Obj) (h : Hist) : Decidable (CleanEnd o h) :=
  inferInstanceAs (Decidable (_ ∈ trace h))

instance (o : Obj) (h : Hist) : Decidable (FailedRead o h) :=
  inferInstanceAs (Decidable (_ ∈ trace h))

/-- **A complete copy**: the source `o` came to its end, and the destination `d` accepted
all its bytes in order. -/
def Complete (o d : Obj) (h : Hist) : Prop :=
  CleanEnd o h ∧ bytesWritten d h = bytesRead o h

instance (o d : Obj) (h : Hist) : Decidable (Complete o d h) :=
  inferInstanceAs (Decidable (_ ∧ _))

variable {legal : Hist → (e : Sys) → Resp e → Prop} {src dst : Stream} {h : Hist}

/-- How a copy ends: stopped with the source live, or after the end of the source, or
broken off; only the first has seen the stop flag. -/
def CopyEnd (src dst : Stream) : Bool → Hist → Prop
  | true, h => (view (copyWiring src dst) (copySt src) h = some (copySt src) ∧ StopSeen h) ∨
      ∃ s, view (copyWiring src dst) (copySt src) h = some s ∧ s.carry = none ∧ s.closed = true ∧
        ¬StopSeen h
  | false, h => BrokenOff (copyWiring src dst) (copySt src) h ∧ ¬StopSeen h

/-- The requests that do not ask for the stop flag. -/
def NotStop (e : Sys) : Prop := e ≠ .stop

theorem notStop_of_quiet : ∀ e, Quiet e = true → NotStop e := by
  rintro _ h rfl
  exact absurd h (by simp [Quiet])

theorem streamIn_notStop (s : Stream) : StreamIn NotStop s := by
  obtain ⟨o, _ | t, close⟩ := s
  · exact ⟨fun _ => by simp [NotStop], fun _ _ => ⟨fun _ => by simp [NotStop], fun _ => by simp [NotStop]⟩⟩
  · exact ⟨fun _ => by simp [NotStop], fun _ => by simp [NotStop], by simp [NotStop],
      by simp [NotStop]⟩

/-- What does not ask for the stop flag does not see it. -/
theorem Within.notStop {α : Type} {p : Proc α} {Q : α → Prop} (hp : Within NotStop p Q)
    (hs : ¬StopSeen h) : Always legal (fun _ => True) p (fun _ h' => ¬StopSeen h') h := by
  refine (hp.always (S := fun h => ¬StopSeen h) hs ?_).mono (fun _ _ => trivial)
    fun _ _ _ hQ => hQ.1
  rintro h e r hs he -
  simp only [StopSeen, List.mem_cons, not_or]
  refine ⟨fun heq => he ?_, hs⟩
  exact (congrArg Sigma.fst heq).symm

/-- **A copy keeps the discipline of a conduit.** -/
theorem always_wcatCopyStream (hdst : dst.Writable)
    (opts : RelayOptions) :
    Always legal (Follows (copyWiring src dst) (copySt src)) (wcatCopyStream src dst opts)
      (CopyEnd src dst) [] := by
  refine Always.loop (fun _ h => view (copyWiring src dst) (copySt src) h = some (copySt src) ∧
    ¬StopSeen h) ⟨rfl, by simp [StopSeen]⟩ ?_
  rintro - h ⟨hv, hstop⟩
  rw [always_bind', sys, always_request]
  refine ⟨follows_of_view hv, fun stop _ => ?_⟩
  have hv' : view (copyWiring src dst) (copySt src) (⟨.stop, stop⟩ :: h) = some (copySt src) :=
    (At.silent ⟨hv, whole_of_open rfl⟩ rfl).view_eq
  refine ⟨follows_of_view hv', ?_⟩
  cases stop with
  | true => exact Always.done hv' (Or.inl ⟨hv', by simp [StopSeen]⟩)
  | false =>
    have hstop' : ¬StopSeen (⟨.stop, false⟩ :: h) := by
      simp only [StopSeen, List.mem_cons, not_or]
      exact ⟨fun heq => by simp at heq, hstop⟩
    have hready : Ready (copySt src) src.obj := ⟨rfl, by simp [copySt], rfl⟩
    have hpeer : (copyWiring src dst).peer src.obj = dst.obj := by simp [copyWiring, relayWiring]
    rw [if_neg (by simp), always_bind']
    refine ((always_pumpOnce hready hpeer hdst hv').and (Within.notStop (within_pumpOnce
      (still_of_quiet notStop_of_quiet) (streamIn_notStop src) (streamIn_notStop dst) _ _)
      hstop')).mono (fun _ hS => hS.1) ?_
    rintro (_ | _ | _) h ⟨hf, -⟩ ⟨hr, hstop⟩
    · exact Always.done hr ⟨hr, hstop⟩
    · exact Always.done hr (Or.inr ⟨_, hr, rfl, rfl, hstop⟩)
    · exact always_pure.mpr ⟨hf, hr, hstop⟩

/-! ### What the end of a copy says -/

/-- At a copy's end nothing is in hand: what was written is what was read. -/
theorem copied_eq_read (hne : src.obj ≠ dst.obj) {s : St Obj UInt8}
    (hv : view (copyWiring src dst) (copySt src) h = some s) (hc : s.carry = none) :
    bytesWritten dst.obj h = bytesRead src.obj h := by
  have hrun := run_of_view hv
  have hput := put_append_owed (show (copySt src).carry = none from rfl) hrun dst.obj
  simp only [St.owed, hc, List.append_nil] at hput
  exact hput.trans (routedTo_eq_gotFrom (w := copyWiring src dst)
    (relayWiring_peer_iff hne .ab) _)

/-- **Exactly when a finished copy is what its return value says.** -/
theorem CopyEnd.complete_iff (hne : src.obj ≠ dst.obj) {ok : Bool} (hend : CopyEnd src dst ok h) :
    (ok = true → Complete src.obj dst.obj h) ↔ ¬FailedRead src.obj h ∧ ¬StopSeen h := by
  have hlive₀ : (copySt src).live src.obj = true := by simp [copySt]
  cases ok with
  | true =>
    rcases hend with ⟨hv, hstop⟩ | ⟨s, hv, hc, hclosed, hstop⟩
    · -- stopped: the source has not ended
      refine iff_of_false (fun hcomplete => ?_) fun hno => hno.2 hstop
      have hlive := (live_eq_false_iff hlive₀ (run_of_view hv)).mpr ⟨true, (hcomplete rfl).1⟩
      rw [hlive₀] at hlive
      exact absurd hlive (by simp)
    · -- the end of the source is the last observation, and tells how it ended
      obtain ⟨o, clean, t, htrace, -⟩ := (closed_iff rfl (run_of_view hv) hc).mp hclosed
      obtain ⟨s₁, hr₁, hs₁⟩ := run_cons.mp (htrace ▸ run_of_view hv)
      obtain rfl : o = src.obj := by
        have hl := live_mono hr₁ (step_ended.mp hs₁).1.2.1
        simpa [copySt] using hl
      have honly : ∀ c, .ended src.obj c ∈ trace h → c = clean := by
        intro c hmem
        obtain ⟨⟨t', ht'⟩, -⟩ := closing_end_is_last (w := copyWiring src dst) rfl (run_of_view hv) hmem
        rw [htrace] at ht'
        simp only [List.cons.injEq, Obs.ended.injEq, true_and] at ht'
        exact ht'.1.symm
      cases clean with
      | true =>
        refine iff_of_true (fun _ => ⟨?_, copied_eq_read hne hv hc⟩) ⟨fun hfail => ?_, hstop⟩
        · rw [CleanEnd, htrace]
          exact List.mem_cons_self
        · exact absurd (honly false hfail) (by simp)
      | false =>
        refine iff_of_false (fun hcomplete => ?_) fun hno => hno.1 ?_
        · exact absurd (honly true (hcomplete rfl).1) (by simp)
        · rw [FailedRead, htrace]
          exact List.mem_cons_self
  | false =>
    obtain ⟨⟨s, hv, hclosed, hcarry⟩, hstop⟩ := hend
    refine iff_of_true (fun h => absurd h (by simp)) ⟨fun hfail => ?_, hstop⟩
    exact hcarry (closing_end_is_last (w := copyWiring src dst) rfl (run_of_view hv) hfail).2.2

/-- **A finished copy**, from any history on: it keeps the promise of its return value
exactly when no read failed and no stop was seen. -/
theorem copy_complete_iff (hne : src.obj ≠ dst.obj) (hdst : dst.Writable) (opts : RelayOptions)
    {ext : Hist} {ok : Bool} (hr : Runs Legal (wcatCopyStream src dst opts) h (ext ++ h) (some ok)) :
    (ok = true → Complete src.obj dst.obj ext) ↔ ¬FailedRead src.obj ext ∧ ¬StopSeen ext :=
  CopyEnd.complete_iff hne ((always_wcatCopyStream hdst opts).post hr.ext)

/-! ### Transfers -/

/-- The requests of a transfer that are not its copy: they exchange no bytes of the
streams, and do not ask for the stop flag. -/
def Beside : Sys → Prop
  | .stop => False
  | .read (.stream _) _ _ _ _ | .write (.stream _) _ _ | .sslRead _ _ _ | .sslWrite _ _ _ => False
  | _ => True

theorem beside_of_quiet : ∀ e, Quiet e = true → Beside e := by
  intro e he
  cases e <;> trivial

/-- The requests that exchange no bytes. -/
def Offline : Sys → Prop
  | .read _ _ _ _ _ | .write _ _ _ | .sslRead _ _ _ | .sslWrite _ _ _ => False
  | _ => True

theorem offline_of_quiet (e : Sys) (he : Quiet e = true) : Offline e := by
  cases e with
  | read | write | sslRead | sslWrite => cases he
  | _ => trivial

/-- A part of a history that is not of the copy. -/
structure Aside (g : Hist) : Prop where
  bytes : ∀ ob ∈ trace g, ob = .short
  not_stop : ¬StopSeen g

theorem stopSeen_append {g : Hist} : StopSeen (g ++ h) ↔ StopSeen g ∨ StopSeen h := by
  simp [StopSeen]

theorem Aside.append {g : Hist} (hg : Aside g) (hh : Aside h) : Aside (g ++ h) where
  bytes ob hmem := by
    rw [trace_append] at hmem
    rcases List.mem_append.mp hmem with hmem | hmem
    · exact hg.bytes ob hmem
    · exact hh.bytes ob hmem
  not_stop hs := (stopSeen_append.mp hs).elim hg.not_stop hh.not_stop

theorem Aside.got {g : Hist} (hg : Aside g) (o : Obj) : gotFrom o (trace g) = [] := by
  have hall : ∀ t : List (Obs Obj UInt8), (∀ ob ∈ t, ob = .short) → gotFrom o t = [] := by
    intro t ht
    induction t with
    | nil => rfl
    | cons ob t ih =>
      obtain rfl := ht ob (by simp)
      exact ih fun ob hob => ht ob (by simp [hob])
  exact hall _ hg.bytes

theorem Aside.put {g : Hist} (hg : Aside g) (d : Obj) : putTo d (trace g) = [] := by
  have hall : ∀ t : List (Obs Obj UInt8), (∀ ob ∈ t, ob = .short) → putTo d t = [] := by
    intro t ht
    induction t with
    | nil => rfl
    | cons ob t ih =>
      obtain rfl := ht ob (by simp)
      exact ih fun ob hob => ht ob (by simp [hob])
  exact hall _ hg.bytes

/-- Beside the copy nothing is observed, but a wait that fails. -/
theorem obs_of_beside {e : Sys} (he : Beside e) (r : Resp e) :
    obs e r = none ∨ obs e r = some .short := by
  cases e with
  | read via fd cap off len => cases via <;> first | exact he.elim | exact Or.inl rfl
  | write via fd buf => cases via <;> first | exact he.elim | exact Or.inl rfl
  | poll fds timeout =>
    rcases r with err | _ | _
    · simp only [obs, waitObs]
      split_ifs <;> simp
    · simp only [obs, waitObs]
      split_ifs <;> simp
    · exact Or.inl rfl
  | _ => first | exact he.elim | exact Or.inl rfl

/-- One more request beside the copy. -/
theorem Aside.cons {g : Hist} (hg : Aside g) {e : Sys} {r : Resp e} (he : Beside e) :
    Aside (⟨e, r⟩ :: g) where
  bytes ob hmem := by
    rw [trace_cons] at hmem
    rcases List.mem_append.mp hmem with hmem | hmem
    · have hobs : obs e r = some ob := by simpa using hmem
      rcases obs_of_beside he r with hno | hshort
      · rw [hno] at hobs
        cases hobs
      · exact Option.some.inj (hobs.symm.trans hshort)
    · exact hg.bytes ob hmem
  not_stop hs := by
    rcases List.mem_cons.mp hs with heq | hmem
    · obtain rfl : Sys.stop = e := congrArg Sigma.fst heq
      exact he
    · exact hg.not_stop hmem

theorem aside_nil : Aside [] := ⟨fun _ h => absurd h (by simp [trace]), by simp [StopSeen]⟩

/-- A part of a transfer beside its copy. -/
theorem Within.aside {α : Type} {p : Proc α} {Q : α → Prop} (hp : Within Beside p Q) :
    Always legal (fun _ => True) p (fun a h' => ∃ g, h' = g ++ h ∧ Aside g ∧ Q a) h := by
  refine (hp.always (S := fun h' => ∃ g, h' = g ++ h ∧ Aside g) ⟨[], rfl, aside_nil⟩ ?_).mono
    (fun _ _ => trivial) fun _ _ _ ⟨⟨g, hg, ha⟩, hQ⟩ => ⟨g, hg, ha, hQ⟩
  rintro _ e r ⟨g, rfl, hg⟩ he -
  exact ⟨⟨e, r⟩ :: g, rfl, hg.cons he⟩

/-- A finished transfer: what happened beside the copy, before and after it, and how the
copy ended. -/
structure Transferred (h : Hist) : Prop where
  split : ∃ before copy after src dst, h = after ++ copy ++ before ∧ Aside before ∧ Aside after ∧
    src.obj = .src ∧ dst.obj = .dst ∧ CopyEnd src dst true copy

/-- **A finished transfer is complete** exactly when no read failed and no stop was
seen. -/
theorem Transferred.complete_iff (ht : Transferred h) :
    Complete .src .dst h ↔ ¬FailedRead .src h ∧ ¬StopSeen h := by
  obtain ⟨before, copy, after, src, dst, rfl, hb, ha, hsrc, hdst, hend⟩ := ht.split
  have hmem : ∀ ob : Obs Obj UInt8, ob ≠ .short →
      (ob ∈ trace (after ++ copy ++ before) ↔ ob ∈ trace copy) := by
    intro ob hob
    rw [trace_append, trace_append, List.mem_append, List.mem_append]
    constructor
    · rintro ((hm | hm) | hm)
      · exact absurd (ha.bytes ob hm) hob
      · exact hm
      · exact absurd (hb.bytes ob hm) hob
    · exact fun hm => Or.inl (Or.inr hm)
  have hread : bytesRead .src (after ++ copy ++ before) = bytesRead .src copy := by
    simp [bytesRead, trace_append, gotFrom_append, ha.got, hb.got]
  have hwritten : bytesWritten .dst (after ++ copy ++ before) = bytesWritten .dst copy := by
    simp [bytesWritten, trace_append, putTo_append, ha.put, hb.put]
  have hstop : StopSeen (after ++ copy ++ before) ↔ StopSeen copy := by
    rw [stopSeen_append, stopSeen_append]
    simp [ha.not_stop, hb.not_stop]
  have hcopy := hend.complete_iff (by rw [hsrc, hdst]; decide)
  rw [hsrc, hdst] at hcopy
  rw [Complete, CleanEnd, FailedRead, hmem _ (by simp), hmem _ (by simp), hread, hwritten, hstop]
  simpa [Complete, CleanEnd, FailedRead] using hcopy

/-- A copy in the middle of a history. -/
theorem always_copy (hdst : dst.Writable) (opts : RelayOptions) :
    Always legal (fun _ => True) (wcatCopyStream src dst opts)
      (fun ok h' => ∃ g, h' = g ++ h ∧ CopyEnd src dst ok g) h := by
  refine fun h' o hr => ⟨trivial, ?_⟩
  rintro ok rfl
  obtain ⟨g, rfl, hr'⟩ := Runs.shift (g := []) hr
  exact ⟨g, rfl, (always_wcatCopyStream hdst opts).post hr'⟩

/-- The postcondition of a transfer. -/
def TransferEnd (rc : ℕ) (h : Hist) : Prop := rc = 0 → Transferred h

/-- A transfer that fails promises nothing. -/
theorem always_failed {p : Proc ℕ} (hp : Within (fun _ => True) p fun rc => rc ≠ 0) :
    Always legal (fun _ => True) p TransferEnd h :=
  (hp.always (S := fun _ => True) trivial fun _ _ _ _ _ _ => trivial).post_mono
    fun _ _ hQ hrc => absurd hrc hQ.2

/-- From the copy on: it is followed by closes, and its result is that of the
transfer. -/
theorem always_copy_then {opts : RelayOptions} {p : Proc Unit} (hdst : dst.Writable)
    (hsobj : src.obj = .src) (hdobj : dst.obj = .dst) (hp : Within Beside p fun _ => True)
    (hh : Aside h) :
    Always legal (fun _ => True) (do
      let ok ← wcatCopyStream src dst opts
      p
      pure (if ok then 0 else 1)) TransferEnd h := by
  refine always_bind'.mpr ((always_copy hdst opts).post_mono ?_)
  rintro ok _ ⟨copy, rfl, hend⟩
  refine always_bind'.mpr ((Within.aside hp).post_mono ?_)
  rintro - _ ⟨after, rfl, ha, -⟩
  refine always_pure.mpr ⟨trivial, fun hrc => ?_⟩
  cases ok with
  | true => exact ⟨h, copy, after, src, dst, by simp, hh, ha, hsobj, hdobj, hend⟩
  | false => exact absurd hrc (by simp)

theorem NetworkOn.writable {cfg : Config} {obj : Obj} {fd : Fd} {net : Stream}
    (hnet : NetworkOn cfg obj fd (some net)) : net.Writable := by
  have hn := hnet net rfl
  split_ifs at hn
  · obtain ⟨t, -, rfl⟩ := hn
    exact fun _ _ h => absurd h (by simp [wcatStreamFromTls])
  · rw [hn]
    exact fun _ _ h => absurd h (by simp [wcatStreamFromFd])

/-- The closes after a copy, and what else is beside it. -/
theorem within_close_beside (fd : Fd) : Within Beside (wcatCloseQuiet fd) fun _ => True :=
  within_wcatCloseQuiet trivial

theorem within_closeNetwork_beside {cfg : Config} {obj : Obj} {fd : Fd} {net : Stream}
    (hnet : NetworkOn cfg obj fd (some net)) : Within Beside (closeNetwork net) fun _ => True :=
  within_closeNetwork hnet (fun _ => trivial) trivial

theorem within_networkStream_beside (cfg : Config) (obj : Obj) (fd : Fd) (serverSide : Bool) :
    Within Beside (networkStream cfg obj fd serverSide) (NetworkOn cfg obj fd) :=
  within_networkStream (still_of_quiet beside_of_quiet) (fun _ => trivial) (fun _ => trivial) (fun _ => trivial)
    trivial obj serverSide

/-- **Sending a file.** -/
theorem always_wcatSendFile (cfg : Config) :
    Always legal (fun _ => True) (wcatSendFile cfg) TransferEnd [] := by
  rw [wcatSendFile, always_bind', sys, always_request]
  refine ⟨trivial, fun r _ => ⟨trivial, ?_⟩⟩
  have hopen : Aside [⟨.openFile cfg.fileArg .rdonly, r⟩] := aside_nil.cons trivial
  rcases r with err | n
  · exact always_failed ((Within.all _).next fun _ => by simp)
  simp only
  split
  · exact always_failed ((Within.all _).next fun _ => (Within.all _).next fun _ => by simp)
  rename_i proxy _
  rw [sendOpenFile, always_bind']
  refine (Within.aside (within_sendSocket beside_of_quiet trivial (fun _ _ => trivial) (fun _ => trivial)
    (fun _ _ _ _ => trivial) fun _ _ => trivial)).post_mono ?_
  rintro sock _ ⟨g, rfl, hg, -⟩
  rcases sock with _ | sock
  · exact always_failed ((Within.all _).next fun _ => (Within.all _).next fun _ => by simp)
  refine always_bind'.mpr ((Within.aside (within_networkStream_beside _ _ _ _)).post_mono ?_)
  rintro net _ ⟨g', rfl, hg', hnet⟩
  rcases net with _ | dst
  · exact always_failed ((Within.all _).next fun _ => by simp)
  have := @always_copy_then legal (wcatStreamFromFd .src (.file n)) _ _ cfg.relayOptions
    (do closeNetwork dst; wcatCloseQuiet (.file n)) hnet.writable rfl hnet.obj_eq
    ((within_closeNetwork_beside hnet).next fun _ => within_close_beside _)
    (hg'.append (hg.append hopen))
  simpa using this

/-- Waiting for a client: when one is accepted, no stop was seen. -/
theorem always_acceptWhenReady {listener : Fd} {sizes : Option (ℕ × ℕ)} (hh : Aside h) :
    Always legal (fun _ => True) (acceptWhenReady listener sizes)
      (fun r h' => r ≠ none → Aside h') h := by
  refine Always.loop (fun _ h => Aside h) hh fun _ h hh => ?_
  rw [always_bind', sys, always_request]
  refine ⟨trivial, fun stop _ => ⟨trivial, ?_⟩⟩
  cases stop with
  | true =>
    refine always_bind'.mpr (always_request.mpr ⟨trivial, fun _ _ => ⟨trivial, ?_⟩⟩)
    exact always_pure.mpr ⟨trivial, fun hne => absurd rfl hne⟩
  | false =>
    have hh' : Aside (⟨.stop, false⟩ :: h) :=
      ⟨hh.bytes, fun hs => hh.not_stop (by simpa [StopSeen] using hs)⟩
    refine (Within.aside (Q := fun _ => True) ?_).post_mono
      (Q := fun _ h' => ∃ g, h' = g ++ ⟨.stop, false⟩ :: h ∧ Aside g ∧ True) ?_
    · rw [if_neg (by simp)]
      refine Within.step trivial fun r => ?_
      rcases r with err | _ | _
      · cases err <;> trivial
      · trivial
      · refine Within.ite (fun _ => ?_) fun _ => Within.ite (fun _ => ?_) fun _ => trivial
        · exact (within_wcatAccept (still_of_quiet beside_of_quiet) trivial sizes).footprint.next fun _ => trivial
        · exact Within.step trivial fun _ => trivial
    · rintro (_ | r) _ ⟨g, rfl, hg, -⟩
      · exact hg.append hh'
      · exact fun _ => hg.append hh'

/-- The copy of a transfer whose source is open. -/
theorem always_recvStream {cfg : Config} {listener file : Fd} (hsobj : src.obj = .src)
    (hclose : Within Beside (if (!cfg.udp) = true then closeNetwork src else pure ()) fun _ => True)
    (hh : Aside h) :
    Always legal (fun _ => True) (recvStream cfg src listener file) TransferEnd h := by
  have := @always_copy_then legal _ (wcatStreamFromFd .dst file) _ cfg.relayOptions
    (do
      let _ ← (if (!cfg.udp) = true then closeNetwork src else pure ())
      wcatCloseQuiet listener
      wcatCloseQuiet file)
    (fun _ _ h => by simp [wcatStreamFromFd] at h) hsobj rfl
    (hclose.next fun _ => (within_close_beside _).next fun _ => within_close_beside _) hh
  simpa [recvStream] using this

/-- **Receiving a file.** -/
theorem always_wcatRecvFile (cfg : Config) :
    Always legal (fun _ => True) (wcatRecvFile cfg) TransferEnd [] := by
  rw [wcatRecvFile, always_bind', sys, always_request]
  refine ⟨trivial, fun r _ => ⟨trivial, ?_⟩⟩
  have hopen : Aside [⟨.openFile cfg.fileArg .truncate, r⟩] := aside_nil.cons trivial
  rcases r with err | n
  · exact always_failed ((Within.all _).next fun _ => by simp)
  have hlisten : Within Beside (if cfg.udp = true then wcatUdpBind cfg.hostArg cfg.portArg cfg.family
      else wcatTcpListen cfg.hostArg cfg.portArg cfg.family 16) fun _ => True :=
    Within.ite (fun _ => (within_wcatUdpBind beside_of_quiet trivial (fun _ => trivial) _ _ _).footprint)
      fun _ => (within_inetListen beside_of_quiet trivial (fun _ => trivial) _ _ _ _).footprint
  simp only
  refine always_bind'.mpr ((Within.aside hlisten).post_mono ?_)
  rintro listener _ ⟨g₁, rfl, hg₁, -⟩
  rcases listener with _ | listener
  · exact always_failed ((Within.all _).next fun _ => (Within.all _).next fun _ => by simp)
  refine Always.ite (fun hudp => ?_) fun hudp => ?_
  · exact always_recvStream rfl (Within.ite (fun h => by simp [hudp] at h) fun _ => trivial)
      (hg₁.append hopen)
  rw [recvClient, always_bind']
  refine (always_acceptWhenReady (hg₁.append hopen)).post_mono ?_
  rintro (_ | peer) h hh
  · exact always_failed ((Within.all _).next fun _ => (Within.all _).next fun _ => by simp)
  refine always_bind'.mpr ((Within.aside (within_wcatAccessCheckFd (still_of_quiet beside_of_quiet) trivial
    cfg)).post_mono ?_)
  rintro allowed _ ⟨g₂, rfl, hg₂, -⟩
  refine Always.ite (fun _ => always_failed ((Within.all _).next fun _ => (Within.all _).next fun _ =>
    (Within.all _).next fun _ => by simp)) fun _ => ?_
  refine always_bind'.mpr ((Within.aside (within_sys (by trivial))).post_mono ?_)
  rintro - _ ⟨g₃, rfl, hg₃, -⟩
  refine always_bind'.mpr ((Within.aside (within_networkStream_beside _ _ _ _)).post_mono ?_)
  rintro net _ ⟨g₄, rfl, hg₄, hnet⟩
  rcases net with _ | src
  · exact always_failed ((Within.all _).next fun _ => (Within.all _).next fun _ => by simp)
  · exact always_recvStream hnet.obj_eq (Within.ite (fun _ => within_closeNetwork_beside hnet)
      fun _ => trivial) (hg₄.append (hg₃.append (hg₂.append (hh (by simp)))))

/-! ### When a copy is complete -/

/-- **When a copy and a transfer are complete.** A finished copy keeps the promise of its
return value, and a transfer that exits with `0` is complete, exactly when no read of the
source failed and no stop was seen. -/
theorem transfer_complete_iff (h ext : Hist) :
    (∀ (src dst : Stream) (opts : RelayOptions) (ok : Bool), src.obj ≠ dst.obj → dst.Writable →
      Runs Legal (wcatCopyStream src dst opts) h (ext ++ h) (some ok) →
        ((ok = true → Complete src.obj dst.obj ext) ↔ ¬FailedRead src.obj ext ∧ ¬StopSeen ext)) ∧
    (∀ cfg : Config, Runs Legal (wcatSendFile cfg) h (ext ++ h) (some 0) →
        (Complete .src .dst ext ↔ ¬FailedRead .src ext ∧ ¬StopSeen ext)) ∧
    ∀ cfg : Config, Runs Legal (wcatRecvFile cfg) h (ext ++ h) (some 0) →
        (Complete .src .dst ext ↔ ¬FailedRead .src ext ∧ ¬StopSeen ext) := by
  refine ⟨fun src dst opts ok hne hdst hr => ?_, fun cfg hr => ?_, fun cfg hr => ?_⟩
  · exact copy_complete_iff hne hdst opts hr
  · exact Transferred.complete_iff ((always_wcatSendFile cfg).post hr.ext rfl)
  · exact Transferred.complete_iff ((always_wcatRecvFile cfg).post hr.ext rfl)

/-- An environment in which the source delivers two bytes and then ends, or fails: its
connection is reset. Everything is written at once. -/
def twoBytes (clean : Bool) (h : Hist) : (e : Sys) → Resp e
  | .stop => stopped h
  | .read _ _ _ _ len =>
      if bytesRead .src h ≠ [] then if clean then .eof else .error .econnreset
      else if hlen : 2 ≤ len then .data [0x68, 0x69] (by simp) hlen else .eof
  | .write _ _ buf => WriteRes.all buf
  | e => refuse e

theorem legal_twoBytes (clean : Bool) (h : Hist) (e : Sys) : Legal h e (twoBytes clean h e) := by
  cases e with
  | stop =>
    refine ⟨by simp [opens], by simp [opens], ?_⟩
    simp only [twoBytes]
    cases hst : stopped h with
    | true => trivial
    | false => exact hst
  | read _ _ _ _ _ => exact ⟨by simp [opens], by simp [opens], trivial⟩
  | write _ _ _ => exact ⟨by simp [opens], by simp [opens], trivial⟩
  | _ => exact legal_refuse h _

/-- A copy from an accepted connection to a file in this environment. -/
def twoBytesRun (clean : Bool) : Hist × Option Bool :=
  exec (twoBytes clean) 100
    (wcatCopyStream (wcatStreamFromFd .src (.conn .tcp 5)) (wcatStreamFromFd .dst (.file 3))
      ⟨-1, false⟩) []

theorem runs_twoBytesRun (clean : Bool) :
    Runs Legal (wcatCopyStream (wcatStreamFromFd .src (.conn .tcp 5))
      (wcatStreamFromFd .dst (.file 3)) ⟨-1, false⟩) [] ((twoBytesRun clean).1 ++ []) (some true) := by
  have hr := exec_runs (legal_twoBytes clean) 100 (wcatCopyStream
    (wcatStreamFromFd .src (.conn .tcp 5)) (wcatStreamFromFd .dst (.file 3)) ⟨-1, false⟩) []
  have hok : (twoBytesRun clean).2 = some true := by cases clean <;> decide +kernel
  rw [twoBytesRun] at hok
  rw [List.append_nil, twoBytesRun]
  exact hok ▸ hr

/-- A source that ends is copied completely. -/
theorem complete_twoBytesRun : Complete .src .dst (twoBytesRun true).1 :=
  ((transfer_complete_iff [] _).1 _ _ _ true (by decide) (fun _ _ h => by simp [wcatStreamFromFd] at h)
    (runs_twoBytesRun true)).mpr (by decide +kernel) rfl

/-- A source whose connection is reset is copied as far as it was read, and the copy
succeeds. -/
theorem not_complete_twoBytesRun :
    Runs Legal (wcatCopyStream (wcatStreamFromFd .src (.conn .tcp 5))
      (wcatStreamFromFd .dst (.file 3)) ⟨-1, false⟩) [] ((twoBytesRun false).1 ++ []) (some true) ∧
      ¬Complete .src .dst (twoBytesRun false).1 :=
  ⟨runs_twoBytesRun false, by decide +kernel⟩

end Wirecat
