import Wirecat.Footprint
import Wirecat.Interaction.Ledger
import Wirecat.Main

/-!
# The descriptors of a child and its peer

Who closes what. A descriptor number is passed around in four records of the source – a
stream, a child, a TLS session and an endpoint of a relay – and each of them has a function
that closes it; this file keeps the ledger (`Wirecat.descriptors`).

The functions that open and close agree with each other: what fails to open is closed where
it fails, what opened is closed by whoever was given it. One does not. Half closing the
stream of a child over pipes closes the descriptor the child reads from
(`Wirecat.Stream.closesWrite`), and `wcat_process_close`, which is given the child and not the
stream, closes it again. This happens as soon as the other side of the relay ends, so the
books are in order exactly as long as it does not (`Wirecat.Steady`).

`close` itself may be interrupted, and is called again then; by that time the descriptor
may be gone.
-/

namespace Wirecat

open CString Interaction

/-! ### The ledger -/

/-- What the events of the system open and close; a descriptor that is closed has to be
open. -/
def descriptors : Accounts Sys Resp Fd where
  opened ev := {fd | fd ∈ opens ev}
  closed ev := {fd | ev.1 = .close fd}
  needed ev := {fd | ev.1 = .close fd}

theorem isOpen_iff {h : Hist} {fd : Fd} : isOpen h fd = true ↔ fd ∈ descriptors.held h := by
  induction h with
  | nil => simp [isOpen, Accounts.held]
  | cons ev h ih =>
    obtain ⟨e, r⟩ := ev
    by_cases hclose : ∃ fd', e = .close fd'
    · obtain ⟨fd', rfl⟩ := hclose
      simp [isOpen, descriptors, opens, ih, and_comm]
    · have hne : e ≠ .close fd := fun heq => hclose ⟨fd, heq⟩
      rw [isOpen]
      · simp [descriptors, ih, hne, or_comm]
      · rintro fd' r' ⟨⟩
        exact hclose ⟨fd', rfl⟩

/-- The request that closes a descriptor. -/
def Closing : Sys → Bool
  | .close _ => true
  | _ => false

/-- The requests that open nothing and close nothing. -/
def Neutral (e : Sys) : Bool := !Opening e && !Closing e

theorem neutral_of_still (e : Sys) (he : Still e = true) : Neutral e = true := by
  cases e <;> first | rfl | exact absurd he Bool.false_ne_true

theorem opens_eq_nil {e : Sys} (he : Opening e = false) (r : Resp e) : opens ⟨e, r⟩ = [] := by
  cases e <;> first | rfl | cases he

theorem descriptors_needed (ev : Ev) : descriptors.needed ev = descriptors.closed ev := rfl

theorem closed_eq_empty {e : Sys} (he : Closing e = false) (r : Resp e) :
    descriptors.closed ⟨e, r⟩ = ∅ := by
  refine Set.eq_empty_of_forall_notMem fun fd hfd => ?_
  obtain rfl : e = .close fd := hfd
  cases he

theorem inert_of_neutral {e : Sys} (he : Neutral e = true) (r : Resp e) :
    descriptors.Inert ∅ ⟨e, r⟩ := by
  simp only [Neutral, Bool.and_eq_true, Bool.not_eq_eq_eq_not, Bool.not_true] at he
  have hclosed := closed_eq_empty he.2 r
  refine ⟨?_, hclosed, hclosed.subset⟩
  simp [descriptors, opens_eq_nil he.1]

/-! ### Steady runs -/

/-- A read that tells a relay that the stream in the variable `o` has ended. -/
def endOf (o : Obj) : Ev → Bool
  | ⟨.read (.stream o') _ _ _ _, .eof⟩ => o' = o
  | ⟨.read (.stream o') _ _ _ _, .error e⟩ => o' = o && e ≠ .eintr && e ≠ .eagain
  | ⟨.sslRead o' _ _, .error e⟩ => o' = o && e ≠ .wantRead && e ≠ .wantWrite
  | _ => false

/-- A `close` that is interrupted, and that `wcat_close_quiet` repeats. -/
def interruptedClose : Ev → Bool
  | ⟨.close _, some .eintr⟩ => true
  | _ => false

/-- A call that starting a child needs, and that fails. -/
def spawnFails : Ev → Bool
  | ⟨.pipe, none⟩ | ⟨.fork _, none⟩ | ⟨.forkpty _, none⟩ => true
  | _ => false

/-- **A steady event**: no close is interrupted, and no stream in a variable of `lasting`
ends. -/
def Steady (lasting : Obj → Prop) (ev : Ev) : Prop :=
  interruptedClose ev = false ∧ ∀ o, lasting o → endOf o ev = false

section Ledger

variable {legal : Hist → (e : Sys) → Resp e → Prop} {lasting : Obj → Prop}
variable (hlegal : ∀ h e r, legal h e r → Legal h e r ∧ Steady lasting ⟨e, r⟩)
variable {α : Type} {S : Set Fd}

theorem keeps_neutral {p : Proc α} {Q : α → Prop} (hp : Within (Neutral · = true) p Q) :
    descriptors.Keeps legal S p fun a S' => S' = S ∧ Q a :=
  Accounts.keeps_of_within hp fun _ r he => (inert_of_neutral he r).mono (Set.empty_subset S)

/-- A request that is neutral, and the rest of the program. -/
theorem Keeps.neutral {e : Sys} {k : Resp e → Proc α} {Q : α → Set Fd → Prop}
    (he : Neutral e = true)
    (hk : ∀ h r, legal h e r → descriptors.Keeps legal S (k r) Q) :
    descriptors.Keeps legal S (sys e >>= k) Q :=
  Accounts.Keeps.inert (fun r => (inert_of_neutral he r).mono (Set.empty_subset S)) hk

/-- A program that is neutral, and the rest. -/
theorem Keeps.beside {β : Type} {p : Proc α} {f : α → Proc β} {P : α → Prop}
    {Q : β → Set Fd → Prop} (hp : Within (Neutral · = true) p P)
    (hf : ∀ a, P a → descriptors.Keeps legal S (f a) Q) :
    descriptors.Keeps legal S (p >>= f) Q :=
  (keeps_neutral hp).bind fun a _ ha => ha.1 ▸ hf a ha.2

include hlegal

/-- A request that opens descriptors, and the rest of the program: they are new. -/
theorem Keeps.opening {e : Sys} {k : Resp e → Proc α} {Q : α → Set Fd → Prop}
    (he : Closing e = false)
    (hk : ∀ h r, legal h e r → (∀ fd ∈ opens ⟨e, r⟩, fd ∉ S) → (opens ⟨e, r⟩).Nodup →
      descriptors.Keeps legal (S ∪ {fd | fd ∈ opens ⟨e, r⟩}) (k r) Q) :
    descriptors.Keeps legal S (sys e >>= k) Q := by
  refine Accounts.Keeps.ask fun h r hl hS => ?_
  rw [descriptors_needed, closed_eq_empty he, Set.sdiff_empty]
  refine ⟨Set.empty_subset _, hk h r hl (fun fd hfd hmem => ?_) (hlegal h e r hl).1.2.1⟩
  have hopen : isOpen h fd = true := isOpen_iff.mpr (hS ▸ hmem)
  rw [(hlegal h e r hl).1.1 fd hfd] at hopen
  cases hopen

/-- A `close` of a descriptor that is held, and the rest of the program. -/
theorem Keeps.closing {fd : Fd} {k : Option Errno → Proc α} {Q : α → Set Fd → Prop}
    (hfd : fd ∈ S) (hk : ∀ r, r ≠ some .eintr → descriptors.Keeps legal (S \ {fd}) (k r) Q) :
    descriptors.Keeps legal S (sys (.close fd) >>= k) Q := by
  refine Accounts.Keeps.ask fun h r hl _ => ?_
  have hclosed : descriptors.closed ⟨.close fd, r⟩ = {fd} := by
    ext fd'
    simp [descriptors, eq_comm]
  have hopened : descriptors.opened ⟨.close fd, r⟩ = ∅ := by simp [descriptors, opens]
  rw [descriptors_needed, hclosed, hopened, Set.union_empty]
  refine ⟨Set.singleton_subset_iff.mpr hfd, hk r ?_⟩
  rintro rfl
  exact absurd (hlegal h _ _ hl).2.1 (by simp [interruptedClose])

/-! ### Children -/

theorem keeps_wcatCloseQuiet {fd : Fd} (hfd : fd ∈ S) :
    descriptors.Keeps legal S (wcatCloseQuiet fd) fun _ S' => S' = S \ {fd} := by
  refine Accounts.Keeps.loop (fun _ S' => S' = S) rfl ?_
  rintro - _ rfl
  refine Keeps.closing hlegal hfd fun r hr => ?_
  rcases r with _ | err
  · exact Accounts.keeps_pure rfl
  · cases err with
    | eintr => exact absurd rfl hr
    | _ => exact Accounts.keeps_pure rfl

/-- `wcat_close_quiet`, and the rest of the program. -/
theorem Keeps.close {fd : Fd} {k : Unit → Proc α} {Q : α → Set Fd → Prop} (hfd : fd ∈ S)
    (hk : descriptors.Keeps legal (S \ {fd}) (k ()) Q) :
    descriptors.Keeps legal S (wcatCloseQuiet fd >>= k) Q :=
  (keeps_wcatCloseQuiet hlegal hfd).bind fun _ _ hS => hS ▸ hk

theorem keeps_closeFd {fd : Fd} (hfd : fd ∈ S) :
    descriptors.Keeps legal S (closeFd fd) fun _ S' => S' = S \ {fd} :=
  Keeps.closing hlegal hfd fun _ _ => Accounts.keeps_pure rfl

/-- What is held once a child is started: its two descriptors, that are one with a
pseudo-terminal and two with pipes. -/
structure Started (S : Set Fd) (usePty : Bool) (proc : ProcessHandle) (S' : Set Fd) : Prop where
  holds : S' = S ∪ {proc.inFd, proc.outFd}
  inFd_new : proc.inFd ∉ S
  outFd_new : proc.outFd ∉ S
  same_iff : proc.inFd = proc.outFd ↔ usePty = true

/-- **Starting a child** opens its descriptors, or nothing. -/
theorem keeps_wcatProcessSpawn (path : Bytes) (usePty : Bool) :
    descriptors.Keeps legal S (wcatProcessSpawn path usePty) fun r S' =>
      (r = none → S' = S ∧ ∃ h e r, legal h e r ∧ spawnFails ⟨e, r⟩ = true) ∧
        ∀ proc, r = some proc → Started S usePty proc S' := by
  refine Accounts.Keeps.ite (fun hpty => ?_) fun hpipes => ?_
  · refine Keeps.opening hlegal rfl fun h r hl hnew _ => ?_
    rcases r with _ | ⟨pid, n⟩
    · refine Accounts.keeps_pure ⟨fun _ => ⟨?_, h, _, _, hl, rfl⟩, by simp⟩
      simp [opens]
    · refine Accounts.keeps_pure ⟨by simp, ?_⟩
      rintro _ ⟨⟩
      have hpty_new : Fd.pty n ∉ S := hnew _ (by simp [opens])
      exact ⟨by simp [opens], hpty_new, hpty_new, by simp [hpty]⟩
  · refine Keeps.opening hlegal rfl fun h r hl hnew hnodup => ?_
    rcases r with _ | ⟨in0, in1⟩
    · refine Accounts.keeps_pure ⟨fun _ => ⟨?_, h, _, _, hl, rfl⟩, by simp⟩
      simp [opens]
    refine Keeps.opening hlegal rfl fun h' r hl' hnew' hnodup' => ?_
    simp only [opens, List.mem_cons, List.not_mem_nil, or_false, forall_eq_or_imp, forall_eq,
      List.nodup_cons, List.nodup_nil] at hnew hnodup
    rcases r with _ | ⟨out0, out1⟩
    · refine Keeps.close hlegal (by simp [opens]) (Keeps.close hlegal ?_
        (Accounts.keeps_pure ⟨fun _ => ⟨?_, h', _, _, hl', rfl⟩, by simp⟩))
      · simp [opens]
        grind
      · simp [opens]
        grind
    simp only [opens, Set.mem_union, Set.mem_ofPred_eq, List.mem_cons, List.not_mem_nil, or_false,
      not_or, forall_eq_or_imp, forall_eq, List.nodup_cons, List.nodup_nil] at hnew' hnodup'
    refine Keeps.neutral rfl fun h'' r hl'' => ?_
    rcases r with _ | pid
    · refine Keeps.close hlegal ?_ (Keeps.close hlegal ?_ (Keeps.close hlegal ?_
        (Keeps.close hlegal ?_
          (Accounts.keeps_pure ⟨fun _ => ⟨?_, h'', _, _, hl'', rfl⟩, by simp⟩))))
      · simp [opens]
      · simp [opens]
        grind
      · simp [opens]
        grind
      · simp [opens]
        grind
      · ext x
        simp [opens]
        grind
    · refine (keeps_closeFd hlegal ?_).bind ?_
      · simp [opens]
      rintro - _ rfl
      refine (keeps_closeFd hlegal ?_).bind ?_
      · simp [opens]
        grind
      rintro - _ rfl
      refine Accounts.keeps_pure ⟨by simp, ?_⟩
      rintro _ ⟨⟩
      refine ⟨?_, hnew.2, hnew'.1.1, ?_⟩
      · ext x
        simp [opens]
        grind
      · simp [hpipes]
        grind

/-- `spawnExec` only adds a log line. -/
theorem keeps_spawnExec (cfg : Config) :
    descriptors.Keeps legal S (spawnExec cfg) fun r S' =>
      (r = none → S' = S ∧ ∃ h e r, legal h e r ∧ spawnFails ⟨e, r⟩ = true) ∧
        ∀ proc, r = some proc → Started S cfg.pty proc S' := by
  refine (keeps_wcatProcessSpawn hlegal _ _).bind fun r S' hr => ?_
  rcases r with _ | proc
  · exact Keeps.neutral rfl fun _ _ _ => Accounts.keeps_pure ⟨fun _ => hr.1 rfl, by simp⟩
  · exact Accounts.keeps_pure ⟨by simp, by simpa using hr.2⟩

/-- Closing a child closes its two descriptors, or the one that both are. -/
theorem keeps_wcatProcessClose {proc : ProcessHandle} (hin : proc.inFd ∈ S)
    (hout : proc.outFd ∈ S) :
    descriptors.Keeps legal S (wcatProcessClose proc) fun _ S' =>
      S' = S \ {proc.inFd, proc.outFd} := by
  refine Keeps.close hlegal hin (Accounts.Keeps.ite (fun hne => ?_) fun heq => ?_)
  · have hout' : proc.outFd ∈ S \ {proc.inFd} := ⟨hout, hne⟩
    refine (keeps_wcatCloseQuiet hlegal hout').mono ?_
    rintro - _ rfl
    rw [Set.sdiff_sdiff, Set.singleton_union]
  · refine Accounts.keeps_pure ?_
    rw [not_not.mp heq, Set.pair_eq_singleton]

omit hlegal in
theorem within_neutral_wcatProcessWait (proc : ProcessHandle) :
    Within (Neutral · = true) (wcatProcessWait proc) fun _ => True :=
  within_wcatProcessWait neutral_of_still proc

/-- What is left to do with a child closes its descriptors. -/
theorem keeps_processFinish {proc : ProcessHandle} (hin : proc.inFd ∈ S) (hout : proc.outFd ∈ S) :
    descriptors.Keeps legal S (processFinish proc) fun _ S' =>
      S' = S \ {proc.inFd, proc.outFd} :=
  (keeps_wcatProcessClose hlegal hin hout).bind fun _ _ hS =>
    (keeps_neutral (within_neutral_wcatProcessWait proc)).mono fun _ _ hS' => hS'.1.trans hS

/-! ### The relay -/

omit hlegal in
/-- Whether half closing a stream closes a descriptor: the writing side has one of its own,
and may give it up. -/
def Stream.closesWrite (s : Stream) : Prop :=
  ∃ rawFd writeFd, s.io = .fd rawFd (some writeFd) true ∧ writeFd ≠ rawFd

omit hlegal in
/-- Half closing any other stream leaves it, and the descriptors, as they are. -/
theorem keeps_shutdownWrite {s : Stream} (hs : ¬s.closesWrite) :
    descriptors.Keeps legal S s.shutdownWrite fun s' S' => S' = S ∧ s' = s := by
  obtain ⟨o, ⟨rawFd, _ | writeFd, _ | _⟩ | t, close⟩ := s
  · exact Accounts.keeps_pure ⟨rfl, rfl⟩
  · exact Accounts.keeps_pure ⟨rfl, rfl⟩
  · exact Accounts.keeps_pure ⟨rfl, rfl⟩
  · have heq : writeFd = rawFd := by
      by_contra hne
      exact hs ⟨rawFd, writeFd, rfl, hne⟩
    exact Accounts.Keeps.ite (fun _ => Keeps.neutral rfl fun _ _ _ => Accounts.keeps_pure ⟨rfl, rfl⟩)
      fun hne => absurd heq hne
  · exact Keeps.beside (within_wcatTlsShutdownWrite neutral_of_still rfl rfl rfl) fun _ _ =>
      Accounts.keeps_pure ⟨rfl, rfl⟩

/-- A read of a stream that does not end gives bytes, or is to be tried again. -/
def ReadRes.goesOn {len : ℕ} : ReadRes len → Prop
  | .data _ _ _ => True
  | .error e => e = .eintr ∨ e = .eagain
  | .eof => False

/-- Reading opens and closes nothing, and a lasting stream does not end. -/
theorem keeps_read (s : Stream) (len : ℕ) :
    descriptors.Keeps legal S (s.read len) fun r S' => S' = S ∧ (lasting s.obj → r.goesOn) := by
  obtain ⟨o, ⟨rawFd, writeFd, can⟩ | t, close⟩ := s
  · rw [← bind_pure (Stream.read _ _)]
    refine Keeps.neutral rfl fun h r hl => Accounts.keeps_pure ⟨rfl, fun hlast => ?_⟩
    have hend : endOf o _ = false := (hlegal h _ r hl).2.2 o hlast
    cases r with
    | data _ _ _ => trivial
    | eof => simp [endOf] at hend
    | error e => simpa [endOf, ReadRes.goesOn, or_iff_not_imp_left] using hend
  · refine Keeps.beside (within_quicHandleEvents neutral_of_still t) fun _ _ =>
      Keeps.neutral rfl fun h r hl => ?_
    rcases r with _ | err
    · exact Accounts.keeps_pure ⟨rfl, fun _ => trivial⟩
    refine Accounts.Keeps.ite (fun _ => ?_) fun hfatal => ?_
    · exact Keeps.beside (within_quicHandleEvents neutral_of_still t) fun _ _ =>
        Accounts.keeps_pure ⟨rfl, fun _ => Or.inr rfl⟩
    · refine Accounts.keeps_pure ⟨rfl, fun hlast => ?_⟩
      have hend : endOf o _ = false := (hlegal h _ _ hl).2.2 o hlast
      simp only [endOf, decide_true, Bool.true_and, Bool.and_eq_false_iff, decide_eq_false_iff_not,
        not_not] at hend
      exact absurd hend hfatal

omit hlegal in
theorem within_neutral_write (s : Stream) (buf : Bytes) :
    Within (Neutral · = true) (s.write buf) fun _ => True := by
  obtain ⟨o, ⟨rawFd, _ | writeFd, can⟩ | t, close⟩ := s
  · trivial
  · exact within_wcatFullWrite (fun _ => rfl) buf
  · exact within_wcatTlsWrite neutral_of_still (fun _ => rfl) buf

/-- A chunk is moved; the source has not ended if it is a lasting one. -/
theorem keeps_pumpOnce (src dst : Stream) (label : String) (opts : RelayOptions) :
    descriptors.Keeps legal S (pumpOnce src dst label opts) fun r S' =>
      S' = S ∧ (lasting src.obj → r ≠ .ended) := by
  refine Accounts.Keeps.bind
    (Q := fun r S' => S' = S ∧ r ≠ .error .eintr ∧ (lasting src.obj → r.goesOn))
    (Accounts.Keeps.loop (fun _ S' => S' = S) rfl ?_) ?_
  · rintro - _ rfl
    refine (keeps_read hlegal src wcatBufsize).bind ?_
    rintro (_ | _ | err) _ ⟨rfl, hgo⟩
    · exact Accounts.keeps_pure ⟨rfl, by simp, hgo⟩
    · exact Accounts.keeps_pure ⟨rfl, by simp, hgo⟩
    · cases err with
      | eintr => exact Accounts.keeps_pure rfl
      | _ => exact Accounts.keeps_pure ⟨rfl, by simp, hgo⟩
  · rintro (_ | _ | err) _ ⟨rfl, hne, hgo⟩
    · refine Keeps.beside (Within.optional rfl) fun _ _ =>
        Keeps.beside (within_neutral_write dst _) fun n _ => ?_
      exact Accounts.Keeps.ite (fun _ => Accounts.keeps_pure ⟨rfl, fun _ => by simp⟩)
        fun _ => Accounts.keeps_pure ⟨rfl, fun _ => by simp⟩
    · exact Accounts.keeps_pure ⟨rfl, fun hlast => absurd (hgo hlast) id⟩
    · cases err with
      | eagain => exact Accounts.keeps_pure ⟨rfl, fun _ => by simp⟩
      | eintr => exact absurd rfl hne
      | _ =>
        refine Accounts.keeps_pure ⟨rfl, fun hlast => ?_⟩
        exact absurd (hgo hlast) (by simp [ReadRes.goesOn])

/-- No side of the relay that would close the other's descriptor with its end comes to it. -/
def Unending (lasting : Obj → Prop) (s : RelayState) : Prop :=
  (s.b.closesWrite → lasting s.a.obj) ∧ (s.a.closesWrite → lasting s.b.obj)

omit hlegal in
theorem Unending.dir {s : RelayState} (hs : Unending lasting s) (d : Dir)
    (hd : (s.dst d).closesWrite) : lasting (s.src d).obj := by
  cases d
  · exact hs.1 hd
  · exact hs.2 hd

/-- A relay that goes round again has the streams it had. -/
def SameStreams (s : RelayState) (r : RelayState ⊕ Bool) : Prop :=
  ∀ s', r = .inl s' → s'.a = s.a ∧ s'.b = s.b

/-- A pump of an unending relay opens and closes nothing. -/
theorem keeps_pumpDir {s : RelayState} (hs : Unending lasting s) (d : Dir) (opts : RelayOptions) :
    descriptors.Keeps legal S (pumpDir d opts s) fun r S' => S' = S ∧ SameStreams s r := by
  refine (keeps_pumpOnce hlegal _ _ _ _).bind ?_
  rintro (_ | _ | _) _ ⟨rfl, hend⟩
  · refine Accounts.keeps_pure ⟨rfl, ?_⟩
    rintro _ ⟨⟩
    exact ⟨rfl, rfl⟩
  · have hopen : ¬(s.dst d).closesWrite := fun hclose => hend (hs.dir d hclose) rfl
    refine (keeps_shutdownWrite hopen).bind ?_
    rintro _ _ ⟨rfl, rfl⟩
    refine Accounts.Keeps.ite (fun _ => Accounts.keeps_pure ⟨rfl, by simp [SameStreams]⟩) fun _ => ?_
    refine Accounts.keeps_pure ⟨rfl, ?_⟩
    rintro _ ⟨⟩
    cases d <;> exact ⟨rfl, rfl⟩
  · exact Accounts.keeps_pure ⟨rfl, by simp [SameStreams]⟩

/-- A round of an unending relay opens and closes nothing. -/
theorem keeps_relayRound {s : RelayState} (hs : Unending lasting s) (af bf : Fd)
    (opts : RelayOptions) :
    descriptors.Keeps legal S (relayRound af bf opts s) fun r S' => S' = S ∧ SameStreams s r := by
  have hleave : ∀ ok : Bool, SameStreams s (.inr ok) := fun ok => by simp [SameStreams]
  have hstay : SameStreams s (.inl s) := by
    rintro _ ⟨⟩
    exact ⟨rfl, rfl⟩
  refine Keeps.neutral rfl fun _ stop _ => Accounts.Keeps.ite
    (fun _ => Accounts.keeps_pure ⟨rfl, hleave _⟩) fun _ => Accounts.Keeps.ite
    (fun _ => Accounts.keeps_pure ⟨rfl, hleave _⟩) fun _ => ?_
  refine Keeps.beside (within_tickBoth neutral_of_still s) fun ticked _ => Accounts.Keeps.ite
    (fun _ => Accounts.keeps_pure ⟨rfl, hleave _⟩) fun _ => ?_
  refine Keeps.beside (within_hasPending_quiet neutral_of_still _ _) fun _ _ => Accounts.Keeps.ite
    (fun _ => keeps_pumpDir hlegal hs _ _) fun _ => ?_
  refine Keeps.beside (within_hasPending_quiet neutral_of_still _ _) fun _ _ => Accounts.Keeps.ite
    (fun _ => keeps_pumpDir hlegal hs _ _) fun _ => Keeps.neutral rfl fun _ r _ => ?_
  rcases r with err | _ | ⟨revents, hlen, hevent, hignored⟩
  · cases err with
    | eintr => exact Accounts.keeps_pure ⟨rfl, hstay⟩
    | _ => exact Accounts.keeps_pure ⟨rfl, hleave _⟩
  · exact Accounts.Keeps.ite (fun _ => Accounts.keeps_pure ⟨rfl, hstay⟩) fun _ =>
      Keeps.neutral rfl fun _ _ _ => Accounts.keeps_pure ⟨rfl, hleave _⟩
  · refine Accounts.Keeps.bind (Q := fun r S' => S' = S ∧ SameStreams s r) (Accounts.Keeps.ite
      (fun _ => keeps_pumpDir hlegal hs _ _) fun _ => Accounts.keeps_pure ⟨rfl, hstay⟩) ?_
    rintro (s' | ok) _ ⟨rfl, hsame⟩
    · obtain ⟨ha, hb⟩ := hsame s' rfl
      refine Accounts.Keeps.ite (fun _ => ?_) fun _ => Accounts.keeps_pure ⟨rfl, hsame⟩
      have hs' : Unending lasting s' := by
        rw [Unending, ha, hb]
        exact hs
      refine (keeps_pumpDir hlegal hs' _ _).mono ?_
      rintro r _ ⟨rfl, hsame'⟩
      refine ⟨rfl, fun s'' hr => ?_⟩
      obtain ⟨ha', hb'⟩ := hsame' s'' hr
      exact ⟨ha'.trans ha, hb'.trans hb⟩
    · exact Accounts.keeps_pure ⟨rfl, hleave _⟩

/-- **An unending relay** opens and closes nothing. -/
theorem keeps_wcatRelayBidirectional {a b : Stream} (hb : b.closesWrite → lasting a.obj)
    (ha : a.closesWrite → lasting b.obj) (opts : RelayOptions) :
    descriptors.Keeps legal S (wcatRelayBidirectional a b opts) fun _ S' => S' = S := by
  refine Accounts.Keeps.loop (fun s S' => S' = S ∧ s.a = a ∧ s.b = b) ⟨rfl, rfl, rfl⟩ ?_
  rintro s _ ⟨rfl, rfl, rfl⟩
  refine (keeps_relayRound hlegal ⟨hb, ha⟩ _ _ _).mono ?_
  rintro (s' | ok) _ ⟨rfl, hsame⟩
  · exact ⟨rfl, hsame s' rfl⟩
  · exact rfl

/-! ### Sockets -/

omit hlegal in
/-- What is held once a function has returned a descriptor it opened, or none. -/
def Got (S : Set Fd) (r : Option Fd) (S' : Set Fd) : Prop :=
  match r with
  | none => S' = S
  | some fd => fd ∉ S ∧ S' = S ∪ {fd}

/-- A descriptor that was opened last is given back. -/
theorem keeps_giveBack {fd : Fd} (hnew : fd ∉ S) :
    descriptors.Keeps legal (S ∪ {fd}) (wcatCloseQuiet fd) fun _ S' => S' = S := by
  refine (keeps_wcatCloseQuiet hlegal (Or.inr rfl)).mono ?_
  rintro - _ rfl
  ext x
  simp only [Set.mem_sdiff, Set.mem_union, Set.mem_singleton_iff]
  grind

omit hlegal in
theorem union_opens_socket {t : Transport} {m : ℕ} :
    S ∪ {fd | fd ∈ opens ⟨.socket t, .ok m⟩} = S ∪ {.sock t m} := by
  simp [opens]

omit hlegal in
theorem union_opens_nil {e : Sys} {r : Resp e} (hr : opens ⟨e, r⟩ = []) :
    S ∪ {fd | fd ∈ opens ⟨e, r⟩} = S := by
  simp [hr]

/-- The loop over the addresses of a host: the sockets of the attempts that failed are
closed. -/
theorem keeps_firstAddress {t : Transport} {n : ℕ} {attempt : Fd → ℕ → Proc Bool}
    (hattempt : ∀ m k, Within (Neutral · = true) (attempt (.sock t m) k) fun _ => True) :
    descriptors.Keeps legal S (firstAddress t n attempt) (Got S) := by
  refine Accounts.Keeps.loop (fun _ S' => S' = S) rfl ?_
  rintro k S rfl
  refine Accounts.Keeps.ite (fun _ => ?_) fun _ => Accounts.keeps_pure rfl
  refine Keeps.opening hlegal rfl fun _ r _ hnew _ => ?_
  rcases r with err | m
  · rw [union_opens_nil rfl]
    exact Accounts.keeps_pure rfl
  have hm : Fd.sock t m ∉ S := hnew _ (by simp [opens])
  rw [union_opens_socket]
  refine Keeps.beside (hattempt m k) fun ok _ => Accounts.Keeps.ite
    (fun _ => Accounts.keeps_pure ⟨hm, rfl⟩) fun _ => ?_
  exact (keeps_giveBack hlegal hm).bind fun _ _ hS => Accounts.keeps_pure hS

theorem keeps_inetConnect (host port : Bytes) (family : Family) (t : Transport) (timeoutMs : ℤ) :
    descriptors.Keeps legal S (inetConnect host port family t timeoutMs) (Got S) := by
  refine Keeps.beside (within_resolve neutral_of_still _ _ _ _ _) fun r _ => ?_
  rcases r with _ | n
  · exact Accounts.keeps_pure rfl
  · refine keeps_firstAddress hlegal fun m k =>
      (within_connectTimed neutral_of_still rfl _).next fun ok => Within.ite (fun _ => ?_) fun _ => ?_
    · exact Within.step rfl fun _ => trivial
    · trivial

theorem keeps_inetListen (host port : Bytes) (family : Family) (t : Transport) (backlog : ℕ) :
    descriptors.Keeps legal S (inetListen host port family t backlog) (Got S) := by
  refine Keeps.beside (within_resolve neutral_of_still _ _ _ _ _) fun r _ => ?_
  rcases r with _ | n
  · exact Accounts.keeps_pure rfl
  · refine keeps_firstAddress hlegal fun m k => Within.step rfl fun _ =>
      Within.step rfl fun _ => Within.step rfl fun r => ?_
    rcases r with _ | err
    · exact Within.step rfl fun _ => trivial
    · trivial

theorem keeps_socketConnect (t : Transport) (addr : Addr) (timeoutMs : ℤ) :
    descriptors.Keeps legal S (socketConnect t addr timeoutMs) (Got S) := by
  refine Keeps.opening hlegal rfl fun _ r _ hnew _ => ?_
  rcases r with err | m
  · rw [union_opens_nil rfl]
    exact Accounts.keeps_pure rfl
  have hm : Fd.sock t m ∉ S := hnew _ (by simp [opens])
  rw [union_opens_socket]
  refine Keeps.beside (within_connectTimed neutral_of_still rfl _) fun ok _ =>
    Accounts.Keeps.ite (fun _ => ?_) fun _ => ?_
  · exact Keeps.neutral rfl fun _ _ _ => Accounts.keeps_pure ⟨hm, rfl⟩
  · exact (keeps_giveBack hlegal hm).bind fun _ _ hS => Accounts.keeps_pure hS

theorem keeps_socketListen (t : Transport) (addr : Addr) {prepare : Proc Unit}
    (hprep : Within (Neutral · = true) prepare fun _ => True) (backlog : ℕ) :
    descriptors.Keeps legal S (socketListen t addr prepare backlog) (Got S) := by
  refine Keeps.opening hlegal rfl fun _ r _ hnew _ => ?_
  rcases r with err | m
  · rw [union_opens_nil rfl]
    exact Accounts.keeps_pure rfl
  have hm : Fd.sock t m ∉ S := hnew _ (by simp [opens])
  rw [union_opens_socket]
  refine Keeps.neutral rfl fun _ _ _ => Keeps.beside hprep fun _ _ =>
    Keeps.neutral rfl fun _ r _ => ?_
  rcases r with _ | err
  · refine Keeps.neutral rfl fun _ r _ => ?_
    rcases r with _ | err
    · exact Accounts.keeps_pure ⟨hm, rfl⟩
    · exact (keeps_giveBack hlegal hm).bind fun _ _ hS => Accounts.keeps_pure hS
  · exact (keeps_giveBack hlegal hm).bind fun _ _ hS => Accounts.keeps_pure hS

theorem keeps_wcatUnixConnect (path : Bytes) (timeoutMs : ℤ) :
    descriptors.Keeps legal S (wcatUnixConnect path timeoutMs) (Got S) :=
  Accounts.Keeps.ite (fun _ => Keeps.neutral rfl fun _ _ _ => Accounts.keeps_pure rfl)
    fun _ => keeps_socketConnect hlegal _ _ _

theorem keeps_wcatUnixListen (path : Bytes) (backlog : ℕ) :
    descriptors.Keeps legal S (wcatUnixListen path backlog) (Got S) := by
  have hunlink : Within (Neutral · = true) (sys (.unlink path)) fun _ => True :=
    ⟨rfl, fun _ => trivial⟩
  exact Accounts.Keeps.ite (fun _ => Keeps.neutral rfl fun _ _ _ => Accounts.keeps_pure rfl)
    fun _ => keeps_socketListen hlegal _ _ hunlink _

theorem keeps_wcatVsockConnect (cid port : Bytes) (timeoutMs : ℤ) :
    descriptors.Keeps legal S (wcatVsockConnect cid port timeoutMs) (Got S) := by
  rw [wcatVsockConnect]
  split
  · exact keeps_socketConnect hlegal _ _ _
  · exact Keeps.neutral rfl fun _ _ _ => Accounts.keeps_pure rfl

theorem keeps_wcatVsockListen (cid port : Bytes) (backlog : ℕ) :
    descriptors.Keeps legal S (wcatVsockListen cid port backlog) (Got S) := by
  rw [wcatVsockListen]
  split
  · exact keeps_socketListen hlegal _ _ (by trivial) _
  · exact Keeps.neutral rfl fun _ _ _ => Accounts.keeps_pure rfl

theorem keeps_wcatUdpConnect (host port : Bytes) (family : Family) :
    descriptors.Keeps legal S (wcatUdpConnect host port family) (Got S) := by
  refine Keeps.beside (within_resolve neutral_of_still _ _ _ _ _) fun r _ => ?_
  rcases r with _ | n
  · exact Accounts.keeps_pure rfl
  · exact keeps_firstAddress hlegal fun m k => Within.step rfl fun _ =>
      Within.step rfl fun _ => trivial

theorem keeps_wcatUdpBind (host port : Bytes) (family : Family) :
    descriptors.Keeps legal S (wcatUdpBind host port family) (Got S) := by
  refine Keeps.beside (within_resolve neutral_of_still _ _ _ _ _) fun r _ => ?_
  rcases r with _ | n
  · exact Accounts.keeps_pure rfl
  · exact keeps_firstAddress hlegal fun m k => Within.step rfl fun _ =>
      Within.step rfl fun _ => trivial

theorem keeps_openListener (cfg : Config) :
    descriptors.Keeps legal S (openListener cfg) (Got S) :=
  Accounts.Keeps.ite (fun _ => keeps_wcatUnixListen hlegal _ _) fun _ =>
    Accounts.Keeps.ite (fun _ => keeps_wcatVsockListen hlegal _ _ _) fun _ =>
      Accounts.Keeps.ite (fun _ => keeps_inetListen hlegal _ _ _ _ _) fun _ =>
        keeps_inetListen hlegal _ _ _ _ _

/-- What is held once a connection was accepted, or none was. -/
def GotPeer (S : Set Fd) (r : Option Peer) (S' : Set Fd) : Prop := Got S (r.map Peer.fd) S'

theorem keeps_wcatAccept (listener : Fd) (sizes : Option (ℕ × ℕ)) :
    descriptors.Keeps legal S (wcatAccept listener sizes) (GotPeer S) := by
  refine Accounts.Keeps.loop (fun _ S' => S' = S) rfl ?_
  rintro - S rfl
  refine Keeps.opening hlegal rfl fun _ r _ hnew _ => ?_
  rcases r with err | n
  · rw [union_opens_nil rfl]
    cases err <;> exact Accounts.keeps_pure rfl
  have hn : listener.accepted n ∉ S := hnew _ (by simp [opens])
  have hheld : S ∪ {fd | fd ∈ opens ⟨.accept listener, .ok n⟩} = S ∪ {listener.accepted n} := by
    simp [opens]
  rw [hheld]
  refine Keeps.neutral rfl fun _ _ _ => ?_
  rcases sizes with _ | ⟨hostLen, portLen⟩
  · exact Accounts.keeps_pure ⟨hn, rfl⟩
  · exact Keeps.neutral rfl fun _ _ _ => Accounts.keeps_pure ⟨hn, rfl⟩

theorem keeps_acceptWhenReady (listener : Fd) (sizes : Option (ℕ × ℕ)) :
    descriptors.Keeps legal S (acceptWhenReady listener sizes) (GotPeer S) := by
  refine Accounts.Keeps.loop (fun _ S' => S' = S) rfl ?_
  rintro - _ rfl
  refine Keeps.neutral rfl fun _ stop _ => Accounts.Keeps.ite
    (fun _ => Keeps.neutral rfl fun _ _ _ => Accounts.keeps_pure rfl) fun _ => ?_
  refine Keeps.neutral rfl fun _ r _ => ?_
  rcases r with err | _ | _
  · cases err <;> exact Accounts.keeps_pure rfl
  · exact Accounts.keeps_pure rfl
  · refine Accounts.Keeps.ite (fun _ => ?_) fun _ => Accounts.Keeps.ite
      (fun _ => Keeps.neutral rfl fun _ _ _ => Accounts.keeps_pure rfl)
      fun _ => Accounts.keeps_pure rfl
    exact (keeps_wcatAccept hlegal _ _).bind fun _ _ hr => Accounts.keeps_pure hr

/-! ### Sessions -/

/-- `wcat_tls_close` of a stream that owns its descriptor. -/
theorem keeps_wcatTlsClose {t : TlsStream} (hfd : t.fd ∈ S) (howns : t.ownsFd = true) :
    descriptors.Keeps legal S (wcatTlsClose t) fun _ S' => S' = S \ {t.fd} := by
  refine Keeps.beside (Within.optional rfl) fun _ _ =>
    Accounts.Keeps.ite (fun _ => keeps_wcatCloseQuiet hlegal hfd) fun hnot => ?_
  exact absurd howns hnot

omit hlegal in
/-- What is held once a session on `fd` is open, or could not be opened: then `fd` is
closed. -/
def Session (S : Set Fd) (fd : Fd) (r : Option TlsStream) (S' : Set Fd) : Prop :=
  match r with
  | none => S' = S \ {fd}
  | some t => S' = S ∧ t.fd = fd ∧ t.ownsFd = true

theorem keeps_failOpen {t : TlsStream} {report : Proc Unit} {fd : Fd} (hfd : fd ∈ S)
    (ht : t.fd = fd ∧ t.ownsFd = true) (hr : Within (Neutral · = true) report fun _ => True) :
    descriptors.Keeps legal S (failOpen t report) (Session S fd) := by
  obtain ⟨rfl, howns⟩ := ht
  exact Keeps.beside hr fun _ _ =>
    (keeps_wcatTlsClose hlegal hfd howns).bind fun _ _ hS => Accounts.keeps_pure hS

theorem keeps_wcatTlsClientOpen {fd : Fd} (hfd : fd ∈ S) (servername : Bytes) (verifyPeer : Bool)
    (caFile clientCert clientKey : Option Bytes) :
    descriptors.Keeps legal S
      (wcatTlsClientOpen fd servername verifyPeer caFile clientCert clientKey) (Session S fd) := by
  have hfail : ∀ {t : TlsStream} {report : Proc Unit}, t.fd = fd ∧ t.ownsFd = true →
      Within (Neutral · = true) report (fun _ => True) →
      descriptors.Keeps legal S (failOpen t report) (Session S fd) :=
    fun ht hr => keeps_failOpen hlegal hfd ht hr
  have hlog : ∀ event message,
      Within (Neutral · = true) (logOpensslError event message) fun _ => True :=
    within_logOpensslError neutral_of_still
  refine Keeps.neutral rfl fun _ ctx _ =>
    Accounts.Keeps.ite (fun _ => hfail ⟨rfl, rfl⟩ (hlog _ _)) fun _ => ?_
  refine Keeps.beside (within_configureVerify neutral_of_still _ _) fun ca _ => ?_
  rcases ca with _ | message
  swap
  · exact hfail ⟨rfl, rfl⟩ (hlog _ _)
  refine Keeps.beside (within_clientCertificate (tame_of_still neutral_of_still) _ _) fun cert _ => ?_
  rcases cert with _ | _ | _
  · exact hfail ⟨rfl, rfl⟩ (by trivial)
  · exact hfail ⟨rfl, rfl⟩ (hlog _ _)
  refine Keeps.neutral rfl fun _ session _ =>
    Accounts.Keeps.ite (fun _ => hfail ⟨rfl, rfl⟩ (hlog _ _)) fun _ => ?_
  refine Keeps.neutral rfl fun _ _ _ => ?_
  refine Keeps.beside (Within.optional rfl) fun hostOk _ =>
    Accounts.Keeps.ite (fun _ => hfail ⟨rfl, rfl⟩ (hlog _ _)) fun _ => ?_
  refine Keeps.neutral rfl fun _ connected _ =>
    Accounts.Keeps.ite (fun _ => hfail ⟨rfl, rfl⟩ (hlog _ _)) fun _ => ?_
  refine Keeps.beside (Within.optional rfl) fun verified _ =>
    Accounts.Keeps.ite (fun _ => hfail ⟨rfl, rfl⟩ ⟨rfl, fun _ => trivial⟩) fun _ => ?_
  exact Keeps.neutral rfl fun _ _ _ => Accounts.keeps_pure ⟨rfl, rfl, rfl⟩

theorem keeps_wcatTlsServerOpen {fd : Fd} (hfd : fd ∈ S) (cert key caFile : Option Bytes)
    (requireClientCert : Bool) :
    descriptors.Keeps legal S (wcatTlsServerOpen fd cert key caFile requireClientCert)
      (Session S fd) := by
  have hfail : ∀ {t : TlsStream} {report : Proc Unit}, t.fd = fd ∧ t.ownsFd = true →
      Within (Neutral · = true) report (fun _ => True) →
      descriptors.Keeps legal S (failOpen t report) (Session S fd) :=
    fun ht hr => keeps_failOpen hlegal hfd ht hr
  have hlog : ∀ event message,
      Within (Neutral · = true) (logOpensslError event message) fun _ => True :=
    within_logOpensslError neutral_of_still
  rcases cert with _ | cert
  · exact hfail ⟨rfl, rfl⟩ ⟨rfl, fun _ => trivial⟩
  rcases key with _ | key
  · exact hfail ⟨rfl, rfl⟩ ⟨rfl, fun _ => trivial⟩
  refine Keeps.neutral rfl fun _ ctx _ =>
    Accounts.Keeps.ite (fun _ => hfail ⟨rfl, rfl⟩ (hlog _ _)) fun _ => ?_
  refine Keeps.beside (within_useCertificate (tame_of_still neutral_of_still) cert key) fun used _ =>
    Accounts.Keeps.ite (fun _ => hfail ⟨rfl, rfl⟩ (hlog _ _)) fun _ => ?_
  refine Keeps.beside (within_configureClientVerify neutral_of_still _ _) fun verify _ => ?_
  rcases verify with _ | _ | _
  · exact hfail ⟨rfl, rfl⟩ (by trivial)
  · exact hfail ⟨rfl, rfl⟩ (hlog _ _)
  refine Keeps.neutral rfl fun _ session _ =>
    Accounts.Keeps.ite (fun _ => hfail ⟨rfl, rfl⟩ (hlog _ _)) fun _ => ?_
  refine Keeps.neutral rfl fun _ accepted _ =>
    Accounts.Keeps.ite (fun _ => hfail ⟨rfl, rfl⟩ (hlog _ _)) fun _ => ?_
  refine Keeps.beside (Within.optional rfl) fun verified _ =>
    Accounts.Keeps.ite (fun _ => hfail ⟨rfl, rfl⟩ ⟨rfl, fun _ => trivial⟩) fun _ => ?_
  exact Keeps.neutral rfl fun _ _ _ => Accounts.keeps_pure ⟨rfl, rfl, rfl⟩

omit hlegal in
/-- What is held once the stream of a session on `fd` is open, or could not be opened. Half
closing it closes nothing, and closing it closes `fd`. -/
def Network (S : Set Fd) (obj : Obj) (fd : Fd) (r : Option Stream) (S' : Set Fd) : Prop :=
  match r with
  | none => S' = S \ {fd}
  | some net => S' = S ∧ net.obj = obj ∧ ¬net.closesWrite ∧
      match net.io with
      | .fd rawFd _ _ => rawFd = fd
      | .tls t => t.fd = fd ∧ t.ownsFd = true

omit hlegal in
theorem not_closesWrite_tls (obj : Obj) (t : TlsStream) : ¬(wcatStreamFromTls obj t).closesWrite := by
  rintro ⟨_, _, hio, -⟩
  cases hio

omit hlegal in
/-- A stream over one descriptor. -/
theorem not_closesWrite_fd {s : Stream} {fd : Fd} {can : Bool} (hs : s.io = .fd fd (some fd) can) :
    ¬s.closesWrite := by
  rintro ⟨rawFd, writeFd, hio, hne⟩
  rw [hs, StreamIo.fd.injEq, Option.some.injEq] at hio
  exact hne (hio.2.1.symm.trans hio.1)

theorem keeps_networkStream (cfg : Config) (obj : Obj) {fd : Fd} (hfd : fd ∈ S)
    (serverSide : Bool) :
    descriptors.Keeps legal S (networkStream cfg obj fd serverSide) (Network S obj fd) := by
  refine Accounts.Keeps.ite (fun _ => ?_) fun _ => ?_
  · refine Accounts.Keeps.bind (Q := Session S fd) (Accounts.Keeps.ite
      (fun _ => keeps_wcatTlsServerOpen hlegal hfd _ _ _ _)
      fun _ => keeps_wcatTlsClientOpen hlegal hfd _ _ _ _ _) ?_
    rintro (_ | t) S' hS
    · exact Accounts.keeps_pure hS
    · exact Accounts.keeps_pure ⟨hS.1, rfl, not_closesWrite_tls obj t, hS.2⟩
  · exact Accounts.keeps_pure ⟨rfl, rfl, not_closesWrite_fd rfl, rfl⟩

theorem keeps_closeNetwork {obj : Obj} {fd : Fd} {net : Stream} (hfd : fd ∈ S)
    {S₀ S' : Set Fd} (hnet : Network S₀ obj fd (some net) S') :
    descriptors.Keeps legal S (closeNetwork net) fun _ S' => S' = S \ {fd} := by
  obtain ⟨o, ⟨rawFd, writeFd, can⟩ | t, close⟩ := net
  · obtain rfl : rawFd = fd := hnet.2.2.2
    exact keeps_wcatCloseQuiet hlegal hfd
  · obtain ⟨rfl, howns⟩ : t.fd = fd ∧ t.ownsFd = true := hnet.2.2.2
    exact keeps_wcatTlsClose hlegal hfd howns

theorem keeps_peerStream (cfg : Config) {fd : Fd} (hfd : fd ∈ S) (serverSide : Bool) :
    descriptors.Keeps legal S (peerStream cfg fd serverSide) (Network S .net fd) := by
  refine (keeps_networkStream hlegal cfg .net hfd serverSide).bind ?_
  rintro (_ | net) S' hnet
  · refine Accounts.Keeps.mono (Accounts.keeps_pure (Q := fun a S' => a = none ∧ S' = S \ {fd}) ?_) ?_
    · exact ⟨by simp, hnet⟩
    · rintro _ _ ⟨rfl, hS⟩
      exact hS
  · obtain ⟨hS, hobj, hopen, hio⟩ := hnet
    refine Accounts.keeps_pure ?_
    split_ifs
    · exact ⟨hS, hobj, not_closesWrite_fd rfl, rfl⟩
    · exact ⟨hS, hobj, hopen, hio⟩

/-! ### A peer, and what serves it -/

omit hlegal in
theorem stdioStream_closesWrite : ¬stdioStream.closesWrite := by
  rintro ⟨rawFd, writeFd, hio, -⟩
  simp [stdioStream, wcatStreamFromFdPair] at hio

omit hlegal in
/-- Half closing the stream of a child closes a descriptor only if the child is on pipes. -/
theorem Started.closesWrite {usePty : Bool} {proc : ProcessHandle} {S' : Set Fd}
    (hproc : Started S usePty proc S') (hclose : (procStream proc).closesWrite) :
    usePty = false := by
  obtain ⟨rawFd, writeFd, hio, hne⟩ := hclose
  simp only [procStream, wcatStreamFromFdPair, StreamIo.fd.injEq, Option.some.injEq] at hio
  obtain ⟨rfl, rfl, -⟩ := hio
  rw [← Bool.not_eq_true, ← hproc.same_iff]
  exact hne

omit hlegal in
/-- Closing the child that was started last leaves what was held before. -/
theorem Started.finish {usePty : Bool} {proc : ProcessHandle} {S' : Set Fd}
    (hproc : Started S usePty proc S') : S' \ {proc.inFd, proc.outFd} = S := by
  rw [hproc.holds]
  ext x
  simp only [Set.mem_sdiff, Set.mem_union, Set.mem_insert_iff, Set.mem_singleton_iff]
  have hin := hproc.inFd_new
  have hout := hproc.outFd_new
  grind

/-- The relay of a peer and a child, up to the close of the child. -/
theorem keeps_childRelay {usePty : Bool} {proc : ProcessHandle} {S' : Set Fd}
    (hproc : Started S usePty proc S') {net : Stream} (hnet : ¬net.closesWrite)
    (hlast : usePty = false → lasting net.obj) (opts : RelayOptions) {β : Type} {k : Bool → Proc β}
    {Q : β → Set Fd → Prop} (hk : ∀ ok, descriptors.Keeps legal S (k ok) Q) :
    descriptors.Keeps legal S' (do
      let ok ← wcatRelayBidirectional { net with closeOnEof := false } (procStream proc) opts
      processFinish proc
      k ok) Q := by
  have hin : proc.inFd ∈ S' := by simp [hproc.holds]
  have hout : proc.outFd ∈ S' := by simp [hproc.holds]
  have hnet' : ¬Stream.closesWrite { net with closeOnEof := false } := hnet
  refine (keeps_wcatRelayBidirectional hlegal (a := { net with closeOnEof := false })
    (fun hclose => hlast (hproc.closesWrite hclose)) (fun hclose => absurd hclose hnet') opts).bind ?_
  rintro ok _ rfl
  refine (keeps_processFinish hlegal hin hout).bind ?_
  rintro - _ rfl
  rw [hproc.finish]
  exact hk ok

/-- The streams of a peer and the standard streams are relayed, and the peer's closed. -/
theorem keeps_relayPeerToStdio (cfg : Config) {fd : Fd} (hfd : fd ∈ S) (serverSide : Bool) :
    descriptors.Keeps legal S (relayPeerToStdio cfg fd serverSide) fun _ S' => S' = S \ {fd} := by
  refine (keeps_peerStream hlegal cfg hfd serverSide).bind ?_
  rintro (_ | net) S' hnet
  · exact Accounts.keeps_pure hnet
  obtain rfl : S' = S := hnet.1
  refine (keeps_wcatRelayBidirectional hlegal (fun hclose => absurd hclose stdioStream_closesWrite)
    (fun hclose => absurd hclose hnet.2.2.1) _).bind ?_
  rintro ok _ rfl
  exact (keeps_closeNetwork hlegal hfd hnet).bind fun _ _ hS => Accounts.keeps_pure hS

section Children

variable {cfg : Config}
variable (hspawn : cfg.execPath.isSome = true → ∀ h e r, legal h e r → spawnFails ⟨e, r⟩ = false)
variable (hlast : cfg.execPath.isSome = true → cfg.pty = false → lasting .net)

include hspawn

omit hlegal in
theorem not_spawnFails (hexec : cfg.execPath.isSome = true) {P : Prop}
    (h : ∃ h e r, legal h e r ∧ spawnFails ⟨e, r⟩ = true) : P := by
  obtain ⟨h, e, r, hl, hfail⟩ := h
  rw [hspawn hexec h e r hl] at hfail
  cases hfail

include hlast

/-- A peer and a child are relayed: the child is closed, and then the peer. -/
theorem keeps_relayPeerToProcess (hexec : cfg.execPath.isSome = true) {fd : Fd} (hfd : fd ∈ S)
    (serverSide : Bool) :
    descriptors.Keeps legal S (relayPeerToProcess cfg fd serverSide) fun _ S' => S' = S \ {fd} := by
  refine (keeps_spawnExec hlegal cfg).bind ?_
  rintro (_ | proc) S₁ hr
  · exact not_spawnFails hspawn hexec (hr.1 rfl).2
  have hproc : Started S cfg.pty proc S₁ := hr.2 proc rfl
  have hfd₁ : fd ∈ S₁ := by
    rw [hproc.holds]
    exact Or.inl hfd
  refine (keeps_peerStream hlegal cfg hfd₁ serverSide).bind ?_
  rintro (_ | net) S₂ hnet
  · obtain rfl : S₂ = S₁ \ {fd} := hnet
    have hin : proc.inFd ∈ S₁ \ {fd} := by
      refine ⟨by simp [hproc.holds], ?_⟩
      rintro rfl
      exact hproc.inFd_new hfd
    have hout : proc.outFd ∈ S₁ \ {fd} := by
      refine ⟨by simp [hproc.holds], ?_⟩
      rintro rfl
      exact hproc.outFd_new hfd
    refine (keeps_processFinish hlegal hin hout).bind ?_
    rintro - _ rfl
    refine Accounts.keeps_pure ?_
    rw [Set.sdiff_sdiff_comm, hproc.finish]
  · obtain rfl : S₂ = S₁ := hnet.1
    refine keeps_childRelay hlegal hproc hnet.2.2.1 (fun hpty => hnet.2.1 ▸ hlast hexec hpty) _ fun ok => ?_
    exact (keeps_closeNetwork hlegal hfd hnet).bind fun _ _ hS => Accounts.keeps_pure hS

/-- **Serving a peer** closes its descriptor. -/
theorem keeps_relayPeer {fd : Fd} (hfd : fd ∈ S) (serverSide : Bool) :
    descriptors.Keeps legal S (relayPeer cfg fd serverSide) fun _ S' => S' = S \ {fd} :=
  Accounts.Keeps.ite (fun hexec => keeps_relayPeerToProcess hlegal hspawn hlast hexec hfd _)
    fun _ => keeps_relayPeerToStdio hlegal cfg hfd _

end Children

end Ledger

end Wirecat
