import Wirecat.Copy

/-!
# The traffic of a process

What a process exchanges with the outside, by where it goes and not by who does it: what it writes
to sockets and what it reads from them (`Wirecat.socketSent`, `Wirecat.socketTaken`). Its streams
have a view of their own (`Wirecat.bytesRead`, `Wirecat.bytesWritten`), and where two processes are
connected it is the traffic that connects them: much of it no stream ever sees.

Most of what a program does leaves both alone (`Wirecat.NoTraffic`), or is at least seen by no
stream (`Wirecat.Unseen`). What two streams see of each other is an exchange (`Wirecat.Exchange`),
and a relay is one (`Wirecat.Unseen.relay`).
-/

namespace Wirecat

open CString Interaction Conduit

/-! ### Sockets -/

/-- What an event writes to a socket. -/
def sentPart : Ev → Bytes
  | ⟨.write _ fd buf, .wrote n _⟩ => if fd.isSocket then buf.take n else []
  | _ => []

/-- What an event reads from a socket. -/
def takenPart : Ev → Bytes
  | ⟨.read _ fd _ _ _, .data bytes _ _⟩ => if fd.isSocket then bytes else []
  | _ => []

/-- The bytes that were written to sockets, oldest first. -/
def socketSent : Hist → Bytes
  | [] => []
  | ev :: h => socketSent h ++ sentPart ev

/-- The bytes that were read from sockets, oldest first. -/
def socketTaken : Hist → Bytes
  | [] => []
  | ev :: h => socketTaken h ++ takenPart ev

theorem socketSent_append (g h : Hist) : socketSent (g ++ h) = socketSent h ++ socketSent g := by
  induction g with
  | nil => rw [List.nil_append, socketSent, List.append_nil]
  | cons ev g ih => rw [List.cons_append, socketSent, ih, socketSent, List.append_assoc]

theorem socketTaken_append (g h : Hist) :
    socketTaken (g ++ h) = socketTaken h ++ socketTaken g := by
  induction g with
  | nil => rw [List.nil_append, socketTaken, List.append_nil]
  | cons ev g ih => rw [List.cons_append, socketTaken, ih, socketTaken, List.append_assoc]

theorem bytesRead_append (o : Obj) (g h : Hist) :
    bytesRead o (g ++ h) = bytesRead o h ++ bytesRead o g := by
  rw [bytesRead, trace_append, gotFrom_append]
  rfl

section
variable {legal : Hist → (e : Sys) → Resp e → Prop} {g h ext : Hist} {α : Type} {Q : α → Prop}

/-! ### Streams -/

/-- **No stream has seen anything.** -/
def Unseen (ext : Hist) : Prop := ∀ o, bytesRead o ext = [] ∧ bytesWritten o ext = []

/-- The requests whose answers no stream observes as bytes. -/
def Unobserved (e : Sys) : Prop :=
  ∀ r o, gotFrom o (obs e r).toList = [] ∧ putTo o (obs e r).toList = []

theorem unobserved_of_beside {e : Sys} (he : Beside e) : Unobserved e := by
  intro r o
  rcases obs_of_beside he r with hobs | hobs <;> rw [hobs] <;> exact ⟨rfl, rfl⟩

theorem Unseen.cons {e : Sys} (hu : Unseen ext) (he : Unobserved e) (r : Resp e) :
    Unseen (⟨e, r⟩ :: ext) := by
  intro o
  obtain ⟨hread, hwritten⟩ := hu o
  rw [bytesRead] at hread
  rw [bytesWritten] at hwritten
  rw [bytesRead, bytesWritten, trace_cons, gotFrom_append, putTo_append, hread, hwritten,
    (he r o).1, (he r o).2]
  exact ⟨rfl, rfl⟩

theorem Unseen.append (hg : Unseen g) (hh : Unseen h) : Unseen (g ++ h) := by
  intro o
  rw [bytesRead_append, bytesWritten_append, (hg o).1, (hg o).2, (hh o).1, (hh o).2]
  exact ⟨rfl, rfl⟩

/-- What no stream sees changes nothing for the streams. -/
theorem Unseen.same (hu : Unseen ext) (o : Obj) :
    bytesRead o (ext ++ h) = bytesRead o h ∧ bytesWritten o (ext ++ h) = bytesWritten o h := by
  rw [bytesRead_append, bytesWritten_append, (hu o).1, (hu o).2, List.append_nil, List.append_nil]
  exact ⟨rfl, rfl⟩

/-- A part of the program that no stream sees. -/
theorem always_unseen {p : Proc α} (hp : Within Unobserved p Q) :
    Always legal (fun g => ∃ ext, g = ext ++ h ∧ Unseen ext) p
      (fun a g => (∃ ext, g = ext ++ h ∧ Unseen ext) ∧ Q a) h := by
  refine hp.always ⟨[], rfl, fun _ => ⟨rfl, rfl⟩⟩ ?_
  rintro _ e r ⟨ext, rfl, hu⟩ he -
  exact ⟨⟨e, r⟩ :: ext, rfl, hu.cons he r⟩

theorem unobserved_of_quiet (e : Sys) (he : Quiet e = true) : Unobserved e :=
  unobserved_of_beside (beside_of_quiet e he)

theorem unobserved_of_still (e : Sys) (he : Still e = true) : Unobserved e :=
  still_of_quiet unobserved_of_quiet e he

theorem unobserved_socket {t : Transport} : Unobserved (.socket t) := unobserved_of_beside trivial

theorem unobserved_close (fd : Fd) : Unobserved (.close fd) := unobserved_of_beside trivial

theorem within_close_unobserved (fd : Fd) : Within Unobserved (wcatCloseQuiet fd) fun _ => True :=
  within_wcatCloseQuiet (unobserved_close fd)

/-- Opening a stream over a descriptor, and closing it. -/
theorem within_networkStream_unobserved (cfg : Config) (obj : Obj) (fd : Fd) (serverSide : Bool) :
    Within Unobserved (networkStream cfg obj fd serverSide) (NetworkOn cfg obj fd) :=
  (within_networkStream_beside cfg obj fd serverSide).mono (fun _ => unobserved_of_beside)
    fun _ => id

theorem within_closeNetwork_unobserved {cfg : Config} {obj : Obj} {fd : Fd} {net : Stream}
    (hnet : NetworkOn cfg obj fd (some net)) : Within Unobserved (closeNetwork net) fun _ => True :=
  (within_closeNetwork_beside hnet).mono (fun _ => unobserved_of_beside) fun _ => id

/-! ### Neither -/

theorem unobserved_of_offline {e : Sys} (he : Offline e) : Unobserved e := by
  cases e with
  | stop => exact fun _ _ => ⟨rfl, rfl⟩
  | read | write | sslRead | sslWrite => exact he.elim
  | _ => exact unobserved_of_beside trivial

theorem unobserved_stop : Unobserved .stop := unobserved_of_offline trivial

theorem parts_of_offline {e : Sys} (he : Offline e) (r : Resp e) :
    sentPart ⟨e, r⟩ = [] ∧ takenPart ⟨e, r⟩ = [] := by
  cases e with
  | read | write => exact he.elim
  | _ => exact ⟨rfl, rfl⟩

/-- **No traffic** of any kind: nothing on sockets, and nothing by a stream. -/
structure NoTraffic (ext : Hist) : Prop where
  sent : socketSent ext = []
  taken : socketTaken ext = []
  unseen : Unseen ext

/-- A part of the program that exchanges no bytes. -/
theorem always_offline {p : Proc α} (hp : Within Offline p Q) :
    Always legal (fun g => ∃ ext, g = ext ++ h ∧ NoTraffic ext) p
      (fun a g => (∃ ext, g = ext ++ h ∧ NoTraffic ext) ∧ Q a) h := by
  refine hp.always ⟨[], rfl, rfl, rfl, fun _ => ⟨rfl, rfl⟩⟩ ?_
  rintro _ e r ⟨ext, rfl, hn⟩ he -
  obtain ⟨hsent, htaken⟩ := parts_of_offline he r
  refine ⟨⟨e, r⟩ :: ext, rfl, ?_, ?_, hn.unseen.cons (unobserved_of_offline he) r⟩
  · rw [socketSent, hn.sent, hsent, List.append_nil]
  · rw [socketTaken, hn.taken, htaken, List.append_nil]

/-- Without traffic everything stays as it is. -/
theorem NoTraffic.same (hn : NoTraffic ext) :
    socketSent (ext ++ h) = socketSent h ∧ socketTaken (ext ++ h) = socketTaken h ∧
      ∀ o, bytesRead o (ext ++ h) = bytesRead o h ∧ bytesWritten o (ext ++ h) = bytesWritten o h := by
  rw [socketSent_append, socketTaken_append, hn.sent, hn.taken, List.append_nil, List.append_nil]
  exact ⟨rfl, rfl, hn.unseen.same⟩

/-! ### Exchanges -/

/-- **An exchange so far**: each of two streams has accepted a beginning of what the other gave. -/
structure Exchange (a b : Obj) (h : Hist) : Prop where
  there : bytesWritten b h <+: bytesRead a h
  back : bytesWritten a h <+: bytesRead b h

/-- A whole exchange: nothing that was read is missing. -/
structure WholeExchange (a b : Obj) (h : Hist) : Prop where
  there : bytesWritten b h = bytesRead a h
  back : bytesWritten a h = bytesRead b h

variable {a b : Obj}

theorem Unseen.wholeExchange (hu : Unseen h) : WholeExchange a b h := by
  constructor
  · rw [(hu b).2, (hu a).1]
  · rw [(hu a).2, (hu b).1]

theorem WholeExchange.exchange (hw : WholeExchange a b h) : Exchange a b h :=
  ⟨hw.there ▸ List.prefix_rfl, hw.back ▸ List.prefix_rfl⟩

theorem Exchange.later (hx : Exchange a b h) (hu : Unseen ext) : Exchange a b (ext ++ h) := by
  constructor
  · rw [(hu.same _).2, (hu.same _).1]
    exact hx.there
  · rw [(hu.same _).2, (hu.same _).1]
    exact hx.back

theorem WholeExchange.later (hw : WholeExchange a b h) (hu : Unseen ext) :
    WholeExchange a b (ext ++ h) := by
  constructor
  · rw [(hu.same _).2, (hu.same _).1, hw.there]
  · rw [(hu.same _).2, (hu.same _).1, hw.back]

/-- **A relay is an exchange** of its two streams, and a whole one when it succeeds. -/
theorem Unseen.relay (hu : Unseen h) {x y : Stream} (hxy : x.obj ≠ y.obj) (hx : x.Writable)
    (hy : y.Writable) (opts : RelayOptions) :
    Always legal (Exchange x.obj y.obj) (wcatRelayBidirectional x y opts)
      (fun ok g => Exchange x.obj y.obj g ∧ (ok = true → WholeExchange x.obj y.obj g)) h := by
  have hdiscipline := @always_wcatRelayBidirectional x y (After legal h) hxy hx hy opts
  have hread : ∀ o ext, bytesRead o (ext ++ h) = bytesRead o ext := by
    intro o ext
    rw [bytesRead_append, (hu o).1, List.nil_append]
  have hwritten : ∀ o ext, bytesWritten o (ext ++ h) = bytesWritten o ext := by
    intro o ext
    rw [bytesWritten_append, (hu o).2, List.nil_append]
  have hsofar : ∀ ext, Follows (relayWiring x y) (relaySt x y true true) ext →
      Exchange x.obj y.obj (ext ++ h) := by
    intro ext hfollows
    obtain ⟨st, hv⟩ := Option.isSome_iff_exists.mp hfollows
    obtain ⟨hthere, hback⟩ := written_append_owed hxy hv
    constructor
    · rw [hread, hwritten]
      exact ⟨_, hthere⟩
    · rw [hread, hwritten]
      exact ⟨_, hback⟩
  refine hdiscipline.shift.mono ?_ ?_
  · rintro _ ⟨ext, rfl, hfollows⟩
    exact hsofar ext hfollows
  · rintro ok _ - ⟨ext, rfl, hsettled⟩
    refine ⟨hsofar ext hsettled.follows, ?_⟩
    rintro rfl
    obtain ⟨st, hv, hcarry, -⟩ := hsettled
    obtain ⟨hthere, hback⟩ := written_eq_read hxy hv hcarry
    constructor
    · rw [hread, hwritten, hthere]
    · rw [hread, hwritten, hback]

end

end Wirecat
