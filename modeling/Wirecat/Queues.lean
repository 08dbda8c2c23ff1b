import Wirecat.Cli
import Wirecat.Rendering

/-!
# The queues of the broker

A queue is an array with two offsets. It is compacted, appended to, written out in pieces, emptied and
given up, in any order, and the limit has to hold through all of it: `Wirecat.QueueOk`
for one queue, `Wirecat.SlotsOk` for the table.

The invariant is not about loop heads alone. `Wirecat.BrokerReached` holds of the states between any two
steps of a round, and of more: the steps may be taken in any order. It says nothing of the states
inside `drop_client` and `queue_bytes`, which have their own lemmas.

The size test of `queue_bytes` is a comparison of unsigned numbers, and it is written so that
nothing wraps around (`Wirecat.exceeds_iff`). A queue that is empty passes it if the message fits the
limit at all, and a message need not: a chunk can be longer than the limit, and its rendering
longer still. So a client that has read everything may be dropped as a slow one
(`Wirecat.idle_kept_iff`).
-/

namespace Wirecat

open CString Interaction

variable {legal : Hist → (e : Sys) → Resp e → Prop} {h h' : Hist}

/-! ### The size test -/

/-- The size test of `queue_bytes`, on values of type `size_t`. -/
def exceeds (pending len maxBuffer : UInt64) : Bool :=
  maxBuffer < len || maxBuffer - len < pending

/-- **The size test does not wrap around.** -/
theorem exceeds_iff (pending len maxBuffer : UInt64) :
    exceeds pending len maxBuffer = true ↔ maxBuffer.toNat < pending.toNat + len.toNat := by
  rw [exceeds, Bool.or_eq_true, decide_eq_true_eq, decide_eq_true_eq, UInt64.lt_iff_toNat_lt,
    UInt64.lt_iff_toNat_lt]
  by_cases hlen : maxBuffer.toNat < len.toNat
  · exact iff_of_true (.inl hlen) (by omega)
  · have hle : len ≤ maxBuffer := UInt64.le_iff_toNat_le.mpr (by omega)
    rw [UInt64.toNat_sub_of_le _ _ hle]
    omega

/-- The size test as it is written in `Wirecat.queueBytes`. -/
theorem not_room_iff {pending len maxBuffer : ℕ} :
    (maxBuffer < len ∨ maxBuffer - len < pending) ↔ maxBuffer < pending + len := by
  omega

/-! ### A queue -/

/-- **A queue in order**: the offsets are where they should be, the array holds what they say, and the
limit is kept. -/
structure QueueOk (maxBuffer : ℕ) (c : BrokerClient) : Prop where
  off_le : c.outOff ≤ c.outLen
  le_max : c.outLen ≤ maxBuffer
  stored : c.outLen ≤ c.out.length

section
variable {maxBuffer : ℕ} {c : BrokerClient} {buf : Bytes}

theorem queueOk_clientInit (maxBuffer : ℕ) : QueueOk maxBuffer clientInit :=
  ⟨le_refl _, Nat.zero_le _, Nat.zero_le _⟩

theorem QueueOk.length_pending (hc : QueueOk maxBuffer c) :
    c.pending.length = c.outLen - c.outOff := by
  rw [BrokerClient.pending, List.length_drop, List.length_take, min_eq_left hc.stored]

/-- Moving the pending bytes down. -/
theorem QueueOk.compact (hc : QueueOk maxBuffer c) :
    QueueOk maxBuffer c.compact ∧ c.compact.fd = c.fd ∧ c.compact.pending = c.pending ∧
      c.compact.outLen = c.outLen - c.outOff := by
  obtain ⟨hfd, -, -, hoff, hstored, htake⟩ := compact_spec hc.off_le hc.stored
  have hlen : c.compact.outLen = c.outLen - c.outOff := by
    rw [← hc.length_pending, ← htake, List.length_take, min_eq_left hstored]
  have hmax := hc.le_max
  refine ⟨⟨by omega, by omega, hstored⟩, hfd, ?_, hlen⟩
  rw [BrokerClient.pending, hoff, List.drop_zero, htake]

/-- A write accepted some of the pending bytes. -/
theorem QueueOk.wrote (hc : QueueOk maxBuffer c) {n : ℕ} (hn : n ≤ c.pending.length) :
    QueueOk maxBuffer { c with outOff := c.outOff + n } := by
  rw [hc.length_pending] at hn
  have hoff := hc.off_le
  exact ⟨show c.outOff + n ≤ c.outLen by omega, hc.le_max, hc.stored⟩

/-- Everything was written. -/
theorem QueueOk.emptied (c : BrokerClient) (maxBuffer : ℕ) :
    QueueOk maxBuffer { c with outLen := 0, outOff := 0 } :=
  ⟨le_refl _, Nat.zero_le _, Nat.zero_le _⟩

/-- A message is put behind the pending bytes. -/
theorem QueueOk.pending_append (hc : QueueOk maxBuffer c) (buf : Bytes) :
    BrokerClient.pending { c with
      out := c.out.take c.outLen ++ buf
      outLen := c.outLen + buf.length } = c.pending ++ buf := by
  have htake : (c.out.take c.outLen).length = c.outLen := by
    rw [List.length_take, min_eq_left hc.stored]
  have hall : (c.out.take c.outLen ++ buf).take (c.outLen + buf.length) =
      c.out.take c.outLen ++ buf :=
    List.take_of_length_le (by rw [List.length_append, htake])
  have hoff := hc.off_le
  rw [BrokerClient.pending, BrokerClient.pending]
  dsimp only
  rw [hall, List.drop_append_of_le_length (by omega)]

/-- **What `queue_bytes` does**: nothing when the size test fails, and otherwise it asks for memory.
When it fails the pending bytes are as they were, and else the message is behind them. -/
theorem runs_queueBytesLeaves (hc : QueueOk maxBuffer c) {r : Bool × BrokerClient}
    (hr : Runs legal (queueBytesLeaves c buf maxBuffer) h h' (some r)) :
    QueueOk maxBuffer r.2 ∧ r.2.fd = c.fd ∧
      (maxBuffer < c.outLen - c.outOff + buf.length ∧ h' = h ∧ r = (false, c) ∨
        ¬maxBuffer < c.outLen - c.outOff + buf.length ∧ h' ≠ h ∧
          (r.1 = false ∧ Exhausted h h' ∧ r.2.pending = c.pending ∨
            r.1 = true ∧ r.2.pending = c.pending ++ buf)) := by
  rw [queueBytesLeaves] at hr
  dsimp only at hr
  split_ifs at hr with hfull
  · obtain ⟨rfl, rfl⟩ := runs_pure.mp hr
    exact ⟨hc, rfl, .inl ⟨not_room_iff.mp hfull, rfl, rfl⟩⟩
  · rw [not_room_iff] at hfull
    obtain ⟨hok, hfd, hpend, hlen⟩ := hc.compact
    obtain ⟨ok, -, hr⟩ := runs_ask.mp hr
    have hne : h' ≠ h := fun heq => by
      have := hr.suffix.length_le
      rw [heq, List.length_cons] at this
      omega
    cases ok with
    | true =>
      obtain ⟨-, rfl⟩ := runs_pure.mp hr
      have hstored := hok.stored
      refine ⟨⟨?_, ?_, ?_⟩, hfd, .inr ⟨hfull, hne, .inr ⟨rfl, ?_⟩⟩⟩
      · exact hok.off_le.trans (Nat.le_add_right _ _)
      · change c.compact.outLen + buf.length ≤ maxBuffer
        omega
      · simp [hstored]
      · rw [← hpend]
        exact hok.pending_append buf
    | false =>
      obtain ⟨rfl, rfl⟩ := runs_pure.mp hr
      exact ⟨hok, hfd, .inr ⟨hfull, hne, .inl ⟨rfl, ⟨_, happens_cons.mpr rfl⟩, hpend⟩⟩⟩

/-- A client that a message was queued for. -/
theorem runs_queueBytes (hc : QueueOk maxBuffer c) {c' : BrokerClient}
    (hr : Runs legal (queueBytes c buf maxBuffer) h h' (some (some c'))) :
    QueueOk maxBuffer c' ∧ c'.fd = c.fd := by
  rw [queueBytes] at hr
  obtain ⟨⟨ok, c''⟩, h₁, hleaves, hret⟩ := runs_bind_some'.mp hr
  obtain ⟨hok, hfd, -⟩ := runs_queueBytesLeaves hc hleaves
  obtain ⟨-, hres⟩ := runs_pure.mp hret
  split_ifs at hres with hdone
  obtain rfl := Option.some.inj hres
  exact ⟨hok, hfd⟩

/-- Writing out, in pieces, keeps the queue in order. -/
theorem within_flushClient {fd : Fd} (hc : QueueOk maxBuffer c) :
    Within (fun _ => True) (flushClient fd c) fun r => ∀ c' ∈ r, QueueOk maxBuffer c' ∧ c'.fd = c.fd := by
  refine Within.loop (fun c' => QueueOk maxBuffer c' ∧ c'.fd = c.fd) ⟨hc, rfl⟩ ?_
  rintro c' ⟨hc', hfd⟩
  refine Within.ite (fun _ => Within.step trivial fun r => ?_) fun _ => ?_
  · rcases r with ⟨_ | n, hn⟩ | err
    · rintro _ ⟨⟩
      exact ⟨hc', hfd⟩
    · exact ⟨hc'.wrote hn, hfd⟩
    · cases err <;> first
        | exact ⟨hc', hfd⟩
        | (rintro _ ⟨⟩; exact ⟨hc', hfd⟩)
        | exact fun _ hnone => absurd hnone (by simp)
  · rintro _ ⟨⟩
    exact ⟨.emptied c' maxBuffer, hfd⟩

end

/-! ### The table -/

/-- **The table of the broker in order**: every queue is, a free slot is as `client_init` leaves it, and
slots from the limit on are free. -/
structure SlotsOk (maxClients maxBuffer : ℕ) (s : BrokerState) : Prop where
  queue : ∀ i, QueueOk maxBuffer (s.clients i)
  free : ∀ i, (s.clients i).fd = none → s.clients i = clientInit
  above : ∀ i, maxClients ≤ i → (s.clients i).fd = none

section
variable {maxClients maxBuffer i : ℕ} {s : BrokerState} {c : BrokerClient} {fd : Fd}

theorem slotsOk_brokerInit (maxClients maxBuffer : ℕ) : SlotsOk maxClients maxBuffer brokerInit :=
  ⟨fun _ => queueOk_clientInit maxBuffer, fun _ _ => rfl, fun _ _ => rfl⟩

/-- The client in a slot changes. -/
theorem SlotsOk.set (hs : SlotsOk maxClients maxBuffer s) (hi : (s.clients i).fd = some fd)
    (hfd : c.fd = some fd) (hc : QueueOk maxBuffer c) : SlotsOk maxClients maxBuffer (s.set i c) := by
  refine ⟨fun j => ?_, fun j hj => ?_, fun j hj => ?_⟩ <;> rcases eq_or_ne j i with rfl | hne
  · rwa [set_same]
  · rw [set_other hne]
    exact hs.queue j
  · rw [set_same, hfd] at hj
    cases hj
  · rw [set_other hne] at hj ⊢
    exact hs.free j hj
  · rw [hs.above j hj] at hi
    cases hi
  · rw [set_other hne]
    exact hs.above j hj

/-- The client in a slot leaves. -/
theorem SlotsOk.drop (hs : SlotsOk maxClients maxBuffer s) (i : ℕ) :
    SlotsOk maxClients maxBuffer (s.set i clientInit) := by
  refine ⟨fun j => ?_, fun j hj => ?_, fun j hj => ?_⟩ <;> rcases eq_or_ne j i with rfl | hne
  · rw [set_same]
    exact queueOk_clientInit maxBuffer
  · rw [set_other hne]
    exact hs.queue j
  · rw [set_same]
  · rw [set_other hne] at hj ⊢
    exact hs.free j hj
  · rw [set_same]
    rfl
  · rw [set_other hne]
    exact hs.above j hj

/-- A client joins a free slot. -/
theorem SlotsOk.join (hs : SlotsOk maxClients maxBuffer s) (hi : (s.clients i).fd = none)
    (hlt : i < maxClients) (fd : Fd) : SlotsOk maxClients maxBuffer (s.join i fd) := by
  have hinit := hs.free i hi
  refine ⟨fun j => ?_, fun j hj => ?_, fun j hj => ?_⟩ <;> rcases eq_or_ne j i with rfl | hne
  · rw [join_same, hinit]
    exact ⟨le_refl _, Nat.zero_le _, Nat.zero_le _⟩
  · rw [join_other hne]
    exact hs.queue j
  · rw [join_same] at hj
    cases hj
  · rw [join_other hne] at hj ⊢
    exact hs.free j hj
  · omega
  · rw [join_other hne]
    exact hs.above j hj

theorem within_dropClient (s : BrokerState) (i : ℕ) :
    Within (fun _ => True) (dropClient s i) fun s' => s' = s.set i clientInit :=
  (Within.all _).bind' fun _ _ => rfl

variable {cfg : Config} {listener : Fd}

theorem runs_brokerAccept {s' : BrokerState}
    (hr : Runs legal (brokerAccept cfg listener maxClients s) h h' (some (some s'))) :
    s' = s ∨ ∃ i fd, i < maxClients ∧ (s.clients i).fd = none ∧ s' = s.join i fd := by
  suffices hw : Within (fun _ => True) (brokerAccept cfg listener maxClients s) fun r => ∀ s' ∈ r,
      s' = s ∨ ∃ i fd, i < maxClients ∧ (s.clients i).fd = none ∧ s' = s.join i fd from
    hw.result hr s' rfl
  refine (Within.all _).bind' fun peer _ => ?_
  rcases peer with _ | peer
  · rintro _ ⟨⟩
    exact .inl rfl
  refine (Within.all _).next fun allowed => Within.ite (fun _ => ?_) fun _ => ?_
  · exact (Within.all _).next fun _ => by simp
  cases hslot : freeSlot maxClients s with
  | none =>
    refine Within.step trivial fun _ => (Within.all _).next fun _ => ?_
    rintro _ ⟨⟩
    exact .inl rfl
  | some i =>
    have hfree : (s.clients i).fd = none := by
      have := List.find?_some hslot
      simpa using this
    have hlt : i < maxClients := List.mem_range.mp (List.mem_of_find?_eq_some hslot)
    refine Within.step trivial fun _ => Within.step trivial fun _ => ?_
    rintro _ ⟨⟩
    exact .inr ⟨i, peer.fd, hlt, hfree, rfl⟩

theorem SlotsOk.accepted {s' : BrokerState} (hs : SlotsOk maxClients maxBuffer s)
    (hr : Runs legal (brokerAccept cfg listener maxClients s) h h' (some (some s'))) :
    SlotsOk maxClients maxBuffer s' := by
  rcases runs_brokerAccept hr with rfl | ⟨i, fd, hlt, hfree, rfl⟩
  · exact hs
  · exact hs.join hfree hlt fd

/-- A message is passed round. -/
theorem SlotsOk.passed {n : ℕ} {buf : Bytes} {s' : BrokerState} (hs : SlotsOk maxClients maxBuffer s)
    (hr : Runs legal (brokerBroadcast n maxBuffer i buf s) h h' (some s')) :
    SlotsOk maxClients maxBuffer s' := by
  refine Runs.forRange (fun _ s _ => SlotsOk maxClients maxBuffer s) hs ?_ hr
  rintro j - s g hs g' s' hr
  split_ifs at hr with hlive
  · obtain ⟨fd, hfd⟩ := Option.isSome_iff_exists.mp hlive.1
    obtain ⟨r, g₁, hqueue, hr⟩ := runs_bind_some'.mp hr
    cases r with
    | some c =>
      obtain ⟨-, rfl⟩ := runs_pure.mp hr
      obtain ⟨hok, hcfd⟩ := runs_queueBytes (hs.queue j) hqueue
      exact hs.set hfd (hcfd.trans hfd) hok
    | none =>
      obtain ⟨_, -, hr⟩ := runs_ask.mp hr
      rw [(within_dropClient s j).result hr]
      exact hs.drop j
  · obtain ⟨-, rfl⟩ := runs_pure.mp hr
    exact hs

/-- A chunk is passed round, or its sender leaves. -/
theorem SlotsOk.chunk {buf : Bytes} {s' : BrokerState} (hs : SlotsOk maxClients maxBuffer s)
    (hi : (s.clients i).fd = some fd)
    (hr : Runs legal (brokerChunk cfg maxClients maxBuffer i buf s) h h' (some s')) :
    SlotsOk maxClients maxBuffer s' := by
  obtain ⟨_, h₁, -, hr⟩ := runs_bind_some'.mp hr
  split_ifs at hr with hchat
  · obtain ⟨r, h₂, -, hr⟩ := runs_bind_some'.mp hr
    rcases r with _ | ⟨message, lineStart⟩
    · obtain ⟨_, h₃, -, hr⟩ := runs_bind_some'.mp hr
      rw [(within_dropClient s i).result hr]
      exact hs.drop i
    · have hok := hs.queue i
      have hset : SlotsOk maxClients maxBuffer
          (s.set i { s.clients i with lineStart := lineStart }) :=
        hs.set hi hi ⟨hok.off_le, hok.le_max, hok.stored⟩
      exact hset.passed hr
  · exact hs.passed hr

theorem SlotsOk.read {s' : BrokerState} (hs : SlotsOk maxClients maxBuffer s)
    (hi : (s.clients i).fd = some fd)
    (hr : Runs legal (brokerRead cfg maxClients maxBuffer i fd s) h h' (some s')) :
    SlotsOk maxClients maxBuffer s' := by
  obtain ⟨r, h₁, -, hrest⟩ := runs_bind_some'.mp hr
  have hdrop : ∀ {g g' : Hist}, Runs legal (dropClient s i) g g' (some s') →
      SlotsOk maxClients maxBuffer s' := fun hr => by
    rw [(within_dropClient s i).result hr]
    exact hs.drop i
  rcases r with ⟨bytes, hne, hle⟩ | _ | err
  · exact hs.chunk hi hrest
  · exact hdrop hrest
  · cases err <;> first
      | exact hdrop hrest
      | exact (runs_pure.mp hrest).2 ▸ hs

/-- A slot is served. -/
theorem SlotsOk.served {polled : List (PollFd × Revents)} {s' : BrokerState}
    (hs : SlotsOk maxClients maxBuffer s)
    (hr : Runs legal (brokerSlot cfg maxClients maxBuffer polled i s) h h' (some s')) :
    SlotsOk maxClients maxBuffer s' := by
  rw [brokerSlot] at hr
  cases hi : (s.clients i).fd with
  | none =>
    rw [hi] at hr
    exact (runs_pure.mp hr).2 ▸ hs
  | some fd =>
  cases hevents : polledEvents polled fd with
  | none =>
    rw [hi] at hr
    simp only [hevents] at hr
    exact (runs_pure.mp hr).2 ▸ hs
  | some revents =>
  rw [hi] at hr
  simp only [hevents] at hr
  have hdrop : ∀ {g g' : Hist}, Runs legal (dropClient s i) g g' (some s') →
      SlotsOk maxClients maxBuffer s' := fun hr => by
    rw [(within_dropClient s i).result hr]
    exact hs.drop i
  by_cases hbad : (revents.pollerr || revents.pollnval) = true
  · rw [if_pos hbad] at hr
    exact hdrop hr
  rw [if_neg hbad] at hr
  obtain ⟨r, h₁, hflush, hr⟩ := runs_bind_some'.mp hr
  cases r with
  | none => exact hdrop hr
  | some c =>
    have hc : QueueOk maxBuffer c ∧ c.fd = (s.clients i).fd := by
      split_ifs at hflush
      · exact (within_flushClient (hs.queue i)).result hflush c rfl
      · obtain rfl := Option.some.inj (runs_pure.mp hflush).2
        exact ⟨hs.queue i, rfl⟩
    have hset := hs.set hi (hc.2.trans hi) hc.1
    split_ifs at hr with hin
    · refine hset.read ?_ hr
      rw [set_same, hc.2, hi]
    · exact (runs_pure.mp hr).2 ▸ hset

/-- **A round keeps the table in order.** -/
theorem SlotsOk.round {s' : BrokerState} (hs : SlotsOk cfg.maxClients cfg.maxBuffer s)
    (hr : Runs legal (brokerRound cfg listener s) h h' (some (.inl s'))) :
    SlotsOk cfg.maxClients cfg.maxBuffer s' := by
  obtain ⟨stop, -, hr⟩ := runs_ask.mp hr
  cases stop with
  | true => exact absurd (runs_pure.mp hr).2 (by simp)
  | false =>
  obtain ⟨answer, -, hrest⟩ := runs_ask.mp hr
  rcases answer with err | _ | ⟨revents, hlen, hev, hign⟩
  · cases err <;> first
      | exact Sum.inl.inj (runs_pure.mp hrest).2 ▸ hs
      | (obtain ⟨_, -, hret⟩ := runs_ask.mp hrest
         exact absurd (runs_pure.mp hret).2 (by simp))
  · exact Sum.inl.inj (runs_pure.mp hrest).2 ▸ hs
  · obtain ⟨joined, h₁, hjoin, hrest⟩ := runs_bind_some'.mp hrest
    cases joined with
    | none => exact Sum.inl.inj (runs_pure.mp hrest).2 ▸ hs
    | some s₁ =>
      have hs₁ : SlotsOk cfg.maxClients cfg.maxBuffer s₁ := by
        by_cases hin : (revents.headD .none).pollin = true
        · rw [if_pos hin] at hjoin
          exact hs.accepted hjoin
        · rw [if_neg hin] at hjoin
          exact Option.some.inj (runs_pure.mp hjoin).2 ▸ hs
      obtain ⟨s₂, h₂, hslots, hret⟩ := runs_bind_some'.mp hrest
      rw [Sum.inl.inj (runs_pure.mp hret).2]
      exact Runs.forRange (fun _ s _ => SlotsOk cfg.maxClients cfg.maxBuffer s) hs₁
        (fun i _ s g hs g' s' hr => hs.served hr) hslots

/-! ### Every state -/

variable (cfg listener) in
/-- **The states the broker comes to** between two steps: at a loop head, after a client has joined,
after any number of slots, inside a slot when some pending bytes or all of them are written, when the
sender's line is noted, when a message is passed to some of the others, and when a client is dropped. -/
inductive BrokerReached : BrokerState → Prop
  | head {s : BrokerState} {h₁ h : Hist}
      (hr : Reaches Legal (brokerRound cfg listener) brokerInit h₁ s h) : BrokerReached s
  | joined {s s' : BrokerState} {h h' : Hist} (hs : BrokerReached s)
      (hr : Runs Legal (brokerAccept cfg listener cfg.maxClients s) h h' (some (some s'))) :
      BrokerReached s'
  | served {s s' : BrokerState} {h h' : Hist} {n : ℕ} {polled : List (PollFd × Revents)}
      (hs : BrokerReached s) (hr : Runs Legal (Prog.forRange n
        (brokerSlot cfg cfg.maxClients cfg.maxBuffer polled) s) h h' (some s')) : BrokerReached s'
  | wrote {s : BrokerState} {i n : ℕ} {fd : Fd} (hs : BrokerReached s)
      (hi : (s.clients i).fd = some fd) (hn : n ≤ (s.clients i).pending.length) :
      BrokerReached (s.set i { s.clients i with outOff := (s.clients i).outOff + n })
  | flushed {s : BrokerState} {h h' : Hist} {i : ℕ} {fd : Fd} {c : BrokerClient}
      (hs : BrokerReached s) (hi : (s.clients i).fd = some fd)
      (hr : Runs Legal (flushClient fd (s.clients i)) h h' (some (some c))) :
      BrokerReached (s.set i c)
  | spoke {s : BrokerState} {i : ℕ} {fd : Fd} (hs : BrokerReached s)
      (hi : (s.clients i).fd = some fd) (lineStart : Bool) :
      BrokerReached (s.set i { s.clients i with lineStart := lineStart })
  | passed {s s' : BrokerState} {h h' : Hist} {i n : ℕ} {buf : Bytes} (hs : BrokerReached s)
      (hr : Runs Legal (brokerBroadcast n cfg.maxBuffer i buf s) h h' (some s')) : BrokerReached s'
  | dropped {s s' : BrokerState} {h h' : Hist} {i : ℕ} (hs : BrokerReached s)
      (hr : Runs Legal (dropClient s i) h h' (some s')) : BrokerReached s'

theorem BrokerReached.slotsOk (hs : BrokerReached cfg listener s) :
    SlotsOk cfg.maxClients cfg.maxBuffer s := by
  induction hs with
  | head hr =>
    exact hr.invariant (I := fun s _ => SlotsOk cfg.maxClients cfg.maxBuffer s)
      (slotsOk_brokerInit _ _) fun _ _ _ _ hs hround => hs.round hround
  | joined _ hr ih => exact ih.accepted hr
  | served _ hr ih =>
    exact Runs.forRange (fun _ s _ => SlotsOk cfg.maxClients cfg.maxBuffer s) ih
      (fun i _ s g hs g' s' hr => hs.served hr) hr
  | @wrote s i n fd _ hi hn ih => exact ih.set hi hi ((ih.queue i).wrote hn)
  | @flushed s h h' i fd c _ hi hr ih =>
    obtain ⟨hok, hfd⟩ := (within_flushClient (ih.queue i)).result hr c rfl
    exact ih.set hi (hfd.trans hi) hok
  | @spoke s i fd _ hi lineStart ih =>
    have hok := ih.queue i
    exact ih.set hi hi ⟨hok.off_le, hok.le_max, hok.stored⟩
  | passed _ hr ih => exact ih.passed hr
  | @dropped s s' h h' i _ hr ih =>
    rw [(within_dropClient s i).result hr]
    exact ih.drop i

/-- The array that is polled has a place for the listener and one for each client. -/
theorem length_brokerPollFds (listener : Fd) (maxClients : ℕ) (s : BrokerState) :
    (brokerPollFds listener maxClients s).length ≤ maxClients + 1 := by
  rw [brokerPollFds, List.length_cons, List.length_map]
  have hle := List.length_filter_le (fun i => (s.clients i).fd.isSome) (List.range maxClients)
  rw [List.length_range] at hle
  omega

/-- **The representation of the queues.** -/
structure BrokerQueues (cfg : Config) (listener : Fd) : Prop where
  /-- The table is in order in every state. -/
  slots : ∀ s, BrokerReached cfg listener s → SlotsOk cfg.maxClients cfg.maxBuffer s
  /-- No index into the array that is polled is above the limit. -/
  polled : ∀ s, BrokerReached cfg listener s →
    ∀ k < (brokerPollFds listener cfg.maxClients s).length, k ≤ cfg.maxClients
  /-- `queue_bytes` gives up before it asks for memory exactly when the message does not fit, and
  whenever it gives up the pending bytes are as they were. -/
  refused : ∀ s, BrokerReached cfg listener s → ∀ i fd, (s.clients i).fd = some fd → ∀ buf h h' r,
    Runs Legal (queueBytesLeaves (s.clients i) buf cfg.maxBuffer) h h' (some r) →
      (r.1 = false ∧ h' = h ↔ cfg.maxBuffer < (s.clients i).pending.length + buf.length) ∧
        (r.1 = false → r.2.pending = (s.clients i).pending)
  /-- The test, on unsigned numbers, does not wrap around. -/
  test : ∀ pending len maxBuffer : UInt64, exceeds pending len maxBuffer = true ↔
    maxBuffer.toNat < pending.toNat + len.toNat

/-- **The queues of the broker** are in order in every state. -/
theorem brokerQueues (cfg : Config) (listener : Fd) : BrokerQueues cfg listener where
  slots _ hs := hs.slotsOk
  polled s _ k hk := by
    have := length_brokerPollFds listener cfg.maxClients s
    omega
  refused s hs i fd _ buf h h' r hr := by
    have hok := hs.slotsOk.queue i
    obtain ⟨-, -, hcases⟩ := runs_queueBytesLeaves hok hr
    rw [hok.length_pending]
    rcases hcases with ⟨hfull, rfl, rfl⟩ | ⟨hroom, hne, ⟨hfail, -, hpend⟩ | ⟨hdone, -⟩⟩
    · exact ⟨iff_of_true ⟨rfl, rfl⟩ hfull, fun _ => rfl⟩
    · exact ⟨iff_of_false (fun h => hne h.2) hroom, fun _ => hpend⟩
    · exact ⟨iff_of_false (fun h => hne h.2) hroom, fun hfail => by simp [hdone] at hfail⟩
  test := exceeds_iff

end

/-! ### Clients that are not slow -/

/-- The message that is passed round for a chunk. -/
def brokerMessage (cfg : Config) (sender : BrokerClient) (chunk : Bytes) : Bytes :=
  if cfg.chat then chatText sender.id sender.lineStart chunk else chunk

section
variable {cfg : Config} {s s' : BrokerState} {i j maxBuffer : ℕ} {c : BrokerClient} {buf : Bytes}

/-- Whether a message is queued depends on the size test alone, unless memory is refused. -/
theorem runs_queueBytes_room {r : Option BrokerClient}
    (hr : Runs legal (queueBytes c buf maxBuffer) h h' (some r)) (hmem : ¬Exhausted h h') :
    (maxBuffer < c.outLen - c.outOff + buf.length → r = none) ∧
      (¬maxBuffer < c.outLen - c.outOff + buf.length → ∃ c', r = some c' ∧ c'.fd = c.fd) := by
  have hcompact : c.compact.fd = c.fd := by
    rw [BrokerClient.compact]
    split_ifs <;> rfl
  obtain ⟨r', h₁, hleaves, hret⟩ := runs_bind_some'.mp hr
  obtain ⟨rfl, rfl⟩ := runs_pure.mp hret
  rw [queueBytesLeaves] at hleaves
  dsimp only at hleaves
  rw [← not_room_iff]
  split_ifs at hleaves with hfull
  · obtain ⟨-, rfl⟩ := runs_pure.mp hleaves
    exact ⟨fun _ => rfl, fun hroom => absurd hfull hroom⟩
  · refine ⟨fun h => absurd h hfull, fun _ => ?_⟩
    obtain ⟨ok, -, hleaves⟩ := runs_ask.mp hleaves
    cases ok with
    | true =>
      obtain ⟨-, rfl⟩ := runs_pure.mp hleaves
      exact ⟨_, rfl, hcompact⟩
    | false =>
      obtain ⟨rfl, -⟩ := runs_pure.mp hleaves
      exact absurd ⟨_, happens_cons.mpr rfl⟩ hmem

/-- **Passing a message round** concerns slot `j` once, when its turn comes. -/
theorem idle_brokerBroadcast {n : ℕ} {fd : Fd} (hj : (s.clients j).fd = some fd) (hne : j ≠ i)
    (hlt : j < n) (hidle : (s.clients j).outLen = (s.clients j).outOff)
    (hr : Runs legal (brokerBroadcast n maxBuffer i buf s) h h' (some s'))
    (hmem : ¬Exhausted h h') : (s'.clients j).fd.isSome = true ↔ buf.length ≤ maxBuffer := by
  -- before its turn the slot is as it was, and after it nobody touches it
  have hinv := Runs.forRange (fun k s₁ g => h <:+ g ∧ (k ≤ j → s₁.clients j = s.clients j) ∧
    (j < k → ¬Exhausted h g → ((s₁.clients j).fd.isSome = true ↔ buf.length ≤ maxBuffer)))
    ⟨List.suffix_refl h, fun _ => rfl, fun h0 => absurd h0 (Nat.not_lt_zero j)⟩ ?_ hr
  · exact hinv.2.2 hlt hmem
  rintro k - s₁ g ⟨hsuf, hbefore, hafter⟩ g' s₂ hr
  have hsuf' : h <:+ g' := hsuf.trans hr.suffix
  have hother : k ≠ j → s₂.clients j = s₁.clients j := by
    intro hkj
    split_ifs at hr with hlive
    · obtain ⟨r, g₁, -, hr⟩ := runs_bind_some'.mp hr
      cases r with
      | some c => rw [(runs_pure.mp hr).2, set_other hkj.symm]
      | none =>
        obtain ⟨_, -, hr⟩ := runs_ask.mp hr
        rw [(within_dropClient s₁ k).result hr, set_other hkj.symm]
    · rw [(runs_pure.mp hr).2]
  refine ⟨hsuf', fun hk => ?_, fun hk hmem => ?_⟩
  · rw [hother (by omega), hbefore (by omega)]
  · rcases eq_or_ne k j with rfl | hkj
    · -- its turn
      have hsame := hbefore (le_refl k)
      rw [if_pos ⟨by rw [hsame, hj]; rfl, hne⟩] at hr
      obtain ⟨r, g₁, hqueue, hr⟩ := runs_bind_some'.mp hr
      have hroom := runs_queueBytes_room hqueue fun hex => hmem (hex.mono hsuf hr.suffix)
      rw [hsame, hidle, Nat.sub_self, Nat.zero_add] at hroom
      by_cases hfull : maxBuffer < buf.length
      · obtain rfl := hroom.1 hfull
        obtain ⟨_, -, hr⟩ := runs_ask.mp hr
        rw [(within_dropClient s₁ k).result hr, set_same]
        exact iff_of_false (by simp [clientInit]) (by omega)
      · obtain ⟨c, rfl, hfd⟩ := hroom.2 hfull
        rw [(runs_pure.mp hr).2, set_same, hfd, hj]
        exact iff_of_true rfl (by omega)
    · rw [hother hkj]
      exact hafter (by omega) fun hex => hmem (hex.mono (List.suffix_refl h) hr.suffix)

/-- **When an idle client is kept**: while memory is not refused, a connected client with nothing
pending is dropped by a chunk of another exactly when the message is longer than the limit. -/
theorem idle_kept_iff {fd : Fd} {chunk : Bytes} (hj : (s.clients j).fd = some fd) (hne : j ≠ i)
    (hlt : j < cfg.maxClients) (hidle : (s.clients j).outLen = (s.clients j).outOff)
    (hid : (s.clients i).id < 2 ^ 32) (hchunk : chunk ≠ []) (hlen : chunk.length ≤ brokerBuf)
    (hr : Runs legal (brokerChunk cfg cfg.maxClients cfg.maxBuffer i chunk s) h h' (some s'))
    (hmem : ¬Exhausted h h') : (s'.clients j).fd.isSome = true ↔
      (brokerMessage cfg (s.clients i) chunk).length ≤ cfg.maxBuffer := by
  obtain ⟨_, h₁, hhex, hr⟩ := runs_bind_some'.mp hr
  rw [brokerMessage]
  split_ifs at hr ⊢ with hchat
  · obtain ⟨r, h₂, hformat, hr⟩ := runs_bind_some'.mp hr
    have hshort := length_chatText hid (s.clients i).lineStart chunk
    have hformatted : r = rendering (s.clients i) chunk := by
      refine (runs_formatChatMessage hid hformat).resolve_right ?_
      rintro ⟨-, hex | hmax⟩
      · exact hmem (hex.mono hhex.suffix hr.suffix)
      · rw [sizeMax] at hmax
        rw [brokerBuf] at hlen
        omega
    rw [rendering, if_neg hchunk] at hformatted
    subst hformatted
    refine idle_brokerBroadcast (Eq.trans ?_ hj) hne hlt ?_ hr
      fun hex => hmem (hex.mono (hhex.suffix.trans hformat.suffix) (List.suffix_refl h'))
    · rw [set_other hne]
    · rw [set_other hne, hidle]
  · exact idle_brokerBroadcast hj hne hlt hidle hr
      fun hex => hmem (hex.mono hhex.suffix (List.suffix_refl h'))

end

/-- No allocation of the history was refused. -/
def granted (h : Hist) : Bool := h.all fun ev =>
  match ev with
  | ⟨.realloc _, ok⟩ => ok
  | _ => true

theorem not_exhausted (hg : granted h' = true) : ¬Exhausted h h' := by
  rintro ⟨size, l, -, hmem⟩
  have hall := List.all_eq_true.mp hg _ (hmem.subset List.mem_cons_self)
  exact Bool.false_ne_true hall

/-- `--broker-buffer 1024`. -/
def smallBuffer : Config :=
  { mode := .broker, host := some (lit "::"), port := some (lit "9000"), brokerBufferBytes := 1024 }

/-- Two clients join. -/
def idleScript (h : Hist) : (e : Sys) → Resp e
  | .stop => false
  | .poll fds _ => .reporting fds ({ pollin := true } :: List.replicate (pollCount h) .none)
  | .accept _ => .ok (10 + pollCount h)
  | .setNonblock _ _ => true
  | .realloc _ => true
  | e => refuse e

/-- The broker after two rounds of this. -/
def idleRounds (cfg : Config) : Option (BrokerState × Hist) :=
  execRounds (lawful idleScript) (brokerRound cfg (.sock .tcp 3)) 1000 2 brokerInit []

/-- What it does then with a chunk of the first client. -/
def idleBroadcast (cfg : Config) (chunk : Bytes) (r : BrokerState × Hist) :
    Hist × Option BrokerState :=
  exec (lawful idleScript) 1000 (brokerChunk cfg cfg.maxClients cfg.maxBuffer 0 chunk r.1) r.2

/-- **A chunk while the second client is idle**: the broker passes a chunk of the first client on,
and no memory is refused. -/
structure IdleBroadcast (cfg : Config) (chunk : Bytes) (s s' : BrokerState) (g g' : Hist) :
    Prop where
  reached : Reaches Legal (brokerRound cfg (.sock .tcp 3)) brokerInit [] s g
  known : (s.clients 0).id < 2 ^ 32
  connected : (s.clients 1).fd = some (.conn .tcp 12)
  idle : (s.clients 1).outLen = (s.clients 1).outOff
  passed : Runs Legal (brokerChunk cfg cfg.maxClients cfg.maxBuffer 0 chunk s) g g' (some s')
  memory : ¬Exhausted g g'

/-- The same as a test of the evaluation, with a test of what it leaves behind. -/
def idleTest (cfg : Config) (chunk : Bytes) (P : BrokerState → Bool) (r : BrokerState × Hist) :
    Bool :=
  (r.1.clients 0).id < 2 ^ 32 ∧ (r.1.clients 1).fd = some (.conn .tcp 12) ∧
    (r.1.clients 1).outLen = (r.1.clients 1).outOff ∧ granted (idleBroadcast cfg chunk r).1 ∧
    (idleBroadcast cfg chunk r).2.any P

theorem idleBroadcast_of_test {cfg : Config} {chunk : Bytes} {P : BrokerState → Bool}
    (hx : (idleRounds cfg).any (idleTest cfg chunk P) = true) :
    ∃ s s' g g', IdleBroadcast cfg chunk s s' g g' ∧ P s' = true := by
  obtain ⟨⟨s, g⟩, hrounds, hs⟩ := (Option.any_eq_true _ _).mp hx
  obtain ⟨hid, hj, hidle, hg, hP⟩ := of_decide_eq_true hs
  obtain ⟨s', hs', hP⟩ := (Option.any_eq_true _ _).mp hP
  refine ⟨s, s', g, (idleBroadcast cfg chunk (s, g)).1,
    ⟨?_, hid, hj, hidle, ?_, not_exhausted hg⟩, hP⟩
  · exact execRounds_reaches (legal_lawful idleScript) hrounds
  · exact runs_of_exec (legal_lawful idleScript) hs'

/-- The second client is kept when the first says `hi`. -/
theorem idle_kept_hi : ∃ s s' g g', IdleBroadcast smallBuffer (lit "hi") s s' g g' ∧
    ((s'.clients 1).fd.isSome = true ↔
      (brokerMessage smallBuffer (s.clients 0) (lit "hi")).length ≤ smallBuffer.maxBuffer) := by
  have hx : (idleRounds smallBuffer).any (idleTest smallBuffer (lit "hi") fun _ => true) = true := by
    decide +kernel
  obtain ⟨s, s', g, g', hb, -⟩ := idleBroadcast_of_test hx
  have hlt : 1 < smallBuffer.maxClients := by decide
  -- what is evaluated is the test, never a program that runs with this configuration
  generalize smallBuffer = cfg at hb hlt ⊢
  exact ⟨s, s', g, g', hb, idle_kept_iff hb.connected (by decide) hlt hb.idle hb.known
    (by decide) (by decide) hb.passed hb.memory⟩

/-- **A client that is not slow is dropped**: nothing is pending for it, but the chunk of another
is longer than the limit. -/
theorem not_idle_kept : ∃ argv s s' g g', wcatParseArgs argv = .ok smallBuffer ∧
    IdleBroadcast smallBuffer (List.replicate 1025 (chr 'a')) s s' g g' ∧
    (s'.clients 1).fd = none := by
  have hargs : wcatParseArgs (["wcat", "broker", "--broker-buffer", "1024", "::", "9000"].map lit) =
      .ok smallBuffer := by
    decide +kernel
  have hx : (idleRounds smallBuffer).any (idleTest smallBuffer (List.replicate 1025 (chr 'a'))
      fun s => (s.clients 1).fd.isNone) = true := by
    decide +kernel
  obtain ⟨s, s', g, g', hb, hgone⟩ := idleBroadcast_of_test hx
  exact ⟨_, s, s', g, g', hargs, hb, Option.isNone_iff_eq_none.mp hgone⟩

end Wirecat
