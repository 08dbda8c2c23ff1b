import Wirecat.Broadcast
import Wirecat.Broker
import Wirecat.Footprint

/-!
# What the broker delivers

The broker as a room (`Wirecat.Broadcast`): its events are the deeds of its clients,
and everything a client has been sent, followed by what is pending for it, is what the
others said since it joined.

The invariant is `Wirecat.Serving`. It speaks of every slot and of the deeds so far, and
it allows a message to be *owed*: while a chunk is passed round, the slots that have not
had it yet are owed it. Every function of the broker gets one lemma, which says how it
carries the invariant along.
-/

namespace Wirecat

open CString Interaction Broadcast

/-! ### The deeds of the clients -/

/-- The deed an event of the broker is. -/
def deed : (e : Sys) → Resp e → Option (Deed Fd UInt8)
  | .accept listener, .ok n => some (.met (listener.accepted n))
  | .setNonblock fd true, _ => some (.joined fd)
  | .read .broker fd _ _ _, .data bytes _ _ => some (.said fd bytes)
  | .write .broker fd buf, .wrote n _ => some (.sent fd (buf.take n))
  | .close fd, _ => some (.left fd)
  | .log _ _ fmt _, _ =>
      if fmt = "dropping broker client after chat format failure" then some .unsaid else none
  | _, _ => none

/-- The deeds of a history, newest first. -/
def deeds (g : Hist) : List (Deed Fd UInt8) := g.filterMap fun ev => deed ev.1 ev.2

theorem deeds_cons {e : Sys} {r : Resp e} {g : Hist} :
    deeds (⟨e, r⟩ :: g) = (deed e r).toList ++ deeds g := by
  simp only [deeds, List.filterMap_cons]
  cases deed e r <;> rfl

/-- What is open stays open until it is closed. -/
theorem isOpen_cons {e : Sys} {r : Resp e} {h : Hist} {fd : Fd}
    (ho : fd ∈ opens ⟨e, r⟩ ∨ isOpen h fd = true ∧ e ≠ .close fd) :
    isOpen (⟨e, r⟩ :: h) fd = true := by
  by_cases hc : ∃ fd', e = .close fd'
  · obtain ⟨fd', rfl⟩ := hc
    rcases ho with ho | ⟨ho, hne⟩
    · simp [opens] at ho
    · have hne' : fd ≠ fd' := fun h => hne (h ▸ rfl)
      simp [isOpen, ho, hne']
  · rw [isOpen]
    · rcases ho with ho | ⟨ho, -⟩
      · simp [ho]
      · simp [ho]
    · rintro fd' r' ⟨⟩
      exact hc ⟨fd', rfl⟩

theorem known_cons {e : Sys} {r : Resp e} {l : List (Deed Fd UInt8)} {fd : Fd}
    (hk : known fd ((deed e r).toList ++ l) = true) :
    fd ∈ opens ⟨e, r⟩ ∨ known fd l = true ∧ e ≠ .close fd := by
  by_cases hc : e = .close fd
  · subst hc
    simp [deed, known] at hk
  unfold deed at hk
  split at hk
  case h_1 =>
    rcases (Bool.or_eq_true _ _).mp hk with hk | hk
    · exact .inl (by simp [opens, (of_decide_eq_true hk).symm])
    · exact .inr ⟨hk, hc⟩
  case h_5 => exact .inr ⟨(Bool.and_eq_true_iff.mp hk).2, hc⟩
  case h_6 =>
    split_ifs at hk
    · exact .inr ⟨hk, hc⟩
    · exact .inr ⟨hk, hc⟩
  all_goals exact .inr ⟨hk, hc⟩

/-- A connection that is known is open. -/
theorem isOpen_of_known {h₁ : Hist} {fd : Fd} {g : Hist} (hk : known fd (deeds g) = true) :
    isOpen (g ++ h₁) fd = true := by
  induction g with
  | nil => simp [deeds, known] at hk
  | cons ev g ih =>
    obtain ⟨e, r⟩ := ev
    rw [deeds_cons] at hk
    exact isOpen_cons ((known_cons hk).imp_right fun h => ⟨ih h.1, h.2⟩)

/-! ### What a client is entitled to -/

/-- Whether somebody who has said this is at the start of a line. -/
def atLineStart (said : Bytes) : Bool := said.getLast?.all (· = chr '\n')

/-- The text of a chunk, of a sender that is or is not at the start of a line. -/
def chatText (id : ℕ) : Bool → Bytes → Bytes
  | _, [] => []
  | lineStart, c :: cs =>
      (if lineStart then chatLabel id else []) ++ chatByte c ++ chatText id (c = chr '\n') cs

/-- The payload of a chunk: the chunk itself, or its rendering as a chat message. -/
def payload (cfg : Config) (l : List (Deed Fd UInt8)) (fd : Fd) (chunk : Bytes) : Bytes :=
  if cfg.chat then chatText (serial fd l % 2 ^ 32) (atLineStart (saidBy fd l)) chunk else chunk

/-- **What a client is entitled to**: the payloads of the chunks read from the others since
it joined, in order. -/
def heard (cfg : Config) (fd : Fd) (l : List (Deed Fd UInt8)) : Bytes :=
  heardBy (payload cfg) fd false l

/-! ### The invariant -/

/-- The slot of the client on `fd`, which is owed some bytes. -/
structure ClientOk (cfg : Config) (l : List (Deed Fd UInt8)) (owed : Bytes) (fd : Fd)
    (c : BrokerClient) : Prop where
  known : known fd l = true
  present : present fd l = true
  id : c.id = serial fd l % 2 ^ 32
  lineStart : cfg.chat = true → c.lineStart = atLineStart (saidBy fd l)
  off_le : c.outOff ≤ c.outLen
  len_le : c.outLen ≤ c.out.length
  queue : sentTo fd l ++ c.pending ++ owed = heard cfg fd l

/-- **The invariant of the broker**, with what each slot is owed. -/
structure Serving (cfg : Config) (owed : ℕ → Bytes) (s : BrokerState) (l : List (Deed Fd UInt8)) :
    Prop where
  client : ∀ i fd, (s.clients i).fd = some fd → ClientOk cfg l (owed i) fd (s.clients i)
  below : ∀ i fd, (s.clients i).fd = some fd → i < cfg.maxClients
  free : ∀ i, (s.clients i).fd = none → s.clients i = clientInit
  inj : ∀ i j fd, (s.clients i).fd = some fd → (s.clients j).fd = some fd → i = j
  seated : ∀ fd, Broadcast.present fd l = true → ∃ i, (s.clients i).fd = some fd
  nextId : s.nextId = (joins l + 1) % 2 ^ 32

variable {cfg : Config} {owed : ℕ → Bytes} {s : BrokerState} {l l' : List (Deed Fd UInt8)} {fd : Fd}
  {i : ℕ}

/-- Nobody is there when the broker starts. -/
theorem serving_start (cfg : Config) : Serving cfg (fun _ => []) brokerInit [] where
  client _ _ h := by simp [brokerInit, clientInit] at h
  below _ _ h := by simp [brokerInit, clientInit] at h
  free _ _ := rfl
  inj _ _ _ h := by simp [brokerInit, clientInit] at h
  seated _ h := by simp [present] at h
  nextId := rfl

/-- **The broker is faithful** wherever the invariant holds. -/
theorem Serving.faithful (hs : Serving cfg owed s l) : Faithful (payload cfg) l := by
  intro fd hp
  obtain ⟨i, hi⟩ := hs.seated fd hp
  have hq := (hs.client i fd hi).queue
  exact ⟨(s.clients i).pending ++ owed i, by rw [← List.append_assoc]; exact hq⟩

/-- What does not concern a client leaves its slot in order. -/
theorem ClientOk.frame {c : BrokerClient} {o : Bytes} (hc : ClientOk cfg l o fd c)
    (hsame : Same fd l l') (hheard : heard cfg fd l' = heard cfg fd l) : ClientOk cfg l' o fd c where
  known := hsame.known.trans hc.known
  present := hsame.present.trans hc.present
  id := by rw [hc.id, hsame.serial]
  lineStart hchat := by rw [hc.lineStart hchat, hsame.saidBy]
  off_le := hc.off_le
  len_le := hc.len_le
  queue := by rw [hsame.sentTo, hheard, hc.queue]

/-- What concerns no client leaves the broker in order. -/
theorem Serving.frame (hs : Serving cfg owed s l)
    (hsame : ∀ i fd, (s.clients i).fd = some fd → Same fd l l' ∧ heard cfg fd l' = heard cfg fd l)
    (hjoins : joins l' = joins l) (hpres : ∀ fd, present fd l' = true → present fd l = true) :
    Serving cfg owed s l' where
  client i fd h := (hs.client i fd h).frame (hsame i fd h).1 (hsame i fd h).2
  below := hs.below
  free := hs.free
  inj := hs.inj
  seated fd h := hs.seated fd (hpres fd h)
  nextId := by rw [hs.nextId, hjoins]

/-- Somebody who is no client leaves. -/
theorem Serving.stranger_left {k : Fd} (hs : Serving cfg owed s l)
    (hk : ∀ i, (s.clients i).fd ≠ some k) : Serving cfg owed s (.left k :: l) := by
  refine hs.frame (fun i fd h => ⟨same_left ?_, rfl⟩) rfl fun fd h => ?_
  · rintro rfl
    exact hk i h
  · exact (Bool.and_eq_true_iff.mp h).2

/-- Somebody who is no client comes. -/
theorem Serving.stranger_met {k : Fd} (hs : Serving cfg owed s l)
    (hk : ∀ i, (s.clients i).fd ≠ some k) : Serving cfg owed s (.met k :: l) := by
  refine hs.frame (fun i fd h => ⟨same_met ?_, rfl⟩) rfl fun fd h => h
  rintro rfl
  exact hk i h

@[simp] theorem set_same (s : BrokerState) (i : ℕ) (c : BrokerClient) : (s.set i c).clients i = c := by
  simp [BrokerState.set]

theorem set_other {j : ℕ} (hne : j ≠ i) (c : BrokerClient) :
    (s.set i c).clients j = s.clients j := by
  simp [BrokerState.set, hne]

@[simp] theorem set_self (s : BrokerState) (i : ℕ) : s.set i (s.clients i) = s := by
  simp [BrokerState.set]

@[simp] theorem set_set (s : BrokerState) (i : ℕ) (c c' : BrokerClient) :
    (s.set i c).set i c' = s.set i c' := by
  simp [BrokerState.set]

/-- **A change in one slot.** The deeds may be those of its client, and what the others
are owed may change along with what they are entitled to. -/
theorem Serving.update {owed' : ℕ → Bytes} {c : BrokerClient} (hs : Serving cfg owed s l)
    (hi : (s.clients i).fd = some fd) (hfd : c.fd = some fd)
    (hc : ClientOk cfg l' (owed' i) fd c)
    (hother : ∀ j fd', (s.clients j).fd = some fd' → fd' ≠ fd →
      ClientOk cfg l' (owed' j) fd' (s.clients j))
    (hjoins : joins l' = joins l) (hpres : ∀ fd, present fd l' = true → present fd l = true) :
    Serving cfg owed' (s.set i c) l' := by
  have hget : ∀ j fd', ((s.set i c).clients j).fd = some fd' → (s.clients j).fd = some fd' := by
    intro j fd' h
    by_cases hj : j = i
    · subst hj
      rw [set_same, hfd] at h
      exact hi.trans h
    · rwa [set_other hj] at h
  refine ⟨fun j fd' h => ?_, fun j fd' h => hs.below j fd' (hget j fd' h), fun j h => ?_,
    fun j k fd' h h' => hs.inj j k fd' (hget j fd' h) (hget k fd' h'), fun fd' h => ?_, ?_⟩
  · by_cases hj : j = i
    · subst hj
      rw [set_same, hfd] at h
      obtain rfl := Option.some.inj h
      rwa [set_same]
    · rw [set_other hj] at h ⊢
      refine hother j fd' h ?_
      rintro rfl
      exact hj (hs.inj j i fd' h hi)
  · by_cases hj : j = i
    · subst hj
      rw [set_same, hfd] at h
      cases h
    · rw [set_other hj] at h ⊢
      exact hs.free j h
  · obtain ⟨j, hj⟩ := hs.seated fd' (hpres fd' h)
    by_cases hji : j = i
    · subst hji
      exact ⟨j, by rw [set_same, hfd, ← hi, hj]⟩
    · exact ⟨j, by rw [set_other hji, hj]⟩
  · rw [hjoins]
    exact hs.nextId

/-- **A client leaves**, and its slot is free. -/
theorem Serving.left (hs : Serving cfg owed s l) (hi : (s.clients i).fd = some fd) :
    Serving cfg owed (s.set i clientInit) (.left fd :: l) := by
  have hget : ∀ j fd', ((s.set i clientInit).clients j).fd = some fd' →
      j ≠ i ∧ (s.clients j).fd = some fd' := by
    intro j fd' h
    have hj : j ≠ i := by
      rintro rfl
      rw [set_same] at h
      cases h
    exact ⟨hj, by rwa [set_other hj] at h⟩
  refine ⟨fun j fd' h => ?_, fun j fd' h => hs.below j fd' (hget j fd' h).2, fun j h => ?_,
    fun j k fd' h h' => hs.inj j k fd' (hget j fd' h).2 (hget k fd' h').2, fun fd' h => ?_, hs.nextId⟩
  · obtain ⟨hj, h'⟩ := hget j fd' h
    rw [set_other hj]
    refine (hs.client j fd' h').frame (same_left ?_) rfl
    rintro rfl
    exact hj (hs.inj j i fd h' hi)
  · by_cases hj : j = i
    · subst hj
      exact set_same _ _ _
    · rw [set_other hj] at h ⊢
      exact hs.free j h
  · obtain ⟨hne, hp⟩ := Bool.and_eq_true_iff.mp h
    obtain ⟨j, hj⟩ := hs.seated fd' hp
    refine ⟨j, ?_⟩
    rw [set_other, hj]
    rintro rfl
    rw [hi] at hj
    exact absurd (Option.some.inj hj) (of_decide_eq_true hne)

/-! ### Running the broker

Everything below is about an environment that goes on from the history `h₁`, in which the
loop of the broker starts. -/

/-- Somebody who has left is nobody's client. -/
theorem Serving.gone (hs : Serving cfg owed s (.left fd :: l)) (i : ℕ) :
    (s.clients i).fd ≠ some fd := by
  intro hi
  simpa [present] using (hs.client i fd hi).present

/-- The broker is faithful now. -/
abbrev Kept (cfg : Config) (g : Hist) : Prop := Faithful (payload cfg) (deeds g)

/-- A request that is no deed. -/
def Calm (e : Sys) : Prop := ∀ r, deed e r = none

theorem calm_log {level : LogLevel} {event fmt : String} {args : List LogArg}
    (hne : fmt ≠ "dropping broker client after chat format failure") :
    Calm (.log level event fmt args) := fun _ => if_neg hne

variable {h₁ g : Hist} {α : Type}

/-- **Calm programs** change nothing. -/
theorem always_calm {p : Proc α} {Q : α → Prop} (hp : Within Calm p Q) (hS : Kept cfg g) :
    Always (After Legal h₁) (Kept cfg) p (fun a g' => deeds g' = deeds g ∧ Q a) g := by
  refine (Within.always (S := fun g' => deeds g' = deeds g) hp rfl fun g' e r hg he _ => ?_).mono ?_
    fun a g' _ h => h
  · rw [deeds_cons, he r, ← hg]
    rfl
  · intro g' hg
    rw [Kept, hg]
    exact hS

/-- A descriptor of nobody is closed. -/
theorem always_wcatCloseQuiet (hS : Kept cfg g) (hs : Serving cfg owed s (.left fd :: deeds g)) :
    Always (After Legal h₁) (Kept cfg) (wcatCloseQuiet fd)
      (fun _ g' => Serving cfg owed s (deeds g')) g := by
  refine Always.loop (fun _ g => Kept cfg g ∧ Serving cfg owed s (.left fd :: deeds g)) ⟨hS, hs⟩ ?_
  rintro - g ⟨hS, hs⟩
  refine Always.ask hS fun r _ => ?_
  have hnow : Serving cfg owed s (deeds (⟨.close fd, r⟩ :: g)) := hs
  rcases r with _ | err
  · exact always_pure.mpr ⟨hnow.faithful, hnow⟩
  · cases err <;> first
      | exact always_pure.mpr ⟨hnow.faithful, hnow⟩
      | exact always_pure.mpr ⟨hnow.faithful, hnow.faithful, hnow.stranger_left hs.gone⟩

/-- **Dropping a client.** Of the client in the slot only the descriptor is looked at, so
`c` may be anything that is in order there. -/
theorem always_dropClient {c : BrokerClient} (hs : Serving cfg owed (s.set i c) (deeds g))
    (hc : c.fd = some fd) (hi : (s.clients i).fd = some fd) :
    Always (After Legal h₁) (Kept cfg) (dropClient s i)
      (fun s' g' => Serving cfg owed s' (deeds g') ∧ s' = s.set i clientInit) g := by
  have hleft : Serving cfg owed (s.set i clientInit) (.left fd :: deeds g) := by
    simpa using hs.left (show ((s.set i c).clients i).fd = some fd by rw [set_same, hc])
  rw [dropClient, hi, always_bind']
  refine (always_wcatCloseQuiet hs.faithful hleft).mono (fun _ => id) fun _ g' hS hs' => ?_
  exact always_pure.mpr ⟨hS, hs', rfl⟩

/-! ### Joining -/

/-- **Accepting**: the new connection is known, and it is not that of a client. -/
theorem always_wcatAccept {listener : Fd} {sizes : Option (ℕ × ℕ)}
    (hs : Serving cfg owed s (deeds g)) :
    Always (After Legal h₁) (Kept cfg) (wcatAccept listener sizes)
      (fun peer g' => Serving cfg owed s (deeds g') ∧ ∀ p ∈ peer, known p.fd (deeds g') = true ∧
        ∀ i, (s.clients i).fd ≠ some p.fd) g := by
  refine Always.loop (fun _ g => Serving cfg owed s (deeds g)) hs fun _ g hs => ?_
  refine Always.ask hs.faithful fun r hl => ?_
  rcases r with err | n
  · have hnow : Serving cfg owed s (deeds (⟨.accept listener, .error err⟩ :: g)) := hs
    cases err <;> first
      | exact always_pure.mpr ⟨hnow.faithful, hnow, by simp⟩
      | exact always_pure.mpr ⟨hnow.faithful, hnow⟩
  have hfresh : ∀ i, (s.clients i).fd ≠ some (listener.accepted n) := by
    intro i hi
    have hopen := @isOpen_of_known h₁ _ _ (hs.client i _ hi).known
    rw [hl.1 _ (by simp [opens])] at hopen
    cases hopen
  have hnow : Serving cfg owed s (deeds (⟨.accept listener, .ok n⟩ :: g)) :=
    hs.stranger_met hfresh
  have hknown : known (listener.accepted n) (deeds (⟨.accept listener, .ok n⟩ :: g)) = true := by
    simp [deeds, deed, known]
  -- the rest asks who the peer is
  refine Always.post_mono (always_calm
    (Q := fun r : Unit ⊕ Option Peer => ∃ p : Peer, r = .inr (some p) ∧ p.fd = listener.accepted n)
    (Within.step (fun _ => rfl) fun _ => ?_) hnow.faithful) ?_
  · rcases sizes with _ | ⟨hostLen, portLen⟩
    · exact ⟨_, rfl, rfl⟩
    · exact Within.step (fun _ => rfl) fun _ => ⟨_, rfl, rfl⟩
  rintro _ g' ⟨hg', p, rfl, hp⟩
  rw [roundPost_inr, hg']
  refine ⟨hnow, ?_⟩
  rintro _ ⟨⟩
  rw [hp]
  exact ⟨hknown, hfresh⟩

theorem calm_wcatAccessCheckFd (cfg : Config) (fd : Fd) :
    Within Calm (wcatAccessCheckFd cfg fd) fun _ => True := by
  have hpeer : Within Calm (fdPeerAddr fd) fun _ => True := by
    refine Within.step (fun _ => rfl) fun r => ?_
    rcases r with _ | _ | _ | _ <;> trivial
  refine Within.ite (fun _ => trivial) fun _ => hpeer.next fun r => ?_
  rcases r with _ | ⟨family, addr⟩
  · exact Within.step (fun _ => rfl) fun _ => trivial
  refine Within.ite (fun _ => ?_) fun _ => Within.ite (fun _ => ?_) fun _ => trivial
  · exact Within.step (calm_log (by decide)) fun _ => trivial
  · exact Within.step (calm_log (by decide)) fun _ => trivial

theorem join_same (s : BrokerState) (i : ℕ) (fd : Fd) : (s.join i fd).clients i =
    { s.clients i with fd := some fd, id := s.nextId, lineStart := true } := by
  simp [BrokerState.join]

theorem join_other {j : ℕ} (hne : j ≠ i) (fd : Fd) : (s.join i fd).clients j = s.clients j := by
  simp [BrokerState.join, set_other hne]

/-- **A client joins** a free slot. -/
theorem Serving.joined (hs : Serving cfg (fun _ => []) s l) (hi : (s.clients i).fd = none)
    (hlt : i < cfg.maxClients) (hk : known fd l = true) (hnew : ∀ i, (s.clients i).fd ≠ some fd) :
    Serving cfg (fun _ => []) (s.join i fd) (.joined fd :: l) := by
  have hfree : s.clients i = clientInit := hs.free i hi
  have hget : ∀ j fd', ((s.join i fd).clients j).fd = some fd' → j = i ∧ fd' = fd ∨
      j ≠ i ∧ (s.clients j).fd = some fd' := by
    intro j fd' h
    by_cases hj : j = i
    · subst hj
      rw [join_same] at h
      exact .inl ⟨rfl, (Option.some.inj h).symm⟩
    · rw [join_other hj] at h
      exact .inr ⟨hj, h⟩
  refine ⟨fun j fd' h => ?_, fun j fd' h => ?_, fun j h => ?_, fun j k fd' h h' => ?_,
    fun fd' h => ?_, ?_⟩
  · rcases hget j fd' h with ⟨rfl, rfl⟩ | ⟨hj, h'⟩
    · rw [join_same, hfree]
      refine ⟨hk, by simp [present], ?_, fun _ => by simp [saidBy, atLineStart], le_rfl, le_rfl, ?_⟩
      · simpa [serial] using hs.nextId
      · simp [sentTo, heard, heardBy, BrokerClient.pending, clientInit]
    · rw [join_other hj]
      have hne : fd ≠ fd' := by
        rintro rfl
        exact hnew j h'
      refine (hs.client j fd' h').frame (same_joined hne) ?_
      simp [heard, heardBy, hne]
  · rcases hget j fd' h with ⟨rfl, rfl⟩ | ⟨hj, h'⟩
    · exact hlt
    · exact hs.below j fd' h'
  · have hj : j ≠ i := by
      rintro rfl
      simp [join_same] at h
    rw [join_other hj] at h ⊢
    exact hs.free j h
  · rcases hget j fd' h with ⟨rfl, rfl⟩ | ⟨hj, hj'⟩ <;> rcases hget k fd' h' with ⟨rfl, hf⟩ | ⟨hk, hk'⟩
    · rfl
    · exact absurd hk' (hnew k)
    · exact absurd (hf ▸ hj') (hnew j)
    · exact hs.inj j k fd' hj' hk'
  · rcases (Bool.or_eq_true _ _).mp h with h | h
    · exact ⟨i, by simp [join_same, of_decide_eq_true h]⟩
    · obtain ⟨j, hj⟩ := hs.seated fd' h
      have hne : j ≠ i := by
        rintro rfl
        rw [hi] at hj
        cases hj
      exact ⟨j, by rw [join_other hne, hj]⟩
  · simp [BrokerState.join, hs.nextId, joins]

theorem always_brokerAccept {listener : Fd} (hs : Serving cfg (fun _ => []) s (deeds g)) :
    Always (After Legal h₁) (Kept cfg) (brokerAccept cfg listener cfg.maxClients s)
      (fun r g' => Serving cfg (fun _ => []) (r.getD s) (deeds g')) g := by
  rw [brokerAccept, always_bind']
  refine (always_wcatAccept hs).mono (fun _ => id) fun peer g hS => ?_
  rintro ⟨hs, hpeer⟩
  rcases peer with _ | peer
  · exact always_pure.mpr ⟨hS, hs⟩
  obtain ⟨hk, hnew⟩ := hpeer peer rfl
  refine always_bind'.mpr ((always_calm (calm_wcatAccessCheckFd cfg _) hS).mono (fun _ => id) ?_)
  rintro allowed g' hS ⟨hg', -⟩
  rw [← hg'] at hs hk
  refine Always.ite (fun _ => always_bind'.mpr ?_) fun _ => ?_
  · refine (always_wcatCloseQuiet hS (hs.stranger_left hnew)).mono (fun _ => id) fun _ g' hS hs => ?_
    exact always_pure.mpr ⟨hS, hs⟩
  rcases hslot : freeSlot cfg.maxClients s with _ | i
  · refine always_bind'.mpr ((always_calm (within_sys (calm_log (by decide))) hS).mono
      (fun _ => id) ?_)
    rintro - g'' hS ⟨hg'', -⟩
    rw [← hg''] at hs
    refine always_bind'.mpr ((always_wcatCloseQuiet hS (hs.stranger_left hnew)).mono (fun _ => id) ?_)
    exact fun _ g' hS hs => always_pure.mpr ⟨hS, hs⟩
  · have hfree : (s.clients i).fd = none := by
      have := List.find?_some hslot
      simpa using this
    have hlt : i < cfg.maxClients := List.mem_range.mp (List.mem_of_find?_eq_some hslot)
    refine Always.ask hS fun r _ => ?_
    have hjoined := hs.joined hfree hlt hk hnew
    refine Always.ask hjoined.faithful fun _ _ => ?_
    exact always_pure.mpr ⟨hjoined.faithful, hjoined⟩

/-! ### Chat messages -/

theorem calm_realloc (size : ℕ) : Calm (.realloc size) := fun _ => rfl

theorem calm_appendBytes (b : ChatBuffer) (buf : Bytes) :
    Within Calm (appendBytes b buf) fun r => ∀ b' ∈ r,
      b'.out = b.out ++ buf ∧ b'.lineStart = b.lineStart := by
  refine Within.ite (fun h0 => ?_) fun _ => Within.ite (fun _ => ?_) fun _ =>
    Within.ite (fun _ => ?_) fun _ => Within.step (calm_realloc _) fun ok => Within.ite (fun _ => ?_)
      fun _ => ?_
  · rintro _ ⟨⟩
    simp [List.length_eq_zero_iff.mp h0]
  · exact fun _ h => absurd h (by simp)
  · rintro _ ⟨⟩
    exact ⟨rfl, rfl⟩
  · rintro _ ⟨⟩
    exact ⟨rfl, rfl⟩
  · exact fun _ h => absurd h (by simp)

theorem calm_formatChatByte (id : ℕ) (c : UInt8) (b : ChatBuffer) :
    Within Calm (formatChatByte id c b) fun r => ∀ b' ∈ r,
      b'.out = b.out ++ ((if b.lineStart then chatLabel id else []) ++ chatByte c) ∧
        b'.lineStart = decide (c = chr '\n') := by
  have hlabel : Within Calm (if b.lineStart then
      if 32 ≤ (chatLabel id).length then pure none else appendBytes b (chatLabel id)
      else pure (some b)) fun r => ∀ b' ∈ r,
        b'.out = b.out ++ if b.lineStart then chatLabel id else [] := by
    refine Within.ite (fun hls => Within.ite (fun _ => ?_) fun _ => ?_) fun hls => ?_
    · exact fun _ h => absurd h (by simp)
    · refine (calm_appendBytes _ _).post_mono fun r hr b' hb' => ?_
      rw [if_pos hls, (hr b' hb').1]
    · rintro _ ⟨⟩
      rw [if_neg hls, List.append_nil]
  refine hlabel.bind' fun r hr => ?_
  rcases r with _ | b'
  · exact fun _ h => absurd h (by simp)
  refine (calm_appendBytes _ _).bind' fun r hr' => ?_
  intro b'' hb''
  obtain ⟨a, ha, rfl⟩ := Option.map_eq_some_iff.mp hb''
  exact ⟨by rw [(hr' a ha).1, hr b' rfl, List.append_assoc], rfl⟩

/-- The loop over the bytes of a chunk writes the text of the chunk. -/
theorem calm_formatChatLoop (id : ℕ) (buf : Bytes) (b : ChatBuffer) (said : Bytes)
    (hls : b.lineStart = atLineStart said) :
    Within Calm (Prog.forEach buf (fun c b => match b with
      | none => pure none
      | some b => formatChatByte id c b) (some b)) fun r => ∀ b' ∈ r,
        b'.out = b.out ++ chatText id b.lineStart buf ∧
          b'.lineStart = atLineStart (said ++ buf) := by
  induction buf generalizing b said with
  | nil =>
    rintro _ ⟨⟩
    simp [chatText, hls]
  | cons c buf ih =>
    have hnone : Within Calm (Prog.forEach buf (fun c b => match b with
        | none => pure none
        | some b => formatChatByte id c b) none) fun r => r = none := by
      refine Within.forEach (fun r => r = none) rfl ?_
      rintro c _ rfl
      rfl
    refine (calm_formatChatByte id c b).bind fun r hr => ?_
    rcases r with _ | b'
    · exact hnone.post_mono fun r hr b' hb' => by simp [hr] at hb'
    obtain ⟨hout, hls'⟩ := hr b' rfl
    refine (ih b' (said ++ [c]) (by simp [hls', atLineStart])).post_mono fun r hr b'' hb'' => ?_
    obtain ⟨h1, h2⟩ := hr b'' hb''
    refine ⟨?_, by rw [h2, List.append_assoc]; rfl⟩
    rw [h1, hout, hls', List.append_assoc]
    rfl

/-- **A rendered chunk** is its text, and the sender is remembered to be at the start of a
line when it is. -/
theorem calm_formatChatMessage (sender : BrokerClient) (said buf : Bytes)
    (hls : sender.lineStart = atLineStart said) :
    Within Calm (formatChatMessage sender buf) fun r => ∀ m ∈ r,
      m.1 = chatText sender.id sender.lineStart buf ∧ m.2 = atLineStart (said ++ buf) := by
  refine (calm_formatChatLoop sender.id buf { lineStart := sender.lineStart } said hls).bind'
    fun r hr => ?_
  intro m hm
  obtain ⟨b, hb, hm⟩ := Option.bind_eq_some_iff.mp hm
  split_ifs at hm
  obtain rfl := Option.some.inj hm
  simpa using hr b hb

/-! ### Queues -/

/-- Moving the pending bytes down keeps them. -/
theorem compact_spec {c : BrokerClient} (hoff : c.outOff ≤ c.outLen) (hlen : c.outLen ≤ c.out.length) :
    c.compact.fd = c.fd ∧ c.compact.id = c.id ∧ c.compact.lineStart = c.lineStart ∧
      c.compact.outOff = 0 ∧ c.compact.outLen ≤ c.compact.out.length ∧
      c.compact.out.take c.compact.outLen = c.pending := by
  have hpend : c.pending.length = c.outLen - c.outOff := by
    rw [BrokerClient.pending, List.length_drop, List.length_take, min_eq_left hlen]
  rw [BrokerClient.compact]
  split_ifs with h1 h2
  · refine ⟨rfl, rfl, rfl, rfl, ?_, ?_⟩
    · simp only [overlay, List.length_append, List.length_drop]
      omega
    · exact List.take_left' hpend
  · have hnil : c.pending = [] := List.length_eq_zero_iff.mp (by omega)
    exact ⟨rfl, rfl, rfl, rfl, Nat.zero_le _, by simp [hnil]⟩
  · have h0 : c.outOff = 0 := by omega
    exact ⟨rfl, rfl, rfl, h0, hlen, by simp [BrokerClient.pending, h0]⟩

/-- **Queueing** appends to what is pending. -/
theorem calm_queueBytes {c : BrokerClient} {o : Bytes} {buf : Bytes} (maxBuffer : ℕ)
    (hc : ClientOk cfg l (buf ++ o) fd c) :
    Within Calm (queueBytes c buf maxBuffer) fun r => ∀ c' ∈ r,
      c'.fd = c.fd ∧ ClientOk cfg l o fd c' := by
  obtain ⟨hfd, hid, hls, hoff, hlen, htake⟩ := compact_spec hc.off_le hc.len_le
  have hleaves : Within Calm (queueBytesLeaves c buf maxBuffer) fun r => r.1 = true →
      r.2.fd = c.fd ∧ ClientOk cfg l o fd r.2 := by
    refine Within.ite (fun _ => fun h => absurd h (by simp)) fun _ =>
      Within.step (calm_realloc _) fun ok => Within.ite (fun _ => fun _ => ?_) fun _ => ?_
    swap
    · exact fun h => absurd h (by simp)
    refine ⟨hfd, hc.known, hc.present, hid.trans hc.id, fun hchat => hls.trans (hc.lineStart hchat), ?_, ?_, ?_⟩
    · simp [hoff]
    · simp [hlen]
    · have hpend : BrokerClient.pending { c.compact with
          out := c.compact.out.take c.compact.outLen ++ buf
          outLen := c.compact.outLen + buf.length } = c.pending ++ buf := by
        simp only [BrokerClient.pending, hoff, List.drop_zero]
        rw [List.take_of_length_le (by simp [hlen]), htake]
        rfl
      rw [hpend, ← hc.queue]
      simp only [List.append_assoc]
  rw [queueBytes]
  refine hleaves.bind' ?_
  rintro ⟨_ | _, c₁⟩ hr
  · exact fun _ h => absurd h (by simp)
  · rintro _ ⟨⟩
    exact hr rfl

/-- What is owed to a free slot does not matter. -/
theorem Serving.owed_congr {owed' : ℕ → Bytes} (hs : Serving cfg owed s l)
    (h : ∀ i fd, (s.clients i).fd = some fd → owed i = owed' i) : Serving cfg owed' s l where
  client i fd hi := h i fd hi ▸ hs.client i fd hi
  below := hs.below
  free := hs.free
  inj := hs.inj
  seated := hs.seated
  nextId := hs.nextId

/-- **Passing a message round**: at first every slot but that of the sender is owed it, and
in the end none is. -/
theorem always_brokerBroadcast {maxBuffer : ℕ} {buf : Bytes}
    (hs : Serving cfg (fun j => if j = i then [] else buf) s (deeds g)) :
    Always (After Legal h₁) (Kept cfg) (brokerBroadcast cfg.maxClients maxBuffer i buf s)
      (fun s' g' => Serving cfg (fun _ => []) s' (deeds g')) g := by
  -- after `n` rounds the slots below `n` are settled
  let owes (n j : ℕ) : Bytes := if j = i ∨ j < n then [] else buf
  have hnext : ∀ n k, (k = i ∨ k ≠ n) → owes n k = owes (n + 1) k := by
    intro n k h
    have hiff : (k = i ∨ k < n) ↔ (k = i ∨ k < n + 1) := by omega
    simp only [owes, hiff]
  refine (Always.forRange (I := fun n s g => Serving cfg (owes n) s (deeds g)) hs.faithful ?_
    ?_).post_mono ?_
  · exact hs.owed_congr fun j _ _ => by simp [owes]
  · intro j hj s g hS hs
    refine Always.ite (fun hlive => ?_) fun hskip => ?_
    · obtain ⟨fd, hfd⟩ := Option.isSome_iff_exists.mp hlive.1
      have hc : ClientOk cfg (deeds g) (buf ++ []) fd (s.clients j) := by
        have := hs.client j fd hfd
        rwa [show owes j j = buf ++ [] by simp [owes, hlive.2]] at this
      refine always_bind'.mpr ((always_calm (calm_queueBytes maxBuffer hc) hS).mono (fun _ => id) ?_)
      rintro r g' hS ⟨hg', hr⟩
      rw [← hg'] at hs hr
      rcases r with _ | c
      · refine always_bind'.mpr ((always_calm (within_sys (calm_log (by decide))) hS).mono
          (fun _ => id) ?_)
        rintro - g'' hS ⟨hg'', -⟩
        rw [← hg''] at hs
        refine (always_dropClient (c := s.clients j) (by rwa [set_self]) hfd hfd).post_mono ?_
        rintro _ g₃ ⟨hs, rfl⟩
        refine hs.owed_congr fun k fd' hk => hnext j k (.inr ?_)
        rintro rfl
        rw [set_same] at hk
        cases hk
      · obtain ⟨hcfd, hc⟩ := hr c rfl
        refine always_pure.mpr ⟨hS, hs.update hfd (hcfd.trans hfd) ?_ ?_ rfl fun _ h => h⟩
        · simpa [owes] using hc
        · intro k fd' hk hne
          have hkj : k ≠ j := by
            rintro rfl
            exact hne (Option.some.inj (hk.symm.trans hfd))
          rw [← hnext j k (.inr hkj)]
          exact hs.client k fd' hk
    · refine always_pure.mpr ⟨hS, hs.owed_congr fun k fd hk => hnext j k ?_⟩
      rw [or_iff_not_imp_left]
      rintro hki rfl
      exact hskip ⟨by simp [hk], hki⟩
  · intro s g hs
    exact hs.owed_congr fun k fd hk => by simp [owes, hs.below k fd hk]

/-- **Writing out** what is pending moves it to what was sent. -/
theorem Serving.flushed {c : BrokerClient} {n : ℕ} (hs : Serving cfg owed (s.set i c) l)
    (hc : c.fd = some fd) (hn : n ≤ c.pending.length) :
    Serving cfg owed (s.set i { c with outOff := c.outOff + n })
      (.sent fd (c.pending.take n) :: l) := by
  have hi : ((s.set i c).clients i).fd = some fd := by rw [set_same, hc]
  have hok := hs.client i fd hi
  rw [set_same] at hok
  have hlen : c.pending.length = c.outLen - c.outOff := by
    rw [BrokerClient.pending, List.length_drop, List.length_take, min_eq_left hok.len_le]
  have hpend : BrokerClient.pending { c with outOff := c.outOff + n } = c.pending.drop n := by
    simp [BrokerClient.pending]
  have hoff := hok.off_le
  have := @Serving.update _ _ _ _ (.sent fd (c.pending.take n) :: l) _ _ owed
    { c with outOff := c.outOff + n } hs hi hc ?_ ?_ rfl fun _ h => h
  · simpa using this
  · refine ⟨hok.known, hok.present, hok.id, hok.lineStart, ?_, hok.len_le, ?_⟩
    · change c.outOff + n ≤ c.outLen
      omega
    · have hq := hok.queue
      rw [hpend]
      simp only [sentTo, if_pos]
      rw [List.append_assoc (sentTo fd l), List.take_append_drop]
      exact hq
  · intro j fd' hj hne
    exact (hs.client j fd' hj).frame (same_sent hne.symm) rfl

/-- What `flush_client` leaves: the slot in order with the client it returns, or with some
client on the same descriptor. -/
def Flushed (cfg : Config) (s : BrokerState) (i : ℕ) (fd : Fd) (r : Option BrokerClient) (g : Hist) :
    Prop :=
  ∃ c, Serving cfg (fun _ => []) (s.set i c) (deeds g) ∧ c.fd = some fd ∧ ∀ c' ∈ r, c' = c

theorem always_flushClient {c : BrokerClient} (hs : Serving cfg (fun _ => []) (s.set i c) (deeds g))
    (hc : c.fd = some fd) :
    Always (After Legal h₁) (Kept cfg) (flushClient fd c) (Flushed cfg s i fd) g := by
  refine Always.loop (fun c g => Serving cfg (fun _ => []) (s.set i c) (deeds g) ∧ c.fd = some fd)
    ⟨hs, hc⟩ ?_
  rintro c g ⟨hs, hc⟩
  refine Always.ite (fun hlt => ?_) fun hge => ?_
  · refine Always.ask hs.faithful fun r _ => ?_
    rcases r with ⟨n, hn⟩ | err
    · have hnow : Serving cfg (fun _ => []) (s.set i { c with outOff := c.outOff + n })
          (deeds (⟨.write .broker fd c.pending, .wrote n hn⟩ :: g)) := hs.flushed hc hn
      rcases n with _ | n
      · exact always_pure.mpr ⟨hnow.faithful, c, hnow, hc, fun c' hc' => (Option.some.inj hc').symm⟩
      · exact always_pure.mpr ⟨hnow.faithful, hnow, hc⟩
    · have hnow : Serving cfg (fun _ => []) (s.set i c)
          (deeds (⟨.write .broker fd c.pending, .error err⟩ :: g)) := hs
      cases err <;> first
        | exact always_pure.mpr ⟨hnow.faithful, hnow, hc⟩
        | exact always_pure.mpr ⟨hnow.faithful, c, hnow, hc, fun c' hc' => (Option.some.inj hc').symm⟩
        | exact always_pure.mpr ⟨hnow.faithful, c, hnow, hc, by simp⟩
  · refine always_pure.mpr ⟨hs.faithful, { c with outLen := 0, outOff := 0 }, ?_, hc,
      fun c' hc' => (Option.some.inj hc').symm⟩
    have hi : ((s.set i c).clients i).fd = some fd := by rw [set_same, hc]
    have hok := hs.client i fd hi
    rw [set_same] at hok
    have hnil : c.pending = [] := by
      apply List.length_eq_zero_iff.mp
      rw [BrokerClient.pending, List.length_drop, List.length_take]
      omega
    have := @Serving.update _ _ _ _ (deeds g) _ _ (fun _ => []) { c with outLen := 0, outOff := 0 }
      hs hi hc ⟨hok.known, hok.present, hok.id, hok.lineStart, le_rfl, Nat.zero_le _, ?_⟩
      (fun j fd' hj _ => hs.client j fd' hj) rfl fun _ h => h
    · simpa using this
    · have hq := hok.queue
      rw [hnil] at hq
      exact hq

/-! ### Reading a chunk -/

/-- **A chunk is read** from the client on `fd`: the others are owed its payload, and the
sender is at the start of a line or not. -/
theorem Serving.said {chunk : Bytes} {lineStart : Bool} (hs : Serving cfg (fun _ => []) s l)
    (hi : (s.clients i).fd = some fd)
    (hls : cfg.chat = true → lineStart = atLineStart (saidBy fd l ++ chunk)) :
    Serving cfg (fun j => if j = i then [] else payload cfg l fd chunk)
      (s.set i { s.clients i with lineStart := lineStart }) (.said fd chunk :: l) := by
  have hok := hs.client i fd hi
  refine hs.update hi hi ⟨hok.known, hok.present, hok.id, fun hchat => ?_, hok.off_le, hok.len_le, ?_⟩
    (fun j fd' hj hne => ?_) rfl fun _ h => h
  · simpa [saidBy] using hls hchat
  · have hq := hok.queue
    rw [if_pos rfl, heard, heardBy, if_pos (.inl rfl)]
    exact hq.trans (List.append_nil _).symm
  · have hji : j ≠ i := by
      rintro rfl
      exact hne (Option.some.inj (hj.symm.trans hi))
    have hsame : Same fd' l (.said fd chunk :: l) := same_said hne.symm
    have hok' := hs.client j fd' hj
    refine ⟨hsame.known.trans hok'.known, hsame.present.trans hok'.present,
      hok'.id.trans (by rw [hsame.serial]), fun hchat => (hok'.lineStart hchat).trans (by
        rw [hsame.saidBy]), hok'.off_le, hok'.len_le, ?_⟩
    have hq := hok'.queue
    rw [heard, List.append_nil] at hq
    rw [hsame.sentTo, if_neg hji, hq, heard]
    simp [heardBy, hne.symm]

/-- **A chunk could not be rendered**: nobody is owed anything for it. -/
theorem Serving.unsaid {chunk : Bytes} (hs : Serving cfg (fun _ => []) s l)
    (hi : (s.clients i).fd = some fd) :
    Serving cfg (fun _ => [])
      (s.set i { s.clients i with lineStart := atLineStart (saidBy fd l ++ chunk) })
      (.unsaid :: .said fd chunk :: l) := by
  have hok := hs.client i fd hi
  have hheard : ∀ fd', heard cfg fd' (.unsaid :: .said fd chunk :: l) = heard cfg fd' l := by
    intro fd'
    simp [heard, heardBy]
  refine hs.update hi hi ⟨hok.known, hok.present, hok.id, fun _ => ?_, hok.off_le, hok.len_le, ?_⟩
    (fun j fd' hj hne => ?_) rfl fun _ h => h
  · simp [saidBy]
  · rw [hheard]
    exact hok.queue
  · exact (hs.client j fd' hj).frame ((same_said hne.symm).trans same_unsaid) (hheard fd')

/-- A chunk in hand is passed round, or its sender is dropped. -/
theorem always_brokerChunk {maxBuffer : ℕ} {chunk : Bytes} (hs : Serving cfg (fun _ => []) s l)
    (hi : (s.clients i).fd = some fd) (hg : deeds g = .said fd chunk :: l) :
    Always (After Legal h₁) (Kept cfg) (brokerChunk cfg cfg.maxClients maxBuffer i chunk s)
      (fun s' g' => Serving cfg (fun _ => []) s' (deeds g')) g := by
  have hok := hs.client i fd hi
  have hsaid := fun ls hls => @Serving.said _ _ _ _ _ chunk ls hs hi hls
  have hS : Kept cfg g := by
    rw [Kept, hg]
    exact (hsaid _ fun _ => rfl).faithful
  have hhex : Within Calm (if cfg.hex = true then sys (.hexdump "broker" chunk) else pure ())
      fun _ => True := Within.ite (fun _ => ⟨fun _ => rfl, fun _ => trivial⟩) fun _ => trivial
  refine always_bind'.mpr ((always_calm hhex hS).mono (fun _ => id) ?_)
  rintro - g₂ hS ⟨hg₂, -⟩
  rw [hg] at hg₂
  refine Always.ite (fun hchat => ?_) fun hraw => ?_
  · refine always_bind'.mpr ((always_calm (calm_formatChatMessage (s.clients i) (saidBy fd l) chunk
      (hok.lineStart hchat)) hS).mono (fun _ => id) ?_)
    rintro r g₃ hS ⟨hg₃, hr⟩
    rw [hg₂] at hg₃
    rcases r with _ | ⟨message, lineStart⟩
    · refine Always.ask hS fun r _ => ?_
      have hnow : Serving cfg (fun _ => []) (s.set i { s.clients i with
          lineStart := atLineStart (saidBy fd l ++ chunk) }) (deeds (⟨chatFailure, r⟩ :: g₃)) := by
        rw [deeds_cons, hg₃]
        exact hs.unsaid hi
      exact (always_dropClient hnow hi hi).post_mono fun s' g' h => h.1
    · obtain ⟨rfl, rfl⟩ := hr _ rfl
      refine always_brokerBroadcast ?_
      rw [hg₃]
      have := hsaid (atLineStart (saidBy fd l ++ chunk)) fun _ => rfl
      rwa [payload, if_pos hchat, ← hok.id, ← hok.lineStart hchat] at this
  · refine always_brokerBroadcast ?_
    rw [hg₂]
    have := hsaid (s.clients i).lineStart fun hchat => absurd hchat hraw
    rw [payload, if_neg hraw] at this
    exact (set_self s i).symm ▸ this

/-- What a client said with a read. -/
def readDeeds (fd : Fd) {len : ℕ} : ReadRes len → List (Deed Fd UInt8)
  | .data chunk _ _ => [.said fd chunk]
  | .eof | .error _ => []

theorem always_brokerRead {maxBuffer : ℕ} (hs : Serving cfg (fun _ => []) s (deeds g))
    (hi : (s.clients i).fd = some fd) :
    Always (After Legal h₁) (Kept cfg) (brokerRead cfg cfg.maxClients maxBuffer i fd s)
      (fun s' g' => Serving cfg (fun _ => []) s' (deeds g')) g := by
  rw [brokerRead, always_bind']
  refine Always.mono
    (Q := fun r g' => ∃ l, Serving cfg (fun _ => []) s l ∧ deeds g' = readDeeds fd r ++ l)
    (Always.loop (fun _ g => Serving cfg (fun _ => []) s (deeds g)) hs fun _ g hs => ?_)
    (fun _ => id) fun r g' hS => ?_
  · refine Always.ask hs.faithful fun r _ => ?_
    rcases r with ⟨chunk, hne, hle⟩ | _ | err
    · have hnow : Kept cfg (⟨.read .broker fd brokerBuf 0 brokerBuf, .data chunk hne hle⟩ :: g) :=
        (@Serving.said _ _ _ _ _ chunk _ hs hi fun _ => rfl).faithful
      exact always_pure.mpr ⟨hnow, deeds g, hs, rfl⟩
    · have hnow : Kept cfg (⟨.read .broker fd brokerBuf 0 brokerBuf, .eof⟩ :: g) := hs.faithful
      exact always_pure.mpr ⟨hnow, deeds g, hs, rfl⟩
    · have hnow : Serving cfg (fun _ => []) s
          (deeds (⟨.read .broker fd brokerBuf 0 brokerBuf, .error err⟩ :: g)) := hs
      cases err <;> first
        | exact always_pure.mpr ⟨hnow.faithful, hnow⟩
        | exact always_pure.mpr ⟨hnow.faithful, deeds g, hs, rfl⟩
  rintro ⟨l, hs, hr⟩
  have hdrop : deeds g' = l → Always (After Legal h₁) (Kept cfg) (dropClient s i)
      (fun s' g' => Serving cfg (fun _ => []) s' (deeds g')) g' := by
    rintro rfl
    exact (always_dropClient (c := s.clients i) (by rwa [set_self]) hi hi).post_mono fun s' g' h => h.1
  rcases r with ⟨chunk, hne, hle⟩ | _ | err
  · exact always_brokerChunk hs hi hr
  · exact hdrop hr
  · cases err <;> first
      | exact hdrop hr
      | exact always_pure.mpr ⟨hS, by rw [hr]; exact hs⟩

/-! ### Rounds -/

theorem always_brokerSlot {maxBuffer : ℕ} {polled : List (PollFd × Revents)}
    (hs : Serving cfg (fun _ => []) s (deeds g)) :
    Always (After Legal h₁) (Kept cfg) (brokerSlot cfg cfg.maxClients maxBuffer polled i s)
      (fun s' g' => Serving cfg (fun _ => []) s' (deeds g')) g := by
  rcases hi : (s.clients i).fd with _ | fd
  · simp only [brokerSlot, hi]
    exact always_pure.mpr ⟨hs.faithful, hs⟩
  rcases hp : polledEvents polled fd with _ | r
  · simp only [brokerSlot, hi, hp]
    exact always_pure.mpr ⟨hs.faithful, hs⟩
  simp only [brokerSlot, hi, hp]
  have hself : Serving cfg (fun _ => []) (s.set i (s.clients i)) (deeds g) := by rwa [set_self]
  refine Always.ite (fun _ => (always_dropClient hself hi hi).post_mono fun s' g' h => h.1)
    fun _ => ?_
  have hflush : Always (After Legal h₁) (Kept cfg) (if r.pollout = true then
      flushClient fd (s.clients i) else pure (some (s.clients i))) (Flushed cfg s i fd) g := by
    refine Always.ite (fun _ => always_flushClient hself hi) fun _ => always_pure.mpr ?_
    exact ⟨hs.faithful, s.clients i, hself, hi, fun c' hc' => (Option.some.inj hc').symm⟩
  refine always_bind'.mpr (hflush.mono (fun _ => id) ?_)
  rintro r' g' hS ⟨c, hs', hc, hr'⟩
  rcases r' with _ | c'
  · exact (always_dropClient hs' hc hi).post_mono fun s' g' h => h.1
  obtain rfl := hr' c' rfl
  refine Always.ite (fun _ => always_brokerRead hs' (by rw [set_same, hc])) fun _ => ?_
  exact always_pure.mpr ⟨hS, hs'⟩

/-- **A round keeps the invariant.** -/
theorem always_brokerRound {listener : Fd} (hs : Serving cfg (fun _ => []) s (deeds g)) :
    Always (After Legal h₁) (Kept cfg) (brokerRound cfg listener s)
      (roundPost (fun s' g' => Serving cfg (fun _ => []) s' (deeds g'))
        fun r g' => Serving cfg (fun _ => []) r.2 (deeds g')) g := by
  have hstop : ∀ b, Serving cfg (fun _ => []) s (deeds (⟨.stop, b⟩ :: g)) := fun _ => hs
  refine Always.ask hs.faithful fun b _ => Always.ite (fun _ => ?_) fun _ => ?_
  · exact always_pure.mpr ⟨(hstop b).faithful, hstop b⟩
  refine Always.ask (hstop b).faithful fun r _ => ?_
  have hnow : Serving cfg (fun _ => []) s (deeds (⟨.poll _ _, r⟩ :: ⟨.stop, b⟩ :: g)) := hs
  rcases r with err | _ | ⟨revents, hlen, hev, hign⟩
  · have hlog : Always (After Legal h₁) (Kept cfg) (do
        sys (.logErrno "broker_poll" (lit "broker poll failed"))
        pure (.inr (1, s)) : Proc (BrokerState ⊕ ℕ × BrokerState))
        (roundPost (fun s' g' => Serving cfg (fun _ => []) s' (deeds g'))
          fun r g' => Serving cfg (fun _ => []) r.2 (deeds g'))
        (⟨.poll _ _, .error err⟩ :: ⟨.stop, b⟩ :: g) :=
      Always.ask hnow.faithful fun _ _ => always_pure.mpr ⟨hnow.faithful, hnow⟩
    cases err <;> first
      | exact hlog
      | exact always_pure.mpr ⟨hnow.faithful, hnow⟩
  · exact always_pure.mpr ⟨hnow.faithful, hnow⟩
  · have hjoin : Always (After Legal h₁) (Kept cfg) (if (revents.headD .none).pollin = true then
        brokerAccept cfg listener cfg.maxClients s else pure (some s))
        (fun r g' => Serving cfg (fun _ => []) (r.getD s) (deeds g'))
        (⟨.poll _ _, .ready revents hlen hev hign⟩ :: ⟨.stop, b⟩ :: g) :=
      Always.ite (fun _ => always_brokerAccept hnow) fun _ =>
        always_pure.mpr ⟨hnow.faithful, hnow⟩
    refine always_bind'.mpr (hjoin.mono (fun _ => id) fun r g' hS hs' => ?_)
    rcases r with _ | s'
    · exact always_pure.mpr ⟨hS, hs'⟩
    refine always_bind'.mpr (((Always.forRange (I := fun _ s g => Serving cfg (fun _ => []) s (deeds g))
      hS hs' fun i _ s g _ hs => always_brokerSlot hs)).mono (fun _ => id) ?_)
    exact fun s'' g'' hS hs'' => always_pure.mpr ⟨hS, hs''⟩

/-! ### Delivery -/

/-- **Delivery** by the loop of `wcat_broker_run` on a listener, after the history `h₁`.
What happened before the loop is not counted: nobody has joined. -/
structure Delivery (cfg : Config) (listener : Fd) (h₁ : Hist) : Prop where
  /-- At every loop head a connected client has joined, and what it was sent and what is
  pending for it are what it is entitled to. -/
  loop_head : ∀ s g, Reaches Legal (brokerRound cfg listener) brokerInit h₁ s (g ++ h₁) →
    ∀ j fd, (s.clients j).fd = some fd → present fd (deeds g) = true ∧
      sentTo fd (deeds g) ++ (s.clients j).pending = heard cfg fd (deeds g)
  /-- At every moment what a client was sent is a beginning of what it is entitled to. -/
  sent_prefix : ∀ g o, Runs Legal (Prog.loop (brokerRound cfg listener) brokerInit) h₁ (g ++ h₁) o →
    ∀ fd, present fd (deeds g) = true → sentTo fd (deeds g) <+: heard cfg fd (deeds g)

/-- **The broker delivers**, whatever its clients do and in whatever order. -/
theorem wcatBrokerRun_delivery (cfg : Config) (listener : Fd) (h₁ : Hist) :
    Delivery cfg listener h₁ where
  loop_head s g hr j fd hj := by
    have hs : Serving cfg (fun _ => []) s (deeds g) :=
      Reaches.always hr.ext (serving_start cfg) fun _ _ hs => always_brokerRound hs
    have hok := hs.client j fd hj
    exact ⟨hok.present, by simpa using hok.queue⟩
  sent_prefix g o hr := by
    have halways : Always (After Legal h₁) (Kept cfg)
        (Prog.loop (brokerRound cfg listener) brokerInit) (fun _ _ => True) [] :=
      Always.loop (fun s g => Serving cfg (fun _ => []) s (deeds g)) (serving_start cfg)
        fun s g hs => (always_brokerRound hs).post_mono fun r _ h => by
          cases r with
          | inl s' => exact h
          | inr r => trivial
    exact halways.safe hr.ext

end Wirecat
