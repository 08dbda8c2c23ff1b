import Wirecat.Selection

/-!
# What a session number denotes

Sessions are numbered by a counter of 32 bits that is never looked at: it starts at `1`, every peer
that joins takes what it holds, and in the end it comes round. The rest of the listener counts on
more (`Wirecat.Identified`): that no session has the number `0`, which stands for none, and that no
two have the same, so that looking a number up finds the session it was given to.

A peer that joins takes a good number exactly if the counter is not at `0` and not at the number of
a session that still lives (`Wirecat.Fresh`), and no other step makes a session or numbers one. So a
run is right throughout exactly if every peer joins with a fresh number
(`Wirecat.identified_iff`).

Nothing keeps a run from going wrong: with one slot, `2 ^ 32 - 1` peers that come and leave again
bring the counter to `0` (`Wirecat.not_identified`).
-/

namespace Wirecat

open CString Interaction

/-! ### Numbers that identify -/

/-- **The numbers identify the sessions**: none of them is `0`, no two are the same, and looking a
number up finds its session, and none for `0`. -/
structure Identified (max : ℕ) (s : MultiState) : Prop where
  numbered : ∀ i < max, (s.sessions i).live = true → (s.sessions i).id ≠ 0
  distinct : ∀ i < max, ∀ j < max, (s.sessions i).live = true → (s.sessions j).live = true →
    (s.sessions i).id = (s.sessions j).id → i = j
  find : ∀ i < max, (s.sessions i).live = true → multiFindById s max (s.sessions i).id = some i
  zero : multiFindById s max 0 = none

/-- **The counter holds a fresh number**: it is not `0`, and no session has it. -/
def Fresh (max : ℕ) (s : MultiState) : Prop := s.nextId ≠ 0 ∧ ¬HasSession max s s.nextId

section
variable {max : ℕ} {s s' : MultiState}

theorem identified_of_distinct
    (hnumbered : ∀ i < max, (s.sessions i).live = true → (s.sessions i).id ≠ 0)
    (hdistinct : ∀ i < max, ∀ j < max, (s.sessions i).live = true → (s.sessions j).live = true →
      (s.sessions i).id = (s.sessions j).id → i = j) : Identified max s := by
  refine ⟨hnumbered, hdistinct, fun i hi hlive => ?_, ?_⟩
  · obtain ⟨j, hfind⟩ := Option.isSome_iff_exists.mp
      (multiFindById_isSome.mpr (⟨i, hi, hlive, rfl⟩ : HasSession max s (s.sessions i).id))
    obtain ⟨hj, hjlive, hid⟩ := multiFindById_eq_some hfind
    rw [hfind, hdistinct j hj i hi hjlive hlive hid]
  · rw [← Option.not_isSome_iff_eq_none, multiFindById_isSome]
    rintro ⟨i, hi, hlive, hid⟩
    exact hnumbered i hi hlive hid

/-- Every slot keeps its session, or is empty now. -/
def SlotsKept (s s' : MultiState) : Prop :=
  ∀ i, (s.sessions i).Kept (s'.sessions i) ∨ s'.sessions i = multiSessionInit

theorem SlotsKept.of_eq (hs : s'.sessions = s.sessions) : SlotsKept s s' := fun i =>
  .inl (by rw [hs]; exact .refl _)

theorem SameSessions.slotsKept (hs : SameSessions s s') : SlotsKept s s' := fun i => .inl (hs.kept i)

/-- A session that is live after the step was live before, with the same number. -/
theorem SlotsKept.live (hs : SlotsKept s s') {i : ℕ} (hlive : (s'.sessions i).live = true) :
    (s.sessions i).live = true ∧ (s'.sessions i).id = (s.sessions i).id := by
  rcases hs i with ⟨hfd, hid, -⟩ | hinit
  · rw [MultiSession.live, hfd] at hlive
    exact ⟨hlive, hid⟩
  · rw [hinit] at hlive
    exact absurd hlive (by simp [multiSessionInit, MultiSession.live])

/-- **Sessions that are kept stay identified.** -/
theorem Identified.kept (hx : Identified max s) (hs : SlotsKept s s') : Identified max s' := by
  refine identified_of_distinct (fun i hi hlive => ?_) fun i hi j hj hlive hlive' heq => ?_
  · obtain ⟨hlive, hid⟩ := hs.live hlive
    rw [hid]
    exact hx.numbered i hi hlive
  · obtain ⟨hi', hid⟩ := hs.live hlive
    obtain ⟨hj', hid'⟩ := hs.live hlive'
    exact hx.distinct i hi j hj hi' hj' (hid.symm.trans (heq.trans hid'))

theorem join_sessions_of_ne {i j : ℕ} {peer : Peer} (hj : j ≠ i) :
    (s.join i peer).sessions j = s.sessions j := Function.update_of_ne hj _ _

theorem join_sessions_self {i : ℕ} {peer : Peer} : ((s.join i peer).sessions i).live = true ∧
    ((s.join i peer).sessions i).id = s.nextId := by
  simp [MultiState.join, MultiState.set, MultiSession.live]

/-- **A peer joins well** exactly if its number is fresh. -/
theorem identified_join_iff (hx : Identified max s) {i : ℕ} {peer : Peer} (hi : i < max)
    (hfree : (s.sessions i).live = false) : Identified max (s.join i peer) ↔ Fresh max s := by
  obtain ⟨hlive, hid⟩ := @join_sessions_self s i peer
  constructor
  · refine fun hj => ⟨hid ▸ hj.numbered i hi hlive, ?_⟩
    rintro ⟨j, hjmax, hjlive, hjid⟩
    have hji : j ≠ i := by
      rintro rfl
      exact absurd hjlive (by simp [hfree])
    have hsame := @join_sessions_of_ne s i j peer hji
    exact hji (hj.distinct j hjmax i hi (by rw [hsame, hjlive]) hlive (by rw [hsame, hjid, hid]))
  · rintro ⟨hnext, hnew⟩
    -- the number of another session is not the one the counter holds
    have hother : ∀ j < max, j ≠ i → ((s.join i peer).sessions j).live = true →
        ((s.join i peer).sessions j).id ≠ s.nextId := by
      intro j hj hji hjlive heq
      rw [join_sessions_of_ne hji] at hjlive heq
      exact hnew ⟨j, hj, hjlive, heq⟩
    refine identified_of_distinct (fun j hj hjlive => ?_) fun j hj k hk hjlive hklive heq => ?_
    · by_cases hji : j = i
      · rw [hji, hid]
        exact hnext
      · rw [join_sessions_of_ne hji] at hjlive ⊢
        exact hx.numbered j hj hjlive
    · by_cases hji : j = i <;> by_cases hki : k = i
      · rw [hji, hki]
      · rw [hji, hid] at heq
        exact absurd heq.symm (hother k hk hki hklive)
      · rw [hki, hid] at heq
        exact absurd heq (hother j hj hji hjlive)
      · rw [join_sessions_of_ne hji, join_sessions_of_ne hki] at heq
        rw [join_sessions_of_ne hji] at hjlive
        rw [join_sessions_of_ne hki] at hklive
        exact hx.distinct j hj k hk hjlive hklive heq

theorem slotsKept_repairActive {id : ℕ} (hs : SlotsKept s s') :
    SlotsKept s (s'.repairActive max id) := by
  rw [MultiState.repairActive]
  split_ifs <;> exact hs

/-- Emptying a slot. -/
theorem SlotsKept.set_init (hs : SlotsKept s s') (i : ℕ) :
    SlotsKept s (s'.set i multiSessionInit) := by
  intro j
  by_cases hj : j = i
  · exact .inr (by simp [hj, MultiState.set])
  · have hother : (s'.set i multiSessionInit).sessions j = s'.sessions j :=
      Function.update_of_ne hj _ _
    rw [hother]
    exact hs j

theorem slotsKept_left (hs : SameSessions s s') (i : ℕ) : SlotsKept s (s'.left max i) := by
  have hun : (s'.unattach (s'.sessions i).id).sessions = s'.sessions := by
    rw [MultiState.unattach]
    split_ifs <;> rfl
  have hset : SlotsKept s ((s'.unattach (s'.sessions i).id).set i multiSessionInit) := by
    refine SlotsKept.set_init (fun j => ?_) i
    rw [hun]
    exact .inl (hs.kept j)
  rw [MultiState.left, MultiState.repairGone]
  split_ifs <;> exact hset

theorem LineEffect.slotsKept {line : Bytes} {h h' : Hist} (he : LineEffect max line h h' s s') :
    SlotsKept s s' := by
  cases he with
  | same hsame => exact hsame.slotsKept
  | select => exact .of_eq rfl
  | attach => exact .of_eq rfl
  | detach => exact .of_eq rfl
  | drop hsame => exact slotsKept_repairActive (hsame.slotsKept.set_init _)
  | lost => exact .of_eq rfl
  | all hline hnext hslots => exact fun i => (hslots i).imp_right fun hd => hd.2.1

theorem CommandEffect.slotsKept {line : Option Bytes} {h h' : Hist}
    (he : CommandEffect max h h' s s' line) : SlotsKept s s' := by
  cases line with
  | none => exact .of_eq he.sessions
  | some line =>
    obtain ⟨s₁, s₂, hs₁, heffect, -, hs₂⟩ := he
    intro i
    have hslot := heffect.slotsKept i
    rwa [hs₁.sessions, ← hs₂.sessions] at hslot

theorem SlotEffect.slotsKept {i : ℕ} (he : SlotEffect max i s s') : SlotsKept s s' := by
  cases he with
  | heard hh => exact hh.same.slotsKept
  | failed hh => exact hh.same.slotsKept
  | failedHttp hh =>
    rw [MultiState.unattach]
    split_ifs <;> exact hh.same.slotsKept
  | left hh => exact slotsKept_left hh.same i

end

/-! ### Runs -/

variable {cfg : Config} {interactive : Bool} {listener : Fd}

/-- **What a step does to the sessions**: it keeps them or closes them, or a peer joins. -/
theorem MultiStep.slotsKept {x y : MultiPoint} (hstep : MultiStep cfg interactive listener x y) :
    SlotsKept x.state y.state ∨ ∃ i peer, i < cfg.brokerMaxClients.toNat ∧
      (x.state.sessions i).live = false ∧ y.state = x.state.join i peer := by
  cases hstep with
  | idle hr =>
    rw [runs_multiWait hr]
    exact .inl (.of_eq rfl)
  | accept hw hr =>
    rcases runs_multiGreet hr with rfl | ⟨i, peer, hi, hfree, rfl⟩
    · exact .inl (.of_eq rfl)
    · exact .inr ⟨i, peer, hi, by simp [MultiSession.live, hfree], rfl⟩
  | quiet => exact .inl (.of_eq rfl)
  | vanished hm hr =>
    rw [runs_multiVanished hr]
    exact .inl (.of_eq rfl)
  | read => exact .inl (.of_eq rfl)
  | @typed s s' h h' mode c rest polled hr =>
    refine .inl ?_
    cases mode with
    | lines => exact (runs_multiLineByte hr).slotsKept
    | editor => exact (runs_multiEditorByte hr).slotsKept
    | attached i => exact ((within_multiAttachedByte c s).result hr).same.slotsKept
  | typedAll => exact .inl (.of_eq rfl)
  | slot hi hr => exact .inl (within_multiSlot.result hr).slotsKept
  | broken hi hr => exact .inl (within_multiSlot.result hr).slotsKept
  | served => exact .inl (.of_eq rfl)

/-- **A step is fresh**: if a peer joins, the counter holds a fresh number. -/
def FreshStep (max : ℕ) (x y : MultiPoint) : Prop :=
  (∃ i < max, (x.state.sessions i).live = false ∧ (y.state.sessions i).live = true) →
    Fresh max x.state

/-- **The numbers still identify after a step** exactly if it is fresh. -/
theorem MultiStep.keeps_identified {x y : MultiPoint}
    (hstep : MultiStep cfg interactive listener x y)
    (hx : Identified cfg.brokerMaxClients.toNat x.state) :
    Identified cfg.brokerMaxClients.toNat y.state ↔ FreshStep cfg.brokerMaxClients.toNat x y := by
  rcases hstep.slotsKept with hkept | ⟨i, peer, hi, hfree, hy⟩
  · refine iff_of_true (hx.kept hkept) ?_
    rintro ⟨i, -, hfree, hlive⟩
    rw [(hkept.live hlive).1] at hfree
    exact absurd hfree (by simp)
  · rw [hy, identified_join_iff hx hi hfree, FreshStep, hy]
    exact ⟨fun hfresh _ => hfresh, fun h => h ⟨i, hi, hfree, join_sessions_self.1⟩⟩

theorem identified_multiInit (max : ℕ) : Identified max multiInit := by
  have hfree : ∀ i, (multiInit.sessions i).live ≠ true := fun i => by
    simp [multiInit, multiSessionInit, MultiSession.live]
  exact identified_of_distinct (fun i _ hlive => absurd hlive (hfree i))
    fun i _ j _ hlive => absurd hlive (hfree i)

/-- From a point where the numbers identify the sessions. -/
theorem identified_chain_iff {x : MultiPoint} {xs : List MultiPoint}
    (hrun : (x :: xs).IsChain (MultiStep cfg interactive listener))
    (hx : Identified cfg.brokerMaxClients.toNat x.state) :
    (∀ y ∈ xs, Identified cfg.brokerMaxClients.toNat y.state) ↔
      (x :: xs).IsChain (FreshStep cfg.brokerMaxClients.toNat) := by
  induction xs generalizing x with
  | nil => simp
  | cons y xs ih =>
    rw [List.isChain_cons_cons] at hrun ⊢
    rw [List.forall_mem_cons, hrun.1.keeps_identified hx]
    refine and_congr_right fun hfresh => ?_
    exact ih hrun.2 ((hrun.1.keeps_identified hx).mpr hfresh)

/-- **Session numbers**: in a run of any length the numbers identify the sessions throughout, exactly
if every peer that joins takes a fresh one. -/
theorem identified_iff {h : Hist} {xs : List MultiPoint}
    (hrun : (multiStart h :: xs).IsChain (MultiStep cfg interactive listener)) :
    (∀ x ∈ multiStart h :: xs, Identified cfg.brokerMaxClients.toNat x.state) ↔
      (multiStart h :: xs).IsChain (FreshStep cfg.brokerMaxClients.toNat) := by
  rw [List.forall_mem_cons, identified_chain_iff hrun (identified_multiInit _)]
  exact and_iff_right (identified_multiInit _)

/-! ### A run that goes round -/

/-- No session, and the counter at `n`. -/
def vacant (n : ℕ) : MultiState := { multiInit with nextId := n }

/-- The peer that joins, again and again. -/
def caller : Peer := ⟨.conn .tcp 7, [], []⟩

/-- The program goes on, and the caller has no connection. -/
def Gone (h : Hist) : Prop := stopped h = false ∧ isOpen h caller.fd = false

/-- The wait ends with these events. -/
theorem exists_multiWait {s : MultiState} {h : Hist} (hclear : stopped h = false)
    {revents : List Revents}
    (hlen : revents.length = (multiPollFds (.sock .tcp 3) 1 s).length)
    (hevent : ∃ r ∈ revents, r ≠ Revents.none)
    (hignored : ∀ p ∈ (multiPollFds (.sock .tcp 3) 1 s).zip revents, p.1.fd = none →
      p.2 = Revents.none) :
    ∃ h', stopped h' = false ∧ (∀ fd, isOpen h' fd = isOpen h fd) ∧
      Runs Legal (multiWait oneSession (.sock .tcp 3) s) h h' (some (.inl revents)) := by
  refine ⟨_, ?_, ?_, runs_ask.mpr ⟨false, ⟨by simp [opens], by simp [opens], hclear⟩, runs_ask.mpr
    ⟨.ready revents hlen hevent hignored, ?_, runs_pure.mpr ⟨rfl, rfl⟩⟩⟩⟩
  · exact hclear
  · intro fd
    simp [isOpen, opens]
  · exact ⟨by simp [opens], by simp [opens], trivial⟩

/-- The caller joins. -/
theorem exists_join (n : ℕ) {h : Hist} (hgone : Gone h) : ∃ h', stopped h' = false ∧
    MultiStep oneSession false (.sock .tcp 3) ⟨vacant n, h, .head⟩
      ⟨(vacant n).join 0 caller, h', .accepted false []⟩ := by
  obtain ⟨h₁, hclear₁, hopen₁, hwait⟩ := @exists_multiWait (vacant n) h hgone.1
    [{ pollin := true }, .none] rfl ⟨{ pollin := true }, by simp, by decide⟩ (by
      show ∀ p ∈ [(({ fd := some (.sock .tcp 3), pollin := true } : PollFd),
        ({ pollin := true } : Revents)), ({ fd := some .stdin, pollin := true }, .none)], _
      simp)
  have hgreet : ∃ h', stopped h' = false ∧ Runs Legal (multiGreet oneSession (.sock .tcp 3)
      [{ pollin := true }, .none] (vacant n)) h₁ h' (some ((vacant n).join 0 caller)) := by
    have haccept : Runs Legal (wcatAccept (.sock .tcp 3) (some (128, 32))) h₁
        (⟨.getnameinfo caller.fd 128 32, none⟩ :: ⟨.setCloexec caller.fd, ()⟩ ::
          ⟨.accept (.sock .tcp 3), .ok 7⟩ :: h₁) (some (some caller)) := by
      refine runs_loop.mpr ⟨.inr (some caller), _, ?_, rfl, rfl⟩
      refine runs_ask.mpr ⟨.ok 7, ⟨?_, by simp [opens], trivial⟩, runs_ask.mpr ⟨(), legal_refuse _ _,
        runs_ask.mpr ⟨none, legal_refuse _ _, runs_pure.mpr ⟨rfl, rfl⟩⟩⟩⟩
      intro fd hfd
      rw [List.mem_singleton.mp hfd, hopen₁]
      exact hgone.2
    refine ⟨_, ?_, runs_bind_some'.mpr ⟨some caller, _, haccept, runs_bind_some'.mpr ⟨true, _,
      runs_pure.mpr ⟨rfl, rfl⟩, runs_ask.mpr ⟨(), legal_refuse _ _, runs_ask.mpr ⟨(), legal_refuse _ _,
        runs_ask.mpr ⟨(), legal_refuse _ _, runs_pure.mpr ⟨rfl, rfl⟩⟩⟩⟩⟩⟩⟩
    exact hclear₁
  obtain ⟨h₂, hclear₂, hgreet⟩ := hgreet
  exact ⟨h₂, hclear₂, .accept hwait hgreet⟩

/-- The caller has joined, and has nothing to say. -/
theorem steps_joined {n : ℕ} {h : Hist} : MultiSteps oneSession false (.sock .tcp 3)
    ⟨(vacant n).join 0 caller, h, .accepted false []⟩ ⟨(vacant n).join 0 caller, h, .head⟩ := by
  have hslot : Runs Legal (multiSlot oneSession false oneSession.brokerMaxClients.toNat [] 0
      ((vacant n).join 0 caller)) h h (some (.ok ((vacant n).join 0 caller))) :=
    runs_pure.mpr ⟨rfl, rfl⟩
  exact .head .quiet (.head (.slot (by decide) hslot) (.single .served))

/-- The slot is empty again, and the counter has moved on. -/
theorem left_join (n : ℕ) :
    ((vacant n).join 0 caller).left 1 0 = vacant ((n + 1) % 2 ^ 32) := by
  have hslots : Function.update ((vacant n).join 0 caller).sessions 0 multiSessionInit =
      multiInit.sessions := by
    show Function.update (Function.update multiInit.sessions 0 _) 0 multiSessionInit = _
    rw [Function.update_idem]
    exact Function.update_eq_self 0 _
  have hset : (((vacant n).join 0 caller).unattach
      (((vacant n).join 0 caller).sessions 0).id).set 0 multiSessionInit =
        { vacant ((n + 1) % 2 ^ 32) with activeId := n } := by
    rw [MultiState.unattach]
    split_ifs
    · show ({ vacant ((n + 1) % 2 ^ 32) with
        activeId := n
        sessions := Function.update ((vacant n).join 0 caller).sessions 0 multiSessionInit }
          : MultiState) = _
      rw [hslots]
      rfl
    · show ({ vacant ((n + 1) % 2 ^ 32) with
        activeId := n
        sessions := Function.update ((vacant n).join 0 caller).sessions 0 multiSessionInit }
          : MultiState) = _
      rw [hslots]
      rfl
  rw [MultiState.left, hset, MultiState.repairGone]
  split_ifs with hgone
  · rfl
  · have h0 : n = 0 := by
      by_contra hn
      exact hgone ⟨hn, rfl⟩
    rw [h0]
    rfl

/-- The caller leaves. -/
theorem exists_left (n : ℕ) {h : Hist} (hclear : stopped h = false) : ∃ h', Gone h' ∧
    MultiSteps oneSession false (.sock .tcp 3) ⟨(vacant n).join 0 caller, h, .head⟩
      ⟨vacant ((n + 1) % 2 ^ 32), h', .head⟩ := by
  have hfds : multiPollFds (.sock .tcp 3) 1 ((vacant n).join 0 caller) =
      [{ fd := some (.sock .tcp 3), pollin := true }, { fd := some .stdin, pollin := true },
        { fd := some caller.fd, pollin := true }] := rfl
  have hpolled : multiPolled oneSession (.sock .tcp 3) ((vacant n).join 0 caller)
      [.none, .none, { pollerr := true }] =
        [({ fd := some caller.fd, pollin := true }, { pollerr := true })] := rfl
  obtain ⟨h₁, hclear₁, -, hwait⟩ := @exists_multiWait ((vacant n).join 0 caller) h hclear
    [.none, .none, { pollerr := true }] rfl ⟨{ pollerr := true }, by simp, by decide⟩ (by
      rw [hfds]
      simp [caller])
  have haccept := @MultiStep.accept oneSession false (.sock .tcp 3) _ _ _ _ _ _ hwait
    (runs_pure.mpr ⟨rfl, rfl⟩)
  rw [hpolled] at haccept
  have hleave : ∃ h', Gone h' ∧ Runs Legal (multiSlot oneSession false
      oneSession.brokerMaxClients.toNat [({ fd := some caller.fd, pollin := true },
        { pollerr := true })] 0 ((vacant n).join 0 caller)) h₁ h'
      (some (.ok (vacant ((n + 1) % 2 ^ 32)))) := by
    have hclose : Runs Legal (multiSessionClose (((vacant n).join 0 caller).unattach
        (((vacant n).join 0 caller).sessions 0).id) 0)
        (⟨.log .info "multi_leave" "session %u closed" [.num n], ()⟩ :: h₁)
        (⟨.close caller.fd, none⟩ :: ⟨.log .info "multi_leave" "session %u closed" [.num n], ()⟩ :: h₁)
        (some ((((vacant n).join 0 caller).unattach
          (((vacant n).join 0 caller).sessions 0).id).set 0 multiSessionInit)) := by
      have hfd : ((((vacant n).join 0 caller).unattach
          (((vacant n).join 0 caller).sessions 0).id).sessions 0).fd = some caller.fd := by
        rw [MultiState.unattach]
        split_ifs <;> rfl
      rw [multiSessionClose, hfd]
      refine runs_bind_some'.mpr ⟨(), _, runs_loop.mpr ⟨.inr (), _, runs_ask.mpr ⟨none, ?_,
        runs_pure.mpr ⟨rfl, rfl⟩⟩, rfl, rfl⟩, runs_pure.mpr ⟨rfl, rfl⟩⟩
      exact ⟨by simp [opens], by simp [opens], trivial⟩
    have hleft := left_join n
    rw [MultiState.left] at hleft
    rw [show oneSession.brokerMaxClients.toNat = 1 from rfl]
    refine ⟨⟨.tty (.prompt 0), ()⟩ :: ⟨.close caller.fd, none⟩ ::
      ⟨.log .info "multi_leave" "session %u closed" [.num n], ()⟩ :: h₁, ?_,
      runs_bind_some'.mpr ⟨vacant ((n + 1) % 2 ^ 32), _, runs_ask.mpr ⟨(), legal_refuse _ _,
        runs_bind_some'.mpr ⟨_, _, hclose, ?_⟩⟩, runs_pure.mpr ⟨rfl, rfl⟩⟩⟩
    · exact ⟨hclear₁, by simp [isOpen, opens]⟩
    · show Runs Legal (if (MultiState.repairGone _ 1).attachedId = 0 then _ else _) _ _ _
      rw [hleft, if_pos (show (vacant ((n + 1) % 2 ^ 32)).attachedId = 0 from rfl)]
      exact runs_ask.mpr ⟨(), legal_refuse _ _, runs_pure.mpr ⟨rfl, rfl⟩⟩
  obtain ⟨h₂, hgone, hslot⟩ := hleave
  exact ⟨h₂, hgone, .head haccept (.head .quiet (.head (.slot (by decide) hslot) (.single .served)))⟩

/-- **Callers come and leave**, and the counter moves on. -/
theorem exists_vacant (n : ℕ) : ∃ h, Gone h ∧ MultiSteps oneSession false (.sock .tcp 3)
    (multiStart []) ⟨vacant ((n + 1) % 2 ^ 32), h, .head⟩ := by
  induction n with
  | zero => exact ⟨[], ⟨rfl, rfl⟩, .refl⟩
  | succ n ih =>
    obtain ⟨h, hgone, hsteps⟩ := ih
    obtain ⟨h₁, hclear₁, hjoin⟩ := exists_join ((n + 1) % 2 ^ 32) hgone
    obtain ⟨h₂, hgone₂, hleft⟩ := exists_left ((n + 1) % 2 ^ 32) hclear₁
    refine ⟨h₂, hgone₂, hsteps.trans (.head hjoin (steps_joined.trans ?_))⟩
    rwa [Nat.mod_add_mod] at hleft

/-- Whether a step is fresh. -/
def freshly (max : ℕ) (x y : MultiPoint) : Bool :=
  (List.range max).all fun i => (x.state.sessions i).live || !(y.state.sessions i).live ||
    (x.state.nextId ≠ 0 && (List.range max).all fun j =>
      !(x.state.sessions j).live || (x.state.sessions j).id ≠ x.state.nextId)

theorem freshStep_of_freshly {max : ℕ} {x y : MultiPoint} (hf : freshly max x y = true) :
    FreshStep max x y := by
  rintro ⟨i, hi, hfree, hlive⟩
  have hpass := List.all_eq_true.mp hf i (List.mem_range.mpr hi)
  rw [hfree, hlive, Bool.not_true, Bool.or_self, Bool.false_or, Bool.and_eq_true_iff] at hpass
  obtain ⟨hzero, hnone⟩ := hpass
  refine ⟨of_decide_eq_true hzero, ?_⟩
  rintro ⟨j, hj, hlive, hid⟩
  have hpass := List.all_eq_true.mp hnone j (List.mem_range.mpr hj)
  simp [hlive, hid] at hpass

/-- Two peers that have joined have numbers of their own. -/
theorem identified_two : ∃ x, MultiSteps twoSessions false (.sock .tcp 3) (multiStart []) x ∧
    (x.state.sessions 0).id = 1 ∧ (x.state.sessions 1).id = 2 ∧
      Identified twoSessions.brokerMaxClients.toNat x.state := by
  have hx : (twoPeers (freshly 2) [] 10).any (fun x =>
      (x.state.sessions 0).id = 1 ∧ (x.state.sessions 1).id = 2) = true := by
    decide +kernel
  obtain ⟨x, hx, hs⟩ := (Option.any_eq_true _ _).mp hx
  obtain ⟨hfst, hsnd⟩ := of_decide_eq_true hs
  have hsteps := MultiPoint.advancesIf_steps (R := fun x y =>
    MultiStep twoSessions false (.sock .tcp 3) x y ∧ FreshStep twoSessions.brokerMaxClients.toNat x y)
    (legal_lawful _) (fun _ _ hstep hok => ⟨hstep, freshStep_of_freshly hok⟩) hx
  obtain ⟨xs, hchain, hlast⟩ := List.exists_isChain_cons_of_relationReflTransGen hsteps
  have hall := (identified_iff (hchain.imp fun _ _ hxy => hxy.1)).mpr (hchain.imp fun _ _ hxy => hxy.2)
  exact ⟨x, Relation.ReflTransGen.mono (fun _ _ hxy => hxy.1) _ _ hsteps, hfst, hsnd,
    hall x (hlast ▸ List.getLast_mem _)⟩

/-- **The number of no session**: when `2 ^ 32 - 1` callers have come and left, the next one gets the
number `0`. -/
theorem not_identified : ∃ s h,
    Reaches Legal (multiRound oneSession false (.sock .tcp 3)) multiInit [] s h ∧
      (s.sessions 0).live = true ∧ (s.sessions 0).id = 0 ∧
      ¬Identified oneSession.brokerMaxClients.toNat s := by
  obtain ⟨h, hgone, hsteps⟩ := exists_vacant (2 ^ 32 - 1)
  rw [show (2 ^ 32 - 1 + 1) % 2 ^ 32 = 0 by decide] at hsteps
  obtain ⟨h₁, -, hjoin⟩ := exists_join 0 hgone
  refine ⟨(vacant 0).join 0 caller, h₁, reaches_iff_steps.mpr (hsteps.trans (.head hjoin steps_joined)),
    rfl, rfl, fun hx => ?_⟩
  exact hx.numbered 0 (by decide) rfl rfl

end Wirecat
