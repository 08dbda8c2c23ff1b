import Wirecat.Rounds

/-!
# Which session is selected

The listener remembers two session numbers, that of the active session and that of the
attached one, and sessions go away in many places. `Wirecat.Selection` says what the numbers
are for: the active one is `0` exactly when there is no session and names a live one
otherwise, and the attached one names a live session or is `0`.

The places where a session is closed are of two kinds. Those in the loop over the slots
repair both numbers (`Wirecat.Selected.left`). Those in the commands repair the active number
only, and `:all` repairs none; it takes two commands in one `read` to notice, since the
prompt does not see a line while a session is attached. So the numbers are right in every
run whose steps are `Wirecat.Careful`: no line closes the attached session, no broadcast
closes the active one, and the counter of the sessions has not come round to `0`
(`Wirecat.selection_of_careful`).
-/

namespace Wirecat

open CString Interaction

/-! ### The invariant -/

/-- There is a live session with this number. -/
def HasSession (max : ℕ) (s : MultiState) (id : ℕ) : Prop :=
  ∃ i < max, (s.sessions i).live = true ∧ (s.sessions i).id = id

/-- **The selection names live sessions**, and free slots are empty. -/
structure Selection (max : ℕ) (s : MultiState) : Prop where
  none : s.activeId = 0 ↔ ∀ i < max, (s.sessions i).live = false
  active : s.activeId ≠ 0 → HasSession max s s.activeId
  attached : s.attachedId = 0 ∨ HasSession max s s.attachedId
  free : ∀ i, (s.sessions i).live = false →
    (s.sessions i).rxBytes = 0 ∧ (s.sessions i).txBytes = 0 ∧ (s.sessions i).name = []

/-- What carries it from step to step: no live session has the number `0`. -/
structure Selected (max : ℕ) (s : MultiState) : Prop extends Selection max s where
  numbered : ∀ i < max, (s.sessions i).live = true → (s.sessions i).id ≠ 0

section
variable {max : ℕ} {s s' : MultiState}

theorem live_iff {session : MultiSession} : session.live = true ↔ session.fd ≠ none := by
  rw [MultiSession.live, Option.isSome_iff_ne_none]

theorem multiFindById_isSome {id : ℕ} :
    (multiFindById s max id).isSome = true ↔ HasSession max s id := by
  rw [multiFindById, List.find?_isSome]
  simp only [List.mem_range, Bool.and_eq_true, decide_eq_true_eq, HasSession]

theorem SameSessions.hasSession (hs : SameSessions s s') (id : ℕ) :
    HasSession max s' id ↔ HasSession max s id := by
  rw [← multiFindById_isSome, ← multiFindById_isSome, hs.findById]

/-- The first session is chosen when there is one. -/
theorem multiFirstSessionId_spec (hs : ∀ i < max, (s.sessions i).live = true → (s.sessions i).id ≠ 0) :
    (multiFirstSessionId s max = 0 ↔ ∀ i < max, (s.sessions i).live = false) ∧
      (multiFirstSessionId s max ≠ 0 → HasSession max s (multiFirstSessionId s max)) := by
  rw [multiFirstSessionId, firstLiveId]
  cases hfind : (List.range max).find? fun i => (s.sessions i).live with
  | none =>
    rw [List.find?_eq_none] at hfind
    exact ⟨⟨fun _ i hi => by simpa using hfind i (List.mem_range.mpr hi), fun _ => rfl⟩,
      fun h => absurd rfl h⟩
  | some i =>
    have hi := List.mem_range.mp (List.mem_of_find?_eq_some hfind)
    have hlive := List.find?_some hfind
    refine ⟨⟨fun h0 => absurd h0 (hs i hi hlive), fun hnone => ?_⟩, fun _ => ⟨i, hi, hlive, rfl⟩⟩
    exact absurd hlive (by simp [hnone i hi])

theorem selected_multiInit (max : ℕ) : Selected max multiInit where
  none := ⟨fun _ _ _ => rfl, fun _ => rfl⟩
  active := fun h => absurd rfl h
  attached := .inl rfl
  free := fun _ _ => ⟨rfl, rfl, rfl⟩
  numbered := fun _ _ h => absurd h (by simp [multiInit, multiSessionInit, MultiSession.live])

/-- The part of the invariant that is about the slots. -/
structure Slots (max : ℕ) (s : MultiState) : Prop where
  free : ∀ i, (s.sessions i).live = false →
    (s.sessions i).rxBytes = 0 ∧ (s.sessions i).txBytes = 0 ∧ (s.sessions i).name = []
  numbered : ∀ i < max, (s.sessions i).live = true → (s.sessions i).id ≠ 0

theorem Selected.slots (hs : Selected max s) : Slots max s := ⟨hs.free, hs.numbered⟩

/-- A slot keeps its session, or is empty now. -/
theorem Slots.step (hs : Slots max s)
    (hslots : ∀ i, (s.sessions i).Kept (s'.sessions i) ∨ s'.sessions i = multiSessionInit) :
    Slots max s' := by
  refine ⟨fun i hfree => ?_, fun i hi hlive => ?_⟩
  · rcases hslots i with ⟨hfd, -, hnone⟩ | hinit
    · have hfree' : (s.sessions i).fd = none := by
        rw [MultiSession.live, hfd] at hfree
        simpa using hfree
      rw [hnone hfree']
      exact hs.free i (by rw [MultiSession.live, hfree']; rfl)
    · rw [hinit]
      exact ⟨rfl, rfl, rfl⟩
  · rcases hslots i with ⟨hfd, hid, -⟩ | hinit
    · rw [hid]
      exact hs.numbered i hi (by rw [MultiSession.live, ← hfd]; exact hlive)
    · rw [hinit] at hlive
      exact absurd hlive (by simp [multiSessionInit, MultiSession.live])

/-- The slots are as they should be, and so are the numbers. -/
theorem Slots.selected (hs : Slots max s)
    (hnone : s.activeId = 0 ↔ ∀ i < max, (s.sessions i).live = false)
    (hactive : s.activeId ≠ 0 → HasSession max s s.activeId)
    (hattached : s.attachedId = 0 ∨ HasSession max s s.attachedId) : Selected max s :=
  ⟨⟨hnone, hactive, hattached, hs.free⟩, hs.numbered⟩

/-! ### What keeps it -/

theorem SameSessions.slots (hsame : SameSessions s s') (hs : Slots max s) : Slots max s' :=
  hs.step fun i => .inl (hsame.kept i)

theorem Selected.same (hs : Selected max s) (hsame : SameSessions s s')
    (hactive : s'.activeId = s.activeId)
    (hattached : s'.attachedId = s.attachedId ∨ s'.attachedId = 0) : Selected max s' := by
  refine (hsame.slots hs.slots).selected ?_ ?_ ?_
  · rw [hactive, hs.none]
    exact forall₂_congr fun i _ => by rw [hsame.live]
  · rw [hactive, hsame.hasSession]
    exact hs.active
  · rcases hattached with heq | h0
    · rw [heq, hsame.hasSession]
      exact hs.attached
    · exact .inl h0

/-- A live session is made the active one. -/
theorem Selected.select (hs : Selected max s) {id : ℕ} (h0 : id ≠ 0) (hid : HasSession max s id) :
    Selected max { s with activeId := id } := by
  refine Slots.selected ⟨hs.free, hs.numbered⟩ ⟨fun h => absurd h h0, fun hnone => ?_⟩ (fun _ => hid)
    hs.attached
  obtain ⟨i, hi, hlive, -⟩ := hid
  exact absurd hlive (by simpa using hnone i hi)

/-- A live session is attached. -/
theorem Selected.attach (hs : Selected max s) {id : ℕ} (h0 : id ≠ 0) (hid : HasSession max s id) :
    Selected max { s with activeId := id, attachedId := id } :=
  ⟨⟨(hs.select h0 hid).none, (hs.select h0 hid).active, .inr hid, hs.free⟩, hs.numbered⟩

/-- The first session is made the active one. -/
theorem Slots.first (hs : Slots max s) (hattached : s.attachedId = 0 ∨ HasSession max s s.attachedId) :
    Selected max { s with activeId := multiFirstSessionId s max } := by
  obtain ⟨hnone, hactive⟩ := multiFirstSessionId_spec hs.numbered
  exact Slots.selected ⟨hs.free, hs.numbered⟩ hnone hactive hattached

theorem set_init_slots (hs : Slots max s) (i : ℕ) : Slots max (s.set i multiSessionInit) := by
  refine hs.step fun j => ?_
  by_cases hj : j = i
  · subst hj
    exact .inr (by simp [MultiState.set])
  · exact .inl (by simpa [MultiState.set, hj] using MultiSession.Kept.refl _)

/-- A session with another number is still there after a close. -/
theorem HasSession.set_init {id i : ℕ} (h : HasSession max s id) (hne : (s.sessions i).id ≠ id) :
    HasSession max (s.set i multiSessionInit) id := by
  obtain ⟨j, hj, hlive, hid⟩ := h
  have hji : j ≠ i := by
    rintro rfl
    exact hne hid
  exact ⟨j, hj, by simpa [MultiState.set, hji] using hlive, by simpa [MultiState.set, hji] using hid⟩

/-- A command closes a session that is not attached. -/
theorem Selected.drop (hs : Selected max s) {i id : ℕ} (hfind : multiFindById s max id = some i)
    (hattached : s.attachedId = 0 ∨ s.attachedId ≠ id) :
    Selected max ((s.set i multiSessionInit).repairActive max id) := by
  obtain ⟨hi, hlive, hid⟩ := multiFindById_eq_some hfind
  have hslots := set_init_slots hs.slots i
  have hattached' : s.attachedId = 0 ∨ HasSession max (s.set i multiSessionInit) s.attachedId := by
    rcases hs.attached with h0 | h
    · exact .inl h0
    · refine hattached.imp_right fun hne => h.set_init ?_
      rw [hid]
      exact hne.symm
  rw [MultiState.repairActive]
  split_ifs with hactive
  · exact hslots.first hattached'
  · have h0 : s.activeId ≠ 0 := fun h0 => by
      have := hs.none.mp h0 i hi
      rw [hlive] at this
      exact absurd this (by simp)
    have hhas := (hs.active h0).set_init (i := i) (by rw [hid]; exact Ne.symm hactive)
    refine hslots.selected ⟨fun h => absurd h h0, fun hnone => ?_⟩ (fun _ => hhas) hattached'
    obtain ⟨j, hj, hlive', -⟩ := hhas
    exact absurd hlive' (by simpa using hnone j hj)

/-- The active number is repaired when its session is gone. -/
theorem Slots.repairGone (hs : Slots max s) (h0 : s.activeId ≠ 0)
    (hattached : s.attachedId = 0 ∨ HasSession max s s.attachedId) :
    Selected max (s.repairGone max) := by
  rw [MultiState.repairGone]
  split_ifs with hgone
  · exact hs.first hattached
  · have hhas : HasSession max s s.activeId := by
      rw [← multiFindById_isSome]
      by_contra hno
      exact hgone ⟨h0, by simpa using hno⟩
    refine hs.selected ⟨fun h => absurd h h0, fun hnone => ?_⟩ (fun _ => hhas) hattached
    obtain ⟨j, hj, hlive, -⟩ := hhas
    exact absurd hlive (by simpa using hnone j hj)

/-- The loop over the slots closes a session. -/
theorem Selected.left (hs : Selected max s) {i : ℕ} (hi : i < max)
    (hlive : (s.sessions i).live = true) : Selected max (s.left max i) := by
  have h0 : s.activeId ≠ 0 := fun h0 => by
    have hfree := hs.none.mp h0 i hi
    rw [hlive] at hfree
    exact absurd hfree (by simp)
  have hslots := set_init_slots hs.slots i
  rw [MultiState.left, MultiState.unattach]
  split_ifs with hatt
  · exact Slots.repairGone ⟨hslots.free, hslots.numbered⟩ h0 (.inl rfl)
  · refine Slots.repairGone hslots h0 ?_
    rcases hs.attached with h | h
    · exact .inl h
    · exact .inr (h.set_init (Ne.symm hatt))

/-- A session is still there after a peer joined in a free slot. -/
theorem HasSession.join {id i : ℕ} {peer : Peer} (h : HasSession max s id)
    (hfree : (s.sessions i).fd = none) : HasSession max (s.join i peer) id := by
  obtain ⟨j, hj, hlive, hid⟩ := h
  have hji : j ≠ i := by
    rintro rfl
    exact live_iff.mp hlive hfree
  have hsame : (s.join i peer).sessions j = s.sessions j := Function.update_of_ne hji _ _
  exact ⟨j, hj, by rw [hsame, hlive], by rw [hsame, hid]⟩

/-- A peer joins. -/
theorem Selected.join (hs : Selected max s) {i : ℕ} {peer : Peer} (hi : i < max)
    (hfree : (s.sessions i).fd = none) (hnext : s.nextId ≠ 0) : Selected max (s.join i peer) := by
  have hother : ∀ j ≠ i, (s.join i peer).sessions j = s.sessions j := fun j hj =>
    Function.update_of_ne hj _ _
  have hlive : ((s.join i peer).sessions i).live = true := by
    simp [MultiState.join, MultiState.set, MultiSession.live]
  have hid : ((s.join i peer).sessions i).id = s.nextId := by
    simp [MultiState.join, MultiState.set]
  have hslots : Slots max (s.join i peer) := by
    refine ⟨fun j hj => ?_, fun j hj hjlive => ?_⟩
    · have hji : j ≠ i := by
        rintro rfl
        rw [hlive] at hj
        exact absurd hj (by simp)
      rw [hother j hji] at hj ⊢
      exact hs.free j hj
    · by_cases hji : j = i
      · rw [hji, hid]
        exact hnext
      · rw [hother j hji] at hjlive ⊢
        exact hs.numbered j hj hjlive
  have hactive : (s.join i peer).activeId = if s.activeId = 0 then s.nextId else s.activeId := rfl
  have hne : (s.join i peer).activeId ≠ 0 := by
    rw [hactive]
    split_ifs with h0
    · exact hnext
    · exact h0
  refine hslots.selected ⟨fun h => absurd h hne, fun hnone => ?_⟩ (fun _ => ?_) ?_
  · have := hnone i hi
    rw [hlive] at this
    exact absurd this (by simp)
  · rw [hactive]
    split_ifs with h0
    · exact ⟨i, hi, hlive, hid⟩
    · exact (hs.active h0).join hfree
  · exact hs.attached.imp_right fun h => h.join hfree

/-- A broadcast drops neither the active nor the attached session. -/
theorem Selected.all (hs : Selected max s) {h h' : Hist}
    (hslots : ∀ i, (s.sessions i).Kept (s'.sessions i) ∨ Dropped max i h h' s s')
    (hactive : s'.activeId = s.activeId) (hattached : s'.attachedId = s.attachedId)
    (hkept : ∀ id, id = s.activeId ∨ id = s.attachedId → id ≠ 0 → ∀ i fd,
      multiFindById s max id = some i → (s.sessions i).fd = some fd → ¬Refused fd h h') :
    Selected max s' := by
  have hhas : ∀ id, id = s.activeId ∨ id = s.attachedId → id ≠ 0 → HasSession max s id →
      HasSession max s' id := by
    intro id hsel h0 hid
    obtain ⟨i, hfind⟩ := Option.isSome_iff_exists.mp (multiFindById_isSome.mpr hid)
    obtain ⟨hi, hlive, hid⟩ := multiFindById_eq_some hfind
    rcases hslots i with ⟨hfd, hid', -⟩ | ⟨-, -, fd, hfd, href⟩
    · exact ⟨i, hi, by rw [MultiSession.live, hfd]; exact hlive, by rw [hid', hid]⟩
    · exact absurd href (hkept id hsel h0 i fd hfind hfd)
  have hs' : Slots max s' := hs.slots.step fun i => (hslots i).imp_right fun hd => hd.2.1
  refine hs'.selected ?_ ?_ ?_
  · rw [hactive]
    constructor
    · intro h0 i hi
      have hfree := hs.none.mp h0 i hi
      rcases hslots i with ⟨hfd, -, -⟩ | ⟨-, hinit, -⟩
      · rw [MultiSession.live, hfd]
        exact hfree
      · rw [hinit]
        rfl
    · intro hnone
      by_contra h0
      obtain ⟨i, hi, hlive, -⟩ := hhas _ (.inl rfl) h0 (hs.active h0)
      exact absurd hlive (by simpa using hnone i hi)
  · rw [hactive]
    exact fun h0 => hhas _ (.inl rfl) h0 (hs.active h0)
  · rw [hattached]
    by_cases h0 : s.attachedId = 0
    · exact .inl h0
    · exact .inr (hhas _ (.inr rfl) h0 (hs.attached.resolve_left h0))

end

/-! ### Careful runs -/

/-- **The line spares the sessions that are selected**: it is no order to close the attached one, no
write to it is refused, and of a broadcast none to the active one. -/
def Spares (max : ℕ) (line : Bytes) (h h' : Hist) (s : MultiState) : Prop :=
  (s.attachedId ≠ 0 → killed max line s ≠ some s.attachedId ∧ ∀ i fd,
      multiFindById s max s.attachedId = some i → (s.sessions i).fd = some fd → ¬Refused fd h h') ∧
    (broadcasts line = true → ∀ i fd,
      multiFindById s max s.activeId = some i → (s.sessions i).fd = some fd → ¬Refused fd h h')

/-- **A careful step**: the counter of the sessions has not come round to `0` when connections
are accepted, and a line that is carried out spares the sessions that are selected. -/
def Careful (max : ℕ) (x y : MultiPoint) : Prop :=
  match x.phase, y.phase with
  | .head, .accepted _ _ => x.state.nextId ≠ 0
  | .typing mode (c :: _) _, _ =>
      ∀ line ∈ completed mode c x.state, Spares max line x.hist y.hist x.state
  | _, _ => True

section
variable {max : ℕ} {s s' : MultiState} {h h' : Hist}

theorem Edited.findById (hs : Edited s s') (max id : ℕ) :
    multiFindById s' max id = multiFindById s max id := by
  rw [multiFindById, multiFindById, hs.sessions]

theorem Edited.sameSessions (hs : Edited s s') : SameSessions s s' :=
  ⟨fun i => by rw [hs.sessions]; exact .refl _, hs.nextId⟩

theorem Selected.edited (hsel : Selected max s) (hs : Edited s s') : Selected max s' :=
  hsel.same hs.sameSessions hs.activeId (.inl hs.attachedId)

theorem Spares.edited {line : Bytes} (hsp : Spares max line h h' s) (hs : Edited s s') :
    Spares max line h h' s' := by
  have hkilled : killed max line s' = killed max line s := by
    simp only [killed, multiTarget, hs.findById]
  rw [Spares, hs.attachedId, hs.activeId, hkilled, hs.findById, hs.findById, hs.sessions]
  exact hsp

/-- **A line that spares the selected sessions** keeps the selection right. -/
theorem Selected.line {line : Bytes} (hs : Selected max s) (hsp : Spares max line h h' s)
    (he : LineEffect max line h h' s s') : Selected max s' := by
  cases he with
  | same hsame hactive hattached => exact hs.same hsame hactive (.inl hattached)
  | select h0 hlive => exact hs.select h0 (multiFindById_isSome.mp hlive)
  | attach h0 hlive hline => exact hs.attach h0 (multiFindById_isSome.mp hlive)
  | detach => exact hs.same ⟨fun _ => .refl _, rfl⟩ rfl (.inr rfl)
  | @drop s₁ i id hsame hactive hattached hfind hwhy =>
    refine (hs.same hsame hactive (.inl hattached)).drop (by rw [hsame.findById, hfind]) ?_
    rw [hattached]
    by_cases h0 : s.attachedId = 0
    · exact .inl h0
    · refine .inr fun hid => ?_
      obtain ⟨hkill, hrefused⟩ := hsp.1 h0
      rcases hwhy with hk | ⟨fd, hfd, href⟩
      · exact hkill (hid ▸ hk)
      · exact hrefused i fd (hid ▸ hfind) hfd href
  | lost hgone => exact hs.slots.first hs.attached
  | all hline hnext hslots hactive hattached =>
    refine hs.all hslots hactive hattached fun id hid h0 i fd hfind hfd => ?_
    rcases hid with rfl | rfl
    · exact hsp.2 hline i fd hfind hfd
    · exact (hsp.1 h0).2 i fd hfind hfd

theorem Selected.command {line : Option Bytes} (hs : Selected max s)
    (hsp : ∀ l ∈ line, Spares max l h h' s) (he : CommandEffect max h h' s s' line) :
    Selected max s' := by
  cases line with
  | none => exact hs.edited he
  | some line =>
    obtain ⟨s₁, s₂, hs₁, heffect, -, hs₂⟩ := he
    exact ((hs.edited hs₁).line ((hsp line rfl).edited hs₁) heffect).edited hs₂

theorem Selected.slot {i : ℕ} (hs : Selected max s) (hi : i < max) (he : SlotEffect max i s s') :
    Selected max s' := by
  cases he with
  | heard hh => exact hs.same hh.same hh.activeId (.inl hh.attachedId)
  | failed hh => exact hs.same ⟨hh.same.kept, hh.same.nextId⟩ hh.activeId (.inl hh.attachedId)
  | failedHttp hh =>
    rw [MultiState.unattach]
    split_ifs
    · exact hs.same ⟨hh.same.kept, hh.same.nextId⟩ hh.activeId (.inr rfl)
    · exact hs.same ⟨hh.same.kept, hh.same.nextId⟩ hh.activeId (.inl hh.attachedId)
  | left hh hlive =>
    refine (hs.same hh.same hh.activeId (.inl hh.attachedId)).left hi ?_
    rw [hh.same.live, hlive]

end

variable {cfg : Config} {interactive : Bool} {listener : Fd}

/-- **A careful step keeps the selection right.** -/
theorem MultiStep.selected {x y : MultiPoint} (hstep : MultiStep cfg interactive listener x y)
    (hc : Careful cfg.brokerMaxClients.toNat x y) (hx : Selected cfg.brokerMaxClients.toNat x.state) :
    Selected cfg.brokerMaxClients.toNat y.state := by
  cases hstep with
  | idle hr =>
    obtain rfl := runs_multiWait hr
    exact hx
  | accept hw hr =>
    rcases runs_multiGreet hr with rfl | ⟨i, peer, hi, hfree, rfl⟩
    · exact hx
    · exact hx.join hi hfree hc
  | quiet => exact hx
  | @vanished s s' h h' polled hm hr =>
    have hslots : Slots cfg.brokerMaxClients.toNat { s with attachedId := 0 } :=
      ⟨hx.free, hx.numbered⟩
    rw [runs_multiVanished hr]
    exact hslots.first (.inl rfl)
  | read hm hr => exact hx
  | @typed s s' h h' mode c rest polled hr =>
    cases mode with
    | lines => exact hx.command hc (runs_multiLineByte hr)
    | editor => exact hx.command hc (runs_multiEditorByte hr)
    | attached i =>
      have he := (within_multiAttachedByte c s).result hr
      refine hx.same he.same he.activeId ?_
      rw [he.attachedId]
      split_ifs
      · exact .inr rfl
      · exact .inl rfl
  | typedAll => exact hx
  | slot hi hr => exact hx.slot hi (within_multiSlot.result hr)
  | broken hi hr => exact hx.slot hi (within_multiSlot.result hr)
  | served => exact hx

variable (cfg interactive listener) in
/-- Careful steps of the listener. -/
def CarefulSteps : MultiPoint → MultiPoint → Prop :=
  Relation.ReflTransGen fun x y =>
    MultiStep cfg interactive listener x y ∧ Careful cfg.brokerMaxClients.toNat x y

/-- **In a run of careful steps**, the loop head that is reached has a right selection. -/
theorem selection_of_careful {s : MultiState} {h h₁ : Hist}
    (hr : CarefulSteps cfg interactive listener (multiStart h₁) ⟨s, h, .head⟩) :
    Reaches Legal (multiRound cfg interactive listener) multiInit h₁ s h ∧
      Selection cfg.brokerMaxClients.toNat s := by
  refine ⟨reaches_iff_steps.mpr (Relation.ReflTransGen.mono (fun _ _ hs => hs.1) _ _ hr), ?_⟩
  suffices hgen : ∀ x, CarefulSteps cfg interactive listener (multiStart h₁) x →
      Selected cfg.brokerMaxClients.toNat x.state from (hgen _ hr).toSelection
  intro x hx
  induction hx with
  | refl => exact selected_multiInit _
  | tail _ hstep ih => exact hstep.1.selected hstep.2 ih

/-- The listener after `n` rounds in which a peer joins, and then the operator types `text`. -/
def typingRounds (text : Bytes) (n : ℕ) : Option (MultiState × Hist) :=
  execRounds (lawful (peersScript 1 text)) (multiRound oneSession false (.sock .tcp 3)) 1000 n
    multiInit []

/-- A test of a step: what it says can be seen from the two points. -/
def tactful (max : ℕ) (x y : MultiPoint) : Bool :=
  match x.phase, y.phase with
  | .head, .accepted _ _ => x.state.nextId ≠ 0
  | .typing mode (c :: _) _, _ =>
      y.hist.all (fun ev => match ev.1 with
        | .write _ fd _ => !refuses fd ev
        | _ => true) &&
      (completed mode c x.state).all fun line =>
        x.state.attachedId = 0 || killed max line x.state ≠ some x.state.attachedId
  | _, _ => true

/-- Where no write is refused, only an order to close the attached session is careless. -/
theorem careful_of_tactful {max : ℕ} {x y : MultiPoint} (ht : tactful max x y = true) :
    Careful max x y := by
  obtain ⟨s, h, phase⟩ := x
  obtain ⟨s', h', phase'⟩ := y
  rcases phase with _ | _ | ⟨mode, _ | ⟨c, rest⟩, polled⟩ | _
  case head =>
    cases phase' with
    | accepted =>
      show s.nextId ≠ 0
      simpa [tactful] using ht
    | _ => trivial
  case typing.cons =>
    obtain ⟨hall, hlines⟩ := Bool.and_eq_true_iff.mp ht
    have hun : ∀ fd, ¬Refused fd h h' := by
      rintro fd ⟨⟨e, r⟩, hev, href⟩
      obtain ⟨g, -, hsuf⟩ := hev
      have hpass := List.all_eq_true.mp hall _ (hsuf.subset List.mem_cons_self)
      cases e with
      | write via fd' buf =>
        have hfd : fd' = fd := by
          rcases r with ⟨_ | n, hn⟩ | err
          · exact of_decide_eq_true href
          · cases href
          · exact of_decide_eq_true (Bool.and_eq_true_iff.mp href).1
        subst hfd
        have hpass' : (!refuses fd' ⟨.write via fd' buf, r⟩) = true := hpass
        rw [href] at hpass'
        cases hpass'
      | _ => cases href
    intro line hline
    refine ⟨fun hatt => ⟨fun hkill => ?_, fun _ _ _ _ => hun _⟩, fun _ _ _ _ _ => hun _⟩
    have hpass := (Option.all_eq_true _ _).mp hlines line hline
    simp [hatt, hkill] at hpass
  all_goals trivial

/-- Two peers have joined; the operator attaches the one and, in the same breath, has the other
killed. -/
theorem selection_of_careful_killed : ∃ s h,
    Reaches Legal (multiRound twoSessions false (.sock .tcp 3)) multiInit [] s h ∧
      (s.attachedId = 1 ∧ (s.sessions 0).live = true ∧ (s.sessions 1).live = false ∧ s.nextId = 3) ∧
      Selection twoSessions.brokerMaxClients.toNat s := by
  have hx : (twoPeers (tactful 2) (lit ":attach 1\n:kill 2\n") 34).any (fun x =>
      (match x.phase with | .head => true | _ => false) && decide (x.state.attachedId = 1 ∧
        (x.state.sessions 0).live = true ∧ (x.state.sessions 1).live = false ∧
        x.state.nextId = 3)) = true := by
    decide +kernel
  obtain ⟨⟨s, h, phase⟩, hx, hs⟩ := (Option.any_eq_true _ _).mp hx
  obtain ⟨hhead, hs⟩ := Bool.and_eq_true_iff.mp hs
  have hsteps := MultiPoint.advancesIf_steps (R := fun x y =>
    MultiStep twoSessions false (.sock .tcp 3) x y ∧ Careful twoSessions.brokerMaxClients.toNat x y)
    (legal_lawful _) (fun _ _ hstep hok => ⟨hstep, careful_of_tactful hok⟩) hx
  cases phase with
  | head =>
    obtain ⟨hreach, hsel⟩ := selection_of_careful hsteps
    exact ⟨s, h, hreach, of_decide_eq_true hs, hsel⟩
  | _ => cases hhead

/-- **The attached session is closed by a command** that was read together with the one that
attached it. -/
theorem not_selection : ∃ s h,
    Reaches Legal (multiRound oneSession false (.sock .tcp 3)) multiInit [] s h ∧
      ¬Selection oneSession.brokerMaxClients.toNat s := by
  have hx : (typingRounds (lit ":attach 1\n:kill 1\n") 2).any (fun r =>
      r.1.attachedId = 1 ∧ (r.1.sessions 0).live = false) = true := by
    decide +kernel
  obtain ⟨⟨s, h⟩, hx, hs⟩ := (Option.any_eq_true _ _).mp hx
  obtain ⟨hatt, hfree⟩ := of_decide_eq_true hs
  refine ⟨s, h, execRounds_reaches (legal_lawful _) hx, fun hsel => ?_⟩
  rcases hsel.attached with h0 | ⟨i, hi, hlive, -⟩
  · exact absurd (hatt.symm.trans h0) (by decide)
  · obtain rfl : i = 0 := Nat.lt_one_iff.mp hi
    rw [hfree] at hlive
    exact absurd hlive (by simp)

end Wirecat
