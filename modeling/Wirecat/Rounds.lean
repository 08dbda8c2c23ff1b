import Wirecat.Keystrokes

/-!
# A round of the listener, step by step

A round of `Wirecat.multiRound` does many things, and between any two of them the
variables of the listener are in a state of their own: the operator's bytes are handled
one after the other, and the slots are served one after the other. What is to be shown
of *every* state is shown here of the states between these steps.

`Wirecat.MultiStep` is the listener as a machine. A point (`Wirecat.MultiPoint`) is a
state with the history that led to it and the place in the round; a step accepts, reads
what the operator typed, handles **one byte** of it, or serves **one slot**. The three
handlers of standard input are of one kind for the machine: each of them folds its
function for a byte (`Wirecat.multiTyped`) over what was read
(`Wirecat.runs_multiStdin`).

The machine does what the listener does: `Wirecat.reaches_iff_steps`.
-/

namespace Wirecat

open CString Interaction

/-! ### The parts of a round -/

/-- The beginning of a round: what `poll` reports, or how the round ends without it. -/
def multiWait (cfg : Config) (listener : Fd) (s : MultiState) :
    Proc (List Revents ⊕ (MultiState ⊕ MultiState)) := do
  if ← sys .stop then pure (.inr (.inr s))
  else
    match ← sys (.poll (multiPollFds listener cfg.brokerMaxClients.toNat s)
        (if 0 ≤ cfg.timeoutMs then cfg.timeoutMs else 250)) with
    | .error .eintr => pure (.inr (.inl s))
    | .error _ => do
        sys (.logErrno "multi_poll" (lit "multi poll failed"))
        pure (.inr (.inr { s with result := 1 }))
    | .timeout => pure (.inr (.inl s))
    | .ready revents _ _ _ => pure (.inl revents)

/-- Accepting, when `poll` reported a connection. -/
def multiGreet (cfg : Config) (listener : Fd) (revents : List Revents) (s : MultiState) :
    Proc MultiState :=
  if (revents.headD .none).pollin then multiAccept cfg listener cfg.brokerMaxClients.toNat s
  else pure s

/-- What `poll` reported for the sessions. -/
def multiPolled (cfg : Config) (listener : Fd) (s : MultiState) (revents : List Revents) :
    List (PollFd × Revents) :=
  ((multiPollFds listener cfg.brokerMaxClients.toNat s).zip revents).drop 2

/-- What follows the wait. -/
def multiServe (cfg : Config) (interactive : Bool) (listener : Fd) (s : MultiState)
    (revents : List Revents) : Proc (MultiState ⊕ MultiState) := do
  let max := cfg.brokerMaxClients.toNat
  let s' ← multiGreet cfg listener revents s
  let s' ← (if (revents.getD 1 .none).pollin then multiStdin interactive max s' else pure s')
  match ← multiSlots cfg interactive max (multiPolled cfg listener s revents) s' with
  | .ok s | .error s => pure (.inl s)

theorem multiRound_eq (cfg : Config) (interactive : Bool) (listener : Fd) (s : MultiState) :
    multiRound cfg interactive listener s = multiWait cfg listener s >>= fun r => match r with
      | .inr r => pure r
      | .inl revents => multiServe cfg interactive listener s revents := by
  rw [multiRound, multiWait, bind_assoc]
  refine congrArg (Prog.call Sys.stop) (funext fun stop => ?_)
  cases stop with
  | true => rfl
  | false =>
    refine congrArg (Prog.call _) (funext fun r => ?_)
    rcases r with ⟨_ | _⟩ | _ | ⟨revents, len, event, ignored⟩ <;> rfl

/-! ### The machine -/

/-- Where in a round the listener is. -/
inductive MultiPhase
  /-- At the head of the loop. -/
  | head
  /-- Connections were accepted; `ready` says whether there is input of the operator. -/
  | accepted (ready : Bool) (polled : List (PollFd × Revents))
  /-- The operator typed `rest`, which is still to be handled. -/
  | typing (mode : TypingMode) (rest : Bytes) (polled : List (PollFd × Revents))
  /-- Slot `i` is to be served next. -/
  | serving (i : ℕ) (polled : List (PollFd × Revents))

/-- The listener between two steps. -/
structure MultiPoint where
  state : MultiState
  hist : Hist
  phase : MultiPhase

section
variable (cfg : Config) (interactive : Bool) (listener : Fd)

/-- **A step of the listener.** -/
inductive MultiStep : MultiPoint → MultiPoint → Prop
  /-- A round in which nothing happened. -/
  | idle {s s' : MultiState} {h h' : Hist}
      (hr : Runs Legal (multiWait cfg listener s) h h' (some (.inr (.inl s')))) :
      MultiStep ⟨s, h, .head⟩ ⟨s', h', .head⟩
  /-- Something happened; connections are accepted. -/
  | accept {s s' : MultiState} {h h₁ h' : Hist} {revents : List Revents}
      (hw : Runs Legal (multiWait cfg listener s) h h₁ (some (.inl revents)))
      (hr : Runs Legal (multiGreet cfg listener revents s) h₁ h' (some s')) :
      MultiStep ⟨s, h, .head⟩
        ⟨s', h', .accepted (revents.getD 1 .none).pollin (multiPolled cfg listener s revents)⟩
  /-- The operator typed nothing. -/
  | quiet {s : MultiState} {h : Hist} {polled : List (PollFd × Revents)} :
      MultiStep ⟨s, h, .accepted false polled⟩ ⟨s, h, .serving 0 polled⟩
  /-- The attached session is gone. -/
  | vanished {s s' : MultiState} {h h' : Hist} {polled : List (PollFd × Revents)}
      (hm : typingMode interactive cfg.brokerMaxClients.toNat s = none)
      (hr : Runs Legal (multiVanished cfg.brokerMaxClients.toNat s) h h' (some s')) :
      MultiStep ⟨s, h, .accepted true polled⟩ ⟨s', h', .serving 0 polled⟩
  /-- What the operator typed is read. -/
  | read {s : MultiState} {h h' : Hist} {mode : TypingMode} {bytes : Bytes}
      {polled : List (PollFd × Revents)}
      (hm : typingMode interactive cfg.brokerMaxClients.toNat s = some mode)
      (hr : Runs Legal (multiReadFor mode s) h h' (some bytes)) :
      MultiStep ⟨s, h, .accepted true polled⟩ ⟨s, h', .typing mode bytes polled⟩
  /-- One byte of it is handled. -/
  | typed {s s' : MultiState} {h h' : Hist} {mode : TypingMode} {c : UInt8} {rest : Bytes}
      {polled : List (PollFd × Revents)}
      (hr : Runs Legal (multiTyped cfg.brokerMaxClients.toNat mode c s) h h' (some s')) :
      MultiStep ⟨s, h, .typing mode (c :: rest) polled⟩ ⟨s', h', .typing mode rest polled⟩
  /-- All of it is handled. -/
  | typedAll {s : MultiState} {h : Hist} {mode : TypingMode} {polled : List (PollFd × Revents)} :
      MultiStep ⟨s, h, .typing mode [] polled⟩ ⟨s, h, .serving 0 polled⟩
  /-- A slot is served. -/
  | slot {s s' : MultiState} {h h' : Hist} {i : ℕ} {polled : List (PollFd × Revents)}
      (hi : i < cfg.brokerMaxClients.toNat)
      (hr : Runs Legal (multiSlot cfg interactive cfg.brokerMaxClients.toNat polled i s) h h'
        (some (.ok s'))) :
      MultiStep ⟨s, h, .serving i polled⟩ ⟨s', h', .serving (i + 1) polled⟩
  /-- What a session sent could not be printed. -/
  | broken {s s' : MultiState} {h h' : Hist} {i : ℕ} {polled : List (PollFd × Revents)}
      (hi : i < cfg.brokerMaxClients.toNat)
      (hr : Runs Legal (multiSlot cfg interactive cfg.brokerMaxClients.toNat polled i s) h h'
        (some (.error s'))) :
      MultiStep ⟨s, h, .serving i polled⟩ ⟨s', h', .head⟩
  /-- All slots are served. -/
  | served {s : MultiState} {h : Hist} {polled : List (PollFd × Revents)} :
      MultiStep ⟨s, h, .serving cfg.brokerMaxClients.toNat polled⟩ ⟨s, h, .head⟩

end

/-- The point before the first round. -/
def multiStart (h : Hist) : MultiPoint := ⟨multiInit, h, .head⟩

variable {cfg : Config} {interactive : Bool} {listener : Fd}

/-- A run of the machine only ever adds events. -/
theorem MultiStep.suffix {x y : MultiPoint} (hs : MultiStep cfg interactive listener x y) :
    x.hist <:+ y.hist := by
  cases hs with
  | idle hr => exact hr.suffix
  | accept hw hr => exact hw.suffix.trans hr.suffix
  | quiet => exact List.suffix_refl _
  | vanished hm hr => exact hr.suffix
  | read hm hr => exact hr.suffix
  | typed hr => exact hr.suffix
  | typedAll => exact List.suffix_refl _
  | slot hi hr => exact hr.suffix
  | broken hi hr => exact hr.suffix
  | served => exact List.suffix_refl _

/-! ### What is collected of a line -/

theorem input_unattach (s : MultiState) (id : ℕ) : (s.unattach id).input = s.input := by
  rw [MultiState.unattach]
  split_ifs <;> rfl

theorem input_left (s : MultiState) (max i : ℕ) : (s.left max i).input = s.input := by
  rw [MultiState.left, MultiState.repairGone]
  split_ifs <;> exact input_unattach s _

theorem SlotEffect.input {max i : ℕ} {s s' : MultiState} (hs : SlotEffect max i s s') :
    s'.input = s.input := by
  cases hs with
  | heard hs => exact hs.input
  | failed hs => exact hs.input
  | failedHttp hs => exact (input_unattach _ _).trans hs.input
  | left hs hlive => exact (input_left _ _ _).trans hs.input

theorem runs_multiWait {s s' : MultiState} {h h' : Hist}
    (hr : Runs Legal (multiWait cfg listener s) h h' (some (.inr (.inl s')))) : s' = s := by
  suffices hw : Within (fun _ => True) (multiWait cfg listener s)
      (fun r => ∀ s', r = .inr (.inl s') → s' = s) from hw.result hr s' rfl
  refine Within.step trivial fun stop => Within.ite (fun _ => by simp) fun _ => ?_
  refine Within.step trivial fun r => ?_
  split
  · rintro _ ⟨⟩
    rfl
  · exact Within.step trivial fun _ => by simp
  · rintro _ ⟨⟩
    rfl
  · exact fun _ hs => absurd hs (by simp)

theorem runs_multiGreet {s s' : MultiState} {h h' : Hist} {revents : List Revents}
    (hr : Runs Legal (multiGreet cfg listener revents s) h h' (some s')) :
    s' = s ∨ ∃ i peer, i < cfg.brokerMaxClients.toNat ∧ (s.sessions i).fd = none ∧
      s' = s.join i peer := by
  rw [multiGreet] at hr
  split_ifs at hr
  · exact (within_multiAccept _ _ _ _).result hr
  · exact .inl (runs_pure.mp hr).2

theorem runs_multiVanished {max : ℕ} {s s' : MultiState} {h h' : Hist}
    (hr : Runs Legal (multiVanished max s) h h' (some s')) :
    s' = { s with attachedId := 0, activeId := multiFirstSessionId s max } := by
  suffices hw : Within (fun _ => True) (multiVanished max s)
      (fun s' => s' = { s with attachedId := 0, activeId := multiFirstSessionId s max }) from
    hw.result hr
  exact ⟨trivial, fun _ => ⟨trivial, fun _ => rfl⟩⟩

/-- What is kept of a line between two steps. -/
def Collected (interactive : Bool) (x : MultiPoint) : Prop :=
  interactive = false → Collecting x.state ∧
    ∀ mode rest polled, x.phase = .typing mode rest polled → mode ≠ .editor

theorem Collected.of_input {x y : MultiPoint} (hx : Collected interactive x)
    (hinput : y.state.input = x.state.input)
    (hphase : ∀ mode rest polled, y.phase = .typing mode rest polled →
      interactive = false → mode ≠ .editor) : Collected interactive y := by
  refine fun hi => ⟨?_, fun mode rest polled hy => hphase mode rest polled hy hi⟩
  rw [Collecting, hinput]
  exact (hx hi).1

theorem MultiStep.collected {x y : MultiPoint} (hs : MultiStep cfg interactive listener x y)
    (hx : Collected interactive x) : Collected interactive y := by
  cases hs with
  | idle hr => exact hx.of_input (by rw [runs_multiWait hr]) (by simp)
  | accept hw hr =>
    refine hx.of_input ?_ (by simp)
    rcases runs_multiGreet hr with rfl | ⟨i, peer, -, -, rfl⟩ <;> rfl
  | quiet => exact hx.of_input rfl (by simp)
  | vanished hm hr => exact hx.of_input (by rw [runs_multiVanished hr]) (by simp)
  | @read s h h' mode bytes polled hm hr =>
    refine hx.of_input rfl ?_
    rintro _ _ _ ⟨⟩ hi rfl
    rw [typingMode] at hm
    split_ifs at hm with hatt hedit
    · simp at hm
    · exact absurd (hi.symm.trans hedit) (by simp)
    · simp at hm
  | @typed s s' h h' mode c rest polled hr =>
    intro hi
    obtain ⟨hcollect, hmode⟩ := hx hi
    have hne := hmode _ _ _ rfl
    refine ⟨?_, by rintro _ _ _ ⟨⟩; exact hne⟩
    cases mode with
    | lines => exact hcollect.line hr
    | editor => exact absurd rfl hne
    | attached i =>
      have hinput := ((within_multiAttachedByte c s).result hr).input
      rw [Collecting, hinput]
      exact hcollect
  | typedAll => exact hx.of_input rfl (by simp)
  | slot hi hr => exact hx.of_input (within_multiSlot.result hr).input (by simp)
  | broken hi hr => exact hx.of_input (within_multiSlot.result hr).input (by simp)
  | served => exact hx.of_input rfl (by simp)

/-! ### The machine is the listener -/

variable (cfg interactive listener) in
/-- Any number of steps. -/
def MultiSteps : MultiPoint → MultiPoint → Prop :=
  Relation.ReflTransGen (MultiStep cfg interactive listener)

theorem MultiSteps.collected {x y : MultiPoint} (hs : MultiSteps cfg interactive listener x y)
    (hx : Collected interactive x) : Collected interactive y := by
  induction hs with
  | refl => exact hx
  | tail _ hstep ih => exact hstep.collected ih

theorem collected_multiStart (h : Hist) : Collected interactive (multiStart h) :=
  fun _ => ⟨⟨List.not_mem_nil, show 0 < multiInput by decide⟩, by simp [multiStart]⟩

/-- What was read is handled byte by byte. -/
theorem steps_forEach {mode : TypingMode} {bytes : Bytes} {polled : List (PollFd × Revents)}
    {s s' : MultiState} {h h' : Hist}
    (hr : Runs Legal (Prog.forEach bytes (multiTyped cfg.brokerMaxClients.toNat mode) s) h h'
      (some s')) :
    MultiSteps cfg interactive listener ⟨s, h, .typing mode bytes polled⟩ ⟨s', h', .serving 0 polled⟩ := by
  induction bytes generalizing s h with
  | nil =>
    obtain ⟨rfl, rfl⟩ := runs_ret.mp hr
    exact .single .typedAll
  | cons c rest ih =>
    obtain ⟨s₁, h₁, hbyte, hrest⟩ := runs_bind_some.mp hr
    exact .head (.typed hbyte) (ih hrest)

/-- The slots are served one by one. -/
theorem steps_multiSlots {R : MultiPoint → MultiPoint → Prop} {polled : List (PollFd × Revents)}
    {s : MultiState} {h h' : Hist} {r : Except MultiState MultiState}
    (hR : ∀ i x y, x.phase = .serving i polled → MultiStep cfg interactive listener x y → R x y)
    (hr : Runs Legal (multiSlots cfg interactive cfg.brokerMaxClients.toNat polled s) h h' (some r)) :
    Relation.ReflTransGen R ⟨s, h, .serving 0 polled⟩ ⟨slotState r, h', .head⟩ := by
  -- after `n` slots the loop is at slot `n`, or it was left
  have hgen : ∀ n ≤ cfg.brokerMaxClients.toNat, ∀ r h',
      Runs Legal (Prog.forRange n (fun i (r : Except MultiState MultiState) => match r with
        | .ok s => multiSlot cfg interactive cfg.brokerMaxClients.toNat polled i s
        | .error s => pure (.error s)) (.ok s)) h h' (some r) →
      match r with
      | .ok s' => Relation.ReflTransGen R ⟨s, h, .serving 0 polled⟩ ⟨s', h', .serving n polled⟩
      | .error s' => Relation.ReflTransGen R ⟨s, h, .serving 0 polled⟩ ⟨s', h', .head⟩ := by
    intro n
    induction n with
    | zero =>
      intro _ r h' hr
      obtain ⟨rfl, rfl⟩ := runs_ret.mp hr
      exact .refl
    | succ n ih =>
      intro hn r h' hr
      obtain ⟨r₁, h₁, hfst, hsnd⟩ := runs_bind_some.mp hr
      have hsteps := ih (by omega) r₁ h₁ hfst
      cases r₁ with
      | error s₁ =>
        obtain ⟨rfl, rfl⟩ := runs_pure.mp hsnd
        exact hsteps
      | ok s₁ =>
        cases r with
        | ok s' => exact hsteps.tail (hR n _ _ rfl (.slot (by omega) hsnd))
        | error s' => exact hsteps.tail (hR n _ _ rfl (.broken (by omega) hsnd))
  have hslots := hgen _ (le_refl _) r h' hr
  cases r with
  | ok s' => exact hslots.tail (hR _ _ _ rfl .served)
  | error s' => exact hslots

/-- A round, from the point where the sessions are served. -/
theorem steps_multiRound {s s' : MultiState} {h h' : Hist}
    (hs : Collected interactive ⟨s, h, .head⟩)
    (hr : Runs Legal (multiRound cfg interactive listener s) h h' (some (.inl s'))) :
    MultiSteps cfg interactive listener ⟨s, h, .head⟩ ⟨s', h', .head⟩ := by
  rw [multiRound_eq] at hr
  obtain ⟨r, h₁, hwait, hr⟩ := runs_bind_some'.mp hr
  cases r with
  | inr r =>
    obtain ⟨rfl, rfl⟩ := runs_pure.mp hr
    exact .single (.idle hwait)
  | inl revents =>
    obtain ⟨s₁, h₂, hgreet, hr⟩ := runs_bind_some'.mp hr
    obtain ⟨s₂, h₃, hstdin, hr⟩ := runs_bind_some'.mp hr
    obtain ⟨r, h₄, hslots, hret⟩ := runs_bind_some'.mp hr
    have haccept := @MultiStep.accept _ interactive _ _ _ _ _ _ _ hwait hgreet
    have hserve := steps_multiSlots (R := MultiStep cfg interactive listener) (fun _ _ _ _ hs => hs) hslots
    have hlast : slotState r = s' ∧ h₄ = h' := by
      cases r <;> (obtain ⟨rfl, hs'⟩ := runs_pure.mp hret; exact ⟨(Sum.inl.inj hs').symm, rfl⟩)
    rw [hlast.1, hlast.2] at hserve
    refine .head haccept (Relation.ReflTransGen.trans ?_ hserve)
    cases hready : (revents.getD 1 .none).pollin with
    | false =>
      rw [hready, if_neg (by simp)] at hstdin
      obtain ⟨rfl, rfl⟩ := runs_pure.mp hstdin
      exact .single .quiet
    | true =>
      rw [hready, if_pos rfl, runs_multiStdin fun hi => (haccept.collected hs hi).1] at hstdin
      cases hmode : typingMode interactive cfg.brokerMaxClients.toNat s₁ with
      | none =>
        rw [hmode] at hstdin
        exact .single (.vanished hmode hstdin)
      | some mode =>
        rw [hmode] at hstdin
        obtain ⟨bytes, h₅, hread, hbytes⟩ := hstdin
        exact .head (.read hmode hread) (steps_forEach hbytes)

variable (cfg interactive listener) in
/-- A round of the listener that began at a loop head has accepted, and is in the state `s`. -/
def Greeted (h₁ : Hist) (ready : Bool) (polled : List (PollFd × Revents)) (s : MultiState) (h : Hist) :
    Prop :=
  ∃ s₀ h₀ revents g, Reaches Legal (multiRound cfg interactive listener) multiInit h₁ s₀ h₀ ∧
    Runs Legal (multiWait cfg listener s₀) h₀ g (some (.inl revents)) ∧
    Runs Legal (multiGreet cfg listener revents s₀) g h (some s) ∧
    ready = (revents.getD 1 .none).pollin ∧ polled = multiPolled cfg listener s₀ revents

variable (cfg interactive listener) in
/-- The part of a round of the listener that a point of the machine stands for. -/
def Inside (h₁ : Hist) (x : MultiPoint) : Prop :=
  match x.phase with
  | .head => Reaches Legal (multiRound cfg interactive listener) multiInit h₁ x.state x.hist
  | .accepted ready polled => Greeted cfg interactive listener h₁ ready polled x.state x.hist
  | .typing mode rest polled => ∃ s₁ g₁ pre g₂,
      Greeted cfg interactive listener h₁ true polled s₁ g₁ ∧
      (interactive = false → Collecting s₁) ∧
      typingMode interactive cfg.brokerMaxClients.toNat s₁ = some mode ∧
      Runs Legal (multiReadFor mode s₁) g₁ g₂ (some (pre ++ rest)) ∧
      Runs Legal (Prog.forEach pre (multiTyped cfg.brokerMaxClients.toNat mode) s₁) g₂ x.hist
        (some x.state)
  | .serving i polled => ∃ ready s₁ g₁ s₂ g₂,
      Greeted cfg interactive listener h₁ ready polled s₁ g₁ ∧
      Runs Legal (if ready then multiStdin interactive cfg.brokerMaxClients.toNat s₁ else pure s₁)
        g₁ g₂ (some s₂) ∧
      Runs Legal (Prog.forRange i (fun i (r : Except MultiState MultiState) => match r with
        | .ok s => multiSlot cfg interactive cfg.brokerMaxClients.toNat polled i s
        | .error s => pure (.error s)) (.ok s₂)) g₂ x.hist (some (.ok x.state))

/-- A round that is over. -/
theorem Greeted.round {h₁ : Hist} {ready : Bool} {polled : List (PollFd × Revents)}
    {s₁ s₂ : MultiState} {g₁ g₂ h : Hist} {r : Except MultiState MultiState}
    (hg : Greeted cfg interactive listener h₁ ready polled s₁ g₁)
    (hstdin : Runs Legal (if ready then multiStdin interactive cfg.brokerMaxClients.toNat s₁
      else pure s₁) g₁ g₂ (some s₂))
    (hslots : Runs Legal (multiSlots cfg interactive cfg.brokerMaxClients.toNat polled s₂) g₂ h
      (some r)) :
    Reaches Legal (multiRound cfg interactive listener) multiInit h₁ (slotState r) h := by
  obtain ⟨s₀, h₀, revents, g, hreach, hwait, hgreet, rfl, rfl⟩ := hg
  refine hreach.step ?_
  rw [multiRound_eq]
  refine runs_bind_some'.mpr ⟨_, _, hwait, runs_bind_some'.mpr ⟨_, _, hgreet, ?_⟩⟩
  refine runs_bind_some'.mpr ⟨_, _, hstdin, runs_bind_some'.mpr ⟨_, _, hslots, ?_⟩⟩
  cases r <;> exact runs_pure.mpr ⟨rfl, rfl⟩

/-- An error leaves the loop over the slots, and the slots that are left are not served. -/
theorem runs_slots_error {n m : ℕ} {polled : List (PollFd × Revents)} {s : MultiState} {h h' : Hist}
    {r : Except MultiState MultiState} (hn : n ≤ m)
    (hr : Runs Legal (Prog.forRange n (fun i (r : Except MultiState MultiState) => match r with
        | .ok s => multiSlot cfg interactive cfg.brokerMaxClients.toNat polled i s
        | .error s => pure (.error s)) r) h h' (some (.error s))) :
    Runs Legal (Prog.forRange m (fun i (r : Except MultiState MultiState) => match r with
        | .ok s => multiSlot cfg interactive cfg.brokerMaxClients.toNat polled i s
        | .error s => pure (.error s)) r) h h' (some (.error s)) := by
  induction m, hn using Nat.le_induction with
  | base => exact hr
  | succ m _ ih => exact runs_bind_some.mpr ⟨_, _, ih, runs_pure.mpr ⟨rfl, rfl⟩⟩

theorem MultiStep.inside {h₁ : Hist} {x y : MultiPoint}
    (hstep : MultiStep cfg interactive listener x y) (hc : Collected interactive x)
    (hx : Inside cfg interactive listener h₁ x) : Inside cfg interactive listener h₁ y := by
  cases hstep with
  | idle hr =>
    refine Reaches.step hx ?_
    rw [multiRound_eq]
    exact runs_bind_some'.mpr ⟨_, _, hr, runs_pure.mpr ⟨rfl, rfl⟩⟩
  | accept hw hr => exact ⟨_, _, _, _, hx, hw, hr, rfl, rfl⟩
  | quiet => exact ⟨false, _, _, _, _, hx, runs_pure.mpr ⟨rfl, rfl⟩, runs_ret.mpr ⟨rfl, rfl⟩⟩
  | vanished hm hr =>
    refine ⟨true, _, _, _, _, hx, ?_, runs_ret.mpr ⟨rfl, rfl⟩⟩
    rw [if_pos rfl, runs_multiStdin fun hi => (hc hi).1, hm]
    exact hr
  | read hm hr =>
    exact ⟨_, _, [], _, hx, fun hi => (hc hi).1, hm, hr, runs_ret.mpr ⟨rfl, rfl⟩⟩
  | @typed s s' h h' mode c rest polled hr =>
    obtain ⟨s₁, g₁, pre, g₂, hg, hs₁, hm, hread, hpre⟩ := hx
    refine ⟨s₁, g₁, pre ++ [c], g₂, hg, hs₁, hm, by simpa using hread, ?_⟩
    rw [Prog.forEach_append]
    exact runs_bind_some.mpr ⟨_, _, hpre, runs_bind_some.mpr ⟨_, _, hr, runs_ret.mpr ⟨rfl, rfl⟩⟩⟩
  | typedAll =>
    obtain ⟨s₁, g₁, pre, g₂, hg, hs₁, hm, hread, hpre⟩ := hx
    refine ⟨true, s₁, g₁, _, _, hg, ?_, runs_ret.mpr ⟨rfl, rfl⟩⟩
    rw [if_pos rfl, runs_multiStdin hs₁, hm]
    exact ⟨pre, g₂, by simpa using hread, hpre⟩
  | slot hi hr =>
    obtain ⟨ready, s₁, g₁, s₂, g₂, hg, hstdin, hslots⟩ := hx
    exact ⟨ready, s₁, g₁, s₂, g₂, hg, hstdin, runs_bind_some.mpr ⟨_, _, hslots, hr⟩⟩
  | broken hi hr =>
    obtain ⟨ready, s₁, g₁, s₂, g₂, hg, hstdin, hslots⟩ := hx
    refine hg.round (r := .error _) hstdin (runs_slots_error (Nat.succ_le_of_lt hi) ?_)
    exact runs_bind_some.mpr ⟨_, _, hslots, hr⟩
  | served =>
    obtain ⟨ready, s₁, g₁, s₂, g₂, hg, hstdin, hslots⟩ := hx
    exact hg.round (r := .ok _) hstdin hslots

/-- **The machine comes to the loop heads of the listener**, and to no others. -/
theorem reaches_iff_steps {s : MultiState} {h h₁ : Hist} :
    Reaches Legal (multiRound cfg interactive listener) multiInit h₁ s h ↔
      MultiSteps cfg interactive listener (multiStart h₁) ⟨s, h, .head⟩ := by
  constructor
  · intro hr
    refine hr.invariant
      (I := fun s h => MultiSteps cfg interactive listener (multiStart h₁) ⟨s, h, .head⟩) .refl ?_
    intro s h s' h' hsteps hround
    exact Relation.ReflTransGen.trans hsteps
      (steps_multiRound (hsteps.collected (collected_multiStart h₁)) hround)
  · intro hsteps
    suffices hgen : ∀ x, MultiSteps cfg interactive listener (multiStart h₁) x →
        Inside cfg interactive listener h₁ x from hgen _ hsteps
    intro x hx
    induction hx with
    | refl => exact Reaches.start multiInit h₁
    | tail hxs hstep ih =>
      exact hstep.inside (MultiSteps.collected hxs (collected_multiStart h₁)) ih

/-! ### The machine, evaluated -/

variable (cfg interactive listener) in
/-- The next step of the listener against the environment `env`. -/
def MultiPoint.advance (env : Hist → (e : Sys) → Resp e) (fuel : ℕ) (x : MultiPoint) :
    Option MultiPoint :=
  let max := cfg.brokerMaxClients.toNat
  match x.phase with
  | .head =>
      match exec env fuel (multiWait cfg listener x.state) x.hist with
      | (h, some (.inl revents)) =>
          match exec env fuel (multiGreet cfg listener revents x.state) h with
          | (h', some s) => some ⟨s, h', .accepted (revents.getD 1 .none).pollin
              (multiPolled cfg listener x.state revents)⟩
          | _ => none
      | (h, some (.inr (.inl s))) => some ⟨s, h, .head⟩
      | _ => none
  | .accepted false polled => some ⟨x.state, x.hist, .serving 0 polled⟩
  | .accepted true polled =>
      match typingMode interactive max x.state with
      | none =>
          match exec env fuel (multiVanished max x.state) x.hist with
          | (h, some s) => some ⟨s, h, .serving 0 polled⟩
          | _ => none
      | some mode =>
          match exec env fuel (multiReadFor mode x.state) x.hist with
          | (h, some bytes) => some ⟨x.state, h, .typing mode bytes polled⟩
          | _ => none
  | .typing _ [] polled => some ⟨x.state, x.hist, .serving 0 polled⟩
  | .typing mode (c :: rest) polled =>
      match exec env fuel (multiTyped max mode c x.state) x.hist with
      | (h, some s) => some ⟨s, h, .typing mode rest polled⟩
      | _ => none
  | .serving i polled =>
      if i < max then
        match exec env fuel (multiSlot cfg interactive max polled i x.state) x.hist with
        | (h, some (.ok s)) => some ⟨s, h, .serving (i + 1) polled⟩
        | (h, some (.error s)) => some ⟨s, h, .head⟩
        | _ => none
      else if i = max then some ⟨x.state, x.hist, .head⟩
      else none

/-- An evaluated step is a step. -/
theorem MultiPoint.advance_step {env : Hist → (e : Sys) → Resp e}
    (henv : ∀ h e, Legal h e (env h e)) {fuel : ℕ} {x y : MultiPoint}
    (hx : x.advance cfg interactive listener env fuel = some y) :
    MultiStep cfg interactive listener x y := by
  have hexec : ∀ {α : Type} {p : Proc α} {h h' : Hist} {a : α},
      exec env fuel p h = (h', some a) → Runs Legal p h h' (some a) := by
    intro α p h h' a heq
    have hr := exec_runs henv fuel p h
    rwa [heq] at hr
  obtain ⟨s, h, phase⟩ := x
  rw [MultiPoint.advance] at hx
  dsimp only at hx
  split at hx
  · split at hx
    · rename_i hwait
      split at hx
      · rename_i hgreet
        obtain rfl := Option.some.inj hx
        exact .accept (hexec hwait) (hexec hgreet)
      · cases hx
    · rename_i hwait
      obtain rfl := Option.some.inj hx
      exact .idle (hexec hwait)
    · cases hx
  · obtain rfl := Option.some.inj hx
    exact .quiet
  · split at hx
    · rename_i hm
      split at hx
      · rename_i hr
        obtain rfl := Option.some.inj hx
        exact .vanished hm (hexec hr)
      · cases hx
    · rename_i hm
      split at hx
      · rename_i hr
        obtain rfl := Option.some.inj hx
        exact .read hm (hexec hr)
      · cases hx
  · obtain rfl := Option.some.inj hx
    exact .typedAll
  · split at hx
    · rename_i hr
      obtain rfl := Option.some.inj hx
      exact .typed (hexec hr)
    · cases hx
  · split_ifs at hx with hi hend
    · split at hx
      · rename_i hr
        obtain rfl := Option.some.inj hx
        exact .slot hi (hexec hr)
      · rename_i hr
        obtain rfl := Option.some.inj hx
        exact .broken hi (hexec hr)
      · cases hx
    · obtain rfl := Option.some.inj hx
      rw [hend]
      exact .served

variable (cfg interactive listener) in
/-- The listener after `n` steps against `env`. -/
def MultiPoint.advances (env : Hist → (e : Sys) → Resp e) (fuel : ℕ) : ℕ → MultiPoint →
    Option MultiPoint
  | 0, x => some x
  | n + 1, x => (x.advance cfg interactive listener env fuel).bind (advances env fuel n)

theorem MultiPoint.advances_steps {env : Hist → (e : Sys) → Resp e}
    (henv : ∀ h e, Legal h e (env h e)) {fuel n : ℕ} {x y : MultiPoint}
    (hx : x.advances cfg interactive listener env fuel n = some y) :
    MultiSteps cfg interactive listener x y := by
  induction n generalizing x with
  | zero =>
    obtain rfl := Option.some.inj hx
    exact .refl
  | succ n ih =>
    obtain ⟨x₁, hfst, hrest⟩ := Option.bind_eq_some_iff.mp hx
    exact .head (MultiPoint.advance_step henv hfst) (ih hrest)

variable (cfg interactive listener) in
/-- The listener after `n` steps against `env` that all pass the test `ok`. -/
def MultiPoint.advancesIf (ok : MultiPoint → MultiPoint → Bool) (env : Hist → (e : Sys) → Resp e)
    (fuel : ℕ) : ℕ → MultiPoint → Option MultiPoint
  | 0, x => some x
  | n + 1, x => (x.advance cfg interactive listener env fuel).bind fun y =>
      if ok x y = true then advancesIf ok env fuel n y else none

/-- Its steps have the property that the test is for. -/
theorem MultiPoint.advancesIf_steps {R : MultiPoint → MultiPoint → Prop}
    {ok : MultiPoint → MultiPoint → Bool} {env : Hist → (e : Sys) → Resp e}
    (henv : ∀ h e, Legal h e (env h e))
    (hR : ∀ x y, MultiStep cfg interactive listener x y → ok x y = true → R x y) {fuel n : ℕ}
    {x y : MultiPoint} (hx : x.advancesIf cfg interactive listener ok env fuel n = some y) :
    Relation.ReflTransGen R x y := by
  induction n generalizing x with
  | zero =>
    obtain rfl := Option.some.inj hx
    exact .refl
  | succ n ih =>
    obtain ⟨x₁, hfst, hrest⟩ := Option.bind_eq_some_iff.mp hx
    split_ifs at hrest with hok
    exact .head (hR x x₁ (MultiPoint.advance_step henv hfst) hok) (ih hrest)

/-- A listener for one session. -/
def oneSession : Config := { brokerMaxClients := 1 }

/-- A listener for two sessions. -/
def twoSessions : Config := { brokerMaxClients := 2 }

/-! ### Steps in which no byte is handled -/

/-- No byte is about to be handled. -/
def MultiPoint.idle (x : MultiPoint) : Prop :=
  ∀ mode c rest polled, x.phase ≠ .typing mode (c :: rest) polled

theorem within_multiWait (s : MultiState) :
    Within Prints (multiWait cfg listener s) fun _ => True := by
  refine Within.step trivial fun stop => Within.ite (fun _ => trivial) fun _ => ?_
  refine Within.step trivial fun r => ?_
  rcases r with err | _ | _
  · cases err <;> first | trivial | exact ⟨trivial, fun _ => trivial⟩
  · trivial
  · trivial

theorem within_multiReadFor (mode : TypingMode) (s : MultiState) :
    Within Prints (multiReadFor mode s) fun _ => True := by
  have hread : ∀ cap off, Within Prints (multiReadStdin cap off) fun _ => True := by
    intro cap off
    refine Within.loop (fun _ => True) trivial fun _ _ => Within.step trivial fun r => ?_
    rcases r with ⟨chunk, hne, hle⟩ | _ | err
    · trivial
    · trivial
    · cases err <;> trivial
  cases mode <;> exact hread _ _

/-- **A step in which no byte is handled** writes to the terminal only. -/
theorem MultiStep.prints {x y : MultiPoint} {ev : Ev} (hstep : MultiStep cfg interactive listener x y)
    (hx : x.idle) (hev : Happens x.hist y.hist ev) : Prints ev.1 := by
  have hnone : ∀ h : Hist, ¬Happens h h ev := fun h hev => by
    have hmem : ev ∈ ([] : Hist) := happens_append.mp (by simpa using hev)
    exact List.not_mem_nil hmem
  cases hstep with
  | idle hr => exact happens_within (within_multiWait _) hr hev
  | accept hw hr =>
    rcases hev.split hw.suffix hr.suffix with hev | hev
    · exact happens_within (within_multiWait _) hw hev
    · refine happens_within (F := Prints) (Q := fun _ => True) ?_ hr hev
      exact Within.ite (fun _ => (within_multiAccept _ _ _ _).footprint) fun _ => trivial
  | quiet => exact absurd hev (hnone _)
  | @vanished s s' h h' polled hm hr =>
    have hw : Within Prints (multiVanished cfg.brokerMaxClients.toNat s) fun _ => True := by
      rw [multiVanished]
      exact Within.step trivial fun _ => Within.step trivial fun _ => trivial
    exact happens_within hw hr hev
  | read hm hr => exact happens_within (within_multiReadFor _ _) hr hev
  | @typed s s' h h' mode c rest polled hr => exact absurd rfl (hx mode c rest polled)
  | typedAll => exact absurd hev (hnone _)
  | slot hi hr => exact happens_within within_multiSlot hr hev
  | broken hi hr => exact happens_within within_multiSlot hr hev
  | served => exact absurd hev (hnone _)

/-- What is awaited becomes shorter, and the line is as it was. -/
structure Quieter (s s' : MultiState) : Prop where
  line : s'.attachedLine = s.attachedLine
  held : s'.attachedLineHeld = s.attachedLineHeld
  echo : s'.echoPending <:+ s.echoPending

theorem Quieter.refl (s : MultiState) : Quieter s s := ⟨rfl, rfl, List.suffix_refl _⟩

theorem SlotEffect.quieter {max i : ℕ} {s s' : MultiState} (hs : SlotEffect max i s s') :
    Quieter s s' := by
  have hheard : ∀ {s₁}, Heard i s s₁ → Quieter s s₁ := fun h =>
    ⟨h.line, h.held, h.echo.elim (fun heq => heq ▸ List.suffix_refl _) And.right⟩
  have hun : ∀ {s₁} id, Quieter s s₁ → Quieter s (s₁.unattach id) := by
    intro s₁ id h
    rw [MultiState.unattach]
    split_ifs
    · exact ⟨h.line, h.held, h.echo⟩
    · exact h
  cases hs with
  | heard hs => exact hheard hs
  | failed hs => exact ⟨(hheard hs).line, (hheard hs).held, (hheard hs).echo⟩
  | failedHttp hs =>
    have h := hun (s.sessions i).id (hheard hs)
    exact ⟨h.line, h.held, h.echo⟩
  | @left s₁ hs hlive =>
    have h := hun (s₁.sessions i).id (hheard hs)
    rw [MultiState.left, MultiState.repairGone]
    split_ifs <;> exact ⟨h.line, h.held, h.echo⟩

/-- A step in which no byte is handled leaves the line alone. -/
theorem MultiStep.quieter {x y : MultiPoint} (hstep : MultiStep cfg interactive listener x y)
    (hx : x.idle) : Quieter x.state y.state := by
  cases hstep with
  | idle hr =>
    obtain rfl := runs_multiWait hr
    exact .refl _
  | accept hw hr =>
    rcases runs_multiGreet hr with rfl | ⟨i, peer, -, -, rfl⟩
    · exact .refl _
    · exact ⟨rfl, rfl, List.suffix_refl _⟩
  | quiet => exact .refl _
  | vanished hm hr =>
    rw [runs_multiVanished hr]
    exact ⟨rfl, rfl, List.suffix_refl _⟩
  | read hm hr => exact .refl _
  | @typed s s' h h' mode c rest polled hr => exact absurd rfl (hx mode c rest polled)
  | typedAll => exact .refl _
  | slot hi hr => exact (within_multiSlot.result hr).quieter
  | broken hi hr => exact (within_multiSlot.result hr).quieter
  | served => exact .refl _

/-- So many peers join, and then the operator types `text`. -/
def peersScript (peers : ℕ) (text : Bytes) (h : Hist) : (e : Sys) → Resp e
  | .stop => false
  | .poll fds _ => .reporting fds
      (if pollCount h < peers then { pollin := true } :: List.replicate (fds.length - 1) .none
      else .none :: { pollin := true } :: List.replicate (fds.length - 2) .none)
  | .accept _ => .ok (7 + pollCount h)
  | .read _ .stdin _ _ len =>
      if hb : text ≠ [] ∧ text.length ≤ len then .data text hb.1 hb.2 else .eof
  | .write _ _ buf => WriteRes.all buf
  | e => refuse e

/-- The listener after `n` steps of this with two peers, if they pass the test `ok`. -/
def twoPeers (ok : MultiPoint → MultiPoint → Bool) (text : Bytes) (n : ℕ) : Option MultiPoint :=
  (multiStart []).advancesIf twoSessions false (.sock .tcp 3) ok (lawful (peersScript 2 text)) 1000 n

end Wirecat
