import Wirecat.Typing
import Wirecat.Written

/-!
# What the parts of a round can do

The multi-session listener changes its table in many places, but there are few *kinds* of
change, and every invariant is about the kinds. A part of a round can

* keep the sessions where they are (`Wirecat.SameSessions`), with other counts, names and
  selections;
* drop a session, and choose another one in its place;
* let a peer join.

This file says for each part which of these it does, and when: `Wirecat.LineEffect` for a
line of the operator, `Wirecat.AcceptEffect` for a connection, `Wirecat.SlotEffect` for what
a session sent. Nothing after this file executes these functions again.
-/

namespace Wirecat

open CString Interaction

-- how long a label is does not matter here, and is not to be computed
attribute [local irreducible] outputPrefix

variable {legal : Hist → (e : Sys) → Resp e → Prop} {h h' : Hist}

/-! ### The same sessions -/

/-- The session is still the one it was; an empty slot is still empty. -/
def MultiSession.Kept (a b : MultiSession) : Prop := b.fd = a.fd ∧ b.id = a.id ∧ (a.fd = none → b = a)

/-- The same sessions are in the same slots. -/
structure SameSessions (s s' : MultiState) : Prop where
  kept : ∀ i, (s.sessions i).Kept (s'.sessions i)
  nextId : s'.nextId = s.nextId

theorem MultiSession.Kept.refl (a : MultiSession) : a.Kept a := ⟨rfl, rfl, fun _ => rfl⟩

theorem SameSessions.refl (s : MultiState) : SameSessions s s := ⟨fun _ => .refl _, rfl⟩

theorem SameSessions.trans {s₁ s₂ s₃ : MultiState} (h₁ : SameSessions s₁ s₂)
    (h₂ : SameSessions s₂ s₃) : SameSessions s₁ s₃ := by
  refine ⟨fun i => ?_, h₂.nextId.trans h₁.nextId⟩
  obtain ⟨hfd, hid, hnone⟩ := h₁.kept i
  obtain ⟨hfd', hid', hnone'⟩ := h₂.kept i
  refine ⟨hfd'.trans hfd, hid'.trans hid, fun h0 => ?_⟩
  rw [hnone' (hfd.trans h0), hnone h0]

theorem SameSessions.live {s s' : MultiState} (hs : SameSessions s s') (i : ℕ) :
    (s'.sessions i).live = (s.sessions i).live := by
  rw [MultiSession.live, MultiSession.live, (hs.kept i).1]

theorem SameSessions.findById {s s' : MultiState} (hs : SameSessions s s') (max id : ℕ) :
    multiFindById s' max id = multiFindById s max id := by
  refine congrArg ((List.range max).find? ·) (funext fun i => ?_)
  rw [hs.live, (hs.kept i).2.1]

/-- A session that is changed, but not its descriptor and its number. -/
theorem sameSessions_set {s : MultiState} {i : ℕ} {session : MultiSession}
    (hk : (s.sessions i).Kept session) : SameSessions s (s.set i session) := by
  refine ⟨fun j => ?_, rfl⟩
  by_cases hj : j = i
  · subst hj
    simpa [MultiState.set] using hk
  · simpa [MultiState.set, hj] using MultiSession.Kept.refl (s.sessions j)

/-! ### A line of the operator -/

/-- The command of a line that begins with a colon. -/
def commandOf (line : Bytes) : Option Bytes :=
  if line.head? = some (chr ':') then some (ofBuffer (multiLineTrim line)) else none

/-- The argument of `:kill`. -/
def killArg (command : Bytes) : Option Bytes :=
  if (lit ":kill ").isPrefixOf command then some (command.drop 6)
  else if (lit ":k ").isPrefixOf command then some (command.drop 3)
  else none

/-- The session a line is to close. -/
def killed (max : ℕ) (line : Bytes) (s : MultiState) : Option ℕ :=
  ((commandOf line).bind killArg).bind fun arg => (multiTarget s max arg).map fun t => t.2.1

/-- The argument of `:attach`. -/
def attachArg (command : Bytes) : Option (Option Bytes) :=
  if command = lit ":attach" then some none
  else if (lit ":attach ").isPrefixOf command then some (some (command.drop 8))
  else if (lit ":at ").isPrefixOf command then some (some (command.drop 4))
  else none

/-- The session a line is to attach. -/
def attachedBy (line : Bytes) (s : MultiState) : Option ℕ :=
  ((commandOf line).bind attachArg).map fun arg => match arg with
    | none => s.activeId
    | some arg => ((multiParseIdArg arg).map Prod.fst).getD 0

/-- Whether a line is to be sent to all sessions. -/
def broadcasts (line : Bytes) : Bool :=
  (commandOf line).any fun command =>
    (lit ":all ").isPrefixOf command || (lit ":a ").isPrefixOf command

/-- The session in slot `i` was closed because a write to it was refused. -/
def Dropped (max i : ℕ) (h h' : Hist) (s s' : MultiState) : Prop :=
  i < max ∧ s'.sessions i = multiSessionInit ∧
    ∃ fd, (s.sessions i).fd = some fd ∧ Refused fd h h'

/-- **What a line can do.** -/
inductive LineEffect (max : ℕ) (line : Bytes) (h h' : Hist) (s : MultiState) : MultiState → Prop
  /-- The sessions are kept, and so is the choice between them. -/
  | same {s' : MultiState} (hs : SameSessions s s') (hactive : s'.activeId = s.activeId)
      (hattached : s'.attachedId = s.attachedId) : LineEffect max line h h' s s'
  /-- Another session becomes active. -/
  | select {id : ℕ} (h0 : id ≠ 0) (hlive : (multiFindById s max id).isSome) :
      LineEffect max line h h' s { s with activeId := id }
  /-- A session is attached. -/
  | attach {id : ℕ} (h0 : id ≠ 0) (hlive : (multiFindById s max id).isSome)
      (hline : attachedBy line s = some id) :
      LineEffect max line h h' s { s with activeId := id, attachedId := id }
  /-- No session is attached any more. -/
  | detach : LineEffect max line h h' s { s with attachedId := 0 }
  /-- A session is closed, as it was asked for or because a write to it was refused. -/
  | drop {s₁ : MultiState} {i id : ℕ} (hs : SameSessions s s₁) (hactive : s₁.activeId = s.activeId)
      (hattached : s₁.attachedId = s.attachedId) (hfind : multiFindById s max id = some i)
      (hwhy : killed max line s = some id ∨ ∃ fd, (s.sessions i).fd = some fd ∧ Refused fd h h') :
      LineEffect max line h h' s ((s₁.set i multiSessionInit).repairActive max id)
  /-- The active session was gone already. -/
  | lost (hgone : multiFindById s max s.activeId = none) :
      LineEffect max line h h' s { s with activeId := multiFirstSessionId s max }
  /-- A line for all: every session is kept, or dropped. -/
  | all {s' : MultiState} (hline : broadcasts line = true) (hnext : s'.nextId = s.nextId)
      (hslots : ∀ i, (s.sessions i).Kept (s'.sessions i) ∨ Dropped max i h h' s s')
      (hactive : s'.activeId = s.activeId) (hattached : s'.attachedId = s.attachedId) :
      LineEffect max line h h' s s'

theorem LineEffect.mono {max : ℕ} {line : Bytes} {h h' h₀ h₁ : Hist} {s s' : MultiState}
    (he : LineEffect max line h h' s s') (hs : h₀ <:+ h) (hs' : h' <:+ h₁) :
    LineEffect max line h₀ h₁ s s' := by
  cases he with
  | same hs hactive hattached => exact .same hs hactive hattached
  | select h0 hlive => exact .select h0 hlive
  | attach h0 hlive hline => exact .attach h0 hlive hline
  | detach => exact .detach
  | drop hsame hactive hattached hfind hwhy =>
    exact .drop hsame hactive hattached hfind
      (hwhy.imp_right fun ⟨fd, hfd, href⟩ => ⟨fd, hfd, href.mono hs hs'⟩)
  | lost hgone => exact .lost hgone
  | all hline hnext hslots hactive hattached =>
    refine .all hline hnext (fun i => (hslots i).imp_right ?_) hactive hattached
    exact fun ⟨hi, hinit, fd, hfd, href⟩ => ⟨hi, hinit, fd, hfd, href.mono hs hs'⟩

/-- A function that is used to carry out the line. -/
def Effective (legal : Hist → (e : Sys) → Resp e → Prop) (max : ℕ) (line : Bytes)
    (p : MultiState → Proc MultiState) : Prop :=
  ∀ s s' h h', Runs legal (p s) h h' (some s') → LineEffect max line h h' s s'

section
variable {max : ℕ} {line : Bytes}

/-- The effect of a function that writes nothing. -/
theorem Effective.quiet {p : MultiState → Proc MultiState}
    (hp : ∀ s, Within (fun _ => True) (p s) fun s' => ∀ h h', LineEffect max line h h' s s') :
    Effective legal max line p :=
  fun s _ h h' hr => (hp s).result hr h h'

theorem Effective.ite {c : Prop} [Decidable c] {p q : MultiState → Proc MultiState}
    (hp : c → Effective legal max line p) (hq : ¬c → Effective legal max line q) :
    Effective legal max line fun s => if c then p s else q s := by
  by_cases hc : c
  · simp only [if_pos hc]
    exact hp hc
  · simp only [if_neg hc]
    exact hq hc

theorem LineEffect.unchanged (s : MultiState) (h h' : Hist) : LineEffect max line h h' s s :=
  .same (.refl s) rfl rfl

/-- The end of most commands. -/
theorem Effective.prompt {p : MultiState → Proc MultiState} (hp : Effective legal max line p) :
    Effective legal max line fun s =>
      p s >>= fun s => multiPrintPrompt s.activeId >>= fun _ => pure s := by
  intro s s' h h' hr
  obtain ⟨s₁, h₁, hrun, htail⟩ := runs_bind_some'.mp hr
  obtain ⟨_, h₂, hask, hret⟩ := runs_bind_some'.mp htail
  obtain ⟨rfl, rfl⟩ := runs_pure.mp hret
  exact (hp s s' h h₁ hrun).mono (List.suffix_refl h) hask.suffix

theorem multiParseIdArg_pos {arg rest : Bytes} {id : ℕ} (h : multiParseIdArg arg = some (id, rest)) :
    id ≠ 0 := by
  simp only [multiParseIdArg] at h
  split_ifs at h with hdigit hzero
  obtain ⟨rfl, -⟩ := Prod.mk.inj (Option.some.inj h)
  exact fun h0 => hzero (.inl h0)

theorem multiFindById_eq_some {s : MultiState} {id i : ℕ} (h : multiFindById s max id = some i) :
    i < max ∧ (s.sessions i).live = true ∧ (s.sessions i).id = id := by
  have hp := List.find?_some h
  rw [Bool.and_eq_true, decide_eq_true_eq] at hp
  exact ⟨List.mem_range.mp (List.mem_of_find?_eq_some h), hp⟩

theorem multiFindById_fd {s : MultiState} {id i : ℕ} (h : multiFindById s max id = some i) :
    ∃ fd, (s.sessions i).fd = some fd :=
  Option.isSome_iff_exists.mp (multiFindById_eq_some h).2.1

theorem multiTarget_eq_some {s : MultiState} {arg rest : Bytes} {i id : ℕ}
    (h : multiTarget s max arg = some (i, id, rest)) :
    id ≠ 0 ∧ multiFindById s max id = some i := by
  obtain ⟨⟨id', rest'⟩, hparse, h⟩ := Option.bind_eq_some_iff.mp h
  obtain ⟨i', hfind, heq⟩ := Option.map_eq_some_iff.mp h
  simp only [Prod.mk.injEq] at heq
  obtain ⟨rfl, rfl, rfl⟩ := heq
  exact ⟨multiParseIdArg_pos hparse, hfind⟩

/-- What became of a line that was sent to the session in slot `i`. -/
theorem runs_multiSendLine {s : MultiState} {i : ℕ} {text : Bytes} {o : Option MultiState}
    (hr : Runs legal (multiSendLine s i text) h h' (some o)) :
    (o = none ∧ ((s.sessions i).fd = none ∨
      ∃ fd, (s.sessions i).fd = some fd ∧ Refused fd h h')) ∨
    ∃ session, o = some (s.set i session) ∧ (s.sessions i).Kept session := by
  rw [multiSendLine] at hr
  split at hr
  · rename_i hfd
    exact .inl ⟨(runs_pure.mp hr).2, .inl hfd⟩
  · rename_i fd hfd
    obtain ⟨n, h₁, hwrite, hret⟩ := runs_bind_some'.mp hr
    split_ifs at hret with hn
    · obtain ⟨rfl, rfl⟩ := runs_pure.mp hret
      exact .inl ⟨rfl, .inr ⟨fd, hfd, wcatFullWrite_refused hwrite hn⟩⟩
    · obtain ⟨rfl, rfl⟩ := runs_pure.mp hret
      exact .inr ⟨_, rfl, rfl, rfl, fun hnone => absurd (hfd.symm.trans hnone) (by simp)⟩

theorem effective_multiSetActiveSession (f : MultiState → ℕ) :
    Effective legal max line fun s => multiSetActiveSession max (f s) s := by
  refine Effective.quiet fun s => Within.ite (fun hlive => ?_) fun _ => ?_
  · exact ⟨trivial, fun _ => ⟨trivial, fun _ _ _ => .select hlive.1 hlive.2⟩⟩
  · exact ⟨trivial, fun _ => ⟨trivial, fun _ => .unchanged s⟩⟩

theorem effective_multiUse (arg : Bytes) : Effective legal max line (multiUse max arg) := by
  refine Effective.quiet fun s => ?_
  rw [multiUse]
  split
  · rename_i id rest hparse
    obtain ⟨hparse, hlive⟩ := Option.filter_eq_some_iff.mp hparse
    exact ⟨trivial, fun _ => ⟨trivial, fun _ _ _ => .select (multiParseIdArg_pos hparse) hlive⟩⟩
  · exact ⟨trivial, fun _ => ⟨trivial, fun _ => .unchanged s⟩⟩

theorem effective_multiAttach {arg : Option Bytes}
    (harg : ∀ s, attachedBy line s = some (match arg with
      | none => s.activeId
      | some arg => ((multiParseIdArg arg).map Prod.fst).getD 0)) :
    Effective legal max line (multiAttach max arg) := by
  refine Effective.quiet fun s => Within.ite (fun hlive => ?_) fun _ => ?_
  · exact ⟨trivial, fun _ _ _ => .attach hlive.1 hlive.2 (harg s)⟩
  · exact ⟨trivial, fun _ => ⟨trivial, fun _ => .unchanged s⟩⟩

theorem effective_multiInfo (arg : Option Bytes) :
    Effective legal max line (multiInfo max arg) := by
  refine Effective.quiet fun s => Within.next ?_ fun _ => ?_
  · refine Within.ite (fun _ => ?_) fun _ => ⟨trivial, fun _ => trivial⟩
    rw [multiPrintInfo]
    split <;> exact ⟨trivial, fun _ => trivial⟩
  · exact ⟨trivial, fun _ => .unchanged s⟩

theorem effective_multiRename (arg : Bytes) : Effective legal max line (multiRename max arg) := by
  refine Effective.prompt (Effective.quiet fun s => ?_)
  split
  · rename_i i id name htarget
    obtain ⟨htarget, -⟩ := Option.filter_eq_some_iff.mp htarget
    obtain ⟨-, hfind⟩ := multiTarget_eq_some htarget
    obtain ⟨fd, hfd⟩ := multiFindById_fd hfind
    refine ⟨trivial, fun _ _ _ => .same (sameSessions_set ⟨rfl, rfl, fun hnone => ?_⟩) rfl rfl⟩
    exact absurd (hfd.symm.trans hnone) (by simp)
  · exact ⟨trivial, fun _ => .unchanged s⟩

theorem runs_multiSessionClose {s s' : MultiState} {i : ℕ}
    (hr : Runs legal (multiSessionClose s i) h h' (some s')) : s' = s.set i multiSessionInit := by
  obtain ⟨_, h₁, -, hret⟩ := runs_bind_some'.mp hr
  exact (runs_pure.mp hret).2

theorem effective_multiKill {arg : Bytes}
    (harg : ∀ s, killed max line s = (multiTarget s max arg).map fun t => t.2.1) :
    Effective legal max line (multiKill max arg) := by
  refine Effective.prompt fun s s' h h' hr => ?_
  split at hr
  · rename_i i id rest htarget
    obtain ⟨-, hfind⟩ := multiTarget_eq_some htarget
    obtain ⟨s₁, h₁, hclose, hrest⟩ := runs_bind_some'.mp hr
    obtain rfl := runs_multiSessionClose hclose
    obtain ⟨_, h₂, -, hrest⟩ := runs_bind_some'.mp hrest
    obtain ⟨_, h₃, -, hret⟩ := runs_bind_some'.mp hrest
    obtain ⟨rfl, rfl⟩ := runs_pure.mp hret
    exact .drop (.refl s) rfl rfl hfind (.inl (by rw [harg, htarget, Option.map_some]))
  · obtain ⟨_, h₁, -, hret⟩ := runs_bind_some'.mp hr
    obtain ⟨rfl, rfl⟩ := runs_pure.mp hret
    exact .unchanged _ _ _

/-- The end of a `:send` that failed. -/
theorem effect_sendFailed {h₁ : Hist} {s s₁ s' : MultiState} {i id : ℕ} {fd : Fd}
    (hs : SameSessions s s₁) (hactive : s₁.activeId = s.activeId)
    (hattached : s₁.attachedId = s.attachedId) (hfind : multiFindById s max id = some i)
    (hfd : (s.sessions i).fd = some fd) (href : Refused fd h h₁)
    (hr : Runs legal (multiFailure "send failed" >>= fun _ =>
      multiSessionClose s₁ i >>= fun s => pure (s.repairActive max id)) h₁ h' (some s')) :
    LineEffect max line h h' s s' := by
  have hsuf := hr.suffix
  obtain ⟨_, h₂, -, hrest⟩ := runs_bind_some'.mp hr
  obtain ⟨s₂, h₃, hclose, hret⟩ := runs_bind_some'.mp hrest
  obtain rfl := runs_multiSessionClose hclose
  obtain ⟨rfl, rfl⟩ := runs_pure.mp hret
  exact .drop hs hactive hattached hfind (.inr ⟨fd, hfd, href.mono (List.suffix_refl h) hsuf⟩)

theorem effective_multiSend (arg : Bytes) : Effective legal max line (multiSend max arg) := by
  refine Effective.prompt fun s s' h h' hr => ?_
  split at hr
  · rename_i i id payload htarget
    obtain ⟨htarget, -⟩ := Option.filter_eq_some_iff.mp htarget
    obtain ⟨-, hfind⟩ := multiTarget_eq_some htarget
    obtain ⟨fd, hfd⟩ := multiFindById_fd hfind
    obtain ⟨sent, h₁, hsend, hrest⟩ := runs_bind_some'.mp hr
    obtain ⟨ended, h₂, hend, hrest⟩ := runs_bind_some'.mp hrest
    rcases runs_multiSendLine hsend with ⟨rfl, hnone | ⟨fd', hfd', href⟩⟩ | ⟨session, rfl, hkept⟩
    · exact absurd (hfd.symm.trans hnone) (by simp)
    · -- the payload was refused
      obtain ⟨rfl, rfl⟩ := runs_pure.mp hend
      obtain rfl := Option.some.inj (hfd.symm.trans hfd')
      exact effect_sendFailed (.refl s) rfl rfl hfind hfd href hrest
    · have hsame := sameSessions_set hkept
      rcases runs_multiSendLine hend with ⟨rfl, hnone | ⟨fd', hfd', href⟩⟩ | ⟨session', rfl, hkept'⟩
      · exact absurd ((hkept.1.trans hfd).symm.trans (by simpa [MultiState.set] using hnone)) (by simp)
      · -- the end of its line was refused
        obtain rfl : fd' = fd := by
          rw [(hsame.kept i).1, hfd] at hfd'
          exact (Option.some.inj hfd').symm
        exact effect_sendFailed hsame rfl rfl hfind hfd
          (href.mono hsend.suffix (List.suffix_refl _)) hrest
      · obtain ⟨rfl, rfl⟩ := runs_pure.mp hrest
        exact .same (hsame.trans (sameSessions_set hkept')) rfl rfl
  · obtain ⟨_, h₁, -, hret⟩ := runs_bind_some'.mp hr
    obtain ⟨rfl, rfl⟩ := runs_pure.mp hret
    exact .unchanged _ _ _

theorem effective_multiPlainLine : Effective legal max line (multiPlainLine max line) := by
  intro s s' h h' hr
  rw [multiPlainLine] at hr
  split_ifs at hr with hactive
  · obtain ⟨_, h₁, -, hrest⟩ := runs_bind_some'.mp hr
    obtain ⟨_, h₂, -, hret⟩ := runs_bind_some'.mp hrest
    obtain ⟨rfl, rfl⟩ := runs_pure.mp hret
    exact .unchanged _ _ _
  · obtain ⟨sent, h₁, hsend, hrest⟩ := runs_bind_some'.mp hr
    cases hfind : multiFindById s max s.activeId with
    | none =>
      rw [hfind] at hsend hrest
      obtain ⟨-, rfl⟩ := runs_pure.mp hsend
      obtain ⟨_, h₂, -, hclose⟩ := runs_bind_some'.mp hrest
      obtain ⟨s₁, h₃, hpure, hprompt⟩ := runs_bind_some'.mp hclose
      obtain ⟨-, rfl⟩ := runs_pure.mp hpure
      obtain ⟨_, h₄, -, hret⟩ := runs_bind_some'.mp hprompt
      obtain ⟨-, rfl⟩ := runs_pure.mp hret
      exact .lost hfind
    | some i =>
      rw [hfind] at hsend hrest
      obtain ⟨fd, hfd⟩ := multiFindById_fd hfind
      rcases runs_multiSendLine hsend with ⟨rfl, hnone | ⟨fd', hfd', href⟩⟩ | ⟨session, rfl, hkept⟩
      · exact absurd (hfd.symm.trans hnone) (by simp)
      · have hsuf := hrest.suffix
        obtain ⟨_, h₂, -, hrest⟩ := runs_bind_some'.mp hrest
        obtain ⟨s₁, h₃, hclose, hrest⟩ := runs_bind_some'.mp hrest
        obtain rfl := runs_multiSessionClose hclose
        obtain ⟨_, h₄, -, hret⟩ := runs_bind_some'.mp hrest
        obtain ⟨rfl, rfl⟩ := runs_pure.mp hret
        have hdrop := @LineEffect.drop max line h h' s s i _ (.refl s) rfl rfl hfind
          (.inr ⟨fd', hfd', href.mono (List.suffix_refl h) hsuf⟩)
        rwa [MultiState.repairActive,
          if_pos (show (s.set i multiSessionInit).activeId = s.activeId from rfl)] at hdrop
      · obtain ⟨rfl, rfl⟩ := runs_pure.mp hrest
        exact .same (sameSessions_set hkept) rfl rfl

/-- A broadcast that has got to slot `n`. -/
structure Broadcasting (max : ℕ) (h : Hist) (s : MultiState) (n : ℕ) (s₁ : MultiState) (h₁ : Hist) :
    Prop where
  suffix : h <:+ h₁
  nextId : s₁.nextId = s.nextId
  activeId : s₁.activeId = s.activeId
  attachedId : s₁.attachedId = s.attachedId
  done : ∀ i < n, (s.sessions i).Kept (s₁.sessions i) ∨ Dropped max i h h₁ s s₁
  todo : ∀ i, n ≤ i → s₁.sessions i = s.sessions i

/-- What one slot of a broadcast leaves behind, of which the next one is to be read. -/
theorem Broadcasting.next {n : ℕ} {s s₁ : MultiState} {h h₁ h₂ : Hist} {session : MultiSession}
    (hb : Broadcasting max h s n s₁ h₁) (hs : h₁ <:+ h₂)
    (hn : (s.sessions n).Kept session ∨
      Dropped max n h h₂ s (s₁.set n session)) :
    Broadcasting max h s (n + 1) (s₁.set n session) h₂ := by
  have hother : ∀ i ≠ n, (s₁.set n session).sessions i = s₁.sessions i := fun i hi =>
    Function.update_of_ne hi _ _
  refine ⟨hb.suffix.trans hs, hb.nextId, hb.activeId, hb.attachedId, fun i hi => ?_, fun i hi => ?_⟩
  · rcases Nat.lt_succ_iff_lt_or_eq.mp hi with hlt | rfl
    · rw [Dropped, hother i (by omega)]
      refine (hb.done i hlt).imp_right ?_
      exact fun ⟨hmax, hinit, fd, hfd, href⟩ =>
        ⟨hmax, hinit, fd, hfd, href.mono (List.suffix_refl h) hs⟩
    · exact hn.imp_left fun hk => by simpa [MultiState.set] using hk
  · rw [hother i (by omega), hb.todo i (by omega)]

theorem runs_multiBroadcast {text : Bytes} {s s' : MultiState}
    (hr : Runs legal (multiBroadcast max text s) h h' (some s')) :
    Broadcasting max h s max s' h' := by
  have hloop : Always legal (fun _ => True) (multiBroadcast max text s)
      (Broadcasting max h s max) h := by
    refine Always.forRange (Broadcasting max h s) trivial
      ⟨List.suffix_refl h, rfl, rfl, rfl, fun i hi => absurd hi (by omega), fun _ _ => rfl⟩ ?_
    intro n hn s₁ h₁ _ hb h₂ o hrun
    refine ⟨trivial, ?_⟩
    rintro s₂ rfl
    split_ifs at hrun with hlive
    · obtain ⟨sent, h₃, hsend, hrest⟩ := runs_bind_some'.mp hrun
      have heq := hb.todo n (le_refl n)
      rcases runs_multiSendLine hsend with ⟨rfl, hnone | ⟨fd, hfd, href⟩⟩ | ⟨session, rfl, hkept⟩
      · simp [MultiSession.live, hnone] at hlive
      · have hsuf := hrest.suffix
        obtain ⟨_, h₄, -, hclose⟩ := runs_bind_some'.mp hrest
        obtain rfl := runs_multiSessionClose hclose
        refine hb.next (hsend.suffix.trans hsuf) (.inr ⟨hn, by simp [MultiState.set], fd, ?_, ?_⟩)
        · rw [← heq, hfd]
        · exact href.mono hb.suffix hsuf
      · obtain ⟨rfl, rfl⟩ := runs_pure.mp hrest
        exact hb.next hsend.suffix (.inl (heq ▸ hkept))
    · obtain ⟨rfl, heq⟩ := runs_pure.mp hrun
      have hset : s₁.set n (s₁.sessions n) = s₁ := by
        rw [MultiState.set, Function.update_eq_self]
      rw [heq, ← hset]
      exact hb.next (List.suffix_refl _) (.inl (hb.todo n (le_refl n) ▸ .refl _))
  exact hloop.post hr

theorem effective_multiAll (text : Bytes) (hline : broadcasts line = true) :
    Effective legal max line (multiAll max text) := by
  refine Effective.prompt fun s s' h h' hr => ?_
  have hb := runs_multiBroadcast hr
  refine .all hline hb.nextId (fun i => ?_) hb.activeId hb.attachedId
  rcases Nat.lt_or_ge i max with hi | hi
  · exact hb.done i hi
  · exact .inl (hb.todo i hi ▸ .refl _)

theorem effective_multiCommand {command : Bytes} (hcommand : commandOf line = some command) :
    Effective legal max line (multiCommand max line command) := by
  have hsame : ∀ {e : MultiState → Sys}, Effective legal max line fun s =>
      sys (e s) >>= fun _ => multiPrintPrompt s.activeId >>= fun _ => pure s := by
    exact Effective.quiet fun s => ⟨trivial, fun _ => ⟨trivial, fun _ => .unchanged s⟩⟩
  unfold multiCommand
  refine Effective.ite (fun _ => hsame) fun _ => ?_
  refine Effective.ite (fun _ => hsame) fun _ => ?_
  refine Effective.ite (fun _ => Effective.quiet fun s => ⟨trivial, fun _ => .unchanged s⟩) fun _ => ?_
  refine Effective.ite (fun _ => Effective.quiet fun s => ⟨trivial, fun _ _ _ => .detach⟩) fun _ => ?_
  refine Effective.ite (fun _ => effective_multiSetActiveSession _) fun _ => ?_
  refine Effective.ite (fun _ => effective_multiSetActiveSession _) fun _ => ?_
  refine Effective.ite (fun _ => hsame) fun _ => ?_
  refine Effective.ite (fun _ => effective_multiUse _) fun _ => ?_
  refine Effective.ite (fun _ => effective_multiUse _) fun _ => ?_
  refine Effective.ite (fun h₁ => effective_multiAttach ?_) fun h₁ => ?_
  · exact fun s => by simp [attachedBy, hcommand, attachArg, h₁]
  refine Effective.ite (fun h₂ => effective_multiAttach ?_) fun h₂ => ?_
  · exact fun s => by simp [attachedBy, hcommand, attachArg, h₁, h₂]
  refine Effective.ite (fun h₃ => effective_multiAttach ?_) fun h₃ => ?_
  · exact fun s => by simp [attachedBy, hcommand, attachArg, h₁, h₂, h₃]
  refine Effective.ite (fun _ => effective_multiInfo _) fun _ => ?_
  refine Effective.ite (fun _ => effective_multiInfo _) fun _ => ?_
  refine Effective.ite (fun _ => effective_multiInfo _) fun _ => ?_
  refine Effective.ite (fun _ => effective_multiRename _) fun _ => ?_
  refine Effective.ite (fun h₁ => effective_multiKill ?_) fun h₁ => ?_
  · exact fun s => by simp [killed, hcommand, killArg, h₁]
  refine Effective.ite (fun h₂ => effective_multiKill ?_) fun h₂ => ?_
  · exact fun s => by simp [killed, hcommand, killArg, h₁, h₂]
  refine Effective.ite (fun _ => effective_multiSend _) fun _ => ?_
  refine Effective.ite (fun h₁ => effective_multiAll _ ?_) fun _ => ?_
  · simp [broadcasts, hcommand, h₁]
  refine Effective.ite (fun h₁ => effective_multiAll _ ?_) fun _ => ?_
  · simp [broadcasts, hcommand, h₁]
  exact Effective.quiet fun s =>
    ⟨trivial, fun _ => ⟨trivial, fun _ => ⟨trivial, fun _ => .unchanged s⟩⟩⟩

/-- **A line of the operator** does nothing that `Wirecat.LineEffect` does not list. -/
theorem effective_multiHandleInputLine : Effective legal max line (multiHandleInputLine max line) := by
  refine Effective.ite (fun hcolon => effective_multiCommand ?_) fun _ => effective_multiPlainLine
  rw [commandOf, if_pos hcolon]

end

/-! ### A connection -/

/-- The requests that write to the terminal, if at all. -/
def Prints : Sys → Prop
  | .write _ fd _ => fd = .stdout ∨ fd = .stderr
  | _ => True

theorem prints_of_quiet (e : Sys) (he : Quiet e = true) : Prints e := by
  cases e <;> trivial

/-- **What accepting can do**: nothing, or a peer joins in a free slot. -/
theorem within_multiAccept (cfg : Config) (listener : Fd) (max : ℕ) (s : MultiState) :
    Within Prints (multiAccept cfg listener max s) fun s' =>
      s' = s ∨ ∃ i peer, i < max ∧ (s.sessions i).fd = none ∧ s' = s.join i peer := by
  have hclose : ∀ fd, Within Prints (wcatCloseQuiet fd) fun _ => True := fun _ =>
    within_wcatCloseQuiet trivial
  refine (within_wcatAccept (still_of_quiet prints_of_quiet) trivial _).footprint.next fun peer => ?_
  cases peer with
  | none => exact .inl rfl
  | some peer =>
    refine (within_wcatAccessCheckFd (still_of_quiet prints_of_quiet) trivial cfg).next fun allowed => ?_
    refine Within.ite (fun _ => (hclose _).next fun _ => .inl rfl) fun _ => ?_
    split
    · exact Within.step trivial fun _ => (hclose _).next fun _ => .inl rfl
    · rename_i i hfind
      have hi := List.mem_range.mp (List.mem_of_find?_eq_some hfind)
      have hfree : (s.sessions i).fd = none := by
        simpa [MultiSession.live] using List.find?_some hfind
      refine Within.step trivial fun _ => Within.ite (fun _ => ?_) fun _ => ?_
      · exact Within.step trivial fun _ => Within.step trivial fun _ => .inr ⟨i, peer, hi, hfree, rfl⟩
      · exact .inr ⟨i, peer, hi, hfree, rfl⟩

/-! ### What a session sent -/

/-- No session with this number is attached. -/
def MultiState.unattach (s : MultiState) (id : ℕ) : MultiState :=
  if s.attachedId = id then { s with attachedId := 0 } else s

/-- The session in slot `i` is gone. -/
def MultiState.left (s : MultiState) (max i : ℕ) : MultiState :=
  ((s.unattach (s.sessions i).id).set i multiSessionInit).repairGone max

/-- Something the session in slot `i` sent was counted and printed; what it sent as the attached
session may have been an echo. -/
structure Heard (i : ℕ) (s s' : MultiState) : Prop where
  same : SameSessions s s'
  activeId : s'.activeId = s.activeId
  attachedId : s'.attachedId = s.attachedId
  input : s'.input = s.input
  line : s'.attachedLine = s.attachedLine
  held : s'.attachedLineHeld = s.attachedLineHeld
  echo : s'.echoPending = s.echoPending ∨
    s.attachedId = (s.sessions i).id ∧ s'.echoPending <:+ s.echoPending

/-- **What serving a slot can do.** -/
inductive SlotEffect (max i : ℕ) (s : MultiState) : MultiState → Prop
  /-- The session in it sent something, or nothing. -/
  | heard {s' : MultiState} (hs : Heard i s s') : SlotEffect max i s s'
  /-- What it sent could not be printed. -/
  | failed {s' : MultiState} (hs : Heard i s s') : SlotEffect max i s { s' with result := 1 }
  /-- Its HTTP request could not be printed. -/
  | failedHttp {s' : MultiState} (hs : Heard i s s') :
      SlotEffect max i s { s'.unattach (s.sessions i).id with result := 1 }
  /-- The session is gone. -/
  | left {s' : MultiState} (hs : Heard i s s') (hlive : (s.sessions i).live = true) :
      SlotEffect max i s (s'.left max i)

theorem Heard.refl (i : ℕ) (s : MultiState) : Heard i s s :=
  ⟨.refl s, rfl, rfl, rfl, rfl, rfl, .inl rfl⟩

theorem Heard.trans {i : ℕ} {s₁ s₂ s₃ : MultiState} (h₁ : Heard i s₁ s₂) (h₂ : Heard i s₂ s₃) :
    Heard i s₁ s₃ := by
  refine ⟨h₁.same.trans h₂.same, h₂.activeId.trans h₁.activeId, h₂.attachedId.trans h₁.attachedId,
    h₂.input.trans h₁.input, h₂.line.trans h₁.line, h₂.held.trans h₁.held, ?_⟩
  rcases h₂.echo with he₂ | ⟨hatt, he₂⟩
  · rw [he₂]
    exact h₁.echo
  · rw [h₁.attachedId, (h₁.same.kept i).2.1] at hatt
    rcases h₁.echo with he₁ | ⟨-, he₁⟩
    · exact .inr ⟨hatt, he₁ ▸ he₂⟩
    · exact .inr ⟨hatt, he₂.trans he₁⟩

/-- Counting, and where the next line starts. -/
theorem heard_set {s : MultiState} {i : ℕ} {session : MultiSession}
    (hk : (s.sessions i).Kept session) : Heard i s (s.set i session) :=
  ⟨sameSessions_set hk, rfl, rfl, rfl, rfl, rfl, .inl rfl⟩

/-- The state a slot is left with. -/
def slotState : Except MultiState MultiState → MultiState
  | .ok s | .error s => s

section
variable {max i : ℕ}

/-- What is awaited as an echo only gets shorter. -/
theorem within_multiWriteAttachedOutput (buf echoPending : Bytes) :
    Within Prints (multiWriteAttachedOutput buf echoPending)
      fun echo => ∀ e ∈ echo, e <:+ echoPending := by
  refine Within.forEach _ (by rintro _ ⟨⟩; exact List.suffix_refl _) ?_
  intro c echo hecho
  cases echo with
  | none => exact fun _ he => absurd he (by simp)
  | some echo =>
    have hsuf : echo <:+ echoPending := hecho echo rfl
    have hwrite : ∀ n : Option ℕ, ∀ e ∈ (if n = some 1 then some [] else none : Option Bytes),
        e <:+ echoPending := by
      intro n e he
      split_ifs at he with hn
      · obtain rfl := Option.some.inj he
        exact List.nil_suffix
      · exact absurd he (by simp)
    dsimp only [writeAttachedByte]
    cases echo with
    | nil => exact (within_wcatFullWrite (fun _ => .inl rfl) _).next fun n => hwrite n
    | cons b rest =>
      refine Within.ite (fun _ => ?_) fun _ => Within.ite (fun _ => ?_) fun _ => ?_
      · rintro _ ⟨⟩
        exact (List.suffix_cons b rest).trans hsuf
      · rintro _ ⟨⟩
        exact hsuf
      · exact (within_wcatFullWrite (fun _ => .inl rfl) _).next fun n => hwrite n

theorem within_multiWriteOutput (session : MultiSession) (buf : Bytes) :
    Within Prints (multiWriteOutput session buf false)
      fun r => ∃ b, r.1 = { session with lineStart := b } := by
  refine Within.loop (fun p => ∃ b, p.1 = { session with lineStart := b }) ⟨_, rfl⟩ ?_
  rintro ⟨_, buf⟩ ⟨b, rfl⟩
  refine Within.ite (fun _ => ⟨b, rfl⟩) fun _ => Within.next ?_ fun labelled => ?_
  · refine Within.ite (fun _ => Within.ite (fun _ => trivial) fun _ => ?_) fun _ => trivial
    exact (within_wcatFullWrite (fun _ => .inl rfl) _).next fun _ => trivial
  refine Within.ite (fun _ => ⟨b, rfl⟩) fun _ => ?_
  refine (within_wcatFullWrite (fun _ => .inl rfl) _).next fun n => ?_
  exact Within.ite (fun _ => ⟨_, rfl⟩) fun _ => ⟨_, rfl⟩

theorem within_multiOutput {s : MultiState} (hlive : (s.sessions i).live = true) (buf : Bytes) :
    Within Prints (multiOutput i buf s) fun r => Heard i s r.1 := by
  have hset : ∀ b, Heard i s (s.set i { s.sessions i with lineStart := b }) := fun b =>
    heard_set ⟨rfl, rfl, fun hnone => by simp [MultiSession.live, hnone] at hlive⟩
  refine Within.ite (fun hatt => ?_) fun _ => ?_
  · refine (within_multiWriteAttachedOutput buf s.echoPending).bind' fun echo hecho => ?_
    cases echo with
    | none => exact hset true
    | some echo =>
      exact ⟨⟨(hset true).same.kept, rfl⟩, rfl, rfl, rfl, rfl, rfl, .inr ⟨hatt, hecho echo rfl⟩⟩
  · refine (within_multiWriteOutput (s.sessions i) buf).bind' ?_
    rintro ⟨_, ok⟩ ⟨b, rfl⟩
    exact hset b

theorem within_multiOutputFailed (s : MultiState) :
    Within Prints (multiOutputFailed s) fun r => r = .error { s with result := 1 } :=
  Within.step trivial fun _ => rfl

/-- The state between counting what was read and printing it. -/
theorem heard_count {s : MultiState} (hlive : (s.sessions i).live = true) (n : ℕ) :
    Heard i s (s.set i { s.sessions i with rxBytes := n }) :=
  heard_set ⟨rfl, rfl, fun hnone => by simp [MultiSession.live, hnone] at hlive⟩

theorem Heard.live {s s' : MultiState} (hs : Heard i s s') (hlive : (s.sessions i).live = true) :
    (s'.sessions i).live = true := by
  rw [hs.same.live, hlive]

theorem within_multiSessionClose (s : MultiState) (i : ℕ) :
    Within Prints (multiSessionClose s i) fun s' => s' = s.set i multiSessionInit := by
  refine Within.next ?_ fun _ => rfl
  cases (s.sessions i).fd with
  | none => exact trivial
  | some fd => exact within_wcatCloseQuiet trivial

theorem within_multiRedrawInput (s : MultiState) :
    Within Prints (multiRedrawInput s) fun _ => True := by
  refine Within.step trivial fun _ => Within.step trivial fun _ => Within.next ?_ fun _ => ?_
  · exact Within.ite (fun _ => trivial) fun _ => within_wcatFullWrite (fun _ => .inr rfl) _
  · exact Within.ite (fun _ => within_sys trivial) fun _ => trivial

theorem within_multiData {cfg : Config} {interactive : Bool} {s : MultiState}
    (hlive : (s.sessions i).live = true) (buf : Bytes) :
    Within Prints (multiData cfg interactive i buf s)
      fun r => SlotEffect max i s (slotState r) := by
  have hcount := heard_count hlive (((s.sessions i).rxBytes + buf.length) % 2 ^ 64)
  refine Within.next (Within.optional trivial) fun _ => Within.next (Within.optional trivial) fun _ => ?_
  refine (within_multiOutput (hcount.live hlive) buf).bind' ?_
  rintro ⟨s₁, ok⟩ hout
  refine Within.ite (fun _ => ?_) fun _ => Within.next (Within.ite (fun _ => ?_) fun _ => trivial)
    fun _ => .heard (hcount.trans hout)
  · exact (within_multiOutputFailed s₁).post_mono (by rintro _ rfl; exact .failed (hcount.trans hout))
  · exact Within.next (Within.optional trivial) fun _ => within_multiRedrawInput s₁

theorem within_multiHttp {cfg : Config} {interactive : Bool} {s : MultiState}
    (hlive : (s.sessions i).live = true) (buf : Bytes) :
    Within Prints (multiHttp cfg interactive max i buf s)
      fun r => SlotEffect max i s (slotState r) := by
  have hcount := heard_count hlive (((s.sessions i).rxBytes + buf.length) % 2 ^ 64)
  refine Within.next (Within.optional trivial) fun _ => Within.next (Within.optional trivial) fun _ => ?_
  refine (within_multiOutput (hcount.live hlive) buf).bind' ?_
  rintro ⟨s₁, ok⟩ hout
  have hheard := hcount.trans hout
  have hun : (if s.attachedId = (s.sessions i).id then { s₁ with attachedId := 0 } else s₁) =
      s₁.unattach (s.sessions i).id := by
    rw [MultiState.unattach, hheard.attachedId]
  have hid : (s₁.sessions i).id = (s.sessions i).id := (hheard.same.kept i).2.1
  refine Within.ite (fun _ => ?_) fun _ => Within.step trivial fun _ => ?_
  · refine (within_multiOutputFailed _).post_mono ?_
    rintro _ rfl
    rw [slotState]
    exact hun ▸ .failedHttp hheard
  · refine (within_multiSessionClose _ i).bind' ?_
    rintro _ rfl
    have hleft := @SlotEffect.left max i _ _ hheard hlive
    rw [MultiState.left, hid, ← hun] at hleft
    refine Within.next (Within.ite (fun _ => ?_) fun _ => ?_) fun _ => hleft
    · exact Within.next (Within.optional trivial) fun _ => within_multiRedrawInput _
    · exact Within.optional trivial

theorem within_multiLeave {s : MultiState} (hlive : (s.sessions i).live = true) :
    Within Prints (multiLeave max i s) fun s' => SlotEffect max i s s' := by
  refine Within.step trivial fun _ => (within_multiSessionClose _ i).bind' ?_
  rintro _ rfl
  have hleft := @SlotEffect.left max i s s (.refl i s) hlive
  exact Within.ite (fun _ => Within.step trivial fun _ => hleft) fun _ => hleft

/-- **Serving a slot** does nothing that `Wirecat.SlotEffect` does not list. -/
theorem within_multiSlot {cfg : Config} {interactive : Bool} {polled : List (PollFd × Revents)}
    {s : MultiState} : Within Prints (multiSlot cfg interactive max polled i s)
      fun r => SlotEffect max i s (slotState r) := by
  rw [multiSlot]
  cases hfd : (s.sessions i).fd with
  | none => exact .heard (.refl i s)
  | some fd =>
    have hlive : (s.sessions i).live = true := by rw [MultiSession.live, hfd]; rfl
    have hleave : Within Prints (multiLeave max i s >>= fun s => pure (Except.ok s))
        (fun r => SlotEffect max i s (slotState r)) :=
      (within_multiLeave hlive).bind' fun s' hs' => hs'
    dsimp only
    cases (polled.find? fun p => p.1.fd = some fd).map Prod.snd with
    | none => exact .heard (.refl i s)
    | some r =>
      refine Within.ite (fun _ => hleave) fun _ => Within.ite (fun _ => ?_) fun _ => ?_
      · refine Within.next (Within.loop (fun _ => True) trivial fun _ _ => ?_) fun r => ?_
        · refine Within.step trivial fun r => ?_
          cases r with
          | error err => cases err <;> trivial
          | eof => trivial
          | data buf pos le => trivial
        cases r with
        | error e => exact hleave
        | eof => exact hleave
        | data buf pos le =>
          exact Within.ite (fun _ => within_multiHttp hlive buf) fun _ => within_multiData hlive buf
      · exact .heard (.refl i s)

end

end Wirecat
