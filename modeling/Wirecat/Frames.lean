import Wirecat.Rounds

/-!
# What a step leaves alone

A step of the listener changes little, and most of what is to be shown of a session or of what
is typed is that a step has nothing to do with it. Two things are settled here.

Serving slot `i` changes the session in it, which sessions are active and attached, the echo
that is awaited and the exit status, and nothing else: what does not depend on these
(`Wirecat.SlotFrame`) is as it was (`Wirecat.within_slotFrame`).

What the operator types never counts as heard from a session: a byte may close sessions, but it
leaves alone how much was received from those it does not close, and whether their output is
at the start of a line (`Wirecat.Unheard`, `Wirecat.within_unheard_multiTyped`).
-/

namespace Wirecat

open CString Interaction

/-! ### Serving a slot -/

/-- Something of the listener that serving slot `i` does not change. -/
structure SlotFrame {β : Type} (i : ℕ) (f : MultiState → β) : Prop where
  set : ∀ s session, f (s.set i session) = f s
  attached : ∀ s id, f { s with attachedId := id } = f s
  active : ∀ s id, f { s with activeId := id } = f s
  echo : ∀ s pending, f { s with echoPending := pending } = f s
  result : ∀ s status, f { s with result := status } = f s

/-- The session in another slot. -/
theorem slotFrame_session {i k : ℕ} (hk : k ≠ i) : SlotFrame i fun s => s.sessions k where
  set _ _ := Function.update_of_ne hk _ _
  attached _ _ := rfl
  active _ _ := rfl
  echo _ _ := rfl
  result _ _ := rfl

section
variable {β : Type} {max i : ℕ} {f : MultiState → β}

theorem SlotFrame.repairGone (hf : SlotFrame i f) (s : MultiState) (max : ℕ) :
    f (s.repairGone max) = f s := by
  rw [MultiState.repairGone]
  split_ifs
  · exact hf.active s _
  · rfl

theorem SlotFrame.detached (hf : SlotFrame i f) (s : MultiState) (c : Prop) [Decidable c] :
    f (if c then { s with attachedId := 0 } else s) = f s := by
  split_ifs
  · exact hf.attached s 0
  · rfl

theorem within_slotFrame_multiSessionClose (hf : SlotFrame i f) (s : MultiState) :
    Within (fun _ => True) (multiSessionClose s i) fun s' => f s' = f s :=
  Within.next (Within.all _) fun _ => hf.set s _

theorem within_slotFrame_multiOutput (hf : SlotFrame i f) (buf : Bytes) (s : MultiState) :
    Within (fun _ => True) (multiOutput i buf s) fun r => f r.1 = f s := by
  refine Within.ite (fun _ => ?_) fun _ => Within.next (Within.all _) fun r => hf.set s _
  refine Within.next (Within.all _) fun echo => ?_
  cases echo with
  | none => exact hf.set s _
  | some pending => exact (hf.echo _ pending).trans (hf.set s _)

theorem within_slotFrame_multiLeave (hf : SlotFrame i f) (s : MultiState) :
    Within (fun _ => True) (multiLeave max i s) fun s' => f s' = f s := by
  refine Within.step trivial fun _ => ?_
  refine (within_slotFrame_multiSessionClose hf _).bind' fun s' hs' => ?_
  have hdone : f (s'.repairGone max) = f s :=
    (hf.repairGone s' max).trans (hs'.trans (hf.detached s _))
  exact Within.ite (fun _ => Within.step trivial fun _ => hdone) fun _ => hdone

theorem within_slotFrame_multiHttp (hf : SlotFrame i f) (cfg : Config) (interactive : Bool)
    (buf : Bytes) (s : MultiState) :
    Within (fun _ => True) (multiHttp cfg interactive max i buf s)
      fun r => f (slotState r) = f s := by
  refine Within.next (Within.all _) fun _ => Within.next (Within.all _) fun _ => ?_
  refine (within_slotFrame_multiOutput hf buf _).bind' ?_
  rintro ⟨s₁, ok⟩ hs₁
  have hout : f s₁ = f s := hs₁.trans (hf.set s _)
  refine Within.ite (fun _ => Within.step trivial fun _ => ?_) fun _ => Within.step trivial fun _ => ?_
  · exact (hf.result _ 1).trans ((hf.detached s₁ _).trans hout)
  · refine (within_slotFrame_multiSessionClose hf _).bind' fun s' hs' => ?_
    refine Within.next (Within.all _) fun _ => ?_
    exact (hf.repairGone s' max).trans (hs'.trans ((hf.detached s₁ _).trans hout))

theorem within_slotFrame_multiData (hf : SlotFrame i f) (cfg : Config) (interactive : Bool)
    (buf : Bytes) (s : MultiState) :
    Within (fun _ => True) (multiData cfg interactive i buf s)
      fun r => f (slotState r) = f s := by
  refine Within.next (Within.all _) fun _ => Within.next (Within.all _) fun _ => ?_
  refine (within_slotFrame_multiOutput hf buf _).bind' ?_
  rintro ⟨s₁, ok⟩ hs₁
  have hout : f s₁ = f s := hs₁.trans (hf.set s _)
  exact Within.ite (fun _ => Within.step trivial fun _ => (hf.result s₁ 1).trans hout)
    fun _ => Within.next (Within.all _) fun _ => hout

/-- **Serving a slot** changes nothing that is in its frame. -/
theorem within_slotFrame (hf : SlotFrame i f) (cfg : Config) (interactive : Bool)
    (polled : List (PollFd × Revents)) (s : MultiState) :
    Within (fun _ => True) (multiSlot cfg interactive max polled i s)
      fun r => f (slotState r) = f s := by
  have hleave : Within (fun _ => True) (multiLeave max i s >>= fun s => pure (Except.ok s))
      (fun r => f (slotState r) = f s) :=
    (within_slotFrame_multiLeave hf s).bind' fun s' hs' => hs'
  rw [multiSlot]
  cases (s.sessions i).fd with
  | none => rfl
  | some fd =>
    dsimp only
    cases (polled.find? fun p => p.1.fd = some fd).map Prod.snd with
    | none => rfl
    | some r =>
      refine Within.ite (fun _ => hleave) fun _ => Within.ite (fun _ => ?_) fun _ => rfl
      refine Within.next (Within.all _) fun r => ?_
      cases r with
      | error e => exact hleave
      | eof => exact hleave
      | data buf pos le =>
        exact Within.ite (fun _ => within_slotFrame_multiHttp hf cfg interactive buf s)
          fun _ => within_slotFrame_multiData hf cfg interactive buf s

end

/-! ### What the operator types -/

/-- Nothing was heard from a session: it is gone, or as much was received from it as before. -/
def MultiSession.Unheard (a b : MultiSession) : Prop :=
  b.fd = none ∨ b.fd = a.fd ∧ b.id = a.id ∧ b.rxBytes = a.rxBytes ∧ b.lineStart = a.lineStart

/-- Nothing was heard from any session. -/
def Unheard (s s' : MultiState) : Prop := ∀ i, (s.sessions i).Unheard (s'.sessions i)

theorem Unheard.of_sessions {s s' : MultiState} (hs : s'.sessions = s.sessions) : Unheard s s' :=
  fun i => .inr (by rw [hs]; exact ⟨rfl, rfl, rfl, rfl⟩)

theorem Unheard.refl (s : MultiState) : Unheard s s := .of_sessions rfl

theorem Unheard.trans {s₁ s₂ s₃ : MultiState} (h₁ : Unheard s₁ s₂) (h₂ : Unheard s₂ s₃) :
    Unheard s₁ s₃ := by
  intro i
  rcases h₂ i with hgone | ⟨hfd, hid, hrx, hline⟩
  · exact .inl hgone
  · rcases h₁ i with hgone | ⟨hfd', hid', hrx', hline'⟩
    · exact .inl (hfd.trans hgone)
    · exact .inr ⟨hfd.trans hfd', hid.trans hid', hrx.trans hrx', hline.trans hline'⟩

/-- A session of which something else is changed. -/
theorem unheard_set {s : MultiState} {i : ℕ} {session : MultiSession}
    (hs : (s.sessions i).Unheard session) : Unheard s (s.set i session) := by
  intro j
  rcases eq_or_ne j i with rfl | hj
  · simpa [MultiState.set] using hs
  · rw [show (s.set i session).sessions j = s.sessions j from Function.update_of_ne hj _ _]
    exact .inr ⟨rfl, rfl, rfl, rfl⟩

/-- The requests that write nothing to standard output, if no session is connected to that. -/
def Aloof (s : MultiState) : Sys → Prop
  | .write _ fd _ => fd ≠ .stdout ∨ ∃ i, (s.sessions i).fd = some fd
  | _ => True

/-- No session is connected anew. -/
theorem Unheard.aloof {s s' : MultiState} (hs : Unheard s s') {e : Sys} (he : Aloof s' e) :
    Aloof s e := by
  cases e with
  | write via fd buf =>
    rcases he with hne | ⟨i, hfd⟩
    · exact .inl hne
    · rcases hs i with hgone | ⟨hsame, -⟩
      · exact absurd (hgone.symm.trans hfd) (by simp)
      · exact .inr ⟨i, hsame.symm.trans hfd⟩
  | _ => trivial

/-- A function that is used to carry out what the operator types. -/
def Deaf (p : MultiState → Proc MultiState) : Prop :=
  ∀ s, Within (Aloof s) (p s) (Unheard s)

section
variable {max i : ℕ}

/-- What comes after a part in which nothing was heard. -/
theorem Unheard.then {s s' : MultiState} {p : Proc MultiState} (hs : Unheard s s')
    (hp : Within (Aloof s') p (Unheard s')) : Within (Aloof s) p (Unheard s) :=
  hp.mono (fun _ => hs.aloof) fun _ => hs.trans

/-- A function that only chooses between the sessions. -/
theorem Deaf.chooses {p : MultiState → Proc MultiState}
    (hp : ∀ s, Within (Aloof s) (p s) fun s' => s'.sessions = s.sessions) : Deaf p :=
  fun s => (hp s).post_mono fun _ => Unheard.of_sessions

theorem Deaf.bind {p q : MultiState → Proc MultiState} (hp : Deaf p) (hq : Deaf q) :
    Deaf fun s => p s >>= q :=
  fun s => (hp s).bind' fun s' hs' => hs'.then (hq s')

/-- A request before, or after. -/
theorem Deaf.after {γ : Type} {r : MultiState → Proc γ} {q : MultiState → Proc MultiState}
    (hr : ∀ s, Within (Aloof s) (r s) fun _ => True) (hq : Deaf q) :
    Deaf fun s => r s >>= fun _ => q s :=
  fun s => Within.next (hr s) fun _ => hq s

theorem Deaf.ite {c : MultiState → Prop} [DecidablePred c] {p q : MultiState → Proc MultiState}
    (hp : Deaf p) (hq : Deaf q) : Deaf fun s => if c s then p s else q s :=
  fun s => Within.ite (fun _ => hp s) fun _ => hq s

theorem deaf_ret (f : MultiState → MultiState) (hf : ∀ s, (f s).sessions = s.sessions) :
    Deaf fun s => pure (f s) :=
  fun s => Unheard.of_sessions (hf s)

theorem deaf_multiPrintPrompt : Deaf fun s => multiPrintPrompt s.activeId >>= fun _ => pure s :=
  Deaf.after (r := fun s => multiPrintPrompt s.activeId) (fun _ => within_sys trivial)
    (deaf_ret id fun _ => rfl)

theorem deaf_multiSessionClose (i : ℕ) : Deaf fun s => multiSessionClose s i := by
  refine fun s => Within.next ?_ fun _ => unheard_set (.inl rfl)
  cases (s.sessions i).fd with
  | none => exact trivial
  | some fd => exact within_wcatCloseQuiet trivial

theorem within_unheard_multiSendLine (s : MultiState) (i : ℕ) (line : Bytes) :
    Within (Aloof s) (multiSendLine s i line) fun o => ∀ s' ∈ o, Unheard s s' := by
  rw [multiSendLine]
  cases hfd : (s.sessions i).fd with
  | none => exact fun _ hs' => absurd hs' (by simp)
  | some fd =>
    have hallowed : ∀ b, Aloof s (.write .multi fd b) := fun _ => .inr ⟨i, hfd⟩
    refine Within.next (within_wcatFullWrite hallowed line) fun n => Within.ite (fun _ => ?_) fun _ => ?_
    · exact fun _ hs' => absurd hs' (by simp)
    · rintro _ ⟨⟩
      exact unheard_set (.inr ⟨rfl, rfl, rfl, rfl⟩)

theorem deaf_multiBroadcast (max : ℕ) (line : Bytes) : Deaf (multiBroadcast max line) := by
  refine fun s => Within.forRange (Unheard s) (.refl s) fun i s' hs' => ?_
  refine Within.ite (fun _ => hs'.then ?_) fun _ => hs'
  refine (within_unheard_multiSendLine s' i line).bind' fun o ho => ?_
  cases o with
  | some s'' => exact ho s'' rfl
  | none => exact Within.step trivial fun _ => deaf_multiSessionClose i s'

theorem deaf_multiSetActiveSession (id : MultiState → ℕ) :
    Deaf fun s => multiSetActiveSession max (id s) s :=
  Deaf.chooses fun _ => Within.ite
    (fun _ => Within.step trivial fun _ => Within.step trivial fun _ => rfl)
    fun _ => Within.step trivial fun _ => Within.step trivial fun _ => rfl

theorem deaf_multiUse (arg : Bytes) : Deaf (multiUse max arg) := by
  refine Deaf.chooses fun s => ?_
  rw [multiUse]
  split <;> exact Within.step trivial fun _ => Within.step trivial fun _ => rfl

theorem deaf_multiAttach (arg : Option Bytes) : Deaf (multiAttach max arg) :=
  Deaf.chooses fun _ => Within.ite (fun _ => Within.step trivial fun _ => rfl)
    fun _ => Within.step trivial fun _ => Within.step trivial fun _ => rfl

theorem deaf_multiInfo (arg : Option Bytes) : Deaf (multiInfo max arg) := by
  refine Deaf.chooses fun s => Within.next (Within.ite (fun _ => ?_) fun _ => within_sys trivial)
    fun _ => Within.step trivial fun _ => rfl
  rw [multiPrintInfo]
  split <;> exact within_sys trivial

theorem deaf_multiRename (arg : Bytes) : Deaf (multiRename max arg) := by
  refine Deaf.bind (fun s => ?_) deaf_multiPrintPrompt
  split
  · exact Within.step trivial fun _ => unheard_set (.inr ⟨rfl, rfl, rfl, rfl⟩)
  · exact Within.step trivial fun _ => .refl s

/-- A close by a command, and the repair after it. -/
theorem deaf_drop (i id : ℕ) :
    Deaf fun s => multiSessionClose s i >>= fun s => pure (s.repairActive max id) := by
  refine (deaf_multiSessionClose i).bind (deaf_ret (fun s => s.repairActive max id) fun s => ?_)
  rw [MultiState.repairActive]
  split_ifs <;> rfl

theorem deaf_multiKill (arg : Bytes) : Deaf (multiKill max arg) := by
  refine Deaf.bind (fun s => ?_) deaf_multiPrintPrompt
  split
  · rename_i i id rest htarget
    refine (deaf_multiSessionClose i s).bind' fun s' hs' => Within.step trivial fun _ => ?_
    refine Within.next (Within.optional trivial) fun _ => hs'.trans (.of_sessions ?_)
    rw [MultiState.repairActive]
    split_ifs <;> rfl
  · exact Within.step trivial fun _ => .refl s

theorem deaf_multiSend (arg : Bytes) : Deaf (multiSend max arg) := by
  refine Deaf.bind (fun s => ?_) deaf_multiPrintPrompt
  have hfailed : ∀ i id s', Unheard s s' → Within (R := Resp) (Aloof s)
      (multiFailure "send failed" >>= fun _ =>
        multiSessionClose s' i >>= fun s => pure (s.repairActive max id)) (Unheard s) :=
    fun i id s' hs' => Within.step trivial fun _ => hs'.then (@deaf_drop max i id s')
  split
  · rename_i i id payload htarget
    refine (within_unheard_multiSendLine s i payload).bind' fun sent hsent => ?_
    cases sent with
    | none => exact hfailed i id s (.refl s)
    | some s' =>
      have hs' := hsent s' rfl
      have hend := (within_unheard_multiSendLine s' i [chr '\n']).mono (fun _ => hs'.aloof)
        fun _ ho => ho
      refine hend.bind' fun ended hended => ?_
      cases ended with
      | none => exact hfailed i id s' hs'
      | some s'' => exact hs'.trans (hended s'' rfl)
  · exact Within.step trivial fun _ => .refl s

theorem deaf_multiAll (payload : Bytes) : Deaf (multiAll max payload) :=
  (deaf_multiBroadcast max payload).bind deaf_multiPrintPrompt

theorem deaf_multiPlainLine (line : Bytes) : Deaf (multiPlainLine max line) := by
  refine fun s => Within.ite (fun _ => ?_) fun _ => ?_
  · exact Within.step trivial fun _ => Within.step trivial fun _ => .refl s
  cases multiFindById s max s.activeId with
  | none => exact Within.step trivial fun _ => Within.step trivial fun _ => .of_sessions rfl
  | some i =>
    refine (within_unheard_multiSendLine s i line).bind' fun sent hsent => ?_
    cases sent with
    | some s' => exact hsent s' rfl
    | none =>
      refine Within.step trivial fun _ => (deaf_multiSessionClose i s).bind' fun s' hs' => ?_
      exact Within.step trivial fun _ => hs'.trans (.of_sessions rfl)

theorem deaf_multiCommand (line command : Bytes) : Deaf (multiCommand max line command) := by
  have hsame : ∀ {e : MultiState → Screen}, Deaf fun s =>
      sys (.tty (e s)) >>= fun _ => multiPrintPrompt s.activeId >>= fun _ => pure s :=
    fun {e} s => Within.step trivial fun _ => deaf_multiPrintPrompt s
  unfold multiCommand
  refine Deaf.ite hsame (Deaf.ite hsame (Deaf.ite ?_ (Deaf.ite ?_ ?_)))
  · exact Deaf.chooses fun s => Within.step trivial fun _ => rfl
  · exact Deaf.chooses fun s => Within.step trivial fun _ => rfl
  refine Deaf.ite (deaf_multiSetActiveSession _) (Deaf.ite (deaf_multiSetActiveSession _) ?_)
  refine Deaf.ite hsame (Deaf.ite (deaf_multiUse _) (Deaf.ite (deaf_multiUse _) ?_))
  refine Deaf.ite (deaf_multiAttach _) (Deaf.ite (deaf_multiAttach _) ?_)
  refine Deaf.ite (deaf_multiAttach _) (Deaf.ite (deaf_multiInfo _) (Deaf.ite (deaf_multiInfo _) ?_))
  refine Deaf.ite (deaf_multiInfo _) (Deaf.ite (deaf_multiRename _) (Deaf.ite (deaf_multiKill _) ?_))
  refine Deaf.ite (deaf_multiKill _) (Deaf.ite (deaf_multiSend _) (Deaf.ite (deaf_multiAll _) ?_))
  refine Deaf.ite (deaf_multiAll _) ?_
  exact Deaf.chooses fun s =>
    Within.step trivial fun _ => Within.step trivial fun _ => Within.step trivial fun _ => rfl

theorem deaf_multiHandleInputLine (line : Bytes) : Deaf (multiHandleInputLine max line) :=
  Deaf.ite (deaf_multiCommand line _) (deaf_multiPlainLine line)

theorem deaf_multiLineByte (c : UInt8) : Deaf (multiLineByte max c) := by
  refine fun s => Within.ite (fun _ => ?_) fun _ => .of_sessions rfl
  exact (deaf_multiHandleInputLine _ s).bind' fun s' hs' => hs'.trans (.of_sessions rfl)

/-- The requests that write nothing, but to the terminal. -/
def Draws : Sys → Prop
  | .write _ fd _ => fd = .stderr
  | _ => True

theorem Draws.aloof {e : Sys} (he : Draws e) (s : MultiState) : Aloof s e := by
  cases e with
  | write via fd buf =>
    subst he
    exact .inl (by simp)
  | _ => trivial

section
variable {F : Sys → Prop} (htty : ∀ n, F (.tty n)) (hout : ∀ buf, F (.write .multi .stderr buf))

include htty hout

theorem drawn_multiRedrawInput (s : MultiState) :
    Within F (multiRedrawInput s) fun _ => True := by
  refine Within.step (htty _) fun _ => Within.step (htty _) fun _ => Within.next ?_ fun _ => ?_
  · exact Within.ite (fun _ => trivial) fun _ => within_wcatFullWrite hout _
  · exact Within.ite (fun _ => within_sys (htty _)) fun _ => trivial

theorem drawn_multiHistoryLoad (up : Bool) (s : MultiState) :
    Within F (multiHistoryLoad up s) fun _ => True := by
  have hshown : ∀ s' : MultiState, Within F (multiRedrawInput s' >>= fun _ => pure s')
      fun _ => True := fun s' => Within.next (drawn_multiRedrawInput htty hout s') fun _ => trivial
  refine Within.ite (fun _ => trivial) fun _ => ?_
  cases up <;> cases s.inputHistoryPos
  · exact trivial
  · exact Within.ite (fun _ => hshown _) fun _ => hshown _
  · exact hshown _
  · exact hshown _

theorem drawn_multiHandleInputKey (key : UInt8) (s : MultiState) :
    Within F (multiHandleInputKey key s) fun _ => True := by
  have hmove : ∀ n (s' : MultiState), Within F (sys (.tty n) >>= fun _ => pure s')
      fun _ => True := fun _ _ => Within.step (htty _) fun _ => trivial
  refine Within.ite (fun _ => drawn_multiHistoryLoad htty hout true s) fun _ => ?_
  refine Within.ite (fun _ => drawn_multiHistoryLoad htty hout false s) fun _ => ?_
  refine Within.ite (fun _ => Within.ite (fun _ => hmove _ _) fun _ => trivial) fun _ => ?_
  refine Within.ite (fun _ => Within.ite (fun _ => hmove _ _) fun _ => trivial) fun _ => ?_
  refine Within.ite (fun _ => Within.ite (fun _ => hmove _ _) fun _ => trivial) fun _ => ?_
  exact Within.ite (fun _ => Within.ite (fun _ => hmove _ _) fun _ => trivial) fun _ => trivial

theorem drawn_multiEscape {c : UInt8} {s : MultiState} {p : Proc MultiState}
    (hp : multiEscape c s = some p) : Within F p fun _ => True := by
  have hkey : ∀ key state, Within F (multiHandleInputKey key s >>= fun s' =>
      pure { s' with escState := state }) fun _ => True := fun key _ =>
    Within.next (drawn_multiHandleInputKey htty hout key s) fun _ => trivial
  rw [multiEscape] at hp
  split at hp
  · exact absurd hp (by simp)
  · obtain rfl := Option.some.inj hp
    exact trivial
  · split_ifs at hp <;> obtain rfl := Option.some.inj hp
    · exact hkey c .ground
    · exact trivial
    · exact trivial
  · obtain rfl := Option.some.inj hp
    exact hkey _ .ground
  · obtain rfl := Option.some.inj hp
    refine Within.next (Within.ite (fun _ => ?_) fun _ => trivial) fun _ => trivial
    refine Within.ite (fun _ => drawn_multiHandleInputKey htty hout _ s) fun _ => ?_
    exact Within.ite (fun _ => drawn_multiHandleInputKey htty hout _ s) fun _ => trivial
  · obtain rfl := Option.some.inj hp
    exact trivial

end

theorem draws_multiRedrawInput (s : MultiState) :
    Within Draws (multiRedrawInput s) fun _ => True :=
  drawn_multiRedrawInput (fun _ => trivial) (fun _ => rfl) s

theorem deaf_multiEditorByte (c : UInt8) : Deaf (multiEditorByte max c) := by
  intro s
  have hredraw : ∀ s' : MultiState, s'.sessions = s.sessions →
      Within (Aloof s) (multiRedrawInput s' >>= fun _ => pure s') (Unheard s) := fun s' hs' =>
    Within.next ((draws_multiRedrawInput s').mono (fun _ he => he.aloof s) fun _ => id)
      fun _ => .of_sessions hs'
  rw [multiEditorByte]
  cases hesc : multiEscape c s with
  | some p =>
    refine ((drawn_multiEscape (fun _ => trivial) (fun _ => .inl (by simp)) hesc).and
      (within_multiEscape hesc)).mono (fun _ he => he.1) fun _ hs' => .of_sessions hs'.2.sessions
  | none =>
    refine Within.ite (fun _ => .of_sessions rfl) fun _ => Within.ite (fun _ => ?_) fun _ => ?_
    · refine Within.step trivial fun _ => ?_
      have hsame : Unheard s { s with
          inputHistory := multiHistorySave s.inputHistory
            (if s.input.length < multiInput then s.input ++ [chr '\n'] else s.input)
          inputHistoryPos := none } := .of_sessions rfl
      exact hsame.then ((deaf_multiHandleInputLine _ _).bind' fun s' hs' =>
        hs'.trans (.of_sessions rfl))
    refine Within.ite (fun _ => Within.ite (fun _ => ?_) fun _ => .refl s) fun _ => ?_
    · exact hredraw _ rfl
    exact Within.ite (fun _ => hredraw _ rfl) fun _ => .refl s

theorem deaf_multiAttachedByte (c : UInt8) : Deaf (multiAttachedByte i c) := by
  have hsend : ∀ texts, Deaf (multiSendTexts i texts) := by
    intro texts s
    refine Within.forEach (Unheard s) (.refl s) fun text s' hs' => hs'.then ?_
    refine (within_unheard_multiSendLine s' i text).bind' fun o ho => ?_
    cases o with
    | none => exact .refl s'
    | some s'' => exact ho s'' rfl
  intro s
  rw [multiAttachedByte_eq]
  refine (hsend _ s).bind' fun s' hs' => ?_
  refine Within.next (within_typedShown (fun _ => trivial) (fun _ => .inl (by simp)) c _ _) fun _ => ?_
  cases s.typed.detaches id c <;> exact hs'.trans (.of_sessions rfl)

/-- What the operator types is not printed, and nothing is heard from a session. -/
theorem deaf_multiTyped (max : ℕ) (mode : TypingMode) (c : UInt8) :
    Deaf fun s => multiTyped max mode c s := by
  cases mode with
  | lines => exact deaf_multiLineByte c
  | editor => exact deaf_multiEditorByte c
  | attached i => exact deaf_multiAttachedByte c

/-- **What the operator types** is not heard from a session. -/
theorem within_unheard_multiTyped (max : ℕ) (mode : TypingMode) (c : UInt8) (s : MultiState) :
    Within (fun _ => True) (multiTyped max mode c s) (Unheard s) :=
  (deaf_multiTyped max mode c s).mono (fun _ _ => trivial) fun _ => id

end

end Wirecat
