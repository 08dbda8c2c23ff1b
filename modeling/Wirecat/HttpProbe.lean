import Wirecat.Frames

/-!
# Sessions that are HTTP requests

A session whose first bytes are those of an HTTP request is printed once and closed. The
program decides it by **one** read: the first one, since no byte was counted before it, and
every one that begins when the count of 64 bits is back at zero. So what it decides on is not
the stream of the session but the pieces the stream happens to arrive in.

A run of one session is a run of the listener with the pieces that were read from it
(`Wirecat.SessionRun`); what is done for other sessions, and what the operator types, does not
count as heard from it. The rule the program follows is `Wirecat.SessionRun.rule`; what it is for
is `Wirecat.JudgedByStream`, at every moment, by the stream alone. The two agree exactly when a request
is seen whole in the first read, and not seen in a later one (`Wirecat.ProbedWhole`).
-/

namespace Wirecat

open CString Interaction

/-! ### The words of a request -/

theorem looksHttp_append {a : Bytes} (b : Bytes) (ha : multiLooksHttpRequest a = true) :
    multiLooksHttpRequest (a ++ b) = true := by
  obtain ⟨method, hmem, hp⟩ := List.any_eq_true.mp ha
  refine List.any_eq_true.mpr ⟨method, hmem, List.isPrefixOf_iff_prefix.mpr ?_⟩
  exact (List.isPrefixOf_iff_prefix.mp hp).trans (List.prefix_append a b)

/-- The longest word has 14 bytes: what follows 14 bytes does not matter. -/
theorem looksHttp_of_append {a b : Bytes} (ha : 14 ≤ a.length)
    (hab : multiLooksHttpRequest (a ++ b) = true) : multiLooksHttpRequest a = true := by
  have hshort : ∀ method ∈ ["GET ", "POST ", "HEAD ", "PUT ", "DELETE ", "OPTIONS ", "PATCH ",
      "TRACE ", "CONNECT ", "PRI * HTTP/2.0"], (lit method).length ≤ 14 := by decide
  obtain ⟨method, hmem, hp⟩ := List.any_eq_true.mp hab
  refine List.any_eq_true.mpr ⟨method, hmem, List.isPrefixOf_iff_prefix.mpr ?_⟩
  exact List.prefix_of_prefix_length_le (List.isPrefixOf_iff_prefix.mp hp) (List.prefix_append a b)
    ((hshort method hmem).trans ha)

/-! ### Pieces of a stream -/

/-- **The rule of the program**: a session is closed by the piece that begins where the count is
zero, if that piece begins with a word of a request. -/
def ByTheRule (pieces : List Bytes) (closed : Bool) : Prop :=
  ∀ pre c post, pieces = pre ++ c :: post →
    (pre.flatten.length % 2 ^ 64 = 0 ∧ multiLooksHttpRequest c = true ↔ closed = true ∧ post = [])

/-- **What the rule is for**: the session is closed when its stream begins with a word of a request,
and it was not while the stream did not. -/
structure JudgedByStream (pieces : List Bytes) (closed : Bool) : Prop where
  before : ∀ read, read <+: pieces → read ≠ pieces → multiLooksHttpRequest read.flatten = false
  now : closed = multiLooksHttpRequest pieces.flatten

/-- A request is seen whole in the first piece, and no other piece is taken for one. -/
structure ProbedWhole (pieces : List Bytes) : Prop where
  first : multiLooksHttpRequest pieces.flatten = true →
    multiLooksHttpRequest (pieces.headD []) = true
  wrapped : ∀ pre c post, pieces = pre ++ c :: post → pre ≠ [] → pre.flatten.length % 2 ^ 64 = 0 →
    multiLooksHttpRequest c = false

theorem flatten_length_pos {pre : List Bytes} (hpre : pre ≠ []) (hne : ∀ c ∈ pre, c ≠ []) :
    0 < pre.flatten.length := by
  obtain ⟨c, pre, rfl⟩ := List.exists_cons_of_ne_nil hpre
  have hpos := List.length_pos_iff.mpr (hne c List.mem_cons_self)
  rw [List.flatten_cons, List.length_append]
  omega

/-- A session that is judged by its stream is not closed by a later piece. -/
theorem JudgedByStream.not_later {pieces pre post : List Bytes} {c : Bytes} {closed : Bool}
    (hj : JudgedByStream pieces closed) (hrule : ByTheRule pieces closed) (hne : ∀ c ∈ pieces, c ≠ [])
    (heq : pieces = pre ++ c :: post) (hpre : pre ≠ []) (hzero : pre.flatten.length % 2 ^ 64 = 0) :
    multiLooksHttpRequest c = false := by
  by_contra hlooks
  obtain ⟨hclosed, rfl⟩ := (hrule pre c post heq).mp ⟨hzero, Bool.not_eq_false _ ▸ hlooks⟩
  have hpos := flatten_length_pos hpre fun d hd => hne d (heq ▸ List.mem_append_left _ hd)
  -- so much was read before that the stream looked like a request already
  have hlong : 14 ≤ pre.flatten.length := by omega
  have hnow : multiLooksHttpRequest (pre.flatten ++ c) = true := by
    rw [← hclosed, hj.now, heq]
    simp
  have hbefore := hj.before pre (heq ▸ List.prefix_append _ _) (by rw [heq]; simp)
  exact absurd (looksHttp_of_append hlong hnow) (by simp [hbefore])

/-- **When the rule judges by the stream.** -/
theorem judgedByStream_iff_probedWhole {pieces : List Bytes} {closed : Bool} (hrule : ByTheRule pieces closed)
    (hopen : pieces = [] → closed = false) (hne : ∀ c ∈ pieces, c ≠ []) :
    JudgedByStream pieces closed ↔ ProbedWhole pieces := by
  constructor
  · intro hj
    refine ⟨fun hlooks => ?_, fun pre c post heq hpre hzero => hj.not_later hrule hne heq hpre hzero⟩
    rcases List.eq_nil_or_concat pieces with rfl | ⟨pre, c, heq⟩
    · exact absurd hlooks (by decide)
    · rw [List.concat_eq_append] at heq
      have hclosed : closed = true := hj.now.trans hlooks
      obtain ⟨hzero, hc⟩ := (hrule pre c [] heq).mpr ⟨hclosed, rfl⟩
      rcases eq_or_ne pre [] with rfl | hpre
      · rw [heq]
        exact hc
      · exact absurd (hj.not_later hrule hne heq hpre hzero) (by simp [hc])
  · intro hw
    cases pieces with
    | nil =>
      refine ⟨fun read hread hneq => absurd (List.prefix_nil.mp hread) hneq, ?_⟩
      rw [hopen rfl]
      decide
    | cons c pieces =>
      have hfirst := hrule [] c pieces rfl
      cases hc : multiLooksHttpRequest c with
      | true =>
        obtain ⟨hclosed, rfl⟩ := hfirst.mp ⟨rfl, hc⟩
        refine ⟨fun read hread hneq => ?_, ?_⟩
        · rcases List.prefix_cons_iff.mp hread with rfl | ⟨t, rfl, ht⟩
          · decide
          · exact absurd (by rw [List.prefix_nil.mp ht]) hneq
        · rw [hclosed, List.flatten_singleton, hc]
      | false =>
        have hstream : multiLooksHttpRequest (c :: pieces).flatten = false := by
          by_contra hlooks
          have := hw.first (Bool.not_eq_false _ ▸ hlooks)
          rw [List.headD_cons, hc] at this
          exact absurd this (by simp)
        refine ⟨fun read hread _ => ?_, ?_⟩
        · by_contra hlooks
          obtain ⟨more, hmore⟩ := hread
          have hall := looksHttp_append more.flatten (Bool.not_eq_false _ ▸ hlooks)
          rw [← List.flatten_append, hmore, hstream] at hall
          exact absurd hall (by simp)
        · rw [hstream]
          by_contra hclosed
          -- the last piece closed the session, but it is not the first
          obtain ⟨pre, d, heq⟩ := List.eq_nil_or_concat (c :: pieces) |>.resolve_left (by simp)
          rw [List.concat_eq_append] at heq
          obtain ⟨hzero, hd⟩ := (hrule pre d [] heq).mpr ⟨Bool.not_eq_false _ ▸ hclosed, rfl⟩
          rcases eq_or_ne pre [] with rfl | hpre
          · obtain ⟨rfl, -⟩ := List.cons.inj heq
            rw [hc] at hd
            exact absurd hd (by simp)
          · rw [hw.wrapped pre d [] heq hpre hzero] at hd
            exact absurd hd (by simp)

/-! ### Reading from a session -/

/-- The read of `Wirecat.multiRead`, again while it is interrupted. -/
def multiReceive (fd : Fd) : Proc (ReadRes multiBufsize) :=
  Prog.loop (fun _ => do
    match ← sys (.read .multi fd multiBufsize 0 multiBufsize) with
    | .error .eintr => pure (.inl ())
    | r => pure (.inr r)) ()

/-- What is done with a piece that was read from the session in slot `i`. -/
def multiPiece (cfg : Config) (interactive : Bool) (max i : ℕ) (c : Bytes) (s : MultiState) :
    Proc (Except MultiState MultiState) :=
  if (s.sessions i).rxBytes = 0 ∧ multiLooksHttpRequest c then multiHttp cfg interactive max i c s
  else multiData cfg interactive i c s

theorem multiRead_eq (cfg : Config) (interactive : Bool) (max i : ℕ) (fd : Fd) (s : MultiState) :
    multiRead cfg interactive max i fd s = multiReceive fd >>= fun r => match r with
      | .error _ | .eof => multiLeave max i s >>= fun s => pure (.ok s)
      | .data c _ _ => multiPiece cfg interactive max i c s := by
  refine congrArg (multiReceive fd >>= ·) (funext fun r => ?_)
  cases r <;> rfl

/-- The run from `h` to `h'` begins with a read of `c` from `fd`. -/
def Reads (fd : Fd) (c : Bytes) (h h' : Hist) : Prop :=
  ∃ hne hle h₁, Runs Legal (multiReceive fd) h h₁ (some (.data c hne hle)) ∧ h₁ <:+ h'

/-- Reading asks for something. -/
theorem multiReceive_asks {fd : Fd} {h h₁ : Hist} {r : ReadRes multiBufsize}
    (hr : Runs Legal (multiReceive fd) h h₁ (some r)) :
    ∃ r, ⟨.read .multi fd multiBufsize 0 multiBufsize, r⟩ :: h <:+ h₁ := by
  obtain ⟨o, h₂, hround, hrest⟩ := runs_loop.mp hr
  obtain ⟨answer, -, hanswer⟩ := runs_ask.mp hround
  refine ⟨answer, hanswer.suffix.trans ?_⟩
  cases o with
  | inl _ => exact hrest.suffix
  | inr _ => exact hrest.1 ▸ List.suffix_refl _

section
variable {cfg : Config} {interactive : Bool} {max i : ℕ} {polled : List (PollFd × Revents)}
  {s : MultiState} {fd : Fd} {h h' : Hist} {r : Except MultiState MultiState}

/-- The slot is free once its session is gone. -/
theorem fd_of_closed {s s' : MultiState} (hs : s' = s.set i multiSessionInit) :
    ((s'.repairGone max).sessions i).fd = none := by
  rw [hs, MultiState.repairGone]
  split_ifs <;> simp [MultiState.set, multiSessionInit]

theorem within_gone_multiLeave (s : MultiState) :
    Within Prints (multiLeave max i s) fun s' => (s'.sessions i).fd = none := by
  refine Within.step trivial fun _ => (within_multiSessionClose _ i).bind' fun s' hs' => ?_
  exact Within.ite (fun _ => Within.step trivial fun _ => fd_of_closed hs') fun _ => fd_of_closed hs'

/-- A run of `Wirecat.multiReceive`, or of nothing. -/
def Receives (fd : Fd) (h h₁ : Hist) : Prop :=
  h₁ = h ∨ ∃ answer, Runs Legal (multiReceive fd) h h₁ (some answer)

/-- **What is done for a slot in use**: nothing, or its session leaves, or a piece is read. -/
theorem runs_multiSlot_parts (hfd : (s.sessions i).fd = some fd)
    (hr : Runs Legal (multiSlot cfg interactive max polled i s) h h' (some r)) :
    (slotState r = s ∧ h' = h) ∨
      (∃ h₁ s', Receives fd h h₁ ∧ r = .ok s' ∧ Runs Legal (multiLeave max i s) h₁ h' (some s') ∧
        ∀ c, ¬Reads fd c h h') ∨
      ∃ c hne hle h₁, Runs Legal (multiReceive fd) h h₁ (some (.data c hne hle)) ∧
        Runs Legal (multiPiece cfg interactive max i c s) h₁ h' (some r) := by
  rw [multiSlot, hfd] at hr
  dsimp only at hr
  split at hr
  · obtain ⟨rfl, rfl⟩ := runs_pure.mp hr
    exact .inl ⟨rfl, rfl⟩
  · rename_i revents hpolled
    by_cases herr : (revents.pollerr || revents.pollnval) = true
    · rw [if_pos herr] at hr
      obtain ⟨s', h₂, hleave, hret⟩ := runs_bind_some'.mp hr
      obtain ⟨rfl, rfl⟩ := runs_pure.mp hret
      refine .inr (.inl ⟨h, s', .inl rfl, rfl, hleave, ?_⟩)
      -- the first thing asked for is a line of the log
      rintro c ⟨hne, hle, h₁, hread, hsuf⟩
      obtain ⟨answer, hanswer⟩ := multiReceive_asks hread
      obtain ⟨_, -, hrest⟩ := runs_ask.mp hleave
      exact absurd (congrArg Sigma.fst (event_unique (hanswer.trans hsuf) hrest.suffix)) (by simp)
    rw [if_neg herr] at hr
    by_cases hready : (revents.pollin || revents.pollhup) = true
    · rw [if_pos hready, multiRead_eq] at hr
      obtain ⟨answer, h₁, hread, hrest⟩ := runs_bind_some'.mp hr
      have hleft : (∀ c hne hle, answer ≠ .data c hne hle) →
          Runs Legal (multiLeave max i s >>= fun s => pure (Except.ok s)) h₁ h' (some r) →
          ∃ h₁ s', Receives fd h h₁ ∧ r = .ok s' ∧ Runs Legal (multiLeave max i s) h₁ h' (some s') ∧
            ∀ c, ¬Reads fd c h h' := by
        intro hanswer hrun
        obtain ⟨s', h₂, hleave, hret⟩ := runs_bind_some'.mp hrun
        obtain ⟨rfl, rfl⟩ := runs_pure.mp hret
        refine ⟨h₁, s', .inr ⟨answer, hread⟩, rfl, hleave, ?_⟩
        rintro c ⟨hne, hle, h₂, hread', hsuf⟩
        exact hanswer c hne hle (hread.unique hread' hrest.suffix hsuf).2
      cases answer with
      | error e => exact .inr (.inl (hleft (by simp) hrest))
      | eof => exact .inr (.inl (hleft (by simp) hrest))
      | data c hne hle => exact .inr (.inr ⟨c, hne, hle, h₁, hread, hrest⟩)
    · rw [if_neg hready] at hr
      obtain ⟨rfl, rfl⟩ := runs_pure.mp hr
      exact .inl ⟨rfl, rfl⟩

/-- The same, with what becomes of the session. -/
theorem runs_multiSlot_live (hfd : (s.sessions i).fd = some fd)
    (hr : Runs Legal (multiSlot cfg interactive max polled i s) h h' (some r)) :
    (slotState r = s ∧ h' = h) ∨
      (((slotState r).sessions i).fd = none ∧ ∀ c, ¬Reads fd c h h') ∨
      ∃ c h₁, c ≠ [] ∧ Reads fd c h h' ∧
        Runs Legal (multiPiece cfg interactive max i c s) h₁ h' (some r) := by
  rcases runs_multiSlot_parts hfd hr with hsame | hleft | ⟨c, hne, hle, h₁, hread, hrest⟩
  · exact .inl hsame
  · obtain ⟨h₁, s', -, rfl, hleave, hno⟩ := hleft
    exact .inr (.inl ⟨(within_gone_multiLeave s).result hleave, hno⟩)
  · exact .inr (.inr ⟨c, h₁, hne, ⟨hne, hle, h₁, hread, hrest.suffix⟩, hrest⟩)

/-- Only one piece is read. -/
theorem Reads.unique {c c' : Bytes} (hread : Reads fd c h h') (hread' : Reads fd c' h h') : c = c' := by
  obtain ⟨hne, hle, h₁, hrun, hsuf⟩ := hread
  obtain ⟨hne', hle', h₂, hrun', hsuf'⟩ := hread'
  have heq := (hrun.unique hrun' hsuf hsuf').2
  injection heq

/-- A run that asks for nothing reads nothing. -/
theorem not_reads_self (c : Bytes) : ¬Reads fd c h h := by
  rintro ⟨hne, hle, h₁, hrun, hsuf⟩
  obtain ⟨answer, hanswer⟩ := multiReceive_asks hrun
  have hlen := (hanswer.trans hsuf).length_le
  simp at hlen

/-- Printing leaves the descriptor and the count alone. -/
theorem within_count_multiOutput (buf : Bytes) (s : MultiState) :
    Within Prints (multiOutput i buf s) fun r =>
      (r.1.sessions i).fd = (s.sessions i).fd ∧ (r.1.sessions i).rxBytes = (s.sessions i).rxBytes := by
  refine Within.ite (fun _ => ?_) fun _ => ?_
  · refine (within_multiWriteAttachedOutput buf s.echoPending).footprint.next fun echo => ?_
    cases echo <;> simp [MultiState.set]
  · refine (within_multiWriteOutput (s.sessions i) buf).bind' ?_
    rintro ⟨_, ok⟩ ⟨b, rfl⟩
    simp [MultiState.set]

/-- A piece that is no request is counted. -/
theorem within_count_multiData (c : Bytes) :
    Within Prints (multiData cfg interactive i c s) fun r =>
      ((slotState r).sessions i).fd = (s.sessions i).fd ∧
        ((slotState r).sessions i).rxBytes = ((s.sessions i).rxBytes + c.length) % 2 ^ 64 := by
  refine Within.next (Within.optional trivial) fun _ => Within.next (Within.optional trivial) fun _ => ?_
  refine (within_count_multiOutput c _).bind' ?_
  rintro ⟨s₁, ok⟩ ⟨hfd, hrx⟩
  have hcounted : (s₁.sessions i).fd = (s.sessions i).fd ∧
      (s₁.sessions i).rxBytes = ((s.sessions i).rxBytes + c.length) % 2 ^ 64 := by
    simpa [MultiState.set] using And.intro hfd hrx
  refine Within.ite (fun _ => ?_) fun _ => Within.next (Within.ite (fun _ => ?_) fun _ => trivial)
    fun _ => hcounted
  · exact (within_multiOutputFailed s₁).post_mono (by rintro _ rfl; exact hcounted)
  · exact Within.next (Within.optional trivial) fun _ => within_multiRedrawInput s₁

/-- A request is closed, when it could be printed. -/
theorem within_gone_multiHttp (c : Bytes) :
    Within Prints (multiHttp cfg interactive max i c s) fun r =>
      ∀ s', r = .ok s' → (s'.sessions i).fd = none := by
  refine Within.next (Within.optional trivial) fun _ => Within.next (Within.optional trivial) fun _ => ?_
  refine (within_count_multiOutput c _).footprint.next ?_
  rintro ⟨s₁, ok⟩
  refine Within.ite (fun _ => ?_) fun _ => Within.step trivial fun _ => ?_
  · exact (within_multiOutputFailed _).post_mono (by rintro _ rfl _ ⟨⟩)
  refine (within_multiSessionClose _ i).bind' fun s₂ hs₂ => ?_
  refine Within.next (Within.ite (fun _ => ?_) fun _ => ?_) fun _ => ?_
  · exact Within.next (Within.optional trivial) fun _ => within_multiRedrawInput _
  · exact Within.optional trivial
  · rintro _ ⟨⟩
    exact fd_of_closed hs₂

end

/-! ### The run of a session -/

variable {cfg : Config} {interactive : Bool} {listener : Fd} {i : ℕ} {fd : Fd}

variable (cfg interactive listener i fd) in
/-- **A run of the session in slot `i`**, with the pieces that were read from it and whether the last
of them closed it. Each was printed; when that fails the listener stops. Between two pieces anything may
happen, as long as the session stays. -/
inductive SessionRun (x₀ : MultiPoint) : List Bytes → Bool → MultiPoint → Prop
  /-- Nothing was read yet. -/
  | start : SessionRun x₀ [] false x₀
  /-- A piece is read. -/
  | piece {pieces : List Bytes} {x y : MultiPoint} {c : Bytes} {polled : List (PollFd × Revents)}
      (hx : SessionRun x₀ pieces false x) (hphase : x.phase = .serving i polled)
      (hstep : MultiStep cfg interactive listener x y) (hread : Reads fd c x.hist y.hist)
      (hprinted : y.phase = .serving (i + 1) polled) :
      SessionRun x₀ (pieces ++ [c]) (y.state.sessions i).fd.isNone y
  /-- Something else happens. -/
  | other {pieces : List Bytes} {x y : MultiPoint} (hx : SessionRun x₀ pieces false x)
      (hstep : MultiStep cfg interactive listener x y)
      (hnone : ∀ polled c, x.phase = .serving i polled → ¬Reads fd c x.hist y.hist)
      (hfd : (y.state.sessions i).fd = some fd) : SessionRun x₀ pieces false y

/-- A step in which nothing is read from the session leaves its count alone. -/
theorem MultiStep.count {x y : MultiPoint} (hstep : MultiStep cfg interactive listener x y)
    (hfd : (x.state.sessions i).fd = some fd) (hfd' : (y.state.sessions i).fd = some fd)
    (hnone : ∀ polled c, x.phase = .serving i polled → ¬Reads fd c x.hist y.hist) :
    (y.state.sessions i).rxBytes = (x.state.sessions i).rxBytes := by
  have hslot : ∀ {s h h'} {k : ℕ} {polled : List (PollFd × Revents)}
      {r : Except MultiState MultiState}, (s.sessions i).fd = some fd →
      ((slotState r).sessions i).fd = some fd →
      (k = i → ∀ c, ¬Reads fd c h h') →
      Runs Legal (multiSlot cfg interactive cfg.brokerMaxClients.toNat polled k s) h h' (some r) →
      ((slotState r).sessions i).rxBytes = (s.sessions i).rxBytes := by
    intro s h h' k polled r hfd hfd' hnone hr
    rcases eq_or_ne i k with rfl | hk
    · rcases runs_multiSlot_live hfd hr with ⟨heq, -⟩ | ⟨hgone, -⟩ | ⟨c, h₁, -, hread, -⟩
      · rw [heq]
      · exact absurd (hgone.symm.trans hfd') (by simp)
      · exact absurd hread (hnone rfl c)
    · rw [(within_slotFrame (slotFrame_session hk) _ _ _ _).result hr]
  cases hstep with
  | idle hr => rw [runs_multiWait hr]
  | accept hw hr =>
    rcases runs_multiGreet hr with rfl | ⟨k, peer, -, hfree, rfl⟩
    · rfl
    · have hk : i ≠ k := by
        rintro rfl
        exact absurd (hfree.symm.trans hfd) (by simp)
      simp [MultiState.join, MultiState.set, hk]
  | quiet => rfl
  | vanished hm hr => rw [runs_multiVanished hr]
  | read hm hr => rfl
  | @typed s s' h h' mode c rest polled hr =>
    rcases (within_unheard_multiTyped _ mode c s).result hr i with hgone | ⟨-, -, hrx, -⟩
    · exact absurd (hgone.symm.trans hfd') (by simp)
    · exact hrx
  | typedAll => rfl
  | @slot s s' h h' k polled hi hr =>
    exact hslot (r := .ok s') hfd hfd' (by rintro rfl c; exact hnone _ c rfl) hr
  | @broken s s' h h' k polled hi hr =>
    exact hslot (r := .error s') hfd hfd' (by rintro rfl c; exact hnone _ c rfl) hr
  | served => rfl

/-- **What a piece does**: the session is closed if nothing was counted before it and it looks like a
request, and otherwise the piece is counted. -/
theorem MultiStep.piece {x y : MultiPoint} {c : Bytes} {polled : List (PollFd × Revents)}
    (hstep : MultiStep cfg interactive listener x y) (hfd : (x.state.sessions i).fd = some fd)
    (hphase : x.phase = .serving i polled) (hread : Reads fd c x.hist y.hist)
    (hprinted : y.phase = .serving (i + 1) polled) : c ≠ [] ∧
      if (x.state.sessions i).rxBytes = 0 ∧ multiLooksHttpRequest c then
        (y.state.sessions i).fd = none
      else (y.state.sessions i).fd = some fd ∧ (y.state.sessions i).rxBytes =
        ((x.state.sessions i).rxBytes + c.length) % 2 ^ 64 := by
  obtain ⟨s, h, _⟩ := x
  obtain rfl : _ = _ := hphase
  cases hstep with
  | slot hi hr =>
    rcases runs_multiSlot_live hfd hr with ⟨-, rfl⟩ | ⟨-, hno⟩ | ⟨c', h₁, hne, hread', hpiece⟩
    · exact absurd hread (not_reads_self c)
    · exact absurd hread (hno c)
    · obtain rfl := hread.unique hread'
      refine ⟨hne, ?_⟩
      rw [multiPiece] at hpiece
      split_ifs at hpiece ⊢ with hhttp
      · exact (within_gone_multiHttp c).result hpiece _ rfl
      · have hcount := (within_count_multiData c).result hpiece
        exact ⟨hcount.1.trans hfd, hcount.2⟩
  | broken hi hr => cases hprinted
  | served => cases hprinted

/-- **The program follows the rule.** -/
theorem SessionRun.rule {x₀ y : MultiPoint} {pieces : List Bytes} {closed : Bool}
    (hrun : SessionRun cfg interactive listener i fd x₀ pieces closed y)
    (hfd : (x₀.state.sessions i).fd = some fd) (hrx : (x₀.state.sessions i).rxBytes = 0) :
    ByTheRule pieces closed ∧ (∀ c ∈ pieces, c ≠ []) ∧ (closed = false →
      (y.state.sessions i).fd = some fd ∧
        (y.state.sessions i).rxBytes = pieces.flatten.length % 2 ^ 64) := by
  induction hrun with
  | start =>
    refine ⟨fun pre c post heq => absurd heq (by simp), by simp, fun _ => ⟨hfd, ?_⟩⟩
    rw [hrx]
    rfl
  | @piece pieces x y c polled hx hphase hstep hread hprinted ih =>
    obtain ⟨hrule, hne, hopen⟩ := ih
    obtain ⟨hfdx, hrxx⟩ := hopen rfl
    obtain ⟨hc, hpiece⟩ := hstep.piece hfdx hphase hread hprinted
    rw [hrxx] at hpiece
    refine ⟨?_, ?_, ?_⟩
    · intro pre d post heq
      rcases List.eq_nil_or_concat post with rfl | ⟨post, e, rfl⟩
      · -- the piece that was read last
        obtain ⟨rfl, hd⟩ := List.append_inj' heq rfl
        obtain rfl := List.singleton_inj.mp hd
        split_ifs at hpiece with hhttp
        · exact iff_of_true hhttp ⟨by rw [hpiece]; rfl, rfl⟩
        · exact iff_of_false hhttp fun h => by simp [hpiece.1] at h
      · rw [List.concat_eq_append, ← List.cons_append, ← List.append_assoc] at heq
        obtain ⟨heq, -⟩ := List.append_inj' heq rfl
        have hold := hrule pre d post heq
        simp only [Bool.false_eq_true, false_and, iff_false] at hold
        exact iff_of_false hold fun h => by simp at h
    · intro d hd
      rcases List.mem_append.mp hd with hd | hd
      · exact hne d hd
      · exact List.mem_singleton.mp hd ▸ hc
    · intro hclosed
      split_ifs at hpiece with hhttp
      · rw [hpiece] at hclosed
        exact absurd hclosed (by simp)
      · refine ⟨hpiece.1, ?_⟩
        rw [hpiece.2, List.flatten_append, List.flatten_singleton, List.length_append, Nat.mod_add_mod]
  | @other pieces x y hx hstep hnone hfdy ih =>
    obtain ⟨hrule, hne, hopen⟩ := ih
    obtain ⟨hfdx, hrxx⟩ := hopen rfl
    exact ⟨hrule, hne, fun _ => ⟨hfdy, (hstep.count hfdx hfdy hnone).trans hrxx⟩⟩

/-- **When the closing of a session depends on its stream only**: when a request is seen whole in the
first read, and no read that begins where the count wraps is taken for one. -/
theorem judgedByStream_iff {x₀ y : MultiPoint} {pieces : List Bytes} {closed : Bool}
    (hrun : SessionRun cfg interactive listener i fd x₀ pieces closed y)
    (hfd : (x₀.state.sessions i).fd = some fd) (hrx : (x₀.state.sessions i).rxBytes = 0) :
    JudgedByStream pieces closed ↔ ProbedWhole pieces := by
  obtain ⟨hrule, hne, -⟩ := hrun.rule hfd hrx
  refine judgedByStream_iff_probedWhole hrule ?_ hne
  intro hnil
  cases hrun with
  | start => rfl
  | piece hx hphase hstep hread hprinted => simp at hnil
  | other hx hstep hnone hfdy => rfl

/-! ### The run of a session, evaluated -/

/-- The piece an event reads. -/
def pieceOf (fd : Fd) : Ev → Option Bytes
  | ⟨.read .multi fd' cap off len, .data c _ _⟩ =>
      if fd' = fd ∧ cap = multiBufsize ∧ off = 0 ∧ len = multiBufsize then some c else none
  | _ => none

/-- The piece a step begins with. -/
def stepPiece (fd : Fd) (x y : MultiPoint) : Option Bytes :=
  (y.hist.reverse[x.hist.length]?).bind (pieceOf fd)

theorem reads_of_stepPiece {x y : MultiPoint} {c : Bytes} (hsuf : x.hist <:+ y.hist)
    (hc : stepPiece fd x y = some c) : Reads fd c x.hist y.hist := by
  obtain ⟨ev, hev, hpiece⟩ := Option.bind_eq_some_iff.mp hc
  obtain ⟨new, hnew⟩ := hsuf
  have hsuf' : ev :: x.hist <:+ y.hist := by
    rw [← hnew, List.reverse_append, List.getElem?_append_right (by simp), List.length_reverse,
      Nat.sub_self, ← List.head?_eq_getElem?, List.head?_reverse] at hev
    obtain ⟨older, rfl⟩ := List.getLast?_eq_some_iff.mp hev
    exact ⟨older, by rw [← hnew]; simp⟩
  rw [pieceOf.eq_def] at hpiece
  split at hpiece
  · rename_i fd' cap off len c' hne hle
    split_ifs at hpiece with hread
    obtain ⟨rfl, rfl, rfl, rfl⟩ := hread
    obtain rfl := Option.some.inj hpiece
    refine ⟨hne, hle, _, ?_, hsuf'⟩
    refine runs_loop.mpr ⟨.inr (.data c' hne hle), _, runs_ask.mpr ⟨.data c' hne hle, ?_, ?_⟩, rfl, rfl⟩
    · exact ⟨by simp [opens], by simp [opens], trivial⟩
    · exact runs_pure.mpr ⟨rfl, rfl⟩
  · cases hpiece

/-- The slot that is served, and what `poll` reported. -/
def MultiPhase.slot : MultiPhase → Option (ℕ × List (PollFd × Revents))
  | .serving i polled => some (i, polled)
  | _ => none

theorem MultiPhase.slot_eq_some {phase : MultiPhase} {polled : List (PollFd × Revents)}
    (hp : phase.slot = some (i, polled)) : phase = .serving i polled := by
  cases phase with
  | serving =>
    obtain ⟨rfl, rfl⟩ := Prod.mk.inj (Option.some.inj hp)
    rfl
  | _ => cases hp

variable (cfg interactive listener i fd) in
/-- The run of the session over `n` steps against `env`: the pieces, whether it was closed, and the
point that is reached. -/
def sessionAdvances (env : Hist → (e : Sys) → Resp e) (x₀ : MultiPoint) :
    ℕ → Option (List Bytes × Bool × MultiPoint)
  | 0 => some ([], false, x₀)
  | n + 1 =>
      match sessionAdvances env x₀ n with
      | some (pieces, false, x) =>
          (x.advance cfg interactive listener env 1000).bind fun y =>
            match x.phase.slot, stepPiece fd x y with
            | some (j, polled), some c =>
                if j = i ∧ y.phase.slot = some (i + 1, polled) then
                  some (pieces ++ [c], (y.state.sessions i).fd.isNone, y)
                else none
            | some (j, _), none =>
                if j ≠ i ∧ (y.state.sessions i).fd = some fd then some (pieces, false, y) else none
            | none, _ => if (y.state.sessions i).fd = some fd then some (pieces, false, y) else none
      | _ => none

theorem sessionRun_advances {env : Hist → (e : Sys) → Resp e} (henv : ∀ h e, Legal h e (env h e))
    {x₀ y : MultiPoint} {n : ℕ} {pieces : List Bytes} {closed : Bool}
    (hx : sessionAdvances cfg interactive listener i fd env x₀ n = some (pieces, closed, y)) :
    SessionRun cfg interactive listener i fd x₀ pieces closed y := by
  induction n generalizing pieces closed y with
  | zero =>
    obtain ⟨rfl, h⟩ := Prod.mk.inj (Option.some.inj hx)
    obtain ⟨rfl, rfl⟩ := Prod.mk.inj h
    exact .start
  | succ n ih =>
    rw [sessionAdvances] at hx
    split at hx
    · rename_i read x hprev
      obtain ⟨z, hadvance, hx⟩ := Option.bind_eq_some_iff.mp hx
      have hstep := MultiPoint.advance_step henv hadvance
      split at hx
      · rename_i j polled c hslot hpiece
        split_ifs at hx with hserved
        obtain ⟨rfl, hserved⟩ := hserved
        obtain ⟨rfl, h⟩ := Prod.mk.inj (Option.some.inj hx)
        obtain ⟨rfl, rfl⟩ := Prod.mk.inj h
        exact .piece (ih hprev) (MultiPhase.slot_eq_some hslot) hstep
          (reads_of_stepPiece hstep.suffix hpiece) (MultiPhase.slot_eq_some hserved)
      · rename_i j polled hslot hpiece
        split_ifs at hx with hkept
        obtain ⟨rfl, h⟩ := Prod.mk.inj (Option.some.inj hx)
        obtain ⟨rfl, rfl⟩ := Prod.mk.inj h
        refine .other (ih hprev) hstep (fun polled' c hphase => ?_) hkept.2
        rw [hphase] at hslot
        exact absurd (Prod.mk.inj (Option.some.inj hslot)).1.symm hkept.1
      · rename_i hslot
        split_ifs at hx with hkept
        obtain ⟨rfl, h⟩ := Prod.mk.inj (Option.some.inj hx)
        obtain ⟨rfl, rfl⟩ := Prod.mk.inj h
        refine .other (ih hprev) hstep (fun polled' c hphase => ?_) hkept
        rw [hphase] at hslot
        cases hslot
    · cases hx

/-- A peer joins, and sends these pieces. -/
def probeScript (pieces : List Bytes) (h : Hist) : (e : Sys) → Resp e
  | .stop => false
  | .poll fds _ => .reporting fds (
      if pollCount h = 0 then [{ pollin := true }, .none] else [.none, .none, { pollin := true }])
  | .accept _ => .ok 7
  | .read _ (.conn .tcp 7) _ _ len =>
      let c := pieces.getD (pollCount h - 2) []
      if hb : c ≠ [] ∧ c.length ≤ len then .data c hb.1 hb.2 else .eof
  | .write _ _ buf => WriteRes.all buf
  | e => refuse e

/-- The point where the first piece is to be read. -/
def probePoint (pieces : List Bytes) : Option MultiPoint :=
  MultiPoint.advances oneSession false (.sock .tcp 3) (lawful (probeScript pieces)) 1000 6
    (multiStart [])

/-- These pieces are read from the session within `n` steps, and it is closed by the last, or not. -/
def probes (pieces : List Bytes) (n : ℕ) (closed : Bool) : Bool :=
  (probePoint pieces).any fun x =>
    (x.state.sessions 0).fd = some (.conn .tcp 7) && (x.state.sessions 0).rxBytes = 0 &&
      (sessionAdvances oneSession false (.sock .tcp 3) 0 (.conn .tcp 7)
        (lawful (probeScript pieces)) x n).any fun r => r.1 = pieces && r.2.1 = closed

theorem exists_sessionRun {pieces : List Bytes} {n : ℕ} {closed : Bool}
    (hx : probes pieces n closed = true) : ∃ x₀ y,
      MultiSteps oneSession false (.sock .tcp 3) (multiStart []) x₀ ∧
      (x₀.state.sessions 0).fd = some (.conn .tcp 7) ∧ (x₀.state.sessions 0).rxBytes = 0 ∧
      SessionRun oneSession false (.sock .tcp 3) 0 (.conn .tcp 7) x₀ pieces closed y := by
  obtain ⟨x₀, hx₀, hx⟩ := (Option.any_eq_true _ _).mp hx
  rw [Bool.and_eq_true, Bool.and_eq_true, decide_eq_true_eq, decide_eq_true_eq] at hx
  obtain ⟨⟨hfd, hrx⟩, hx⟩ := hx
  obtain ⟨⟨read, c, y⟩, hrun, hx⟩ := (Option.any_eq_true _ _).mp hx
  rw [Bool.and_eq_true, decide_eq_true_eq, decide_eq_true_eq] at hx
  obtain ⟨rfl, rfl⟩ := hx
  exact ⟨x₀, y, MultiPoint.advances_steps (legal_lawful _) hx₀, hfd, hrx,
    sessionRun_advances (legal_lawful _) hrun⟩

/-- A request that arrives in one piece is judged by its stream. -/
theorem judgedByStream_request : ∃ x₀ y,
    SessionRun oneSession false (.sock .tcp 3) 0 (.conn .tcp 7) x₀ [lit "GET / HTTP/1.0"] true y ∧
    JudgedByStream [lit "GET / HTTP/1.0"] true := by
  obtain ⟨x₀, y, -, hfd, hrx, hrun⟩ :=
    @exists_sessionRun [lit "GET / HTTP/1.0"] 1 true (by decide +kernel)
  refine ⟨x₀, y, hrun, (judgedByStream_iff hrun hfd hrx).mpr ⟨fun _ => by decide, ?_⟩⟩
  intro pre c post heq hpre _
  have hlen := congrArg List.length heq
  have hpos := List.length_pos_iff.mpr hpre
  simp only [List.length_append, List.length_cons, List.length_nil] at hlen
  omega

/-- **A request that arrives in two pieces** is not closed. -/
theorem not_judgedByStream : ∃ x₀ y, MultiSteps oneSession false (.sock .tcp 3) (multiStart []) x₀ ∧
    (x₀.state.sessions 0).fd = some (.conn .tcp 7) ∧ (x₀.state.sessions 0).rxBytes = 0 ∧
    SessionRun oneSession false (.sock .tcp 3) 0 (.conn .tcp 7) x₀
      [lit "GE", lit "T / HTTP/1.0"] false y ∧
    ¬JudgedByStream [lit "GE", lit "T / HTTP/1.0"] false := by
  obtain ⟨x₀, y, hreach, hfd, hrx, hrun⟩ :=
    @exists_sessionRun [lit "GE", lit "T / HTTP/1.0"] 5 false (by decide +kernel)
  refine ⟨x₀, y, hreach, hfd, hrx, hrun, fun hj => ?_⟩
  exact absurd hj.now (by decide)

end Wirecat
