import Wirecat.IdleTimeout
import Wirecat.RelayRun
import Wirecat.Written

/-!
# What a relay does with the events of a poll

A condition of a descriptor is reported by `poll` as long as it lasts. A loop that neither reads
from the descriptor nor returns finds it again at once, and goes round without making progress and
without ever coming to its timeout.

The relay reads from a stream that is readable or hung up, and passes over one with an error alone.
So a round attends to the streams with events (`Wirecat.Attentive`) exactly when each of
them is readable or hung up: `Wirecat.attentive_iff`. That it does so in this case is read off a
round; in the other case `Wirecat.runs_ignored` gives a round that comes back to where it was, and
from it any number of them (`Wirecat.reaches_ignored`).
-/

namespace Wirecat

open CString Interaction

variable {legal : Hist → (e : Sys) → Resp e → Prop} {h h' : Hist}

/-! ### Attempts to read -/

/-- Whether a request is an attempt to read from a stream. -/
def readsFrom (o : Obj) : Sys → Bool
  | .read (.stream o') _ _ _ _ => o' = o
  | .sslRead o' _ _ => o' = o
  | _ => false

/-- In the run from `h` to `h'` it was attempted to read from a stream. -/
def Attempted (o : Obj) (h h' : Hist) : Prop := ∃ ev, Happens h h' ev ∧ readsFrom o ev.1 = true

theorem Attempted.mono {o : Obj} {h₀ h₁ : Hist} (ha : Attempted o h h') (hs : h₀ <:+ h)
    (hs' : h' <:+ h₁) : Attempted o h₀ h₁ := by
  obtain ⟨ev, hev, hread⟩ := ha
  exact ⟨ev, hev.mono hs hs', hread⟩

theorem attempted_read {t : Stream} {len : ℕ} {r : ReadRes len}
    (hr : Runs legal (t.read len) h h' (some r)) : Attempted t.obj h h' := by
  obtain ⟨o, ⟨rawFd, writeFd, can⟩ | t, close⟩ := t
  · obtain ⟨-, rfl⟩ := runs_request.mp hr
    exact ⟨_, ⟨h, List.suffix_refl h, List.suffix_refl _⟩, by simp [readsFrom]⟩
  · obtain ⟨_, h₁, hev, hr⟩ := runs_bind_some'.mp hr
    obtain ⟨answer, -, hr⟩ := runs_ask.mp hr
    exact ⟨_, ⟨h₁, hev.suffix, hr.suffix⟩, by simp [readsFrom]⟩

/-- A pump begins with an attempt to read from the source. -/
theorem attempted_pumpOnce {src dst : Stream} {label : String} {opts : RelayOptions} {r : PumpResult}
    (hr : Runs legal (pumpOnce src dst label opts) h h' (some r)) : Attempted src.obj h h' := by
  obtain ⟨_, h₁, hloop, hrest⟩ := runs_bind_some'.mp hr
  obtain ⟨again, h₂, hround, hmore⟩ := runs_loop.mp hloop
  obtain ⟨answer, h₃, hread, hret⟩ := runs_bind_some'.mp hround
  have hsuf : h₂ <:+ h₁ := by
    cases again with
    | inl _ => exact hmore.suffix
    | inr _ => exact hmore.1 ▸ List.suffix_refl _
  exact (attempted_read hread).mono (List.suffix_refl h) (hret.suffix.trans (hsuf.trans hrest.suffix))

theorem attempted_pumpDir {d : Dir} {opts : RelayOptions} {s : RelayState} {r : RelayState ⊕ Bool}
    (hr : Runs legal (pumpDir d opts s) h h' (some r)) : Attempted (s.src d).obj h h' := by
  obtain ⟨_, h₁, hpump, hrest⟩ := runs_bind_some'.mp hr
  exact (attempted_pumpOnce hpump).mono (List.suffix_refl h) hrest.suffix

/-- The streams of a relay stay the ones they are. -/
theorem within_pumpDir_obj (d : Dir) (opts : RelayOptions) (s : RelayState) :
    Within (fun _ => True) (pumpDir d opts s)
      (Sum.elim (fun s' => ∀ d', (s'.src d').obj = (s.src d').obj) fun _ => True) := by
  refine (Within.all _).bind' fun r _ => ?_
  cases r with
  | more => exact fun _ => rfl
  | failed => trivial
  | ended =>
    refine (within_shutdownWrite (s.dst d)).bind' fun t ht => Within.ite (fun _ => trivial) fun _ => ?_
    rintro (_ | _) <;> cases d <;> first | rfl | exact ht.1

/-! ### What a poll reports -/

/-- The events of the stream that a direction reads. -/
def Dir.events (ra rb : Revents) : Dir → Revents
  | .ab => ra
  | .ba => rb

/-- The events for which a stream is read. -/
def Revents.readable (r : Revents) : Prop := r.pollin = true ∨ r.pollhup = true

instance (r : Revents) : Decidable r.readable :=
  inferInstanceAs (Decidable (r.pollin = true ∨ r.pollhup = true))

/-- The poll of a relay reported these events in the run from `h` to `h'`. -/
def Reported (af bf : Fd) (s : RelayState) (ra rb : Revents) (h h' : Hist) : Prop :=
  ∃ timeout len event ignored, Happens h h'
    ⟨.poll [pollEntry af s.aActive, pollEntry bf s.bActive] timeout, .ready [ra, rb] len event ignored⟩

/-- A part that does not poll both streams reports nothing. -/
theorem not_reported {α : Type} {af bf : Fd} {s : RelayState} {ra rb : Revents} {p : Proc α}
    {Q : α → Prop} {o : Option α} (hp : Within Elsewhere p Q) (hr : Runs legal p h h' o) :
    ¬Reported af bf s ra rb h h' := by
  rintro ⟨timeout, len, event, ignored, hev⟩
  exact absurd (happens_within hp hr hev) (by simp [Elsewhere])

theorem Reported.split {af bf : Fd} {s : RelayState} {ra rb : Revents} {h₁ : Hist}
    (hrep : Reported af bf s ra rb h h') (hs : h <:+ h₁) (hs' : h₁ <:+ h') :
    Reported af bf s ra rb h h₁ ∨ Reported af bf s ra rb h₁ h' := by
  obtain ⟨timeout, len, event, ignored, hev⟩ := hrep
  exact (hev.split hs hs').imp (fun hev => ⟨timeout, len, event, ignored, hev⟩)
    fun hev => ⟨timeout, len, event, ignored, hev⟩

variable {af bf : Fd} {opts : RelayOptions} {s : RelayState} {ra rb : Revents} {r : RelayState ⊕ Bool}

/-- A part of a round that does not poll, and the rest of it. -/
theorem Reported.next {α : Type} {p : Proc α} {f : α → Proc (RelayState ⊕ Bool)} {Q : α → Prop}
    (hp : Within Elsewhere p Q) (hr : Runs legal (p >>= f) h h' (some r))
    (hrep : Reported af bf s ra rb h h') :
    ∃ a h₁, h <:+ h₁ ∧ Runs legal (f a) h₁ h' (some r) ∧ Reported af bf s ra rb h₁ h' := by
  obtain ⟨a, h₁, hfst, hsnd⟩ := runs_bind_some'.mp hr
  exact ⟨a, h₁, hfst.suffix, hsnd,
    (hrep.split hfst.suffix hsnd.suffix).resolve_left (not_reported hp hfst)⟩

/-- After the poll the streams are pumped. -/
theorem Reported.pollRound (hr : Runs legal (pollRound af bf opts s) h h' (some r))
    (hrep : Reported af bf s ra rb h h') :
    ∃ h₁, h <:+ h₁ ∧ Runs legal (pumpReady ra rb opts s) h₁ h' (some r) := by
  obtain ⟨answer, -, hr⟩ := runs_ask.mp hr
  rcases hrep.split (List.suffix_cons _ h) hr.suffix with hnow | hlater
  · -- the answer of the poll is the only event so far
    obtain ⟨timeout, len, event, ignored, hev⟩ := hnow
    obtain ⟨hpoll, hanswer⟩ := Sigma.mk.inj (happens_cons.mp hev)
    injection hpoll with _ htimeout
    subst htimeout
    obtain rfl := eq_of_heq hanswer
    exact ⟨_, List.suffix_cons _ h, hr⟩
  · -- and nothing after it polls again
    refine absurd hlater (not_reported (Q := fun _ => True) ?_ hr)
    rcases answer with err | _ | ⟨revents, -, -, -⟩
    · cases err <;> trivial
    · exact Within.ite (fun _ => trivial) fun _ => Within.step trivial fun _ => trivial
    · exact (elsewhere_pumpReady _ _ opts s).footprint

/-- **A round whose poll reported these events** goes on with the pumps. -/
theorem Reported.relayRound (hr : Runs legal (relayRound af bf opts s) h h' (some r))
    (hrep : Reported af bf s ra rb h h') :
    ∃ h₁, h <:+ h₁ ∧ Runs legal (pumpReady ra rb opts s) h₁ h' (some r) := by
  have hnone : ∀ {g : Hist}, ¬Reported af bf s ra rb g g := fun {g} => by
    have hidle : Within Elsewhere (pure () : Proc Unit) fun _ => True := trivial
    have hr : Runs legal (pure () : Proc Unit) g g (some ()) := runs_pure.mpr ⟨rfl, rfl⟩
    exact not_reported hidle hr
  obtain ⟨stop, h₁, hs₁, hr, hrep⟩ := Reported.next (p := sys .stop)
    (Q := fun _ => True) (within_sys trivial) hr hrep
  split_ifs at hr with hstop hactive
  · exact absurd ((runs_pure.mp hr).1 ▸ hrep) hnone
  · exact absurd ((runs_pure.mp hr).1 ▸ hrep) hnone
  obtain ⟨tick, h₂, hs₂, hr, hrep⟩ := Reported.next (elsewhere_tickBoth s) hr hrep
  split_ifs at hr with htick
  · exact absurd ((runs_pure.mp hr).1 ▸ hrep) hnone
  obtain ⟨pending, h₃, hs₃, hr, hrep⟩ := Reported.next (elsewhere_hasPending _ _) hr hrep
  split_ifs at hr with ha
  · exact absurd hrep (not_reported (elsewhere_pumpDir .ab opts s) hr)
  obtain ⟨pending, h₄, hs₄, hr, hrep⟩ := Reported.next (elsewhere_hasPending _ _) hr hrep
  split_ifs at hr with hb
  · exact absurd hrep (not_reported (elsewhere_pumpDir .ba opts s) hr)
  obtain ⟨h₅, hs₅, hr⟩ := Reported.pollRound hr hrep
  exact ⟨h₅, hs₁.trans (hs₂.trans (hs₃.trans (hs₄.trans hs₅))), hr⟩

/-! ### Readable streams are read -/

/-- The pumps after a poll attend to the streams that are readable. -/
theorem attempted_pumpReady (hr : Runs legal (pumpReady ra rb opts s) h h' (some r)) (d : Dir)
    (hd : (d.events ra rb).readable) : Attempted (s.src d).obj h h' ∨ ∃ ok, r = .inr ok := by
  obtain ⟨r₁, h₁, hfst, hsnd⟩ := runs_bind_some'.mp hr
  cases r₁ with
  | inr ok => exact .inr ⟨ok, (runs_pure.mp hsnd).2⟩
  | inl s₁ =>
    refine .inl ?_
    cases d with
    | ab =>
      have hread : (ra.pollin || ra.pollhup) = true := by simpa [Revents.readable, Dir.events] using hd
      rw [if_pos hread] at hfst
      exact (attempted_pumpDir hfst).mono (List.suffix_refl h) hsnd.suffix
    | ba =>
      have hread : (rb.pollin || rb.pollhup) = true := by simpa [Revents.readable, Dir.events] using hd
      simp only [hread, if_true] at hsnd
      have hobj : (s₁.src .ba).obj = (s.src .ba).obj := by
        split_ifs at hfst
        · exact (within_pumpDir_obj .ab opts s).result hfst .ba
        · rw [Sum.inl.inj (runs_pure.mp hfst).2]
      rw [← hobj]
      exact (attempted_pumpDir hsnd).mono hfst.suffix (List.suffix_refl h')

/-! ### Other streams are passed over -/

/-- In some run from any history that has not seen the stop flag, `p` comes to `a` without an attempt
to read from `o`. -/
def Passes {α : Type} (o : Obj) (p : Proc α) (a : α) : Prop :=
  ∀ h, stopped h = false → ∃ g, Runs Legal p h (g ++ h) (some a) ∧ stopped (g ++ h) = false ∧
    ∀ ev ∈ g, readsFrom o ev.1 = false

section
variable {α β : Type} {o : Obj}

theorem passes_pure (a : α) : Passes o (pure a) a :=
  fun _ hs => ⟨[], runs_pure.mpr ⟨rfl, rfl⟩, hs, by simp⟩

theorem Passes.bind {p : Proc α} {f : α → Proc β} {a : α} {b : β} (hp : Passes o p a)
    (hf : Passes o (f a) b) : Passes o (p >>= f) b := by
  intro h hs
  obtain ⟨g, hr, hs₁, hg⟩ := hp h hs
  obtain ⟨g', hr', hs₂, hg'⟩ := hf (g ++ h) hs₁
  refine ⟨g' ++ g, ?_, by rwa [List.append_assoc], ?_⟩
  · rw [List.append_assoc]
    exact runs_bind_some'.mpr ⟨a, g ++ h, hr, hr'⟩
  · intro ev hev
    exact (List.mem_append.mp hev).elim (hg' ev) (hg ev)

theorem Passes.ite {c : Prop} [Decidable c] {p p' : Proc α} {a : α} (hp : c → Passes o p a)
    (hp' : ¬c → Passes o p' a) : Passes o (if c then p else p') a := by
  split_ifs with hc
  · exact hp hc
  · exact hp' hc

theorem passes_sys {e : Sys} {r : Resp e} (he : readsFrom o e = false)
    (hl : ∀ h, stopped h = false → Legal h e r ∧ stopped (⟨e, r⟩ :: h) = false) :
    Passes o (sys e) r := by
  intro h hs
  obtain ⟨hlegal, hs'⟩ := hl h hs
  exact ⟨[⟨e, r⟩], runs_request.mpr ⟨hlegal, rfl⟩, hs', by simpa using he⟩

theorem passes_quicHandleEvents (t : TlsStream) : Passes o (quicHandleEvents t) () := by
  refine Passes.ite (fun _ => Passes.bind (a := true) (passes_sys rfl fun _ hs => ?_)
    (passes_pure ())) fun _ => passes_pure ()
  exact ⟨⟨by simp [opens], by simp [opens], trivial⟩, hs⟩

/-- There is nothing to read. -/
theorem passes_read {t : Stream} (hne : t.obj ≠ o) (len : ℕ) :
    Passes o (t.read len) (.error .eagain) := by
  obtain ⟨o', ⟨rawFd, writeFd, can⟩ | t, close⟩ := t
  · exact passes_sys (by simpa [readsFrom] using hne)
      fun _ hs => ⟨⟨by simp [opens], by simp [opens], trivial⟩, hs⟩
  · have hread : Passes o (sys (.sslRead o' t.fd len)) (.error .wantRead) :=
      passes_sys (by simpa [readsFrom] using hne)
        fun _ hs => ⟨⟨by simp [opens], by simp [opens], trivial⟩, hs⟩
    refine (passes_quicHandleEvents t).bind (hread.bind ?_)
    exact (passes_quicHandleEvents t).bind (passes_pure _)

/-- A loop of which the first round may find nothing. -/
theorem Passes.round {σ β : Type} {body : σ → Proc (σ ⊕ β)} {s : σ} {b : β}
    (hround : Passes o (body s) (.inr b)) : Passes o (Prog.loop body s) b := by
  intro h hs
  obtain ⟨g, hr, hs', hg⟩ := hround h hs
  exact ⟨g, runs_loop.mpr ⟨_, _, hr, rfl, rfl⟩, hs', hg⟩

theorem passes_pumpOnce {src : Stream} (hne : src.obj ≠ o) (dst : Stream) (label : String)
    (opts : RelayOptions) : Passes o (pumpOnce src dst label opts) .more := by
  refine Passes.bind (a := .error .eagain) (Passes.round ?_) (passes_pure _)
  exact (passes_read hne wcatBufsize).bind (passes_pure _)

theorem passes_pumpDir {d : Dir} {s : RelayState} (hne : (s.src d).obj ≠ o) (opts : RelayOptions) :
    Passes o (pumpDir d opts s) (.inl s) :=
  (passes_pumpOnce hne _ _ _).bind (passes_pure _)

/-- The pumps after a poll may find nothing, and a stream that is not readable is not read. -/
theorem passes_pumpReady (hab : s.a.obj ≠ s.b.obj) (opts : RelayOptions) {d : Dir}
    (hd : ¬(d.events ra rb).readable) : Passes (s.src d).obj (pumpReady ra rb opts s) (.inl s) := by
  rw [Revents.readable, ← Bool.or_eq_true] at hd
  refine Passes.bind (a := .inl s) (Passes.ite (fun hr => ?_) fun _ => passes_pure _)
    (Passes.ite (fun hr => ?_) fun _ => passes_pure _)
  · cases d with
    | ab => exact absurd hr hd
    | ba => exact passes_pumpDir (d := .ab) hab opts
  · cases d with
    | ab => exact passes_pumpDir (d := .ba) hab.symm opts
    | ba => exact absurd hr hd

end

/-- The events are ones that `poll` can report for the streams that are polled. -/
structure Reportable (s : RelayState) (ra rb : Revents) : Prop where
  event : ra ≠ .none ∨ rb ≠ .none
  active : ∀ d : Dir, d.events ra rb ≠ .none → s.active d = true

/-- **A stream that is not readable is passed over**: there is a round in which `poll` reports these
events, the stream is not read, and the relay goes round again as it was. -/
theorem runs_ignored (hab : s.a.obj ≠ s.b.obj) (af bf : Fd) (opts : RelayOptions)
    (hrep : Reportable s ra rb) {d : Dir} (hd : ¬(d.events ra rb).readable)
    (hs : stopped h = false) :
    ∃ g, Runs Legal (relayRound af bf opts s) h (g ++ h) (some (.inl s)) ∧
      stopped (g ++ h) = false ∧ Reported af bf s ra rb h (g ++ h) ∧
      ∀ ev ∈ g, readsFrom (s.src d).obj ev.1 = false := by
  have hactive : (!s.aActive && !s.bActive) = false := by
    rcases hrep.event with hra | hrb
    · rw [show s.aActive = true from hrep.active .ab hra]
      rfl
    · rw [show s.bActive = true from hrep.active .ba hrb]
      simp
  obtain ⟨g, hround, hs', -, hquiet⟩ := @runs_to_poll s opts hactive af bf h hs
  have hignored : ∀ p ∈ [pollEntry af s.aActive, pollEntry bf s.bActive].zip [ra, rb],
      p.1.fd = none → p.2 = .none := by
    have hentry : ∀ (fd : Fd) (d : Dir), (pollEntry fd (s.active d)).fd = none →
        d.events ra rb = .none := by
      intro fd d hno
      by_contra hne
      rw [hrep.active d hne] at hno
      exact absurd hno (by simp [pollEntry])
    simpa using ⟨hentry af .ab, hentry bf .ba⟩
  have hevent : ∃ r ∈ [ra, rb], r ≠ Revents.none := by simpa using hrep.event
  set poll : Ev := ⟨.poll [pollEntry af s.aActive, pollEntry bf s.bActive]
    (pollTimeout opts.timeoutMs s), .ready [ra, rb] rfl hevent hignored⟩
  obtain ⟨g', hpump, hs'', hg'⟩ := passes_pumpReady hab opts hd (poll :: (g ++ h)) hs'
  refine ⟨g' ++ poll :: g, ?_, by simpa using hs'', ?_, ?_⟩
  · refine hround _ _ (runs_ask.mpr ⟨.ready [ra, rb] rfl hevent hignored,
      ⟨by simp [opens], by simp [opens], trivial⟩, ?_⟩)
    simpa using hpump
  · exact ⟨pollTimeout opts.timeoutMs s, rfl, hevent, hignored, happens_append.mpr (by simp [poll])⟩
  · intro ev hev
    rcases List.mem_append.mp hev with hev | hev
    · exact hg' ev hev
    rcases List.mem_cons.mp hev with rfl | hev
    · rfl
    · rcases hquiet ev hev with hq | hstop
      · revert hq
        cases ev.1 <;> simp [Quiet, readsFrom]
      · rw [hstop]
        rfl

/-- **It is passed over for ever**: as long as `poll` reports the same, the loop goes round. -/
theorem reaches_ignored (hab : s.a.obj ≠ s.b.obj) (af bf : Fd) (opts : RelayOptions)
    (hrep : Reportable s ra rb) {d : Dir} (hd : ¬(d.events ra rb).readable)
    (hs : stopped h = false) (n : ℕ) :
    ∃ ext, Reaches Legal (relayRound af bf opts) s h s (ext ++ h) ∧ stopped (ext ++ h) = false ∧
      n ≤ pollCount ext ∧ ∀ ev ∈ ext, readsFrom (s.src d).obj ev.1 = false := by
  induction n with
  | zero => exact ⟨[], Reaches.start s h, hs, Nat.zero_le _, by simp⟩
  | succ n ih =>
    obtain ⟨ext, hreach, hs', hn, hext⟩ := ih
    obtain ⟨g, hr, hs'', ⟨_, _, _, _, hev⟩, hg⟩ := runs_ignored hab af bf opts hrep hd hs'
    refine ⟨g ++ ext, ?_, by rwa [List.append_assoc], ?_, ?_⟩
    · rw [List.append_assoc]
      exact hreach.step hr
    · have hpoll : 0 < pollCount g := List.countP_pos_iff.mpr ⟨_, happens_append.mp hev, rfl⟩
      have hsum : pollCount (g ++ ext) = pollCount g + pollCount ext := List.countP_append
      omega
    · exact fun ev hmem => (List.mem_append.mp hmem).elim (hg ev) (hext ev)

/-! ### When a round attends to the events -/

/-- **A round attends to these events**: from each active stream for which `poll` reported
something it attempts to read, or the relay returns. -/
def Attentive (af bf : Fd) (opts : RelayOptions) (s : RelayState) (ra rb : Revents) : Prop :=
  ∀ h h' r, Runs Legal (relayRound af bf opts s) h h' (some r) → Reported af bf s ra rb h h' →
    ∀ d : Dir, s.active d = true → d.events ra rb ≠ .none →
      Attempted (s.src d).obj h h' ∨ ∃ ok, r = .inr ok

/-- **Exactly when**: each active stream for which something is reported is readable or hung up. -/
theorem attentive_iff (hab : s.a.obj ≠ s.b.obj) (af bf : Fd) (opts : RelayOptions)
    (hrep : Reportable s ra rb) : Attentive af bf opts s ra rb ↔
      ∀ d : Dir, s.active d = true → d.events ra rb ≠ .none → (d.events ra rb).readable := by
  constructor
  · intro hatt d hact hne
    by_contra hd
    obtain ⟨g, hr, -, hrepg, hg⟩ := runs_ignored (h := []) hab af bf opts hrep hd rfl
    rcases hatt _ _ _ hr hrepg d hact hne with ⟨ev, hev, hread⟩ | ⟨ok, hok⟩
    · rw [hg ev (happens_append.mp hev)] at hread
      exact absurd hread (by simp)
    · exact absurd hok (by simp)
  · intro hall h h' r hr hrepr d hact hne
    obtain ⟨h₁, hs₁, hpump⟩ := Reported.relayRound hr hrepr
    exact (attempted_pumpReady hpump d (hall d hact hne)).imp
      (fun ha => ha.mono hs₁ (List.suffix_refl h')) id

/-- A relay between a datagram socket and the standard streams, as it begins. -/
def socketRelay : RelayState :=
  ⟨wcatStreamFromFd .net (.sock .udp 3), wcatStreamFromFdPair .stdioStream .stdin .stdout, true, true⟩

/-- A hangup is attended to, even with an error. -/
theorem attentive_hangup :
    Attentive (.sock .udp 3) .stdin ⟨10000, false⟩ socketRelay { pollerr := true, pollhup := true }
      .none := by
  refine (attentive_iff (by decide) _ _ _ ⟨.inl (by decide), ?_⟩).mpr ?_
  · rintro (_ | _) <;> decide
  · rintro (_ | _) <;> decide

/-- **An error alone is not**: a connected datagram socket for which `poll` reports `POLLERR`, when
the peer's host has answered that nothing listens there, is not read, and as long as it
does so the relay goes round, any number of times, without an attempt to read from the socket. -/
theorem not_attentive :
    (∃ g, Runs Legal (relayRound (.sock .udp 3) .stdin ⟨10000, false⟩ socketRelay) [] g
        (some (.inl socketRelay)) ∧
      Reported (.sock .udp 3) .stdin socketRelay { pollerr := true } .none [] g ∧
      ¬Attempted .net [] g) ∧
    ∀ n, ∃ ext, Reaches Legal (relayRound (.sock .udp 3) .stdin ⟨10000, false⟩) socketRelay
        [] socketRelay ext ∧ n ≤ pollCount ext ∧ ∀ ev ∈ ext, readsFrom .net ev.1 = false := by
  have hrep : Reportable socketRelay { pollerr := true } .none :=
    ⟨.inl (by decide), by rintro (_ | _) <;> decide⟩
  have hd : ¬(Dir.ab.events { pollerr := true } .none).readable := by decide
  constructor
  · obtain ⟨g, hr, -, hg, hno⟩ := runs_ignored (h := []) (by decide) (.sock .udp 3) .stdin
      ⟨10000, false⟩ hrep hd rfl
    rw [List.append_nil] at hr hg
    refine ⟨g, hr, hg, ?_⟩
    rintro ⟨ev, hev, hread⟩
    rw [← List.append_nil g] at hev
    exact absurd (hread.symm.trans (hno ev (happens_append.mp hev))) (by simp)
  · intro n
    obtain ⟨ext, hreach, -, hn, hno⟩ := reaches_ignored (h := []) (by decide) (.sock .udp 3) .stdin
      ⟨10000, false⟩ hrep hd rfl n
    rw [List.append_nil] at hreach
    exact ⟨ext, hreach, hn, hno⟩

end Wirecat
