import Wirecat.Header
import Wirecat.Interaction.Conditions
import Wirecat.Output

/-!
# The tunnel of the CONNECT server

What the client of the server is told. It asks for a target, and one of three answers comes: that
the request was bad, that the target could not be reached, or that the connection is
established. The last of them is begun only once the target was reached, and behind it, and behind
no other, comes what the target says, byte by byte and in order (`Wirecat.Told`). And it is the
target that was asked for: whoever the server connects to is named in the header of the client
(`Wirecat.NamedByClient`).

The other direction, from the client to its target, is in `Wirecat.Header`. There the relay
begins in the middle of what the client sends; here it begins in the middle of what is written to
it, by two functions that know nothing of each other.
-/

namespace Wirecat

open CString Interaction Conduit

/-! ### The answers -/

/-- The answer of the server with a status. -/
def proxyResponse (status : ℕ) (text : String) : Bytes :=
  lit "HTTP/1.1 " ++ decimal status ++ lit " " ++ lit text ++ headerEnd

/-- The answer that opens the tunnel. -/
def established : Bytes := proxyResponse 200 "Connection Established"

/-- The answers that do not. -/
def refusals : List Bytes := [proxyResponse 400 "Bad Request", proxyResponse 502 "Bad Gateway"]

/-- The target that is named in the header of the client was connected to. -/
def Reached (legal : Hist → (e : Sys) → Resp e → Prop) (cfg : Config) (client : Fd) (ext : Hist) :
    Prop :=
  ∃ host port g g' upstream, g' <:+ ext ∧
    parseConnectRequest (ofBuffer (clientBytes client g)) 256 32 = some (host, port) ∧
    Runs legal (wcatTcpConnect host port cfg.family cfg.timeoutMs) g g' (some (some upstream))

/-- **What a client has been told**, when `ext` has happened. -/
inductive Told (legal : Hist → (e : Sys) → Resp e → Prop) (cfg : Config) (client : Fd) (ext : Hist) :
    Prop
  /-- That it is refused, as far as this was written. -/
  | refused (answer : Bytes) (known : answer ∈ refusals) (begun : writtenTo client ext <+: answer)
      (unread : bytesRead .upstreamStream ext = [])
  /-- That the connection is established, as far as this was written. -/
  | opened (reached : Reached legal cfg client ext) (begun : writtenTo client ext <+: established)
      (unread : bytesRead .upstreamStream ext = [])
  /-- That the connection is established, and what the target has said, as far as it was
  written. -/
  | relayed (said : Bytes) (reached : Reached legal cfg client ext)
      (begun : writtenTo client ext = established ++ said)
      (heard : said <+: bytesRead .upstreamStream ext)

/-- Whoever is connected to is named in the header of the client. -/
def NamedByClient (client : Fd) (g : Hist) (ev : Ev) : Prop :=
  ∀ fd addr, ev.1 = .connect fd addr → ∃ host port k,
    parseConnectRequest (ofBuffer (clientBytes client g)) 256 32 = some (host, port) ∧
      addr = .inet host port k

/-! ### What is written to a client -/

section
variable {legal : Hist → (e : Sys) → Resp e → Prop} {cfg : Config} {client : Fd} {g h : Hist}
  {α : Type} {Q : α → Prop}

theorem Reached.mono (hreached : Reached legal cfg client h) (hsuf : h <:+ g) :
    Reached legal cfg client g := by
  obtain ⟨host, port, g₀, g₁, upstream, hsuf', htarget, hr⟩ := hreached
  exact ⟨host, port, g₀, g₁, upstream, hsuf'.trans hsuf, htarget, hr⟩

/-- The requests that read nothing from the target. -/
def Unread (e : Sys) : Prop :=
  (∀ fd cap off len, e ≠ .read (.stream .upstreamStream) fd cap off len) ∧
    ∀ fd len, e ≠ .sslRead .upstreamStream fd len

/-- Only a read of a stream is seen as bytes that come from it. -/
theorem obs_eq_got {e : Sys} {r : Resp e} {o : Obj} {bs : Bytes} (hobs : obs e r = some (.got o bs)) :
    (∃ fd cap off len, e = .read (.stream o) fd cap off len) ∨ ∃ fd len, e = .sslRead o fd len := by
  cases e with
  | read via fd cap off len =>
    cases via with
    | stream o' =>
      rcases r with ⟨bytes, hpos, hle⟩ | _ | err
      · simp only [obs, readObs, Option.some.injEq, Obs.got.injEq] at hobs
        exact .inl ⟨fd, cap, off, len, by rw [hobs.1]⟩
      · simp [obs, readObs] at hobs
      · simp only [obs, readObs] at hobs
        split_ifs at hobs
        simp at hobs
    | _ => simp [obs] at hobs
  | sslRead o' fd len =>
    rcases r with ⟨bytes, hpos, hle⟩ | err
    · simp only [obs, sslReadObs, Option.some.injEq, Obs.got.injEq] at hobs
      exact .inr ⟨fd, len, by rw [hobs.1]⟩
    · cases err <;> simp [obs, sslReadObs] at hobs
  | write via fd buf =>
    cases via with
    | stream o' =>
      rcases r with _ | err <;>
      · simp only [obs, writeObs] at hobs
        split_ifs at hobs <;> simp at hobs
    | _ => simp [obs] at hobs
  | sslWrite o' fd buf =>
    rcases r with ⟨n, hpos, hn⟩ | err
    · simp [obs, sslWriteObs] at hobs
    · simp only [obs, sslWriteObs] at hobs
      split_ifs at hobs
      simp at hobs
  | poll fds timeout => rcases r with err | _ | _ <;> simp [obs, waitObs] at hobs
  | _ => simp [obs] at hobs

/-- What is not read from a stream is not seen as coming from it. -/
theorem bytesRead_of_unread {e : Sys} (he : Unread e) (r : Resp e) :
    bytesRead .upstreamStream (⟨e, r⟩ :: h) = bytesRead .upstreamStream h := by
  have hgot : ∀ bs, obs e r ≠ some (.got .upstreamStream bs) := by
    intro bs hobs
    rcases obs_eq_got hobs with ⟨fd, cap, off, len, heq⟩ | ⟨fd, len, heq⟩
    · exact he.1 fd cap off len heq
    · exact he.2 fd len heq
  rw [bytesRead, bytesRead, trace_cons]
  cases hobs : obs e r with
  | none => rfl
  | some ob =>
    cases ob with
    | got o bs =>
      have hne : o ≠ .upstreamStream := fun heq => hgot bs (heq ▸ hobs)
      rw [Option.toList_some, List.singleton_append, gotFrom, if_neg hne, List.append_nil]
    | _ => rfl

/-- The requests that neither tell the client anything nor hear the target. -/
def Wordless (client : Fd) (e : Sys) : Prop := NotTo client e ∧ Unread e

theorem wordless_of_quiet (e : Sys) (he : Quiet e = true) : Wordless client e := by
  cases e with
  | read | write | sslRead => cases he
  | _ => exact ⟨trivial, by simp, by simp⟩

/-- Since `h` the client was told nothing more, and the target was not heard. -/
structure Unmoved (client : Fd) (h g : Hist) : Prop where
  suffix : h <:+ g
  written : writtenTo client g = writtenTo client h
  read : bytesRead .upstreamStream g = bytesRead .upstreamStream h

/-- A part of the program that tells the client nothing. -/
theorem always_wordless {p : Proc α} (hp : Within (Wordless client) p Q) :
    Always legal (Unmoved client h) p (fun a g => Unmoved client h g ∧ Q a) h := by
  refine hp.always ⟨List.suffix_refl h, rfl, rfl⟩ ?_
  rintro g e r ⟨hsuf, hw, hr⟩ he -
  exact ⟨hsuf.trans (List.suffix_cons _ _), (writtenTo_other (notTo_iff.mp he.1)).trans hw,
    (bytesRead_of_unread he.2 r).trans hr⟩

/-- What was told is told still. -/
theorem Told.unmoved (ht : Told legal cfg client h) (hg : Unmoved client h g) :
    Told legal cfg client g := by
  cases ht with
  | refused answer known begun unread =>
    exact .refused answer known (hg.written ▸ begun) (hg.read.trans unread)
  | opened reached begun unread =>
    exact .opened (reached.mono hg.suffix) (hg.written ▸ begun) (hg.read.trans unread)
  | relayed said reached begun heard =>
    exact .relayed said (reached.mono hg.suffix) (hg.written.trans begun) (hg.read ▸ heard)

/-- **Answering.** -/
theorem always_writeProxyResponse (status : ℕ) (text : String) (hnone : writtenTo client h = [])
    (hunread : bytesRead .upstreamStream h = []) :
    Always legal (fun g => writtenTo client g <+: proxyResponse status text ∧
        bytesRead .upstreamStream g = [] ∧ h <:+ g) (writeProxyResponse client status text)
      (fun ok g => ok = true → writtenTo client g = proxyResponse status text) h := by
  have hunread' : Always legal (fun g => bytesRead .upstreamStream g = [] ∧ h <:+ g)
      (writeProxyResponse client status text) (fun _ _ => True) h := by
    have hw : Within Unread (writeProxyResponse client status text) fun _ => True :=
      within_writeProxyResponse (fun _ => ⟨by simp, by simp⟩) ⟨by simp, by simp⟩ _ _
    refine (hw.always ⟨hunread, List.suffix_refl h⟩ ?_).post_mono fun _ _ _ => trivial
    rintro g e r ⟨hg, hsuf⟩ he -
    exact ⟨(bytesRead_of_unread he r).trans hg, hsuf.trans (List.suffix_cons _ _)⟩
  have hwritten : Always legal (fun g => writtenTo client g <+: proxyResponse status text)
      (writeProxyResponse client status text)
      (fun ok g => ok = true → writtenTo client g = proxyResponse status text) h := by
    have hempty : ∀ {g : Hist}, writtenTo client g = writtenTo client h →
        writtenTo client g <+: proxyResponse status text := by
      intro g hg
      rw [hg, hnone]
      exact List.nil_prefix
    refine Always.ite (fun _ => ?_) fun _ => ?_
    · refine Always.ask (hempty rfl) fun _ _ => always_pure.mpr ⟨hempty rfl, by simp⟩
    · have houtputs : Outputs legal client False
          (wcatFullWrite .server client (proxyResponse status text)) (proxyResponse status text) _ _ :=
        outputs_wcatFullWrite .server _
      refine always_bind'.mpr ((houtputs h).mono ?_ ?_)
      · rintro g ⟨-, ⟨begun, hpre, hw⟩, -⟩
        rw [hw, hnone]
        exact hpre
      · rintro n g hsofar hdone
        obtain ⟨-, ⟨begun, hpre, hw⟩, -⟩ := hsofar
        refine always_pure.mpr ⟨?_, fun hn => ?_⟩
        · rw [hw, hnone]
          exact hpre
        · rcases hdone with ⟨-, hprinted⟩ | ⟨hne, -⟩
          · rw [hprinted.written, hnone]
            rfl
          · exact absurd (of_decide_eq_true hn) hne
  exact (hwritten.and hunread').mono (fun _ => id) fun _ _ _ hQ => hQ.1

/-! ### The relay -/

/-- The requests of the relay of the server. -/
def Answers (client : Fd) : Sys → Prop
  | .write via fd _ => via = .stream .clientStream ∧ fd = client ∨
      via = .stream .upstreamStream ∧ fd ≠ client
  | .sslWrite o _ _ => o ≠ .clientStream
  | _ => True

/-- What a request of the relay writes to the client is what that stream accepts. -/
theorem writtenTo_of_answer {e : Sys} (he : Answers client e) (r : Resp e) :
    writtenTo client (⟨e, r⟩ :: g) = writtenTo client g ++ putTo .clientStream (obs e r).toList := by
  have hother : (∀ via buf, e ≠ .write via client buf) →
      (∀ fd buf, e ≠ .write (.stream .clientStream) fd buf) →
      (∀ fd buf, e ≠ .sslWrite .clientStream fd buf) →
      writtenTo client (⟨e, r⟩ :: g) = writtenTo client g ++ putTo .clientStream (obs e r).toList := by
    intro hclient hwrite hssl
    rw [writtenTo_other hclient]
    suffices hnone : putTo .clientStream (obs e r).toList = [] by rw [hnone, List.append_nil]
    cases hobs : obs e r with
    | none => rfl
    | some ob =>
      cases ob with
      | put o bs =>
        have hne : o ≠ .clientStream := by
          rintro rfl
          rcases obs_eq_put hobs with ⟨fd, buf, heq⟩ | ⟨fd, buf, heq⟩
          · exact hwrite fd buf heq
          · exact hssl fd buf heq
        simp [putTo, hne]
      | _ => rfl
  cases e with
  | write via fd buf =>
    rcases he with ⟨rfl, rfl⟩ | ⟨rfl, hne⟩
    · rcases r with ⟨_ | n, hn⟩ | err
      · simp [writtenTo, obs, writeObs, putTo]
      · simp [writtenTo, obs, writeObs, putTo]
      · simp only [writtenTo, obs, writeObs]
        split_ifs <;> simp [putTo]
    · refine hother ?_ (by simp) (by simp)
      rintro _ _ ⟨⟩
      exact hne rfl
  | sslWrite o fd buf =>
    refine hother (by simp) (by simp) ?_
    rintro _ _ ⟨⟩
    exact he rfl
  | _ => exact hother (by simp) (by simp) (by simp)

theorem writtenTo_of_answers {ext : Hist} (hext : ∀ ev ∈ ext, Answers client ev.1) :
    writtenTo client (ext ++ h) = writtenTo client h ++ bytesWritten .clientStream ext := by
  induction ext with
  | nil => exact (List.append_nil _).symm
  | cons ev ext ih =>
    obtain ⟨e, r⟩ := ev
    rw [List.cons_append, writtenTo_of_answer (hext ⟨e, r⟩ List.mem_cons_self),
      ih fun ev hev => hext ev (List.mem_cons_of_mem _ hev), bytesWritten, bytesWritten, trace_cons,
      putTo_append, List.append_assoc]

/-- **The relay speaks where the answer ended.** -/
theorem always_relay_told {upstream : Fd} (hne : upstream ≠ client)
    (hreached : Reached legal cfg client h) (htold : writtenTo client h = established)
    (hunread : bytesRead .upstreamStream h = []) (opts : RelayOptions) :
    Always legal (Told legal cfg client)
      (wcatRelayBidirectional (clientStream client) (upstreamStream upstream) opts)
      (fun ok g => ∃ said, writtenTo client g = established ++ said ∧
        said <+: bytesRead .upstreamStream g ∧ (ok = true → said = bytesRead .upstreamStream g)) h := by
  have hab : (clientStream client).obj ≠ (upstreamStream upstream).obj := by
    rw [clientStream, upstreamStream]
    simp [wcatStreamFromFd]
  have hdiscipline := @always_wcatRelayBidirectional (clientStream client) (upstreamStream upstream)
    (After legal h) hab (fun _ _ h => by simp [clientStream, wcatStreamFromFd] at h)
    (fun _ _ h => by simp [upstreamStream, wcatStreamFromFd] at h) opts
  have hquiet : ∀ e, Quiet e = true → Answers client e := fun e he => by cases e <;> trivial
  have hwithin : Within (Answers client)
      (wcatRelayBidirectional (clientStream client) (upstreamStream upstream) opts) fun _ => True := by
    have hclient : StreamIn (Answers client) (clientStream client) := by
      refine ⟨fun _ => trivial, ?_⟩
      rintro _ ⟨⟩
      exact ⟨fun _ => .inl ⟨rfl, rfl⟩, fun _ => trivial⟩
    have hupstream : StreamIn (Answers client) (upstreamStream upstream) := by
      refine ⟨fun _ => trivial, ?_⟩
      rintro _ ⟨⟩
      exact ⟨fun _ => .inr ⟨rfl, hne⟩, fun _ => trivial⟩
    exact within_wcatRelayBidirectional (still_of_quiet hquiet) trivial hclient hupstream opts
  have hevents : Always (After legal h) (fun ext => ∀ ev ∈ ext, Answers client ev.1)
      (wcatRelayBidirectional (clientStream client) (upstreamStream upstream) opts)
      (fun _ ext => ∀ ev ∈ ext, Answers client ev.1) [] :=
    (hwithin.always (S := fun ext => ∀ ev ∈ ext, Answers client ev.1)
      (fun _ hev => absurd hev List.not_mem_nil)
      fun g e r hg he _ => List.forall_mem_cons.mpr ⟨he, hg⟩).post_mono fun _ _ hQ => hQ.1
  have hread : ∀ ext : Hist,
      bytesRead .upstreamStream (ext ++ h) = bytesRead .upstreamStream ext := by
    intro ext
    rw [bytesRead, trace_append, gotFrom_append]
    rw [bytesRead] at hunread
    rw [hunread, List.nil_append, bytesRead]
  refine (Always.shift (hdiscipline.and hevents)).mono ?_ ?_
  · rintro _ ⟨ext, rfl, hfollows, hext⟩
    obtain ⟨st, hv⟩ := Option.isSome_iff_exists.mp hfollows
    refine .relayed (bytesWritten .clientStream ext) (hreached.mono (List.suffix_append _ _))
      (by rw [writtenTo_of_answers hext, htold]) ?_
    rw [hread]
    exact ⟨_, (written_append_owed hab hv).2⟩
  · rintro ok _ - ⟨ext, rfl, hsettled, hext⟩
    obtain ⟨st, hv⟩ := Option.isSome_iff_exists.mp hsettled.follows
    refine ⟨bytesWritten .clientStream ext, by rw [writtenTo_of_answers hext, htold], ?_, ?_⟩
    · rw [hread]
      exact ⟨_, (written_append_owed hab hv).2⟩
    · rintro rfl
      obtain ⟨st, hv, hcarry, -⟩ := hsettled
      rw [hread]
      exact (written_eq_read hab hv hcarry).2

/-! ### A session -/

/-- The requests that connect to nobody. -/
def Undialed (e : Sys) : Prop := ∀ fd addr, e ≠ .connect fd addr

variable (legal cfg) in
/-- What holds of a session at every moment. -/
structure Attended (client : Fd) (ext : Hist) : Prop where
  told : Told legal cfg client ext
  named : Throughout (NamedByClient client) [] ext

theorem named_of_undialed {e : Sys} (he : Undialed e) (r : Resp e) : NamedByClient client g ⟨e, r⟩ :=
  fun fd addr heq => absurd heq (he fd addr)

/-- A part of the program that connects to nobody. -/
theorem always_undialed {p : Proc α} (hp : Within Undialed p Q)
    (hh : Throughout (NamedByClient client) [] h) :
    Always legal (Throughout (NamedByClient client) []) p (fun a _ => Q a) h :=
  (hp.throughout hh fun _ _ r _ he _ => named_of_undialed he r).post_mono fun _ _ hQ => hQ.2

/-- The requests of a session that are about neither of its parties. -/
def Meanwhile (client : Fd) (e : Sys) : Prop := Wordless client e ∧ Undialed e

theorem undialed_of_quiet (e : Sys) (he : Quiet e = true) : Undialed e := by
  rintro fd addr rfl
  cases he

theorem meanwhile_of_quiet (e : Sys) (he : Quiet e = true) : Meanwhile client e :=
  ⟨wordless_of_quiet e he, undialed_of_quiet e he⟩

/-- **Nothing more is told meanwhile.** -/
theorem always_meanwhile {p : Proc α} (hp : Within (Meanwhile client) p Q)
    (hs : Attended legal cfg client h) :
    Always legal (Attended legal cfg client) p (fun a g => Unmoved client h g ∧ Q a) h := by
  have hwordless := hp.mono (fun _ he => he.1) fun _ => id
  have hundialed := hp.mono (fun _ he => he.2) fun _ => id
  exact ((always_wordless hwordless).and (always_undialed hundialed hs.named)).mono
    (fun g hS => ⟨hs.told.unmoved hS.1, hS.2⟩) fun _ _ _ hQ => hQ.1

/-- The client has been told nothing, and the target has not been heard. -/
structure Unanswered (client : Fd) (h : Hist) : Prop where
  silent : writtenTo client h = []
  unread : bytesRead .upstreamStream h = []
  named : Throughout (NamedByClient client) [] h

theorem Unanswered.attended (hu : Unanswered client h) : Attended legal cfg client h :=
  ⟨.refused _ List.mem_cons_self (hu.silent ▸ List.nil_prefix) hu.unread, hu.named⟩

theorem Unanswered.unmoved (hu : Unanswered client h) (hg : Unmoved client h g)
    (hnamed : Throughout (NamedByClient client) [] g) : Unanswered client g :=
  ⟨hg.written.trans hu.silent, hg.read.trans hu.unread, hnamed⟩

/-- A part of the session before its answer. -/
theorem Unanswered.meanwhile (hu : Unanswered client h) {p : Proc α}
    (hp : Within (Meanwhile client) p Q) :
    Always legal (Attended legal cfg client) p (fun a g => Unanswered client g ∧ Q a) h :=
  (always_meanwhile hp hu.attended).mono (fun _ => id) fun _ _ hs hQ =>
    ⟨hu.unmoved hQ.1 hs.named, hQ.2⟩

/-- **An answer is given**, if it is one that may be. -/
theorem Unanswered.answer (hu : Unanswered client h) {status : ℕ} {text : String}
    (hknown : proxyResponse status text ∈ refusals ∨
      proxyResponse status text = established ∧ Reached legal cfg client h) :
    Always legal (Attended legal cfg client) (writeProxyResponse client status text)
      (fun ok g => h <:+ g ∧ bytesRead .upstreamStream g = [] ∧
        (ok = true → writtenTo client g = proxyResponse status text)) h := by
  have hundialed : Within Undialed (writeProxyResponse client status text) fun _ => True :=
    within_writeProxyResponse (fun _ => by simp [Undialed]) (by simp [Undialed]) _ _
  refine ((always_writeProxyResponse status text hu.silent hu.unread).and
    (always_undialed hundialed hu.named)).mono ?_ ?_
  · rintro g ⟨⟨hw, hr, hsuf⟩, hnamed⟩
    refine ⟨?_, hnamed⟩
    rcases hknown with hrefusal | ⟨heq, hreached⟩
    · exact .refused _ hrefusal hw hr
    · exact .opened (hreached.mono hsuf) (heq ▸ hw) hr
  · rintro ok g ⟨⟨-, hr, hsuf⟩, -⟩ ⟨hall, -⟩
    exact ⟨hsuf, hr, hall⟩

/-- What the session of a client comes to: with the status `0`, it was told that the connection is
established, and then all that the target has said. -/
def ToldAll (client : Fd) (rc : ℕ) (ext : Hist) : Prop :=
  rc = 0 → writtenTo client ext = established ++ bytesRead .upstreamStream ext

/-- The session is refused. -/
theorem Unanswered.refuse (hu : Unanswered client h) {status : ℕ} {text : String}
    (hrefusal : proxyResponse status text ∈ refusals) {p : Proc ℕ}
    (hp : Within (Meanwhile client) p fun rc => rc ≠ 0) :
    Always legal (Attended legal cfg client) (writeProxyResponse client status text >>= fun _ => p)
      (ToldAll client) h := by
  refine always_bind'.mpr ((hu.answer (.inl hrefusal)).mono (fun _ => id) fun _ g hs _ => ?_)
  exact (always_meanwhile hp hs).post_mono fun rc _ hQ hrc => absurd hrc hQ.2

/-- **Connecting to the target** that is named in the header. -/
theorem Unanswered.dial (hu : Unanswered client h) {host port : Bytes}
    (htarget : parseConnectRequest (ofBuffer (clientBytes client h)) 256 32 = some (host, port)) :
    Always legal (Attended legal cfg client) (wcatTcpConnect host port cfg.family cfg.timeoutMs)
      (fun r g => Unanswered client g ∧ SockOf .tcp r ∧ (r ≠ none → Reached legal cfg client g)) h := by
  have hapart : Within (Apart client) (wcatTcpConnect host port cfg.family cfg.timeoutMs)
      (SockOf .tcp) :=
    within_inetConnect apart_of_quiet trivial (fun _ _ => trivial) (fun _ => trivial) _ _
  have hwordless : Within (Wordless client) (wcatTcpConnect host port cfg.family cfg.timeoutMs)
      (SockOf .tcp) :=
    within_inetConnect wordless_of_quiet ⟨trivial, by simp [Unread]⟩
      (fun _ _ => ⟨trivial, by simp [Unread]⟩)
      (fun _ => ⟨trivial, by simp [Unread]⟩) _ _
  have hdials : Within (fun e => ∀ fd addr, e = .connect fd addr → ∃ k, addr = .inet host port k)
      (wcatTcpConnect host port cfg.family cfg.timeoutMs) (SockOf .tcp) := by
    refine within_inetConnect ?_ (by simp) ?_ (fun _ => by simp) _ _
    · rintro _ he fd addr rfl
      cases he
    · rintro m k _ _ ⟨⟩
      exact ⟨k, rfl⟩
  -- the header is all that is taken from the client until the target is reached
  have hnamed : Always legal (fun g => Throughout (NamedByClient client) [] g ∧
      clientBytes client g = clientBytes client h)
      (wcatTcpConnect host port cfg.family cfg.timeoutMs) (fun _ _ => True) h := by
    refine ((hapart.and hdials).always ⟨hu.named, rfl⟩ ?_).post_mono fun _ _ _ => trivial
    rintro g e r ⟨hg, hbytes⟩ ⟨hapart, hdial⟩ -
    refine ⟨hg.cons ?_, ?_⟩
    · intro fd addr heq
      obtain ⟨k, rfl⟩ := hdial fd addr heq
      exact ⟨host, port, k, hbytes ▸ htarget, rfl⟩
    · rw [clientBytes, clientPart_of_apart hapart, List.append_nil, hbytes]
  have hreached : Always legal (fun _ => True)
      (wcatTcpConnect host port cfg.family cfg.timeoutMs)
      (fun r g => r ≠ none → Reached legal cfg client g) h := by
    refine Always.of_runs fun g r hr hne => ?_
    obtain ⟨upstream, rfl⟩ := Option.ne_none_iff_exists'.mp hne
    exact ⟨host, port, h, g, upstream, List.suffix_refl g, htarget, hr⟩
  refine (((always_wordless hwordless).and hnamed).and hreached).mono ?_ ?_
  · rintro g ⟨⟨hg, hnamed, -⟩, -⟩
    exact (hu.unmoved hg hnamed).attended
  · rintro r g ⟨⟨hg, hnamed, -⟩, -⟩ ⟨⟨⟨-, hsock⟩, -⟩, hreached⟩
    exact ⟨hu.unmoved hg hnamed, hsock, hreached⟩

/-- The session from the connected target on. -/
theorem Unanswered.connected (hu : Unanswered client h) {upstream : Fd} (hne : upstream ≠ client)
    (hreached : Reached legal cfg client h) (host port : Bytes) (opts : RelayOptions) :
    Always legal (Attended legal cfg client) (do
      if !(← writeProxyResponse client 200 "Connection Established") then do
        wcatCloseQuiet upstream
        pure 1
      else do
        sys (.log .info "proxy_connect" "proxy CONNECT %s:%s" [.str host, .str port])
        let ok ← wcatRelayBidirectional (clientStream client) (upstreamStream upstream) opts
        wcatCloseQuiet upstream
        pure (if ok then 0 else 1)) (ToldAll client) h := by
  have hclose : ∀ rc : ℕ, Within (Meanwhile client) (do wcatCloseQuiet upstream; pure rc)
      fun rc' => rc' = rc := fun rc =>
    (within_wcatCloseQuiet ⟨⟨trivial, by simp [Unread]⟩, by simp [Undialed]⟩).next fun _ => rfl
  refine always_bind'.mpr ((hu.answer (.inr ⟨rfl, hreached⟩)).mono (fun _ => id)
    fun ok g hs hall => ?_)
  obtain ⟨hsuf, hunread, htold⟩ := hall
  cases ok with
  | false =>
    exact (always_meanwhile (hclose 1) hs).post_mono fun rc _ hQ hrc => by simp [hQ.2] at hrc
  | true =>
    have hlog : Within (Meanwhile client) (sys (.log .info "proxy_connect" "proxy CONNECT %s:%s"
        [.str host, .str port])) fun _ => True := within_sys (meanwhile_of_quiet _ rfl)
    refine always_bind'.mpr ((always_meanwhile hlog hs).mono (fun _ => id) fun _ g' hs hsame => ?_)
    obtain ⟨hg, -⟩ := hsame
    have hundialed : Within Undialed
        (wcatRelayBidirectional (clientStream client) (upstreamStream upstream) opts)
        fun _ => True := by
      have hin : ∀ o fd, StreamIn Undialed (wcatStreamFromFd o fd) := fun o fd =>
        ⟨fun _ => by simp [Undialed],
          fun _ _ => ⟨fun _ => by simp [Undialed], fun _ => by simp [Undialed]⟩⟩
      have hin' : StreamIn Undialed (clientStream client) := hin .clientStream client
      exact within_wcatRelayBidirectional (still_of_quiet undialed_of_quiet) (by simp [Undialed]) hin'
        (hin _ _) opts
    refine always_bind'.mpr (((always_relay_told hne (hreached.mono (hsuf.trans hg.suffix))
      (hg.written.trans (htold rfl)) (hg.read.trans hunread) opts).and
      (always_undialed hundialed hs.named)).mono (fun _ hS => ⟨hS.1, hS.2⟩) ?_)
    rintro ok g'' hS ⟨⟨said, hsaid, -, hwhole⟩, -⟩
    -- closing the target tells the client nothing
    refine (always_meanwhile (hclose (if ok then 0 else 1)) ⟨hS.1, hS.2⟩).post_mono ?_
    rintro rc g₃ ⟨hg, rfl⟩ hrc
    have hok : ok = true := by
      by_contra hno
      rw [if_neg hno] at hrc
      exact absurd hrc (by simp)
    rw [hg.written, hg.read, hsaid, hwhole hok]

/-- **A session of the server**, from an empty history. -/
theorem always_serveProxyClient_told (cfg : Config) (t : Transport) (n : ℕ) :
    Always legal (Attended legal cfg (.conn t n)) (serveProxyClient cfg (.conn t n))
      (ToldAll (.conn t n)) [] := by
  have hstart : Unanswered (.conn t n) [] := ⟨rfl, rfl, .refl⟩
  have hmeanwhile : Within (Meanwhile (.conn t n)) (readHttpHeader (.conn t n) 4096)
      fun _ => True := by
    refine Within.loop (fun _ => True) trivial fun buf _ => Within.ite (fun _ => ?_) fun _ => ?_
    · refine Within.step ⟨⟨trivial, by simp [Unread]⟩, by simp [Undialed]⟩ fun r => ?_
      rcases r with ⟨bytes, hne, hle⟩ | _ | err
      · exact Within.ite (fun _ => trivial) fun _ => trivial
      · trivial
      · cases err <;> trivial
    · exact Within.step (meanwhile_of_quiet _ rfl) fun _ => trivial
  refine always_bind'.mpr (((hstart.meanwhile hmeanwhile).and (always_readHttpHeader _ 4096)).mono
    (fun _ hS => hS.1) ?_)
  rintro r g - ⟨⟨hu, -⟩, htaken⟩
  have hbad : Always legal (Attended legal cfg (.conn t n)) (do
      let _ ← writeProxyResponse (.conn t n) 400 "Bad Request"
      pure 1) (ToldAll (.conn t n)) g :=
    hu.refuse (by simp [refusals]) (within_pure.mpr (by simp))
  cases r with
  | none => exact hbad
  | some buf =>
    rw [Option.bind_some]
    cases htarget : parseConnectRequest (ofBuffer buf) 256 32 with
    | none => exact hbad
    | some target =>
      obtain ⟨host, port⟩ := target
      have hasked : parseConnectRequest (ofBuffer (clientBytes (.conn t n) g)) 256 32 =
          some (host, port) := by rw [(show HeaderTaken _ _ _ _ from htaken).taken, htarget]
      refine always_bind'.mpr ((hu.dial hasked).mono (fun _ => id) ?_)
      rintro r g' - ⟨hu, hsock, hreached⟩
      cases r with
      | none =>
        refine hu.refuse (by simp [refusals]) ?_
        exact Within.step (meanwhile_of_quiet _ rfl) fun _ => within_pure.mpr (by simp)
      | some upstream =>
        obtain ⟨m, rfl⟩ := hsock upstream rfl
        exact hu.connected (by simp) (hreached (by simp)) host port cfg.relayOptions

end

/-- **What the client of the server is told**, and about whom. -/
structure Tunnelled (cfg : Config) (t : Transport) (n : ℕ) : Prop where
  /-- At every moment of a session the client was told that it is refused, or, once the target was
  reached, that the connection is established, and behind it a beginning of what the target has
  said. -/
  told : ∀ h h' o, Runs Legal (serveProxyClient cfg (.conn t n)) h h' o →
    ∃ ext, h' = ext ++ h ∧ Told (After Legal h) cfg (.conn t n) ext
  /-- Whoever the server connects to is named in what the client has sent by then. -/
  named : ∀ h h' o, Runs Legal (serveProxyClient cfg (.conn t n)) h h' o →
    ∃ ext, h' = ext ++ h ∧ Throughout (NamedByClient (.conn t n)) [] ext
  /-- When the session ends well the client was told all of it. -/
  complete : ∀ h h', Runs Legal (serveProxyClient cfg (.conn t n)) h h' (some 0) →
    ∃ ext, h' = ext ++ h ∧
      writtenTo (.conn t n) ext = established ++ bytesRead .upstreamStream ext

/-- **The tunnel of the server is faithful to its client.** -/
theorem tunnelled (cfg : Config) (t : Transport) (n : ℕ) : Tunnelled cfg t n where
  told h h' o hr := by
    obtain ⟨ext, rfl, hr'⟩ := Runs.shift (g := []) hr
    exact ⟨ext, rfl, ((always_serveProxyClient_told cfg t n).safe hr').told⟩
  named h h' o hr := by
    obtain ⟨ext, rfl, hr'⟩ := Runs.shift (g := []) hr
    exact ⟨ext, rfl, ((always_serveProxyClient_told cfg t n).safe hr').named⟩
  complete h h' hr := by
    obtain ⟨ext, rfl, hr'⟩ := Runs.shift (g := []) hr
    exact ⟨ext, rfl, (always_serveProxyClient_told cfg t n).post hr' rfl⟩

end Wirecat
