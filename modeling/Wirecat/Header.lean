import Wirecat.HttpConnect
import Wirecat.Responsive

/-!
# The header of a CONNECT request

`read_http_header` asks for one byte at a time, so that it cannot read beyond the empty line, and after
each byte it searches the whole array again, as a string. What that search finds is a matter of
the last byte alone: had there been an empty line before, the loop would have ended, and had
there been a NUL, nothing behind it would ever be found. So where the search succeeds the
array holds no NUL and ends with its first empty line (`Wirecat.seen_last`), and this is the whole
of the invariant.

A header that a NUL hides is therefore refused, not misread: the loop goes on to the end of the
array. That it comes there is counted (`Wirecat.HeaderBounds.rounds`): every round brings a byte or
was interrupted.

What the client sends behind its header is still to be read when the relay begins
(`Wirecat.HeaderThenRelay`): the two of them read the same descriptor, one after the other, and
their bytes in a row are what was taken from the client.
-/

namespace Wirecat

open CString Interaction Conduit

/-! ### What is taken from a client -/

/-- What an event takes from a client: a read while its header is read, or by the relay. -/
def clientPart (fd : Fd) : Ev → Bytes
  | ⟨.read via fd' _ _ _, .data bytes _ _⟩ =>
      if fd' = fd ∧ (via = .server ∨ via = .stream .clientStream) then bytes else []
  | _ => []

/-- The bytes that were taken from a client, oldest first. -/
def clientBytes (fd : Fd) : Hist → Bytes
  | [] => []
  | ev :: h => clientBytes fd h ++ clientPart fd ev

theorem clientBytes_append (fd : Fd) (g h : Hist) :
    clientBytes fd (g ++ h) = clientBytes fd h ++ clientBytes fd g := by
  induction g with
  | nil => rw [List.nil_append, clientBytes, List.append_nil]
  | cons ev g ih => rw [List.cons_append, clientBytes, ih, clientBytes, List.append_assoc]

/-! ### The search -/

/-- **An empty line that was not there before the last byte** is at the end, and no NUL is before it. -/
theorem seen_last {buf : Bytes} {b : UInt8} (hbefore : isInfix headerEnd (ofBuffer buf) = false)
    (hafter : isInfix headerEnd (ofBuffer (buf ++ [b])) = true) :
    IsHeader (buf ++ [b]) (buf ++ [b]) ∧ 0 ∉ buf ++ [b] := by
  obtain ⟨header, hh, hclean, hpre⟩ := (seen_iff List.prefix_rfl).mp hafter
  rcases List.prefix_concat_iff.mp hpre with rfl | hshort
  · exact ⟨hh, hclean⟩
  · -- a header within what was there before would have been seen
    have hseen : isInfix headerEnd (ofBuffer buf) = true :=
      (seen_iff List.prefix_rfl).mpr ⟨header, ⟨hshort, hh.ends, hh.first⟩, hclean, hshort⟩
    rw [hbefore] at hseen
    exact absurd hseen (by simp)

theorem IsHeader.extend {buf stream header : Bytes} (hh : IsHeader buf header) (hp : buf <+: stream) :
    IsHeader stream header :=
  ⟨hh.prefix_of.trans hp, hh.ends, hh.first⟩

/-! ### Reading the header -/

section
variable {legal : Hist → (e : Sys) → Resp e → Prop} {fd : Fd} {len : ℕ}

/-- A read into an array of `len` bytes that leaves room for the NUL. -/
def RoomForNul (len : ℕ) : Sys → Prop
  | .read _ _ cap off n => cap = len ∧ off + n < len
  | _ => True

/-- A read of the server that was interrupted. -/
def interrupts : Ev → Bool
  | ⟨.read .server _ _ _ _, .error .eintr⟩ => true
  | _ => false

/-- A read of the server that failed, or found the end. -/
def breaksOff (fd : Fd) : Ev → Bool
  | ⟨.read .server fd' _ _ _, .eof⟩ => fd' = fd
  | ⟨.read .server fd' _ _ _, .error e⟩ => fd' = fd && e ≠ .eintr
  | _ => false

/-- What holds at every moment of the reading: the stores, the bytes and the rounds are bounded. -/
structure HeaderBounds (fd : Fd) (len : ℕ) (ext : Hist) : Prop where
  stores : ∀ ev ∈ ext, RoomForNul len ev.1
  bytes : (clientBytes fd ext).length ≤ len - 1
  rounds : ext.length ≤ (clientBytes fd ext).length + ext.countP interrupts + 1

/-- The invariant of the loop, with what is in the array. -/
structure HeaderSoFar (fd : Fd) (len : ℕ) (buf : Bytes) (ext : Hist) : Prop where
  stores : ∀ ev ∈ ext, RoomForNul len ev.1
  taken : clientBytes fd ext = buf
  bytes : buf.length ≤ len - 1
  rounds : ext.length = buf.length + ext.countP interrupts
  unseen : isInfix headerEnd (ofBuffer buf) = false

/-- A header was read: it is all that was taken. -/
structure HeaderTaken (fd : Fd) (len : ℕ) (buf : Bytes) (ext : Hist) : Prop where
  taken : clientBytes fd ext = buf
  bytes : buf.length ≤ len - 1
  isHeader : IsHeader buf buf
  clean : 0 ∉ buf

/-- No header was found: the client broke off, or the array is full of what is none. -/
def HeaderMissed (fd : Fd) (len : ℕ) (ext : Hist) : Prop :=
  (∃ ev ∈ ext, breaksOff fd ev = true) ∨
    len ≤ (clientBytes fd ext).length + 1 ∧ isInfix headerEnd (ofBuffer (clientBytes fd ext)) = false

/-- What the reading comes to. -/
def HeaderOutcome (fd : Fd) (len : ℕ) : Option Bytes → Hist → Prop
  | some buf, ext => HeaderTaken fd len buf ext
  | none, ext => HeaderMissed fd len ext

/-- **A client that does not break off gets its header read**, if there is room for it and no NUL in
it. -/
theorem HeaderOutcome.found {r : Option Bytes} {stream header : Bytes} {ext : Hist}
    (ho : HeaderOutcome fd len r ext) (hwhole : ∀ ev ∈ ext, breaksOff fd ev = false)
    (hpre : clientBytes fd ext <+: stream) (hh : IsHeader stream header) (hclean : 0 ∉ header)
    (hroom : header.length ≤ len - 1) : r = some header := by
  cases r with
  | some buf =>
    obtain ⟨htaken, -, hisHeader, -⟩ := ho
    rw [htaken] at hpre
    rw [(hisHeader.extend hpre).unique hh]
  | none =>
    rcases ho with ⟨ev, hev, hbreaks⟩ | ⟨hfull, hunseen⟩
    · rw [hwhole ev hev] at hbreaks
      exact absurd hbreaks (by simp)
    · -- the array would hold the header
      have hin : header <+: clientBytes fd ext :=
        List.prefix_of_prefix_length_le hh.prefix_of hpre (by omega)
      rw [(seen_iff hpre).mpr ⟨header, hh, hclean, hin⟩] at hunseen
      exact absurd hunseen (by simp)

theorem HeaderSoFar.bounds {buf : Bytes} {ext : Hist} (hs : HeaderSoFar fd len buf ext) :
    HeaderBounds fd len ext := by
  refine ⟨hs.stores, hs.taken.symm ▸ hs.bytes, ?_⟩
  rw [hs.taken, hs.rounds]
  omega

/-- One more event that takes nothing. -/
theorem HeaderSoFar.failed {buf : Bytes} {ext : Hist} {ev : Ev} (hs : HeaderSoFar fd len buf ext)
    (hroom : RoomForNul len ev.1) (hnone : clientPart fd ev = []) :
    HeaderBounds fd len (ev :: ext) := by
  have htaken : clientBytes fd (ev :: ext) = buf := by
    rw [clientBytes, hnone, List.append_nil, hs.taken]
  refine ⟨List.forall_mem_cons.mpr ⟨hroom, hs.stores⟩, htaken.symm ▸ hs.bytes, ?_⟩
  rw [htaken, List.length_cons, hs.rounds, List.countP_cons]
  omega

/-- One more byte. -/
theorem HeaderSoFar.byte {buf : Bytes} {ext : Hist} {b : UInt8} (hs : HeaderSoFar fd len buf ext)
    (hroom : buf.length + 1 < len) (hne : [b] ≠ []) (hle : [b].length ≤ 1) :
    let ext' : Hist := ⟨.read .server fd len buf.length 1, .data [b] hne hle⟩ :: ext
    (∀ ev ∈ ext', RoomForNul len ev.1) ∧ clientBytes fd ext' = buf ++ [b] ∧
      (buf ++ [b]).length ≤ len - 1 ∧
      ext'.length = (buf ++ [b]).length + ext'.countP interrupts := by
  refine ⟨List.forall_mem_cons.mpr ⟨⟨rfl, hroom⟩, hs.stores⟩, ?_, ?_, ?_⟩
  · rw [clientBytes, hs.taken, clientPart, if_pos ⟨rfl, .inl rfl⟩]
  · rw [List.length_append, List.length_singleton]
    omega
  · rw [List.length_cons, hs.rounds, List.length_append, List.length_singleton,
      List.countP_cons_of_neg (by simp [interrupts])]
    omega

/-- **Reading a header**, from an empty history. -/
theorem always_readHttpHeader (fd : Fd) (len : ℕ) :
    Always legal (HeaderBounds fd len) (readHttpHeader fd len)
      (HeaderOutcome fd len) [] := by
  refine Always.loop (HeaderSoFar fd len) ⟨by simp, rfl, Nat.zero_le _, rfl, by decide⟩ ?_
  intro buf ext hs
  refine Always.ite (fun hroom => Always.ask hs.bounds fun r _ => ?_) fun hfull => ?_
  · have hfits : RoomForNul len (.read .server fd len buf.length 1) := ⟨rfl, hroom⟩
    rcases r with ⟨bytes, hne, hle⟩ | _ | err
    · obtain ⟨b, rfl⟩ : ∃ b, bytes = [b] := by
        match bytes, hne, hle with
        | [b], _, _ => exact ⟨b, rfl⟩
      obtain ⟨hstores, htaken, hbytes, hrounds⟩ := hs.byte hroom hne hle
      have hbounds : HeaderBounds fd len
          (⟨.read .server fd len buf.length 1, .data [b] hne hle⟩ :: ext) :=
        ⟨hstores, htaken.symm ▸ hbytes, by rw [htaken, hrounds]; omega⟩
      refine Always.ite (fun hseen => ?_) fun hseen => ?_
      · obtain ⟨hheader, hclean⟩ := seen_last hs.unseen hseen
        exact always_pure.mpr ⟨hbounds, htaken, hbytes, hheader, hclean⟩
      · exact always_pure.mpr ⟨hbounds, hstores, htaken, hbytes, hrounds, by simpa using hseen⟩
    · exact always_pure.mpr ⟨hs.failed hfits rfl, .inl ⟨_, List.mem_cons_self, by simp [breaksOff]⟩⟩
    · cases err
      case eintr =>
        -- interrupted: nothing was stored, and the round is counted
        refine (always_pure (a := Sum.inl buf)).mpr ⟨hs.failed hfits rfl, ?_⟩
        refine ⟨List.forall_mem_cons.mpr ⟨hfits, hs.stores⟩, ?_, hs.bytes, ?_, hs.unseen⟩
        · rw [clientBytes, hs.taken]
          exact List.append_nil buf
        · rw [List.length_cons, hs.rounds, List.countP_cons_of_pos rfl]
          omega
      all_goals
        exact (always_pure (a := Sum.inr none) (Q := roundPost _ _)).mpr
          ⟨hs.failed hfits rfl, .inl ⟨_, List.mem_cons_self, by simp [breaksOff]⟩⟩
  · refine Always.ask hs.bounds fun _ _ => always_pure.mpr ⟨hs.failed trivial rfl, .inr ?_⟩
    rw [show clientBytes fd (⟨.setErrno .emsgsize, _⟩ :: ext) = buf from
      (List.append_nil _).trans hs.taken]
    exact ⟨by omega, hs.unseen⟩

end

/-! ### Before and after the relay -/

section
variable {legal : Hist → (e : Sys) → Resp e → Prop} {cfg : Config} {client upstream : Fd} {h : Hist}

/-- The requests that neither take anything from a client nor give anything to the upstream. -/
def Apart (client : Fd) : Sys → Prop
  | .read via fd _ _ _ => fd ≠ client ∨ (via ≠ .server ∧ via ≠ .stream .clientStream)
  | .write via _ _ => via ≠ .stream .upstreamStream
  | .sslWrite o _ _ => o ≠ .upstreamStream
  | _ => True

theorem apart_of_quiet (e : Sys) (he : Quiet e = true) : Apart client e := by
  cases e <;> trivial

theorem clientPart_of_apart {e : Sys} (he : Apart client e) (r : Resp e) :
    clientPart client ⟨e, r⟩ = [] := by
  cases e with
  | read via fd cap off len =>
    cases r with
    | data bytes hne hle =>
      refine if_neg ?_
      rintro ⟨rfl, rfl | rfl⟩
      · exact he.elim (fun h => h rfl) fun h => h.1 rfl
      · exact he.elim (fun h => h rfl) fun h => h.2 rfl
    | _ => rfl
  | _ => rfl

/-- Only a write of a stream is seen as an acceptance of bytes by it. -/
theorem obs_eq_put {e : Sys} {r : Resp e} {o : Obj} {bs : Bytes} (hobs : obs e r = some (.put o bs)) :
    (∃ fd buf, e = .write (.stream o) fd buf) ∨ ∃ fd buf, e = .sslWrite o fd buf := by
  cases e with
  | write via fd buf =>
    cases via with
    | stream o' =>
      obtain ⟨n, hn⟩ | err := r
      · simp only [obs, writeObs] at hobs
        split_ifs at hobs
        · simp at hobs
        · simp only [Option.some.injEq, Obs.put.injEq] at hobs
          exact .inl ⟨fd, buf, by rw [hobs.1]⟩
      · simp only [obs, writeObs] at hobs
        split_ifs at hobs
        simp at hobs
    | _ => simp [obs] at hobs
  | sslWrite o' fd buf =>
    obtain ⟨n, hpos, hn⟩ | err := r
    · simp only [obs, sslWriteObs, Option.some.injEq, Obs.put.injEq] at hobs
      exact .inr ⟨fd, buf, by rw [hobs.1]⟩
    · simp only [obs, sslWriteObs] at hobs
      split_ifs at hobs
      simp at hobs
  | read via fd cap off len =>
    cases via <;> rcases r with _ | _ | err <;> simp [obs, readObs] at hobs
  | sslRead o' fd len =>
    obtain _ | err := r
    · simp [obs, sslReadObs] at hobs
    · cases err <;> simp [obs, sslReadObs] at hobs
  | poll fds timeout => rcases r with err | _ | _ <;> simp [obs, waitObs] at hobs
  | _ => simp [obs] at hobs

/-- The requests that write nothing to the upstream. -/
def Unwritten (e : Sys) : Prop :=
  (∀ fd buf, e ≠ .write (.stream .upstreamStream) fd buf) ∧
    ∀ fd buf, e ≠ .sslWrite .upstreamStream fd buf

theorem unwritten_of_apart {e : Sys} (he : Apart client e) : Unwritten e := by
  constructor
  · rintro fd buf rfl
    exact he rfl
  · rintro fd buf rfl
    exact he rfl

/-- What is not written by a stream is not accepted by it. -/
theorem bytesWritten_of_unwritten {e : Sys} (he : Unwritten e) (r : Resp e) :
    bytesWritten .upstreamStream (⟨e, r⟩ :: h) = bytesWritten .upstreamStream h := by
  have hput : ∀ bs, obs e r ≠ some (.put .upstreamStream bs) := by
    intro bs hobs
    rcases obs_eq_put hobs with ⟨fd, buf, heq⟩ | ⟨fd, buf, heq⟩
    · exact he.1 fd buf heq
    · exact he.2 fd buf heq
  rw [bytesWritten, trace_cons]
  cases hobs : obs e r with
  | none => rfl
  | some ob =>
    cases ob with
    | put o bs =>
      have hne : o ≠ .upstreamStream := fun heq => hput bs (heq ▸ hobs)
      rw [Option.toList_some, List.singleton_append, putTo, if_neg hne, List.append_nil]
      rfl
    | _ => rfl

/-- A part of the program that leaves the client and the upstream alone. -/
theorem Within.apart {α : Type} {p : Proc α} {Q : α → Prop} (hp : Within (Apart client) p Q) :
    Always legal (fun h' => clientBytes client h' = clientBytes client h ∧
        bytesWritten .upstreamStream h' = bytesWritten .upstreamStream h) p
      (fun a h' => (clientBytes client h' = clientBytes client h ∧
        bytesWritten .upstreamStream h' = bytesWritten .upstreamStream h) ∧ Q a) h := by
  refine hp.always ⟨rfl, rfl⟩ ?_
  rintro g e r ⟨hclient, hup⟩ he -
  refine ⟨?_, (bytesWritten_of_unwritten (unwritten_of_apart he) r).trans hup⟩
  rw [clientBytes, clientPart_of_apart he, List.append_nil, hclient]

/-! ### The relay -/

/-- The requests of the relay of the server. -/
def Relays (client : Fd) : Sys → Prop
  | .read via fd _ _ _ => via = .stream .clientStream ∧ fd = client ∨ via = .stream .upstreamStream
  | .sslRead o _ _ => o ≠ .clientStream
  | _ => True

/-- What the relay takes from the client is what it reads from that stream. -/
theorem clientPart_of_relays {e : Sys} (he : Relays client e) (r : Resp e) :
    clientPart client ⟨e, r⟩ = gotFrom .clientStream (obs e r).toList := by
  cases e with
  | read via fd cap off len =>
    rcases he with ⟨rfl, rfl⟩ | rfl
    · rcases r with ⟨bytes, hne, hle⟩ | _ | err
      · simp [clientPart, obs, readObs, gotFrom]
      · simp [clientPart, obs, readObs, gotFrom]
      · simp only [obs, readObs]
        split_ifs <;> rfl
    · rcases r with ⟨bytes, hne, hle⟩ | _ | err
      · simp [clientPart, obs, readObs, gotFrom]
      · simp [clientPart, obs, readObs, gotFrom]
      · simp only [obs, readObs]
        split_ifs <;> rfl
  | write via fd buf =>
    cases via with
    | stream o =>
      rcases r with ⟨n, hn⟩ | err <;>
      · simp only [obs, writeObs]
        split_ifs <;> rfl
    | _ => rfl
  | sslRead o fd len =>
    rcases r with ⟨bytes, hne, hle⟩ | err
    · simp [clientPart, obs, sslReadObs, gotFrom, show o ≠ .clientStream from he]
    · cases err <;> rfl
  | sslWrite o fd buf =>
    rcases r with ⟨n, hpos, hn⟩ | err
    · rfl
    · simp only [obs, sslWriteObs]
      split_ifs <;> rfl
  | poll fds timeout =>
    rcases r with err | _ | _
    · simp only [obs, waitObs]
      split_ifs <;> rfl
    · simp only [obs, waitObs]
      split_ifs <;> rfl
    · rfl
  | _ => rfl

theorem clientBytes_of_relays {ext : Hist} (hext : ∀ ev ∈ ext, Relays client ev.1) :
    clientBytes client ext = bytesRead .clientStream ext := by
  induction ext with
  | nil => rfl
  | cons ev ext ih =>
    obtain ⟨e, r⟩ := ev
    rw [clientBytes, ih fun ev hev => hext ev (List.mem_cons_of_mem _ hev), bytesRead, bytesRead,
      trace_cons, gotFrom_append, clientPart_of_relays (hext _ List.mem_cons_self)]

/-- **How the bytes of a client are divided**: a header, and the rest, of which the upstream has
accepted the beginning. -/
structure Divided (client : Fd) (header rest : Bytes) (ext : Hist) : Prop where
  taken : clientBytes client ext = header ++ rest
  isHeader : rest ≠ [] → IsHeader (header ++ rest) header
  accepted : bytesWritten .upstreamStream ext <+: rest

/-- The bytes of a client are divided in some way. -/
def InParts (client : Fd) (ext : Hist) : Prop := ∃ header rest, Divided client header rest ext

/-- Where there is no rest there is nothing for the upstream. -/
theorem divided_nil {header : Bytes} (htaken : clientBytes client h = header)
    (hnone : bytesWritten .upstreamStream h = []) : Divided client header [] h :=
  ⟨by rw [htaken, List.append_nil], fun hne => absurd rfl hne, hnone ▸ List.prefix_rfl⟩

/-- What is true once the header `buf` has been read. -/
structure Headed (client : Fd) (buf : Bytes) (h : Hist) : Prop where
  taken : clientBytes client h = buf
  isHeader : IsHeader buf buf
  unwritten : bytesWritten .upstreamStream h = []

/-- A part of the session between the header and the relay, or instead of it. -/
theorem Headed.apart {buf : Bytes} (hh : Headed client buf h) {α : Type} {p : Proc α} {Q : α → Prop}
    (hp : Within (Apart client) p Q) :
    Always legal (InParts client) p (fun a h' => Headed client buf h' ∧ Q a) h := by
  refine (Within.apart hp).mono ?_ ?_
  · rintro g ⟨hclient, hup⟩
    exact ⟨buf, [], divided_nil (hclient.trans hh.taken) (hup.trans hh.unwritten)⟩
  · rintro a g - ⟨⟨hclient, hup⟩, ha⟩
    exact ⟨⟨hclient.trans hh.taken, hh.isHeader, hup.trans hh.unwritten⟩, ha⟩

theorem within_writeProxyResponse {F : Sys → Prop} (hw : ∀ buf, F (.write .server client buf))
    (he : F (.setErrno .einval)) (status : ℕ) (text : String) :
    Within F (writeProxyResponse client status text) fun _ => True :=
  Within.ite (fun _ => Within.step he fun _ => trivial)
    fun _ => (within_wcatFullWrite hw _).next fun _ => trivial

/-- **The relay begins where the header ended.** -/
theorem Headed.relay {buf : Bytes} (hh : Headed client buf h) (opts : RelayOptions) :
    Always legal (InParts client)
      (wcatRelayBidirectional (clientStream client) (upstreamStream upstream) opts)
      (fun ok ext => ∃ rest, Divided client buf rest ext ∧
        (ok = true → bytesWritten .upstreamStream ext = rest)) h := by
  have hab : (clientStream client).obj ≠ (upstreamStream upstream).obj := by
    rw [clientStream, upstreamStream]
    simp [wcatStreamFromFd]
  have hdiscipline := @always_wcatRelayBidirectional (clientStream client) (upstreamStream upstream)
    (After legal h) hab (fun _ _ h => by simp [clientStream, wcatStreamFromFd] at h)
    (fun _ _ h => by simp [upstreamStream, wcatStreamFromFd] at h) opts
  have hquiet : ∀ e, Quiet e = true → Relays client e := fun e he => by cases e <;> trivial
  have hwithin : Within (Relays client)
      (wcatRelayBidirectional (clientStream client) (upstreamStream upstream) opts) fun _ => True := by
    have hclient : StreamIn (Relays client) (clientStream client) :=
      ⟨fun _ => .inl ⟨rfl, rfl⟩, fun _ _ => ⟨fun _ => trivial, fun _ => trivial⟩⟩
    have hupstream : StreamIn (Relays client) (upstreamStream upstream) :=
      ⟨fun _ => .inr rfl, fun _ _ => ⟨fun _ => trivial, fun _ => trivial⟩⟩
    exact within_wcatRelayBidirectional (still_of_quiet hquiet) trivial hclient hupstream opts
  have hevents : Always (After legal h) (fun ext => ∀ ev ∈ ext, Relays client ev.1)
      (wcatRelayBidirectional (clientStream client) (upstreamStream upstream) opts)
      (fun _ ext => ∀ ev ∈ ext, Relays client ev.1) [] :=
    (hwithin.always (S := fun ext => ∀ ev ∈ ext, Relays client ev.1)
      (fun _ hev => absurd hev List.not_mem_nil)
      fun g e r hg he _ => List.forall_mem_cons.mpr ⟨he, hg⟩).post_mono fun _ _ hQ => hQ.1
  -- what the relay has read from the client is the rest
  have hdivided : ∀ ext, (∀ ev ∈ ext, Relays client ev.1) →
      bytesWritten .upstreamStream ext <+: bytesRead .clientStream ext →
      Divided client buf (bytesRead .clientStream ext) (ext ++ h) := by
    intro ext hext hpre
    refine ⟨?_, fun _ => hh.isHeader.extend (List.prefix_append _ _), ?_⟩
    · rw [clientBytes_append, hh.taken, clientBytes_of_relays hext]
    · rw [bytesWritten_append, hh.unwritten, List.nil_append]
      exact hpre
  refine (Always.shift (hdiscipline.and hevents)).mono ?_ ?_
  · rintro _ ⟨ext, rfl, hfollows, hext⟩
    obtain ⟨st, hv⟩ := Option.isSome_iff_exists.mp hfollows
    exact ⟨buf, _, hdivided ext hext ⟨_, (written_append_owed hab hv).1⟩⟩
  · rintro ok _ - ⟨ext, rfl, hsettled, hext⟩
    obtain ⟨st, hv⟩ := Option.isSome_iff_exists.mp hsettled.follows
    refine ⟨_, hdivided ext hext ⟨_, (written_append_owed hab hv).1⟩, ?_⟩
    rintro rfl
    obtain ⟨st, hv, hcarry, -⟩ := hsettled
    rw [bytesWritten_append, hh.unwritten, List.nil_append]
    exact (written_eq_read hab hv hcarry).1

/-- What the session of a client comes to: with the status `0`, the upstream has accepted all of the
rest. -/
def Served (client : Fd) (rc : ℕ) (ext : Hist) : Prop :=
  rc = 0 → ∃ header rest, Divided client header rest ext ∧ IsHeader (header ++ rest) header ∧
    bytesWritten .upstreamStream ext = rest

theorem Headed.refused {buf : Bytes} (hh : Headed client buf h) {p : Proc ℕ}
    (hp : Within (Apart client) p fun rc => rc ≠ 0) :
    Always legal (InParts client) p (Served client) h :=
  (hh.apart hp).post_mono fun _ _ hQ hrc => absurd hrc hQ.2

/-- A response is written, and the status is not `0`. -/
theorem within_respond {p : Proc ℕ} (hp : Within (Apart client) p fun rc => rc ≠ 0) (status : ℕ)
    (text : String) :
    Within (Apart client) (writeProxyResponse client status text >>= fun _ => p) fun rc => rc ≠ 0 :=
  (within_writeProxyResponse (fun _ => by simp [Apart]) trivial status text).next fun _ => hp

/-- The session from the connected upstream on. -/
theorem Headed.connected {buf : Bytes} (hh : Headed client buf h) (host port : Bytes)
    (opts : RelayOptions) :
    Always legal (InParts client) (do
      if !(← writeProxyResponse client 200 "Connection Established") then do
        wcatCloseQuiet upstream
        pure 1
      else do
        sys (.log .info "proxy_connect" "proxy CONNECT %s:%s" [.str host, .str port])
        let ok ← wcatRelayBidirectional (clientStream client) (upstreamStream upstream) opts
        wcatCloseQuiet upstream
        pure (if ok then 0 else 1)) (Served client) h := by
  have hresponse : Within (Apart client) (writeProxyResponse client 200 "Connection Established")
      fun _ => True := within_writeProxyResponse (fun _ => by simp [Apart]) trivial _ _
  have hclose : ∀ rc : ℕ, Within (Apart client) (do wcatCloseQuiet upstream; pure rc)
      fun rc' => rc' = rc := fun rc => (within_wcatCloseQuiet trivial).next fun _ => rfl
  refine always_bind'.mpr ((hh.apart hresponse).mono (fun _ => id) fun ok g _ ⟨hh, _⟩ => ?_)
  refine Always.ite (fun _ => ?_) fun _ => ?_
  · exact hh.refused ((hclose 1).post_mono fun rc hrc => by simp [hrc])
  have hlog : Within (Apart client) (sys (.log .info "proxy_connect" "proxy CONNECT %s:%s"
      [.str host, .str port])) fun _ => True := ⟨trivial, fun _ => trivial⟩
  refine always_bind'.mpr ((hh.apart hlog).mono (fun _ => id) fun _ g _ ⟨hh, _⟩ => ?_)
  refine always_bind'.mpr ((hh.relay opts).mono (fun _ => id) ?_)
  rintro ok g - ⟨rest, hd, hall⟩
  -- closing the upstream takes nothing and writes nothing
  refine (Within.apart (hclose (if ok then 0 else 1))).mono ?_ ?_
  · rintro g' ⟨hclient, hup⟩
    exact ⟨buf, rest, hclient.trans hd.taken, hd.isHeader, hup ▸ hd.accepted⟩
  · rintro rc g' - ⟨⟨hclient, hup⟩, rfl⟩ hrc
    have hok : ok = true := by
      by_contra hno
      rw [if_neg hno] at hrc
      exact absurd hrc (by simp)
    exact ⟨buf, rest, ⟨hclient.trans hd.taken, hd.isHeader, hup ▸ hd.accepted⟩,
      hh.isHeader.extend (List.prefix_append _ _), hup.trans (hall hok)⟩

/-- **A session of the server**, from an empty history. -/
theorem always_serveProxyClient (cfg : Config) (client : Fd) :
    Always legal (InParts client) (serveProxyClient cfg client) (Served client) [] := by
  have hunwritten : Within Unwritten (readHttpHeader client 4096) fun _ => True := by
    refine Within.loop (fun _ => True) trivial fun buf _ => Within.ite (fun _ => ?_) fun _ => ?_
    · refine Within.step ⟨fun _ _ => by simp, fun _ _ => by simp⟩ fun r => ?_
      rcases r with ⟨bytes, hne, hle⟩ | _ | err
      · exact Within.ite (fun _ => trivial) fun _ => trivial
      · trivial
      · cases err <;> trivial
    · exact Within.step ⟨fun _ _ => by simp, fun _ _ => by simp⟩ fun _ => trivial
  have hheader := (@always_readHttpHeader legal client 4096).and
    (hunwritten.always (S := fun g => bytesWritten .upstreamStream g = []) rfl
      fun g e r hg he _ => (bytesWritten_of_unwritten he r).trans hg)
  rw [serveProxyClient, always_bind']
  refine hheader.mono (fun g hS => ⟨_, [], divided_nil rfl hS.2⟩) ?_
  rintro r g ⟨-, hnone⟩ ⟨htaken, -, -⟩
  have hbad : Within (Apart client) (do
      let _ ← writeProxyResponse client 400 "Bad Request"
      pure 1) fun rc => rc ≠ 0 := within_respond (within_pure.mpr (by simp)) _ _
  cases r with
  | none =>
    refine (Within.apart hbad).mono ?_ fun rc _ _ hQ hrc => absurd hrc hQ.2
    rintro g' ⟨hclient, hup⟩
    exact ⟨_, [], divided_nil rfl (hup.trans hnone)⟩
  | some buf =>
    obtain ⟨htaken, -, hisHeader, -⟩ := htaken
    have hh : Headed client buf g := ⟨htaken, hisHeader, hnone⟩
    rw [Option.bind_some]
    cases parseConnectRequest (ofBuffer buf) 256 32 with
    | none => exact hh.refused hbad
    | some target =>
      obtain ⟨host, port⟩ := target
      have hconnect : Within (Apart client) (wcatTcpConnect host port cfg.family cfg.timeoutMs)
          (SockOf .tcp) :=
        within_inetConnect apart_of_quiet trivial (fun _ _ => trivial) (fun _ => trivial) _ _
      refine always_bind'.mpr ((hh.apart hconnect).mono (fun _ => id) fun fd g _ ⟨hh, _⟩ => ?_)
      cases fd with
      | none =>
        refine hh.refused (within_respond ?_ _ _)
        exact Within.step trivial fun _ => within_pure.mpr (by simp)
      | some upstream => exact hh.connected host port cfg.relayOptions

end

/-! ### How a session ends -/

/-- **How a session ends.** Where the target that is named in the header was reached, and the client
told so, a relay has ended, and the status is its result; in every other case the session has
failed. -/
inductive SessionEnd (cfg : Config) (client : Fd) (h h' : Hist) : ℕ → Prop
  /-- No header was read, or none that names a target. -/
  | unnamed {r : Option Bytes} {g : Hist}
      (read : Runs Legal (readHttpHeader client 4096) h g (some r))
      (none : (r.bind fun buf => parseConnectRequest (ofBuffer buf) 256 32) = none)
      (since : g <:+ h') : SessionEnd cfg client h h' 1
  /-- The target was not reached. -/
  | unreached {buf host port : Bytes} {g g₁ : Hist}
      (read : Runs Legal (readHttpHeader client 4096) h g (some (some buf)))
      (named : parseConnectRequest (ofBuffer buf) 256 32 = some (host, port))
      (dial : Runs Legal (wcatTcpConnect host port cfg.family cfg.timeoutMs) g g₁ (some none))
      (since : g₁ <:+ h') : SessionEnd cfg client h h' 1
  /-- The target was reached, and the client could not be told. -/
  | untold {buf host port : Bytes} {upstream : Fd} {g g₁ g₂ : Hist}
      (read : Runs Legal (readHttpHeader client 4096) h g (some (some buf)))
      (named : parseConnectRequest (ofBuffer buf) 256 32 = some (host, port))
      (dial : Runs Legal (wcatTcpConnect host port cfg.family cfg.timeoutMs) g g₁
        (some (some upstream)))
      (tell : Runs Legal (writeProxyResponse client 200 "Connection Established") g₁ g₂
        (some false))
      (since : g₂ <:+ h') : SessionEnd cfg client h h' 1
  /-- The relay has ended; if it ended well, the upstream has accepted all that came after the
  header. -/
  | relayed {buf host port : Bytes} {upstream : Fd} {g g₁ g₂ g₃ g₄ : Hist} {ok : Bool}
      (read : Runs Legal (readHttpHeader client 4096) h g (some (some buf)))
      (named : parseConnectRequest (ofBuffer buf) 256 32 = some (host, port))
      (dial : Runs Legal (wcatTcpConnect host port cfg.family cfg.timeoutMs) g g₁
        (some (some upstream)))
      (tell : Runs Legal (writeProxyResponse client 200 "Connection Established") g₁ g₂
        (some true))
      (later : g₂ <:+ g₃)
      (relay : Runs Legal (wcatRelayBidirectional (clientStream client) (upstreamStream upstream)
        cfg.relayOptions) g₃ g₄ (some ok))
      (since : g₄ <:+ h')
      (whole : ok = true → ∃ ext rest, h' = ext ++ h ∧ clientBytes client ext = buf ++ rest ∧
        bytesWritten .upstreamStream ext = rest) : SessionEnd cfg client h h' (if ok then 0 else 1)

section
variable {cfg : Config} {client : Fd} {h h' : Hist} {rc : ℕ}

/-- With the status `0`, what was read as the header is the header, and the upstream has accepted
the rest. -/
theorem whole_of_success {buf : Bytes} {g : Hist}
    (hr : Runs Legal (serveProxyClient cfg client) h h' (some 0))
    (hread : Runs Legal (readHttpHeader client 4096) h g (some (some buf))) (hsince : g <:+ h') :
    ∃ ext rest, h' = ext ++ h ∧ clientBytes client ext = buf ++ rest ∧
      bytesWritten .upstreamStream ext = rest := by
  obtain ⟨ext, rfl, hr'⟩ := Runs.shift (g := []) hr
  obtain ⟨header, rest, hd, hheader, hall⟩ := (always_serveProxyClient cfg client).post hr' rfl
  obtain ⟨early, rfl, hread'⟩ := Runs.shift (g := []) hread
  have ht : HeaderTaken client 4096 buf early := (always_readHttpHeader client 4096).post hread'
  obtain ⟨late, hlate⟩ := hsince
  rw [← List.append_assoc] at hlate
  obtain rfl := List.append_cancel_right hlate
  have hpre : buf <+: header ++ rest := by
    rw [← hd.taken, clientBytes_append, ht.taken]
    exact List.prefix_append _ _
  obtain rfl := (ht.isHeader.extend hpre).unique hheader
  exact ⟨_, rest, rfl, hd.taken, hall⟩

/-- **Every session that ends does so in one of these ways.** -/
theorem sessionEnd_of_runs (hr : Runs Legal (serveProxyClient cfg client) h h' (some rc)) :
    SessionEnd cfg client h h' rc := by
  have hwhole := hr
  rw [serveProxyClient] at hr
  obtain ⟨r, g, hread, hr⟩ := runs_bind_some'.mp hr
  cases hnamed : r.bind fun buf => parseConnectRequest (ofBuffer buf) 256 32 with
  | none =>
    rw [hnamed] at hr
    obtain ⟨_, g₁, htell, hret⟩ := runs_bind_some'.mp hr
    obtain ⟨rfl, rfl⟩ := runs_pure.mp hret
    exact .unnamed hread hnamed htell.suffix
  | some target =>
    rw [hnamed] at hr
    obtain ⟨host, port⟩ := target
    obtain ⟨buf, rfl, hnamed⟩ := Option.bind_eq_some_iff.mp hnamed
    obtain ⟨up, g₁, hdial, hr⟩ := runs_bind_some'.mp hr
    cases up with
    | none =>
      obtain ⟨_, g₂, htell, hr⟩ := runs_bind_some'.mp hr
      have hsince : g₁ <:+ h' := htell.suffix.trans hr.suffix
      obtain ⟨_, -, hr⟩ := runs_ask.mp hr
      obtain ⟨-, rfl⟩ := runs_pure.mp hr
      exact .unreached hread hnamed hdial hsince
    | some upstream =>
      obtain ⟨told, g₂, htell, hr⟩ := runs_bind_some'.mp hr
      cases told with
      | false =>
        have hsince := hr.suffix
        obtain ⟨_, g₃, -, hret⟩ := runs_bind_some'.mp hr
        obtain ⟨-, rfl⟩ := runs_pure.mp hret
        exact .untold hread hnamed hdial htell hsince
      | true =>
        rw [if_neg (by simp)] at hr
        obtain ⟨_, -, hr⟩ := runs_ask.mp hr
        obtain ⟨ok, g₃, hrelay, hr⟩ := runs_bind_some'.mp hr
        have hsince := hr.suffix
        obtain ⟨_, g₄, -, hret⟩ := runs_bind_some'.mp hr
        obtain ⟨-, rfl⟩ := runs_pure.mp hret
        refine .relayed hread hnamed hdial htell (List.suffix_cons _ _) hrelay hsince ?_
        rintro rfl
        have hlate : g <:+ h' := hdial.suffix.trans (htell.suffix.trans
          ((List.suffix_cons _ _).trans (hrelay.suffix.trans hsince)))
        exact whole_of_success hwhole hread hlate

end

/-! ### The whole -/

/-- **The header of a client**, and what comes after it. -/
structure ClientHeader (cfg : Config) (client : Fd) : Prop where
  /-- At every moment of the reading, each store is inside the array, with room for the NUL; at most
  `len - 1` bytes were taken; and there were no more rounds than that, but for interruptions
  and for the last. -/
  bounds : ∀ len h h' o, Runs Legal (readHttpHeader client len) h h' o →
    ∃ ext, h' = ext ++ h ∧ HeaderBounds client len ext
  /-- A header that is returned is all that was taken; it is what the array holds as a string; and it is
  the shortest beginning of the stream that ends with an empty line. -/
  header : ∀ len h h' buf, Runs Legal (readHttpHeader client len) h h' (some (some buf)) →
    ∃ ext, h' = ext ++ h ∧ clientBytes client ext = buf ∧ ofBuffer buf = buf ∧
      buf.length ≤ len - 1 ∧ ∀ stream, buf <+: stream → IsHeader stream buf
  /-- Where a client does not break off, and the bytes it sends begin with a header that has room and
  no NUL, the reading returns that header. -/
  found : ∀ len h ext r, Runs Legal (readHttpHeader client len) h (ext ++ h) (some r) →
    (∀ ev ∈ ext, breaksOff client ev = false) → ∀ stream header, clientBytes client ext <+: stream →
      IsHeader stream header → 0 ∉ header → header.length ≤ len - 1 → r = some header
  /-- The loop ends for every client: the reading returns, whatever the reads bring, if only they are
  not interrupted for ever. -/
  returns : ∀ legal : Hist → (e : Sys) → Resp e → Prop, (∀ h e, ∃ r, legal h e r) →
    (∀ h e r, legal h e r → interrupts ⟨e, r⟩ = false) →
      ∀ len h, ∃ h' r, Runs legal (readHttpHeader client len) h h' (some r)
  /-- At every moment the reading is waiting for an answer, or it has returned. -/
  getsOn : ∀ len h, GetsOn Legal (readHttpHeader client len) h
  /-- At every moment of a session the upstream has accepted a beginning of what was taken behind the
  header. -/
  relayed : ∀ h h' o, Runs Legal (serveProxyClient cfg client) h h' o →
    ∃ ext, h' = ext ++ h ∧ InParts client ext
  /-- When the session ends well it has accepted all of it. -/
  complete : ∀ h h', Runs Legal (serveProxyClient cfg client) h h' (some 0) →
    ∃ ext header rest, h' = ext ++ h ∧ clientBytes client ext = header ++ rest ∧
      IsHeader (header ++ rest) header ∧ bytesWritten .upstreamStream ext = rest
  /-- A session that has ended has read the header, reached the target, told the client and relayed, as
  far as each of these went well; and its status is that of the relay. -/
  ends : ∀ h h' rc, Runs Legal (serveProxyClient cfg client) h h' (some rc) →
    SessionEnd cfg client h h' rc
  /-- At every moment a session is waiting for an answer, or it has ended. -/
  session_getsOn : ∀ h, GetsOn Legal (serveProxyClient cfg client) h

/-- **The header is read exactly, and what follows it is relayed.** -/
theorem clientHeader (cfg : Config) (client : Fd) : ClientHeader cfg client where
  bounds len h h' o hr := by
    obtain ⟨ext, rfl, hr'⟩ := Runs.shift (g := []) hr
    exact ⟨ext, rfl, (always_readHttpHeader client len).safe hr'⟩
  header len h h' buf hr := by
    obtain ⟨ext, rfl, hr'⟩ := Runs.shift (g := []) hr
    have ht : HeaderTaken client len buf ext := (always_readHttpHeader client len).post hr'
    exact ⟨ext, rfl, ht.taken, ofBuffer_eq_self ht.clean, ht.bytes, fun _ => ht.isHeader.extend⟩
  found len h ext r hr hwhole stream header hpre hh hclean hroom :=
    HeaderOutcome.found ((always_readHttpHeader client len).post hr.ext) hwhole hpre hh hclean hroom
  returns legal hany hquiet len h := by
    refine Runs.returns (busy_readHttpHeader client len) hany (n := h.length + len + 1) fun h' hr => ?_
    obtain ⟨ext, rfl, hr'⟩ := Runs.shift (g := []) hr
    have hquiet' : Always (After legal h) (fun ext => ext.countP interrupts = 0)
        (readHttpHeader client len) (fun _ _ => True) [] := by
      refine ((Within.all (readHttpHeader client len)).always
        (S := fun ext => ext.countP interrupts = 0) rfl ?_).post_mono fun _ _ _ => trivial
      intro g e r hg _ hl
      rw [List.countP_cons_of_neg (by simp [hquiet _ _ _ hl]), hg]
    have hbounds := (always_readHttpHeader client len).safe hr'
    have hrounds := hbounds.rounds
    have hbytes := hbounds.bytes
    rw [hquiet'.safe hr'] at hrounds
    rw [List.length_append]
    omega
  getsOn len h := (busy_readHttpHeader client len).getsOn fun _ e => ⟨_, legal_refuse _ e⟩
  relayed h h' o hr := by
    obtain ⟨ext, rfl, hr'⟩ := Runs.shift (g := []) hr
    exact ⟨ext, rfl, (always_serveProxyClient cfg client).safe hr'⟩
  complete h h' hr := by
    obtain ⟨ext, rfl, hr'⟩ := Runs.shift (g := []) hr
    obtain ⟨header, rest, hd, hheader, hall⟩ := (always_serveProxyClient cfg client).post hr' rfl
    exact ⟨ext, header, rest, rfl, hd.taken, hheader, hall⟩
  ends h h' rc hr := sessionEnd_of_runs hr
  session_getsOn h := (busy_serveProxyClient cfg client).getsOn fun _ e => ⟨_, legal_refuse _ e⟩

/-- A text that comes byte by byte. -/
def readByByte (text : Bytes) (off len : ℕ) : ReadRes len :=
  if hfits : 1 ≤ len then .data [text.getD off 0] (by simp) (by simpa using hfits) else .eof

/-- What surrounds a session: the client sends `request` and "hi" behind it, and the target says
"yo". -/
def visit (request : Bytes) (h : Hist) : (e : Sys) → Resp e
  | .stop => false
  | .getaddrinfo _ _ _ _ _ => some 1
  | .socket _ => .ok 5
  | .connect _ _ | .close _ => none
  | .write _ _ buf => .all buf
  | .read .server _ _ off len => readByByte request off len
  | .read (.stream .clientStream) _ _ _ len => readOnce .clientStream (lit "hi") h len
  | .read (.stream .upstreamStream) _ _ _ len => readOnce .upstreamStream (lit "yo") h len
  | .poll fds _ => .reporting fds (fds.map fun _ => { pollin := true })
  | e => refuse e

/-- The session of such a client. -/
def visitRun (request : Bytes) : Hist × Option ℕ :=
  exec (lawful (visit request)) 400 (serveProxyClient {} (.conn .tcp 4)) []

theorem runs_visitRun (request : Bytes) :
    Runs Legal (serveProxyClient {} (.conn .tcp 4)) [] (visitRun request).1 (visitRun request).2 :=
  exec_runs (legal_lawful (visit request)) 400 (serveProxyClient {} (.conn .tcp 4)) []

/-- A header without any field. -/
def shortHeader : Bytes := lit "CONNECT h:2 HTTP/1.1\r\n\r\n"

/-- **What comes right behind a header** reaches the target. -/
theorem clientHeader_visit : bytesWritten .upstreamStream (visitRun shortHeader).1 = lit "hi" := by
  have hrc : (visitRun shortHeader).2 = some 0 := by decide +kernel
  have htaken : clientBytes (.conn .tcp 4) (visitRun shortHeader).1 = shortHeader ++ lit "hi" := by
    decide +kernel
  have hsent : IsHeader (shortHeader ++ lit "hi") shortHeader := by
    refine ⟨List.prefix_append _ _, by decide +kernel, fun p hp => ?_⟩
    have hall : ∀ p ∈ shortHeader.inits, headerEnd <:+ p → p = shortHeader := by decide +kernel
    exact hall p ((List.mem_inits _ _).mpr hp)
  obtain ⟨ext, header, rest, hext, hbytes, hheader, hall⟩ :=
    (clientHeader {} (.conn .tcp 4)).complete _ _ (hrc ▸ runs_visitRun shortHeader)
  rw [List.append_nil] at hext
  subst hext
  rw [htaken] at hbytes
  obtain rfl := (hbytes ▸ hsent).unique hheader
  exact hall.trans (List.append_cancel_left hbytes).symm

end Wirecat
