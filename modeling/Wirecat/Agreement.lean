import Mathlib.Data.List.TakeWhile
import Wirecat.Header
import Wirecat.Numerals

/-!
# The two ends of CONNECT

`wcat` writes CONNECT requests and reads them. Both ends check the port with `wcat_parse_port`, but not
the same text: the client checks the spelling it was given and puts it into the request as it stands,
and the server checks what it finds between the last colon and the first space. `strtol` skips white
space before the number, so a spelling may hold a space, which the server takes for the end
of the target, or an empty line, which it takes for the end of the header; and it may be as long as
the request admits, where the server has room for 31 bytes.

These are all the ways in which the two can disagree (`Wirecat.connectAgree_iff`). The host is no
part of it: it may hold colons, because the last one is sought, and it is never too long, because the
request would not fit its 512 bytes.

A client that goes on sending does not disturb the reading of its header: what is found is the first
empty line of the stream (`Wirecat.always_header_found`).
-/

namespace Wirecat

open CString Interaction

/-! ### Spellings of a port -/

/-- **How a port may be spelled**: white space, a sign, and digits. -/
theorem wcatParsePort_spelling {port : Bytes} {p : ℕ} (hp : wcatParsePort port = some p) :
    ∃ space sign digits, port = space ++ sign ++ digits ∧ (∀ c ∈ space, isSpace c = true) ∧
      (∀ c ∈ sign, c = chr '-' ∨ c = chr '+') ∧ digits ≠ [] ∧ ∀ c ∈ digits, isDigit c = true := by
  rw [wcatParsePort_eq] at hp
  obtain ⟨-, -, space, sign, digits, hspelled, -⟩ := (readsSpellings_readLong (by decide) p).mp hp
  refine ⟨space, sign, digits, hspelled.eq, hspelled.space, fun c hc => ?_, hspelled.digits⟩
  rcases hspelled.sign with rfl | rfl | rfl
  · exact absurd hc List.not_mem_nil
  · exact .inl (List.mem_singleton.mp hc)
  · exact .inr (List.mem_singleton.mp hc)

/-- What no spelling of a port holds. -/
theorem not_mem_port {port : Bytes} {p : ℕ} (hp : wcatParsePort port = some p) {c : UInt8}
    (hspace : isSpace c = false) (hdigit : isDigit c = false) (hsign : c ≠ chr '-' ∧ c ≠ chr '+') :
    c ∉ port := by
  obtain ⟨space, sign, digits, rfl, hspaces, hsigns, -, hdigits⟩ := wcatParsePort_spelling hp
  rw [List.mem_append, List.mem_append]
  rintro ((hmem | hmem) | hmem)
  · rw [hspaces c hmem] at hspace
    exact absurd hspace (by simp)
  · exact (hsigns c hmem).elim hsign.1 hsign.2
  · rw [hdigits c hmem] at hdigit
    exact absurd hdigit (by simp)

/-- A spelling of a port ends with a digit. -/
theorem exists_last_digit {port : Bytes} {p : ℕ} (hp : wcatParsePort port = some p) :
    ∃ init d, port = init ++ [d] ∧ isDigit d = true := by
  obtain ⟨space, sign, digits, rfl, -, -, hne, hdigits⟩ := wcatParsePort_spelling hp
  obtain ⟨init, d, rfl⟩ := List.eq_nil_or_concat' digits |>.resolve_left hne
  exact ⟨space ++ sign ++ init, d, by simp, hdigits d (by simp)⟩

/-! ### Where the empty line is -/

/-- What does not hold `c` is found on one side of a `c`. -/
theorem infix_append_cons {w a b : Bytes} {c : UInt8} (hc : c ∉ w) (hw : w <:+: a ++ c :: b) :
    w <:+: a ∨ w <:+: b := by
  obtain ⟨s, t, hst⟩ := hw
  rcases List.append_eq_append_iff.mp hst with ⟨u, rfl, -⟩ | ⟨u, hleft, hright⟩
  · exact .inl ⟨s, u, rfl⟩
  cases u with
  | nil => exact .inl ⟨s, [], by rw [hleft, List.append_nil, List.append_nil]⟩
  | cons x u =>
    obtain ⟨rfl, rfl⟩ := List.cons.inj hright
    -- the `c` is not in `w`, so it is before it
    rcases List.append_eq_append_iff.mp hleft with ⟨v, -, rfl⟩ | ⟨v, rfl, hv⟩
    · exact absurd (by simp) hc
    · cases v with
      | nil =>
        rw [List.nil_append] at hv
        exact absurd (hv ▸ List.mem_cons_self) hc
      | cons y v =>
        obtain ⟨-, rfl⟩ := List.cons.inj hv
        exact .inr ⟨v, t, rfl⟩

/-- No empty line is in a text without `CR`. -/
theorem no_headerEnd {s : Bytes} (hs : 13 ∉ s) : ¬headerEnd <:+: s := fun hin =>
  hs (hin.subset (by decide))

/-! ### The request -/

section
variable {dstHost dstPort : Bytes} {p : ℕ}

/-- A host that a request can name. -/
structure HostOk (dstHost : Bytes) : Prop where
  nonempty : dstHost ≠ []
  clean : ∀ c ∈ dstHost, c ≠ 0 ∧ c ≠ 13 ∧ c ≠ 10 ∧ c ≠ chr ' '

/-- The target of a request. -/
def connectTarget (dstHost dstPort : Bytes) : Bytes := dstHost ++ chr ':' :: dstPort

/-- The request without its last byte. -/
def requestBody (dstHost dstPort : Bytes) : Bytes :=
  lit "CONNECT " ++ (connectTarget dstHost dstPort ++ (lit " HTTP/1.1\r\nHost: " ++
    (connectTarget dstHost dstPort ++ lit "\r\nUser-Agent: wcat/0.1\r\n\r")))

theorem httpConnectRequest_eq (dstHost dstPort : Bytes) :
    httpConnectRequest dstHost dstPort = requestBody dstHost dstPort ++ [10] := by
  simp [httpConnectRequest, requestBody, connectTarget, lit, chr]

theorem length_httpConnectRequest (dstHost dstPort : Bytes) :
    (httpConnectRequest dstHost dstPort).length = 53 + 2 * (dstHost.length + dstPort.length) := by
  simp [httpConnectRequest, lit]
  omega

theorem headerEnd_suffix (dstHost dstPort : Bytes) :
    headerEnd <:+ httpConnectRequest dstHost dstPort := by
  refine ⟨lit "CONNECT " ++ dstHost ++ lit ":" ++ dstPort ++ lit " HTTP/1.1\r\nHost: " ++ dstHost ++
    lit ":" ++ dstPort ++ lit "\r\nUser-Agent: wcat/0.1", ?_⟩
  simp [httpConnectRequest, headerEnd, lit]

/-- The target of a request holds no empty line, unless the spelling of the port does. -/
theorem headerEnd_infix_target (hhost : HostOk dstHost) (hport : wcatParsePort dstPort = some p)
    (hline : ¬headerEnd <:+: dstPort) {t : Bytes}
    (hin : headerEnd <:+: connectTarget dstHost dstPort ++ t) : headerEnd <:+: t := by
  rw [connectTarget, List.append_assoc, List.cons_append] at hin
  rcases infix_append_cons (by decide) hin with hhead | htail
  · exact absurd hhead (no_headerEnd fun hmem => (hhost.clean 13 hmem).2.1 rfl)
  · obtain ⟨init, d, rfl, hd⟩ := exists_last_digit hport
    rw [List.append_assoc] at htail
    have hdigit : d ∉ headerEnd := by
      intro hmem
      have hall : ∀ c ∈ headerEnd, isDigit c = false := by decide +kernel
      rw [hall d hmem] at hd
      exact absurd hd (by simp)
    rcases infix_append_cons hdigit htail with hinit | ht
    · exact absurd (hinit.trans (List.prefix_append init [d]).isInfix) hline
    · exact ht

theorem no_headerEnd_body (hhost : HostOk dstHost) (hport : wcatParsePort dstPort = some p)
    (hline : ¬headerEnd <:+: dstPort) : ¬headerEnd <:+: requestBody dstHost dstPort := by
  intro hin
  have htarget := @headerEnd_infix_target _ _ p hhost hport hline
  have hspace : chr ' ' ∉ headerEnd := by decide
  -- between the two targets, and before and after them, there is none
  have hmethod : lit "CONNECT " = lit "CONNECT" ++ [chr ' '] := by decide
  have hfield : lit " HTTP/1.1\r\nHost: " = lit " HTTP/1.1\r\nHost:" ++ [chr ' '] := by decide
  rw [requestBody, hmethod, hfield, List.append_assoc, List.append_assoc] at hin
  rcases infix_append_cons hspace hin with hin | hin
  · exact absurd hin (by decide)
  rcases infix_append_cons hspace (htarget hin) with hin | hin
  · exact absurd hin (by decide)
  · exact absurd (htarget hin) (by decide)

/-- **The request is a header** of whatever begins with it, unless an empty line is in the spelling of
the port. -/
theorem isHeader_request (hhost : HostOk dstHost) (hport : wcatParsePort dstPort = some p)
    (hline : ¬headerEnd <:+: dstPort) (more : Bytes) :
    IsHeader (httpConnectRequest dstHost dstPort ++ more) (httpConnectRequest dstHost dstPort) := by
  refine ⟨List.prefix_append _ _, headerEnd_suffix dstHost dstPort, fun q hq hend => ?_⟩
  rw [httpConnectRequest_eq] at hq ⊢
  rcases List.prefix_concat_iff.mp hq with rfl | hshort
  · rfl
  · exact absurd (hend.isInfix.trans hshort.isInfix) (no_headerEnd_body hhost hport hline)

theorem zero_not_mem_request (hhost : HostOk dstHost) (hport : wcatParsePort dstPort = some p) :
    0 ∉ httpConnectRequest dstHost dstPort := by
  have hport0 : 0 ∉ dstPort := not_mem_port hport (by decide) (by decide) (by decide)
  have hhost0 : 0 ∉ dstHost := fun hmem => (hhost.clean 0 hmem).1 rfl
  have hlits : 0 ∉ lit "CONNECT " ∧ 0 ∉ lit ":" ∧ 0 ∉ lit " HTTP/1.1\r\nHost: " ∧
      0 ∉ lit "\r\nUser-Agent: wcat/0.1\r\n\r\n" := by
    decide
  obtain ⟨h1, h2, h3, h4⟩ := hlits
  simp only [httpConnectRequest, List.mem_append, not_or]
  exact ⟨⟨⟨⟨⟨⟨⟨⟨h1, hhost0⟩, h2⟩, hport0⟩, h3⟩, hhost0⟩, h2⟩, hport0⟩, h4⟩

/-! ### The target -/

theorem splitLast_append {c : UInt8} {a b : Bytes} (hb : c ∉ b) :
    splitLast c (a ++ c :: b) = some (a, b) := by
  have hnone : splitLast c b = none := by
    induction b with
    | nil => rfl
    | cons x b ih =>
      rw [List.mem_cons, not_or] at hb
      rw [splitLast, ih hb.2]
      exact if_neg (Ne.symm hb.1)
  induction a with
  | nil =>
    rw [List.nil_append, splitLast, hnone]
    exact if_pos rfl
  | cons x a ih => rw [List.cons_append, splitLast, ih]

theorem eq_of_splitLast {c : UInt8} {s a b : Bytes} (hs : splitLast c s = some (a, b)) :
    s = a ++ c :: b := by
  induction s generalizing a with
  | nil => exact absurd hs (by simp [splitLast])
  | cons x s ih =>
    rw [splitLast] at hs
    cases hrec : splitLast c s with
    | some q =>
      obtain ⟨a', b'⟩ := q
      rw [hrec] at hs
      obtain ⟨rfl, rfl⟩ := Prod.mk.inj (Option.some.inj hs)
      rw [ih hrec, List.cons_append]
    | none =>
      rw [hrec] at hs
      dsimp only at hs
      split_ifs at hs with hx
      obtain ⟨rfl, rfl⟩ := Prod.mk.inj (Option.some.inj hs)
      rw [hx, List.nil_append]

/-- **The server finds the target**, when the port has no space in it and room. -/
theorem parseConnectRequest_request (hhost : HostOk dstHost) (hport : wcatParsePort dstPort = some p)
    (hfits : (httpConnectRequest dstHost dstPort).length < 512) (hspace : chr ' ' ∉ dstPort)
    (hroom : dstPort.length ≤ 31) :
    parseConnectRequest (httpConnectRequest dstHost dstPort) 256 32 = some (dstHost, dstPort) := by
  have hsplit : ∃ t, httpConnectRequest dstHost dstPort =
      lit "CONNECT " ++ (connectTarget dstHost dstPort ++ chr ' ' :: t) :=
    ⟨lit "HTTP/1.1\r\nHost: " ++ (connectTarget dstHost dstPort ++
      lit "\r\nUser-Agent: wcat/0.1\r\n\r\n"), by
      simp [httpConnectRequest, connectTarget, lit, chr]⟩
  rw [length_httpConnectRequest] at hfits
  obtain ⟨t, hsplit⟩ := hsplit
  have hne : dstPort ≠ [] := by
    obtain ⟨init, d, rfl, -⟩ := exists_last_digit hport
    simp
  have hfirst : splitFirst (chr ' ') ((httpConnectRequest dstHost dstPort).drop 8) =
      some (connectTarget dstHost dstPort, t) := by
    rw [hsplit, show 8 = (lit "CONNECT ").length from rfl, List.drop_left]
    refine splitFirst_eq_some.mpr ⟨rfl, ?_⟩
    rw [connectTarget, List.mem_append, List.mem_cons]
    rintro (hmem | hmem | hmem)
    · exact (hhost.clean _ hmem).2.2.2 rfl
    · exact absurd hmem (by decide)
    · exact hspace hmem
  have hconnect : (lit "CONNECT ").isPrefixOf (httpConnectRequest dstHost dstPort) = true := by
    rw [List.isPrefixOf_iff_prefix, hsplit]
    exact List.prefix_append _ _
  have hlen : (connectTarget dstHost dstPort).length = dstHost.length + dstPort.length + 1 := by
    rw [connectTarget, List.length_append, List.length_cons]
    omega
  have hcolon : chr ':' ∉ dstPort := not_mem_port hport (by decide) (by decide) (by decide)
  rw [parseConnectRequest, if_neg (by simp [hconnect]), hfirst]
  dsimp only
  rw [if_neg (by omega), splitHostPort, connectTarget, splitLast_append hcolon]
  dsimp only
  rw [if_neg (by simp [hhost.nonempty, hne]), if_neg (by omega), if_pos (by rw [hport]; rfl)]

/-- What a request is in which the server finds a target. -/
theorem eq_of_parseConnectRequest {buf host port : Bytes} {hostLen portLen : ℕ}
    (hparse : parseConnectRequest buf hostLen portLen = some (host, port)) :
    (∃ t, buf = lit "CONNECT " ++ (connectTarget host port ++ chr ' ' :: t)) ∧ chr ' ' ∉ port ∧
      port.length < portLen := by
  rw [parseConnectRequest] at hparse
  split_ifs at hparse with hconnect
  rw [Bool.not_eq_true', Bool.not_eq_false, List.isPrefixOf_iff_prefix] at hconnect
  obtain ⟨rest, rfl⟩ := hconnect
  rw [show 8 = (lit "CONNECT ").length from rfl, List.drop_left] at hparse
  split at hparse
  · exact absurd hparse (by simp)
  rename_i endpoint t hfirst
  obtain ⟨rfl, hspace⟩ := splitFirst_eq_some.mp hfirst
  split_ifs at hparse with hlen
  rw [splitHostPort] at hparse
  split at hparse
  · exact absurd hparse (by simp)
  rename_i host' port' hlast
  split_ifs at hparse with hempty hroom hport
  obtain ⟨rfl, rfl⟩ := Prod.mk.inj (Option.some.inj hparse)
  rw [eq_of_splitLast hlast] at hspace ⊢
  push Not at hroom
  refine ⟨⟨t, rfl⟩, fun hmem => hspace ?_, hroom.2⟩
  exact List.mem_append_right _ (List.mem_cons_of_mem _ hmem)

end

/-! ### A client that sends -/

section
variable {fd : Fd} {stream : Bytes} {h : Hist} {len : ℕ}

/-- **A client that sends `stream`**, in whatever pieces: until it is all read, no read fails. -/
def Offering (fd : Fd) (stream : Bytes) (h : Hist) (e : Sys) (r : Resp e) : Prop :=
  Legal h e r ∧ clientBytes fd (⟨e, r⟩ :: h) <+: stream ∧
    (breaksOff fd ⟨e, r⟩ = true → clientBytes fd h = stream)

/-- **A header that has room is found**, whatever follows it. -/
theorem always_header_found {header : Bytes} (hh : IsHeader stream header) (hclean : 0 ∉ header)
    (hroom : header.length ≤ len - 1) (hfresh : clientBytes fd h = []) :
    Always (Offering fd stream) (fun _ => True) (readHttpHeader fd len)
      (fun r _ => r = some header) h := by
  refine Always.loop (fun buf h => clientBytes fd h = buf ∧ buf <+: stream ∧
    isInfix headerEnd (ofBuffer buf) = false) ⟨hfresh, List.nil_prefix, by decide⟩ ?_
  rintro buf h ⟨htaken, hpre, hunseen⟩
  -- what is there does not reach the end of the header
  have hnot : ¬header <+: buf := fun hp => by
    rw [(seen_iff hpre).mpr ⟨header, hh, hclean, hp⟩] at hunseen
    exact absurd hunseen (by simp)
  have hshort : buf.length < header.length := by
    by_contra hlong
    rcases List.prefix_or_prefix_of_prefix hh.prefix_of hpre with hp | hp
    · exact hnot hp
    · exact hnot (hp.eq_of_length_le (by omega) ▸ List.prefix_rfl)
  have hmore : clientBytes fd h ≠ stream := fun heq =>
    hnot (htaken ▸ heq.symm ▸ hh.prefix_of)
  refine Always.ite (fun _ => Always.ask trivial fun r hl => ?_) fun hfull => by omega
  obtain ⟨-, hpre', hbreak⟩ := hl
  rcases r with ⟨bytes, hne, hle⟩ | _ | err
  · obtain ⟨b, rfl⟩ : ∃ b, bytes = [b] := by
      match bytes, hne, hle with
      | [b], _, _ => exact ⟨b, rfl⟩
    have htaken' : clientBytes fd
        (⟨.read .server fd len buf.length 1, .data [b] hne hle⟩ :: h) = buf ++ [b] := by
      rw [clientBytes, htaken, clientPart, if_pos ⟨rfl, .inl rfl⟩]
    rw [htaken'] at hpre'
    refine Always.ite (fun hseen => ?_) fun hseen => ?_
    · have hheader := (seen_last hunseen hseen).1.extend hpre'
      exact always_pure.mpr ⟨trivial, congrArg some (hheader.unique hh)⟩
    · exact always_pure.mpr ⟨trivial, htaken', hpre', by simpa using hseen⟩
  · exact absurd (hbreak (by simp [breaksOff])) hmore
  · cases err
    case eintr =>
      refine (always_pure (a := Sum.inl buf)).mpr ⟨trivial, ?_, hpre, hunseen⟩
      rw [clientBytes, htaken]
      exact List.append_nil buf
    all_goals exact absurd (hbreak (by simp [breaksOff])) hmore

/-- The reading ends where the array is full. -/
theorem runs_full {buf : Bytes} (hfull : ¬buf.length + 1 < len) (hpre : clientBytes fd h <+: stream) :
    ∃ h' r, Runs (Offering fd stream) (Prog.iter (headerByte fd len) buf Prog.ret) h h'
      (some r) := by
  have herrno : Offering fd stream h (.setErrno .emsgsize) () := by
    refine ⟨⟨by simp [opens], by simp [opens], trivial⟩, ?_, fun hb => absurd hb (by simp [breaksOff])⟩
    rw [clientBytes]
    exact (List.append_nil (clientBytes fd h)).symm ▸ hpre
  refine ⟨⟨.setErrno .emsgsize, ()⟩ :: h, none, Runs.leave ?_ (runs_ret.mpr ⟨rfl, rfl⟩)⟩
  rw [headerByte, if_neg hfull]
  exact runs_ask.mpr ⟨(), herrno, runs_pure.mpr ⟨rfl, rfl⟩⟩

/-- The reading comes to an end, by induction on what the client has yet to send. -/
theorem runs_headerByte {rest buf : Bytes} (htaken : clientBytes fd h = buf)
    (hsplit : stream = buf ++ rest) :
    ∃ h' r, Runs (Offering fd stream) (Prog.iter (headerByte fd len) buf Prog.ret) h h'
      (some r) := by
  by_cases hroom : buf.length + 1 < len
  · induction rest generalizing buf h with
    | nil =>
      rw [List.append_nil] at hsplit
      have hwhole : clientBytes fd h = stream := htaken.trans hsplit.symm
      have hend : Offering fd stream h (.read .server fd len buf.length 1) .eof := by
        refine ⟨⟨by simp [opens], by simp [opens], trivial⟩, ?_, fun _ => hwhole⟩
        rw [clientBytes, hwhole]
        exact (List.append_nil stream).symm ▸ List.prefix_rfl
      refine ⟨⟨.read .server fd len buf.length 1, .eof⟩ :: h, none,
        Runs.leave ?_ (runs_ret.mpr ⟨rfl, rfl⟩)⟩
      rw [headerByte, if_pos hroom]
      exact runs_ask.mpr ⟨.eof, hend, runs_pure.mpr ⟨rfl, rfl⟩⟩
    | cons b rest ih =>
      have hsplit' : stream = (buf ++ [b]) ++ rest := by
        rw [hsplit, List.append_assoc, List.singleton_append]
      have htaken' : clientBytes fd (⟨.read .server fd len buf.length 1,
          .data [b] (by simp) le_rfl⟩ :: h) = buf ++ [b] := by
        rw [clientBytes, htaken, clientPart, if_pos ⟨rfl, .inl rfl⟩]
      have hdata : Offering fd stream h (.read .server fd len buf.length 1)
          (.data [b] (by simp) le_rfl) := by
        refine ⟨⟨by simp [opens], by simp [opens], trivial⟩, ?_, fun hb => ?_⟩
        · rw [htaken', hsplit']
          exact List.prefix_append _ _
        · exact absurd hb (by simp [breaksOff])
      have hround : Runs (Offering fd stream) (headerByte fd len buf) h
          (⟨.read .server fd len buf.length 1, .data [b] (by simp) le_rfl⟩ :: h)
          (some (if isInfix headerEnd (ofBuffer (buf ++ [b])) then .inr (some (buf ++ [b]))
            else .inl (buf ++ [b]))) := by
        rw [headerByte, if_pos hroom]
        refine runs_ask.mpr ⟨.data [b] (by simp) le_rfl, hdata, ?_⟩
        dsimp only
        split_ifs
        · exact runs_pure.mpr ⟨rfl, rfl⟩
        · exact runs_pure.mpr ⟨rfl, rfl⟩
      split_ifs at hround with hseen
      · exact ⟨_, some (buf ++ [b]), Runs.leave hround (runs_ret.mpr ⟨rfl, rfl⟩)⟩
      · by_cases hroom' : (buf ++ [b]).length + 1 < len
        · obtain ⟨h', r, hr⟩ := ih htaken' hsplit' hroom'
          exact ⟨h', r, Runs.again hround hr⟩
        · have hpre : clientBytes fd (⟨.read .server fd len buf.length 1,
              .data [b] (by simp) le_rfl⟩ :: h) <+: stream := by
            rw [htaken', hsplit']
            exact List.prefix_append _ _
          obtain ⟨h', r, hr⟩ := runs_full hroom' hpre
          exact ⟨h', r, Runs.again hround hr⟩
  · refine runs_full hroom ?_
    rw [htaken, hsplit]
    exact List.prefix_append _ _

end

/-! ### When the two ends agree -/

/-- What the server makes of a header it has read. -/
def readTarget (r : Option Bytes) : Option (Bytes × Bytes) :=
  r.bind fun buf => parseConnectRequest (ofBuffer buf) 256 32

/-- **The two ends agree on a target**: a client that sends the request for it, and then anything,
is read, and the server finds that target. -/
structure Agree (dstHost dstPort : Bytes) : Prop where
  reads : ∀ more fd h, clientBytes fd h = [] → ∃ h' r,
    Runs (Offering fd (httpConnectRequest dstHost dstPort ++ more)) (readHttpHeader fd 4096) h h'
      (some r)
  finds : ∀ more fd h, clientBytes fd h = [] → ∀ h' r,
    Runs (Offering fd (httpConnectRequest dstHost dstPort ++ more)) (readHttpHeader fd 4096) h h'
      (some r) → readTarget r = some (dstHost, dstPort)

/-- **A port as both ends take it**: there is no space and no empty line in it, and the server has
room for it. -/
structure PortOk (dstPort : Bytes) : Prop where
  space : chr ' ' ∉ dstPort
  line : ¬headerEnd <:+: dstPort
  room : dstPort.length ≤ 31

section
variable {dstHost dstPort : Bytes} {p : ℕ}

theorem agree_of_portOk (hhost : HostOk dstHost) (hport : wcatParsePort dstPort = some p)
    (hfits : (httpConnectRequest dstHost dstPort).length < 512) (hok : PortOk dstPort) :
    Agree dstHost dstPort := by
  have hclean := zero_not_mem_request hhost hport
  refine ⟨fun more fd h hfresh => runs_headerByte hfresh (List.nil_append _).symm, ?_⟩
  intro more fd h hfresh h' r hr
  have hheader := isHeader_request hhost hport hok.line more
  obtain rfl := (always_header_found hheader hclean (by omega) hfresh).post hr
  rw [readTarget, Option.bind_some, ofBuffer_eq_self hclean]
  exact parseConnectRequest_request hhost hport hfits hok.space hok.room

/-- Where they agree, the port is as both take it: what is found is a header of the request, and
the target is in it with a space behind it. -/
theorem Agree.portOk (ha : Agree dstHost dstPort) (hhost : HostOk dstHost)
    (hport : wcatParsePort dstPort = some p)
    (hfits : (httpConnectRequest dstHost dstPort).length < 512) : PortOk dstPort := by
  obtain ⟨h', r, hr⟩ := ha.reads [] (.sock .tcp 0) [] rfl
  have hfound := ha.finds [] (.sock .tcp 0) [] rfl h' r hr
  obtain ⟨header, hh⟩ := exists_isHeader (headerEnd_suffix dstHost dstPort).isInfix
  have hclean : 0 ∉ header := fun h0 => zero_not_mem_request hhost hport (hh.prefix_of.subset h0)
  have hlen : header.length ≤ 4096 - 1 := hh.prefix_of.length_le.trans (by omega)
  obtain rfl := (always_header_found (hh.extend (List.prefix_append _ [])) hclean hlen rfl).post hr
  rw [readTarget, Option.bind_some, ofBuffer_eq_self hclean] at hfound
  obtain ⟨⟨t, rfl⟩, hspace, hroom⟩ := eq_of_parseConnectRequest hfound
  refine ⟨hspace, ?_, by omega⟩
  -- an empty line in the port would have ended the header before the space
  rintro ⟨x, y, hxy⟩
  have hearly : lit "CONNECT " ++ (dstHost ++ chr ':' :: (x ++ headerEnd)) <+:
      lit "CONNECT " ++ (connectTarget dstHost dstPort ++ chr ' ' :: t) := by
    refine ⟨y ++ chr ' ' :: t, ?_⟩
    rw [connectTarget, ← hxy]
    simp
  have hend : headerEnd <:+ lit "CONNECT " ++ (dstHost ++ chr ':' :: (x ++ headerEnd)) :=
    ⟨lit "CONNECT " ++ (dstHost ++ chr ':' :: x), by simp⟩
  have hsame := congrArg List.length (hh.first _ hearly hend)
  simp only [connectTarget, ← hxy, List.length_append, List.length_cons] at hsame
  omega

/-- **Exactly when the two ends agree**, for a host that a request can name, a port that
`wcat_parse_port` accepts, and a request that is sent. -/
theorem connectAgree_iff (hhost : HostOk dstHost) (hport : (wcatParsePort dstPort).isSome)
    (hfits : (httpConnectRequest dstHost dstPort).length < 512) :
    Agree dstHost dstPort ↔ PortOk dstPort := by
  obtain ⟨p, hport⟩ := Option.isSome_iff_exists.mp hport
  exact ⟨fun ha => ha.portOk hhost hport hfits, agree_of_portOk hhost hport hfits⟩

/-- An address with colons in it is agreed on. -/
theorem agree_ipv6 : Agree (lit "2001:db8::1") (lit "+0443") := by
  have hhost : HostOk (lit "2001:db8::1") := ⟨by decide +kernel, by decide +kernel⟩
  refine (connectAgree_iff hhost (by decide +kernel) (by decide +kernel)).mpr ?_
  exact ⟨by decide +kernel, by decide, by decide⟩

/-- **A port with a space before it** is not. -/
theorem not_agree_space : (wcatParsePort (lit " 80")).isSome = true ∧
    (httpConnectRequest (lit "example.org") (lit " 80")).length < 512 ∧
    ¬Agree (lit "example.org") (lit " 80") := by
  have hport : wcatParsePort (lit " 80") = some 80 := by decide +kernel
  have hfits : (httpConnectRequest (lit "example.org") (lit " 80")).length < 512 := by decide +kernel
  refine ⟨by rw [hport]; rfl, hfits, fun ha => ?_⟩
  exact (ha.portOk ⟨by decide +kernel, by decide +kernel⟩ hport hfits).space (by decide +kernel)

end

end Wirecat
