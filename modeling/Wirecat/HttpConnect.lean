import Wirecat.Socks5

/-!
# The reply of an HTTP proxy

`http_connect_negotiate` reads the reply byte by byte until the buffer, read as a string,
has an empty line in it, or is full; and then looks for `" 200 "` anywhere in that string.
Neither is what the reply means. A header ends at its first empty line, wherever the NUL
bytes are (`Wirecat.IsHeader`), and its status is in its first line
(`Wirecat.carries200`).

The bytes the negotiation reads are a function of the bytes the proxy sends
(`Wirecat.HeaderRead`), and comparing the two notions is then a matter of byte strings:
the negotiation is right about exactly the replies that are `Wirecat.Unambiguous`
(`Wirecat.negotiatesRight_iff`). The replies it is wrong about are

* a complete header whose status is another, with `" 200 "` in it, or whose status is 200,
  with no space after it;
* a reply with no complete header in the first 1023 bytes, with `" 200 "` in them;
* a header with a NUL byte in it, which is read beyond its end.
-/

namespace Wirecat

open CString Interaction

-- where a run of it is named there is nothing to compute: it begins by measuring its request
attribute [local irreducible] httpConnectNegotiate

/-! ### What a reply means -/

/-- **A complete response header**: it ends at the first empty line of the reply. -/
structure IsHeader (reply header : Bytes) : Prop where
  prefix_of : header <+: reply
  ends : headerEnd <:+ header
  first : ∀ p, p <+: header → headerEnd <:+ p → p = header

/-- The first line of a text, without the `CR LF` that ends it. -/
def statusLine : Bytes → Bytes
  | 13 :: 10 :: _ => []
  | c :: t => c :: statusLine t
  | [] => []

/-- Whether the status line of a header carries the status code 200. -/
def carries200 (header : Bytes) : Bool :=
  match splitFirst (chr ' ') (statusLine header) with
  | none => false
  | some (version, rest) =>
      (lit "HTTP/").isPrefixOf version && rest.takeWhile (· ≠ chr ' ') = lit "200"

/-- The negotiation should succeed: the header is complete within the bytes that the
buffer admits, and its status is 200. -/
structure Granted (reply header : Bytes) : Prop where
  isHeader : IsHeader reply header
  fits : header.length ≤ 1023
  status : carries200 header = true

/-! ### A proxy that sends a reply -/

/-- What an answer is when the connection works: as long as the proxy has more to send a
read brings something, and a write is accepted sooner or later. -/
def Works (fd : Fd) (more : Prop) : Ev → Prop
  | ⟨.read .handshake fd' _ _ _, .eof⟩ | ⟨.read .handshake fd' _ _ _, .error _⟩ => fd' = fd → ¬more
  | ⟨.write _ _ _, .error e⟩ => e = .eintr
  | ⟨.write _ _ _, .wrote n _⟩ => 0 < n
  | _ => True

/-- **A proxy that sends exactly `reply`** and then closes the connection. -/
def Delivering (fd : Fd) (reply : Bytes) (h : Hist) (e : Sys) (r : Resp e) : Prop :=
  Sending fd reply h e r ∧ Works fd (received fd h ≠ reply) ⟨e, r⟩

/-- **The negotiation is right about a reply**: it succeeds exactly when the reply begins
with a complete header of status 200, and has then read that header and nothing else. -/
structure NegotiatesRight (fd : Fd) (dstHost dstPort reply : Bytes) (h : Hist) : Prop where
  /-- Whatever run returns, it says whether the connection was granted. -/
  judged : ∀ ext b, Runs (Delivering fd reply) (httpConnectNegotiate fd dstHost dstPort) h
    (ext ++ h) (some b) → (b = true ↔ ∃ header, Granted reply header)
  /-- Where it was granted a run succeeds. -/
  succeeds_iff : (∃ ext, Runs (Delivering fd reply) (httpConnectNegotiate fd dstHost dstPort) h
    (ext ++ h) (some true)) ↔ ∃ header, Granted reply header
  /-- What a success has read is the header. -/
  consumed : ∀ ext, Runs (Delivering fd reply) (httpConnectNegotiate fd dstHost dstPort) h
    (ext ++ h) (some true) → IsHeader reply (received fd ext)

/-! ### What is read of it -/

/-- Reading stops here: there is an empty line in the string, or the buffer is full. -/
def Stops (buf : Bytes) : Prop := isInfix headerEnd (ofBuffer buf) = true ∨ 1023 ≤ buf.length

instance (buf : Bytes) : Decidable (Stops buf) := inferInstanceAs (Decidable (_ ∨ _))

/-- **What is read of a reply**: the first of its beginnings at which reading stops. -/
structure HeaderRead (reply buf : Bytes) : Prop where
  prefix_of : buf <+: reply
  stops : Stops buf
  first : ∀ p, p <+: buf → Stops p → p = buf

theorem HeaderRead.unique {reply buf buf' : Bytes} (hb : HeaderRead reply buf)
    (hb' : HeaderRead reply buf') : buf = buf' := by
  rcases List.prefix_or_prefix_of_prefix hb.prefix_of hb'.prefix_of with hp | hp
  · exact hb'.first buf hp hb.stops
  · exact (hb.first buf' hp hb'.stops).symm

theorem IsHeader.unique {reply header header' : Bytes} (hh : IsHeader reply header)
    (hh' : IsHeader reply header') : header = header' := by
  rcases List.prefix_or_prefix_of_prefix hh.prefix_of hh'.prefix_of with hp | hp
  · exact hh'.first header hp hh.ends
  · exact (hh.first header' hp hh'.ends).symm

/-- Where there is an empty line there is a first one. -/
theorem exists_isHeader {reply : Bytes} (hin : headerEnd <:+: reply) :
    ∃ header, IsHeader reply header := by
  induction hn : reply.length using Nat.strong_induction_on generalizing reply with
  | _ n ih =>
    obtain ⟨a, b, rfl⟩ := hin
    by_cases hfirst : ∀ p, p <+: a ++ headerEnd → headerEnd <:+ p → p = a ++ headerEnd
    · exact ⟨a ++ headerEnd, List.prefix_append _ _, List.suffix_append _ _, hfirst⟩
    · push Not at hfirst
      obtain ⟨p, hp, hend, hne⟩ := hfirst
      have hlt : p.length < n := by
        have := hp.length_le
        have hneq : p.length ≠ (a ++ headerEnd).length := fun heq => hne (hp.eq_of_length heq)
        rw [← hn]
        simp only [List.length_append] at this hneq ⊢
        omega
      obtain ⟨header, hh⟩ := ih p.length hlt hend.isInfix rfl
      exact ⟨header, (hh.prefix_of.trans hp).trans (List.prefix_append _ _), hh.ends, hh.first⟩

/-- **When the empty line is seen**: the header is complete, and no NUL hides it. -/
theorem seen_iff {reply p : Bytes} (hp : p <+: reply) :
    isInfix headerEnd (ofBuffer p) = true ↔
      ∃ header, IsHeader reply header ∧ 0 ∉ header ∧ header <+: p := by
  rw [isInfix_iff]
  constructor
  · intro hin
    obtain ⟨header, hh⟩ := exists_isHeader hin
    have hpre : header <+: p := hh.prefix_of.trans (ofBuffer_isPrefix p)
    refine ⟨header, ⟨hpre.trans hp, hh.ends, hh.first⟩, fun h0 => ?_, hpre⟩
    exact zero_not_mem_ofBuffer p (hh.prefix_of.subset h0)
  · rintro ⟨header, hh, h0, hpre⟩
    have hself : header <+: ofBuffer p := by
      obtain ⟨t, rfl⟩ := hpre
      have hpos : ∀ c ∈ header, decide (c ≠ 0) = true := fun c hc =>
        decide_eq_true fun he => h0 (he ▸ hc)
      rw [ofBuffer, List.takeWhile_append_of_pos hpos]
      exact List.prefix_append _ _
    exact hh.ends.isInfix.trans hself.isInfix

/-- A complete header that the buffer admits and no NUL hides. -/
structure Plain (reply header : Bytes) : Prop where
  isHeader : IsHeader reply header
  fits : header.length ≤ 1023
  clean : 0 ∉ header

/-- A plain header is all that is read. -/
theorem Plain.headerRead {reply header : Bytes} (hp : Plain reply header) :
    HeaderRead reply header := by
  refine ⟨hp.isHeader.prefix_of, Or.inl ?_, fun p hpre hstop => ?_⟩
  · exact (seen_iff hp.isHeader.prefix_of).mpr ⟨header, hp.isHeader, hp.clean, List.prefix_rfl⟩
  · rcases hstop with hseen | hfull
    · obtain ⟨header', hh', -, hpre'⟩ := (seen_iff (hpre.trans hp.isHeader.prefix_of)).mp hseen
      rw [hh'.unique hp.isHeader] at hpre'
      exact hpre.eq_of_length_le hpre'.length_le
    · exact hpre.eq_of_length_le (hp.fits.trans hfull)

/-- Without a plain header the buffer is filled, if the reply is long enough. -/
theorem headerRead_iff_full {reply buf : Bytes} (hno : ∀ header, ¬Plain reply header) :
    HeaderRead reply buf ↔ 1023 ≤ reply.length ∧ buf = reply.take 1023 := by
  have hstops : ∀ p, p <+: reply → p.length ≤ 1023 → (Stops p ↔ p.length = 1023) := by
    intro p hp hle
    refine ⟨fun hstop => ?_, fun heq => Or.inr heq.ge⟩
    rcases hstop with hseen | hfull
    · obtain ⟨header, hh, h0, hpre⟩ := (seen_iff hp).mp hseen
      exact absurd ⟨hh, hpre.length_le.trans hle, h0⟩ (hno header)
    · omega
  constructor
  · intro hb
    have hle : buf.length ≤ 1023 := by
      by_contra hlong
      push Not at hlong
      have hpre : buf.take 1023 <+: buf := List.take_prefix _ _
      have heq := hb.first _ hpre (Or.inr (by rw [List.length_take]; omega))
      have := congrArg List.length heq
      rw [List.length_take] at this
      omega
    have hlen := (hstops buf hb.prefix_of hle).mp hb.stops
    exact ⟨hlen ▸ hb.prefix_of.length_le, hlen ▸ (List.prefix_iff_eq_take.mp hb.prefix_of)⟩
  · rintro ⟨hlong, rfl⟩
    have hpre : reply.take 1023 <+: reply := List.take_prefix _ _
    have hlen : (reply.take 1023).length = 1023 := by rw [List.length_take]; omega
    refine ⟨hpre, (hstops _ hpre hlen.le).mpr hlen, fun p hp hstop => ?_⟩
    have hp' := (hstops p (hp.trans hpre) (hlen ▸ hp.length_le)).mp hstop
    exact hp.eq_of_length (hp'.trans hlen.symm)

/-! ### The runs of the negotiation -/

section Runs

variable {fd : Fd} {reply : Bytes} {h : Hist}

/-- How the reading of a reply ends: with what is read of it, or at its end. -/
def ReadTo (fd : Fd) (reply : Bytes) : Option Bytes → Hist → Prop
  | some buf, h => received fd h = buf ∧ HeaderRead reply buf
  | none, _ => ∀ buf, ¬HeaderRead reply buf

/-- What has been read so far, while reading goes on. -/
structure Reading (fd : Fd) (reply buf : Bytes) (h : Hist) : Prop where
  received_eq : received fd h = buf
  prefix_of : buf <+: reply
  goes_on : ∀ p, p <+: buf → p ≠ buf → ¬Stops p
  unseen : isInfix headerEnd (ofBuffer buf) = false

theorem Reading.start (hfresh : received fd h = []) : Reading fd reply [] h :=
  ⟨hfresh, List.nil_prefix, fun _ hp hne => absurd (List.prefix_nil.mp hp) hne, rfl⟩

/-- Where the reading is full it ends. -/
theorem Reading.full {buf : Bytes} (hr : Reading fd reply buf h) (hlen : 1023 ≤ buf.length) :
    HeaderRead reply buf := by
  refine ⟨hr.prefix_of, Or.inr hlen, fun p hp hstop => ?_⟩
  by_contra hne
  exact hr.goes_on p hp hne hstop

/-- One more byte. -/
theorem Reading.snoc {buf : Bytes} {b : UInt8} (hr : Reading fd reply buf h)
    (hroom : buf.length < 1023) {p : Bytes} (hp : p <+: buf ++ [b]) (hne : p ≠ buf ++ [b]) :
    ¬Stops p := by
  rw [List.prefix_concat_iff] at hp
  rcases hp with rfl | hp
  · exact absurd rfl hne
  · by_cases heq : p = buf
    · subst heq
      rw [Stops, hr.unseen]
      simp only [Bool.false_eq_true, false_or, not_le]
      exact hroom
    · exact hr.goes_on p hp heq

/-- **The loop reads what is read of the reply.** -/
theorem always_readReply (hfresh : received fd h = []) :
    Always (Delivering fd reply) (fun _ => True) (readReply fd) (ReadTo fd reply) h := by
  refine Always.loop (Reading fd reply) (Reading.start hfresh) fun buf h hr => ?_
  refine Always.ite (fun hroom => ?_) fun hroom => ?_
  · refine Always.ask trivial fun r hl => ?_
    obtain ⟨⟨-, hpre⟩, hworks⟩ := hl
    have hend : received fd h = reply → ∀ buf, ¬HeaderRead reply buf := by
      intro heq buf' hb
      rw [hr.received_eq] at heq
      subst heq
      by_cases hne : buf' = buf
      · subst hne
        rcases hb.stops with hs | hs
        · rw [hr.unseen] at hs
          exact absurd hs (by simp)
        · omega
      · exact hr.goes_on buf' hb.prefix_of hne hb.stops
    have hfail : received fd h = reply → Always (Delivering fd reply) (fun _ => True) (do
        sys (.log .error "proxy" "HTTP CONNECT response read failed" [])
        pure (.inr none : Bytes ⊕ Option Bytes)) (roundPost (Reading fd reply) (ReadTo fd reply))
        (⟨.read .handshake fd 1024 buf.length 1, r⟩ :: h) := by
      intro heq
      refine Always.ask trivial fun _ _ => always_pure.mpr ⟨trivial, ?_⟩
      exact hend heq
    rcases r with ⟨bytes, hne, hle⟩ | _ | e
    · obtain ⟨b, rfl⟩ : ∃ b, bytes = [b] := by
        match bytes, hne, hle with
        | [b], _, _ => exact ⟨b, rfl⟩
      have hrec : received fd (⟨.read .handshake fd 1024 buf.length 1, .data [b] hne hle⟩ :: h) =
          buf ++ [b] := by simp [received, hr.received_eq]
      rw [hrec] at hpre
      have hsnoc : ∀ p, p <+: buf ++ [b] → p ≠ buf ++ [b] → ¬Stops p := fun _ =>
        hr.snoc (by omega)
      refine Always.ite (fun hseen => ?_) fun hseen => ?_
      · refine always_pure.mpr ⟨trivial, hrec, hpre, Or.inl hseen, fun p hp hstop => ?_⟩
        by_contra hne
        exact hsnoc p hp hne hstop
      · exact always_pure.mpr ⟨trivial, hrec, hpre, hsnoc, by simpa using hseen⟩
    · exact hfail (not_ne_iff.mp (hworks rfl))
    · exact hfail (not_ne_iff.mp (hworks rfl))
  · exact always_pure.mpr ⟨trivial, hr.received_eq, hr.full (by omega)⟩

/-- A request is written to a proxy that works. -/
theorem always_write_works (buf : Bytes) :
    Always (Delivering fd reply) (fun _ => True) (wcatFullWrite .handshake fd buf)
      (fun n h' => n = some buf.length ∧ received fd h' = received fd h) h := by
  refine Always.loop (fun off h' => off ≤ buf.length ∧ received fd h' = received fd h)
    ⟨Nat.zero_le _, rfl⟩ ?_
  rintro off h' ⟨hoff, hrec⟩
  refine Always.ite (fun hlt => Always.ask trivial fun r hl => ?_) fun hlt => ?_
  · rcases r with ⟨n, hn⟩ | e
    · rw [List.length_drop] at hn
      cases n with
      | zero => exact absurd hl.2 (lt_irrefl 0)
      | succ n => exact always_pure.mpr ⟨trivial, by omega, hrec⟩
    · obtain rfl : e = .eintr := hl.2
      exact always_pure.mpr ⟨trivial, hoff, hrec⟩
  · exact always_pure.mpr ⟨trivial, by rw [show off = buf.length by omega], hrec⟩

/-- What the negotiation does with what it has read. -/
def judge : Option Bytes → Proc Bool
  | none => pure false
  | some buf =>
      if !isInfix (lit " 200 ") (ofBuffer buf) then do
        sys (.log .error "proxy" "HTTP CONNECT proxy did not return status 200" [])
        pure false
      else pure true

theorem httpConnectNegotiate_eq {dstHost dstPort : Bytes}
    (hfit : (httpConnectRequest dstHost dstPort).length < 512) :
    httpConnectNegotiate fd dstHost dstPort = (do
      let n ← wcatFullWrite .handshake fd (httpConnectRequest dstHost dstPort)
      if n ≠ some (httpConnectRequest dstHost dstPort).length then do
        sys (.log .error "proxy" "HTTP CONNECT request write failed" [])
        pure false
      else readReply fd >>= judge) := by
  rw [httpConnectNegotiate, if_neg (by omega)]
  rfl

/-- The negotiation succeeds when `" 200 "` is in what was read, and has then read that. -/
def Judged (fd : Fd) (reply : Bytes) (b : Bool) (h : Hist) : Prop :=
  (b = true ↔ ∃ buf, HeaderRead reply buf ∧ isInfix (lit " 200 ") (ofBuffer buf) = true) ∧
    (b = true → HeaderRead reply (received fd h))

theorem always_negotiate {dstHost dstPort : Bytes}
    (hfit : (httpConnectRequest dstHost dstPort).length < 512) (hfresh : received fd h = []) :
    Always (Delivering fd reply) (fun _ => True) (httpConnectNegotiate fd dstHost dstPort)
      (Judged fd reply) h := by
  rw [httpConnectNegotiate_eq hfit, always_bind']
  refine (always_write_works _).post_mono ?_
  rintro _ h₁ ⟨rfl, hrec⟩
  rw [if_neg (by simp), always_bind']
  refine (always_readReply (hrec.trans hfresh)).post_mono fun r h₂ hread => ?_
  rcases r with _ | buf
  · exact always_pure.mpr ⟨trivial, by simpa using fun buf hb => absurd hb (hread buf),
      fun hb => absurd hb (by simp)⟩
  obtain ⟨hgot, hb⟩ := hread
  refine Always.ite (fun hno => ?_) fun hyes => ?_
  · refine Always.ask trivial fun _ _ => always_pure.mpr ⟨trivial, ?_, fun hb => absurd hb (by simp)⟩
    refine iff_of_false (by simp) ?_
    rintro ⟨buf', hb', hin⟩
    rw [hb'.unique hb] at hin
    simp [hin] at hno
  · refine always_pure.mpr ⟨trivial, iff_of_true rfl ⟨buf, hb, by simpa using hyes⟩, fun _ => ?_⟩
    rw [hgot]
    exact hb

/-- Whatever is neither read nor written may happen. -/
theorem delivering_log {level : LogLevel} {event fmt : String} {args : List LogArg} {r : Unit}
    (hpre : received fd h <+: reply) : Delivering fd reply h (.log level event fmt args) r :=
  ⟨⟨⟨by simp [opens], by simp [opens], trivial⟩, hpre⟩, trivial⟩

/-- A byte of the reply is read. -/
theorem runs_readByte_data {buf : Bytes} {b : UInt8} (hroom : buf.length + 1 < 1024)
    (hrec : received fd h = buf) (hpre : buf ++ [b] <+: reply) :
    Runs (Delivering fd reply) (readByte fd buf) h
      (⟨.read .handshake fd 1024 buf.length 1, .data [b] (by simp) le_rfl⟩ :: h)
      (some (if isInfix headerEnd (ofBuffer (buf ++ [b])) then .inr (some (buf ++ [b]))
        else .inl (buf ++ [b]))) := by
  rw [readByte, if_pos hroom]
  refine runs_ask.mpr ⟨.data [b] (by simp) le_rfl, ⟨sending_read _ _ (hrec ▸ hpre), trivial⟩, ?_⟩
  simp only
  split_ifs
  · exact runs_pure.mpr ⟨rfl, rfl⟩
  · exact runs_pure.mpr ⟨rfl, rfl⟩

/-- At the end of the reply the reading fails. -/
theorem runs_readByte_eof {buf : Bytes} (hroom : buf.length + 1 < 1024)
    (hrec : received fd h = reply) :
    ∃ h', Runs (Delivering fd reply) (readByte fd buf) h h' (some (.inr none)) ∧
      received fd h' = reply := by
  refine ⟨⟨.log .error "proxy" "HTTP CONNECT response read failed" [], ()⟩ ::
    ⟨.read .handshake fd 1024 buf.length 1, .eof⟩ :: h, ?_, hrec⟩
  have hpre : received fd h <+: reply := hrec ▸ List.prefix_rfl
  rw [readByte, if_pos hroom]
  refine runs_ask.mpr ⟨.eof, ⟨sending_eof hpre, fun _ hmore => hmore hrec⟩, ?_⟩
  exact runs_ask.mpr ⟨(), delivering_log hpre, runs_pure.mpr ⟨rfl, rfl⟩⟩

/-- The reading comes to an end, by induction on what the proxy has yet to send. -/
theorem runs_readReply {rest buf : Bytes} (hrec : received fd h = buf) (hsplit : reply = buf ++ rest) :
    ∃ h' r, Runs (Delivering fd reply) (Prog.iter (readByte fd) buf Prog.ret) h h' (some r) ∧
      received fd h' <+: reply := by
  by_cases hroom : buf.length + 1 < 1024
  · induction rest generalizing buf h with
    | nil =>
      rw [List.append_nil] at hsplit
      obtain ⟨h', hr, hrec'⟩ := runs_readByte_eof hroom (hrec.trans hsplit.symm)
      exact ⟨h', none, Runs.leave hr (runs_ret.mpr ⟨rfl, rfl⟩), hrec' ▸ List.prefix_rfl⟩
    | cons b rest ih =>
      have hsplit' : reply = (buf ++ [b]) ++ rest := by rw [hsplit]; simp
      have hpre : buf ++ [b] <+: reply := hsplit' ▸ List.prefix_append _ _
      have hr := runs_readByte_data hroom hrec hpre
      have hrec' : received fd (⟨.read .handshake fd 1024 buf.length 1,
          .data [b] (by simp) le_rfl⟩ :: h) = buf ++ [b] := by simp [received, hrec]
      split_ifs at hr with hseen
      · exact ⟨_, some (buf ++ [b]), Runs.leave hr (runs_ret.mpr ⟨rfl, rfl⟩), hrec' ▸ hpre⟩
      · by_cases hroom' : (buf ++ [b]).length + 1 < 1024
        · obtain ⟨h', r, hr', hpre'⟩ := ih hrec' hsplit' hroom'
          exact ⟨h', r, Runs.again hr hr', hpre'⟩
        · refine ⟨_, some (buf ++ [b]), Runs.again hr (Runs.leave ?_ (runs_ret.mpr ⟨rfl, rfl⟩)),
            hrec' ▸ hpre⟩
          rw [readByte, if_neg hroom']
          exact runs_pure.mpr ⟨rfl, rfl⟩
  · refine ⟨h, some buf, Runs.leave ?_ (runs_ret.mpr ⟨rfl, rfl⟩), ?_⟩
    · rw [readByte, if_neg hroom]
      exact runs_pure.mpr ⟨rfl, rfl⟩
    · rw [hrec, hsplit]
      exact List.prefix_append _ _

/-- The negotiation comes to a result. -/
theorem runs_negotiate {dstHost dstPort : Bytes}
    (hfit : (httpConnectRequest dstHost dstPort).length < 512) (hfresh : received fd h = []) :
    ∃ ext b, Runs (Delivering fd reply) (httpConnectNegotiate fd dstHost dstPort) h (ext ++ h)
      (some b) := by
  set req := httpConnectRequest dstHost dstPort with hreq
  have hne : req ≠ [] := by
    intro hnil
    have := congrArg List.length hnil
    simp [hreq, httpConnectRequest, lit] at this
  have hwrite : Delivering fd reply h (.write .handshake fd req) (.wrote req.length le_rfl) :=
    ⟨sending_write (by rw [hfresh]; exact List.nil_prefix), List.length_pos_iff.mpr hne⟩
  have hrec : received fd (⟨.write .handshake fd req, .wrote req.length le_rfl⟩ :: h) = [] := hfresh
  obtain ⟨h₂, r, hread, hpre⟩ := runs_readReply hrec (List.nil_append reply).symm
  have hjudge : ∃ h' b, Runs (Delivering fd reply) (judge r) h₂ h' (some b) := by
    rcases r with _ | buf
    · exact ⟨h₂, false, runs_pure.mpr ⟨rfl, rfl⟩⟩
    by_cases hin : isInfix (lit " 200 ") (ofBuffer buf) = true
    · refine ⟨h₂, true, ?_⟩
      rw [judge, if_neg (by simp [hin])]
      exact runs_pure.mpr ⟨rfl, rfl⟩
    · refine ⟨⟨.log .error "proxy" "HTTP CONNECT proxy did not return status 200" [], ()⟩ :: h₂,
        false, ?_⟩
      rw [judge, if_pos (by simpa using hin)]
      exact runs_ask.mpr ⟨(), delivering_log hpre, runs_pure.mpr ⟨rfl, rfl⟩⟩
  obtain ⟨h', b, hb⟩ := hjudge
  have hrun : Runs (Delivering fd reply) (httpConnectNegotiate fd dstHost dstPort) h h' (some b) := by
    rw [httpConnectNegotiate_eq hfit]
    refine runs_bind_some'.mpr ⟨_, _, runs_wcatFullWrite hne hwrite, ?_⟩
    rw [if_neg (by simp)]
    exact runs_bind_some'.mpr ⟨r, h₂, hread, hb⟩
  obtain ⟨ext, rfl⟩ := hrun.suffix
  exact ⟨ext, b, hrun⟩

/-- The negotiation, from its first event on. -/
theorem judged_ext {dstHost dstPort : Bytes} {ext : Hist} {b : Bool}
    (hfit : (httpConnectRequest dstHost dstPort).length < 512) (hfresh : received fd h = [])
    (hr : Runs (Delivering fd reply) (httpConnectNegotiate fd dstHost dstPort) h (ext ++ h)
      (some b)) :
    (b = true ↔ ∃ buf, HeaderRead reply buf ∧ isInfix (lit " 200 ") (ofBuffer buf) = true) ∧
      (b = true → HeaderRead reply (received fd ext)) := by
  have hj := (always_negotiate hfit hfresh).post hr
  rwa [Judged, received_append, hfresh, List.nil_append] at hj

/-- **When the negotiation succeeds.** -/
theorem succeeds_iff_read {dstHost dstPort : Bytes}
    (hfit : (httpConnectRequest dstHost dstPort).length < 512) (hfresh : received fd h = []) :
    (∃ ext, Runs (Delivering fd reply) (httpConnectNegotiate fd dstHost dstPort) h (ext ++ h)
      (some true)) ↔ ∃ buf, HeaderRead reply buf ∧ isInfix (lit " 200 ") (ofBuffer buf) = true := by
  refine ⟨fun ⟨ext, hr⟩ => (judged_ext hfit hfresh hr).1.mp rfl, fun hbuf => ?_⟩
  obtain ⟨ext, b, hr⟩ := @runs_negotiate _ reply _ _ _ hfit hfresh
  obtain rfl : b = true := (judged_ext hfit hfresh hr).1.mpr hbuf
  exact ⟨ext, hr⟩

/-- If it is right about when a run succeeds, it is right in every run that returns. -/
theorem judged_of_succeeds_iff {dstHost dstPort : Bytes} {P : Prop}
    (hfit : (httpConnectRequest dstHost dstPort).length < 512) (hfresh : received fd h = [])
    (hiff : (∃ ext, Runs (Delivering fd reply) (httpConnectNegotiate fd dstHost dstPort) h
      (ext ++ h) (some true)) ↔ P) (ext : Hist) (b : Bool)
    (hr : Runs (Delivering fd reply) (httpConnectNegotiate fd dstHost dstPort) h (ext ++ h)
      (some b)) : b = true ↔ P :=
  (judged_ext hfit hfresh hr).1.trans ((succeeds_iff_read hfit hfresh).symm.trans hiff)

/-- A request that is too large is refused. -/
theorem not_succeeds_of_large {dstHost dstPort : Bytes} {ext : Hist}
    (hlarge : ¬(httpConnectRequest dstHost dstPort).length < 512) :
    ¬Runs (Delivering fd reply) (httpConnectNegotiate fd dstHost dstPort) h (ext ++ h)
      (some true) := by
  intro hr
  rw [httpConnectNegotiate, if_pos (by omega)] at hr
  obtain ⟨_, -, hr⟩ := runs_ask.mp hr
  obtain ⟨_, -, hr⟩ := runs_ask.mp hr
  exact absurd (runs_pure.mp hr).2 (by simp)

end Runs

/-! ### The replies it is right about -/

/-- **The replies the negotiation is right about.** Either the reply has a plain header –
complete within 1023 bytes, without a NUL – and `" 200 "` is in it exactly when its status
is 200. Or it has none, and then no header of status 200 is hidden by a NUL, and `" 200 "`
is not in the string that the first 1023 bytes are; both but for a header of exactly 1023
bytes. -/
structure Unambiguous (reply : Bytes) : Prop where
  plain : ∀ header, Plain reply header →
    (isInfix (lit " 200 ") header = true ↔ carries200 header = true)
  hidden : (∀ header, ¬Plain reply header) → ∀ header, Granted reply header →
    header.length = 1023 ∧ isInfix (lit " 200 ") (ofBuffer header) = true
  full : (∀ header, ¬Plain reply header) → 1023 ≤ reply.length →
    isInfix (lit " 200 ") (ofBuffer (reply.take 1023)) = true → Granted reply (reply.take 1023)

variable {fd : Fd} {dstHost dstPort reply : Bytes} {h : Hist}

/-- What the negotiation does is right about a reply with a plain header. -/
theorem right_of_plain (hfit : (httpConnectRequest dstHost dstPort).length < 512)
    (hfresh : received fd h = []) {header : Bytes} (hp : Plain reply header) :
    NegotiatesRight fd dstHost dstPort reply h ↔
      (isInfix (lit " 200 ") header = true ↔ carries200 header = true) := by
  have hsucc : (∃ buf, HeaderRead reply buf ∧ isInfix (lit " 200 ") (ofBuffer buf) = true) ↔
      isInfix (lit " 200 ") header = true := by
    constructor
    · rintro ⟨buf, hb, hin⟩
      rwa [hb.unique hp.headerRead, ofBuffer_eq_self hp.clean] at hin
    · exact fun hin => ⟨header, hp.headerRead, by rwa [ofBuffer_eq_self hp.clean]⟩
  have hgranted : (∃ header, Granted reply header) ↔ carries200 header = true := by
    constructor
    · rintro ⟨header', hg⟩
      rw [← hg.isHeader.unique hp.isHeader]
      exact hg.status
    · exact fun hs => ⟨header, hp.isHeader, hp.fits, hs⟩
  rw [← hsucc, ← hgranted, ← succeeds_iff_read hfit hfresh]
  refine ⟨fun hr => hr.succeeds_iff,
    fun hiff => ⟨judged_of_succeeds_iff hfit hfresh hiff, hiff, fun ext hr => ?_⟩⟩
  rw [((judged_ext hfit hfresh hr).2 rfl).unique hp.headerRead]
  exact hp.isHeader

/-- What the negotiation does is right about a reply without one. -/
theorem right_of_not_plain (hfit : (httpConnectRequest dstHost dstPort).length < 512)
    (hfresh : received fd h = []) (hno : ∀ header, ¬Plain reply header) :
    NegotiatesRight fd dstHost dstPort reply h ↔
      (∀ header, Granted reply header →
        header.length = 1023 ∧ isInfix (lit " 200 ") (ofBuffer header) = true) ∧
      (1023 ≤ reply.length → isInfix (lit " 200 ") (ofBuffer (reply.take 1023)) = true →
        Granted reply (reply.take 1023)) := by
  have hsucc : (∃ buf, HeaderRead reply buf ∧ isInfix (lit " 200 ") (ofBuffer buf) = true) ↔
      1023 ≤ reply.length ∧ isInfix (lit " 200 ") (ofBuffer (reply.take 1023)) = true := by
    constructor
    · rintro ⟨buf, hb, hin⟩
      obtain ⟨hlong, rfl⟩ := (headerRead_iff_full hno).mp hb
      exact ⟨hlong, hin⟩
    · exact fun ⟨hlong, hin⟩ => ⟨_, (headerRead_iff_full hno).mpr ⟨hlong, rfl⟩, hin⟩
  have hfull : ∀ header, Granted reply header → header.length = 1023 →
      1023 ≤ reply.length ∧ header = reply.take 1023 := fun header hg hlen =>
    ⟨hlen ▸ hg.isHeader.prefix_of.length_le,
      hlen ▸ List.prefix_iff_eq_take.mp hg.isHeader.prefix_of⟩
  constructor
  · intro hr
    have hiff := (succeeds_iff_read hfit hfresh).symm.trans hr.succeeds_iff
    rw [hsucc] at hiff
    -- what a success has read is the first 1023 bytes, and it is the header
    have hread : 1023 ≤ reply.length → isInfix (lit " 200 ") (ofBuffer (reply.take 1023)) = true →
        IsHeader reply (reply.take 1023) := by
      intro hlong hin
      obtain ⟨ext, hrun⟩ := (succeeds_iff_read hfit hfresh).mpr (hsucc.mpr ⟨hlong, hin⟩)
      have hheader := hr.consumed ext hrun
      have hb := (judged_ext hfit hfresh hrun).2 rfl
      rwa [((headerRead_iff_full hno).mp hb).2] at hheader
    have hgranted : 1023 ≤ reply.length →
        isInfix (lit " 200 ") (ofBuffer (reply.take 1023)) = true →
        Granted reply (reply.take 1023) := by
      intro hlong hin
      obtain ⟨header, hg⟩ := hiff.mp ⟨hlong, hin⟩
      rw [← hg.isHeader.unique (hread hlong hin)]
      exact hg
    refine ⟨fun header hg => ?_, hgranted⟩
    obtain ⟨hlong, hin⟩ := hiff.mpr ⟨header, hg⟩
    obtain rfl := hg.isHeader.unique (hgranted hlong hin).isHeader
    exact ⟨by rw [List.length_take]; omega, hin⟩
  · rintro ⟨hhidden, hgranted⟩
    have hiff : (∃ ext, Runs (Delivering fd reply) (httpConnectNegotiate fd dstHost dstPort) h
        (ext ++ h) (some true)) ↔ ∃ header, Granted reply header := by
      refine (succeeds_iff_read hfit hfresh).trans (hsucc.trans ⟨?_, ?_⟩)
      · exact fun ⟨hlong, hin⟩ => ⟨_, hgranted hlong hin⟩
      · rintro ⟨header, hg⟩
        obtain ⟨hlen, hin⟩ := hhidden header hg
        obtain ⟨hlong, rfl⟩ := hfull header hg hlen
        exact ⟨hlong, hin⟩
    refine ⟨judged_of_succeeds_iff hfit hfresh hiff, hiff, fun ext hrun => ?_⟩
    · have hb := (judged_ext hfit hfresh hrun).2 rfl
      obtain ⟨hlong, hin⟩ := hsucc.mp ((succeeds_iff_read hfit hfresh).mp ⟨ext, hrun⟩)
      rw [((headerRead_iff_full hno).mp hb).2]
      exact (hgranted hlong hin).isHeader

/-- **Exactly which replies the negotiation is right about**: the unambiguous ones; and,
when the request is too large to be sent, those that would not have granted it. -/
theorem negotiatesRight_iff (fd : Fd) (dstHost dstPort reply : Bytes) (h : Hist)
    (hfresh : received fd h = []) :
    NegotiatesRight fd dstHost dstPort reply h ↔
      if (httpConnectRequest dstHost dstPort).length < 512 then Unambiguous reply
      else ∀ header, ¬Granted reply header := by
  split_ifs with hfit
  · by_cases hplain : ∃ header, Plain reply header
    · obtain ⟨header, hp⟩ := hplain
      rw [right_of_plain hfit hfresh hp]
      constructor
      · intro hiff
        refine ⟨fun header' hp' => ?_, fun hno => absurd hp (hno header),
          fun hno => absurd hp (hno header)⟩
        rwa [hp'.isHeader.unique hp.isHeader]
      · exact fun hu => hu.plain header hp
    · have hno : ∀ header, ¬Plain reply header := fun header hp => hplain ⟨header, hp⟩
      rw [right_of_not_plain hfit hfresh hno]
      exact ⟨fun ⟨hhidden, hfull⟩ => ⟨fun header hp => absurd hp (hno header),
        fun _ => hhidden, fun _ => hfull⟩, fun hu => ⟨hu.hidden hno, hu.full hno⟩⟩
  · constructor
    · intro hr header hg
      obtain ⟨ext, hrun⟩ := hr.succeeds_iff.mpr ⟨header, hg⟩
      exact not_succeeds_of_large hfit hrun
    · intro hno
      have hnone : ¬∃ header, Granted reply header := fun ⟨header, hg⟩ => hno header hg
      refine ⟨fun ext b hrun => iff_of_false ?_ hnone, iff_of_false ?_ hnone, fun ext hrun => ?_⟩
      · exact fun hb => not_succeeds_of_large hfit (hb ▸ hrun)
      · exact fun ⟨ext, hrun⟩ => not_succeeds_of_large hfit hrun
      · exact absurd hrun (not_succeeds_of_large hfit)

/-- A reply that is a header is plain, if it ends at its only empty line. -/
theorem plain_self {reply : Bytes} (hends : headerEnd <:+ reply)
    (hfirst : ∀ p ∈ reply.inits, headerEnd <:+ p → p = reply) (hfits : reply.length ≤ 1023)
    (hclean : 0 ∉ reply) : Plain reply reply :=
  ⟨⟨List.prefix_rfl, hends, fun p hp => hfirst p ((List.mem_inits _ _).mpr hp)⟩, hfits, hclean⟩

/-- A proxy that grants the connection is understood. -/
theorem negotiatesRight_granted :
    NegotiatesRight (.sock .tcp 3) (lit "example.org") (lit "443")
      (lit "HTTP/1.1 200 OK\r\n\r\n") [] := by
  refine (negotiatesRight_iff _ _ _ _ _ rfl).mpr ?_
  have hp : Plain (lit "HTTP/1.1 200 OK\r\n\r\n") (lit "HTTP/1.1 200 OK\r\n\r\n") :=
    plain_self (by decide +kernel) (by decide +kernel) (by decide +kernel) (by decide +kernel)
  rw [if_pos (by decide +kernel)]
  refine ⟨fun header hh => ?_, fun hno => absurd hp (hno _), fun hno => absurd hp (hno _)⟩
  rw [hh.isHeader.unique hp.isHeader]
  decide +kernel

/-- A proxy that refuses it, and says `" 200 "` in a header field, is not. -/
theorem not_negotiatesRight_refused :
    ¬NegotiatesRight (.sock .tcp 3) (lit "example.org") (lit "443")
      (lit "HTTP/1.1 403 Forbidden\r\nX-Limit: 200 per hour\r\n\r\n") [] := by
  have hp : Plain (lit "HTTP/1.1 403 Forbidden\r\nX-Limit: 200 per hour\r\n\r\n")
      (lit "HTTP/1.1 403 Forbidden\r\nX-Limit: 200 per hour\r\n\r\n") :=
    plain_self (by decide +kernel) (by decide +kernel) (by decide +kernel) (by decide +kernel)
  intro hr
  have hiff := (right_of_plain (by decide +kernel) rfl hp).mp hr
  exact absurd (hiff.mp (by decide +kernel)) (by decide +kernel)

end Wirecat
