import Wirecat.Footprint

/-!
# The reply of a SOCKS5 proxy

`socks5_negotiate` reads the replies of the proxy into `rep`, an array of ten bytes.
How much of the last reply it asks for is the proxy's to say: the type of the bound
address and, for a name, its length. Whether all reads fit is therefore a question
about the bytes the proxy sends, and the answer of this file is exact
(`Wirecat.readsFit_iff`): they fit unless the proxy accepts the request and then
announces an IPv6 address, or a name of more than eight bytes.

The bytes may come in pieces of any size, with errors and interruptions between them.
An environment in which a peer sends the bytes `stream` is one in which what has been
read so far is a prefix of it (`Wirecat.Sending`).
-/

namespace Wirecat

open CString Interaction

/-! ### What the proxy sends -/

/-- The bytes read from `fd` in the dialogue with a proxy. -/
def received (fd : Fd) : Hist → Bytes
  | [] => []
  | ⟨.read .handshake fd' _ _ _, .data bytes _ _⟩ :: h =>
      received fd h ++ if fd' = fd then bytes else []
  | _ :: h => received fd h

/-- **A proxy that sends `stream`**, in whatever pieces; it may also close the
connection, and any read may fail. -/
def Sending (fd : Fd) (stream : Bytes) (h : Hist) (e : Sys) (r : Resp e) : Prop :=
  Legal h e r ∧ received fd (⟨e, r⟩ :: h) <+: stream

/-- A read stays inside the array it is made into. -/
def FitsArray : Sys → Prop
  | .read _ _ cap off len => off + len ≤ cap
  | _ => True

/-- All reads so far stayed inside their arrays. -/
def AllFit (h : Hist) : Prop := ∀ ev ∈ h, FitsArray ev.1

/-- **Every read fits**: in every run of the negotiation with a proxy that sends
`stream`, all reads stay inside `rep`. -/
def ReadsFit (fd : Fd) (dstHost dstPort stream : Bytes) (h : Hist) : Prop :=
  ∀ ext o, Runs (Sending fd stream) (socks5Negotiate fd dstHost dstPort) h (ext ++ h) o → AllFit ext

/-- The target can be asked for: its name fits a request, and its port is one. -/
def Askable (dstHost dstPort : Bytes) : Prop :=
  dstHost.length ≤ 255 ∧ (wcatParsePort dstPort).isSome

instance (dstHost dstPort : Bytes) : Decidable (Askable dstHost dstPort) :=
  inferInstanceAs (Decidable (_ ∧ _))

/-- **A reply that does not fit**: the proxy takes the greeting (`05 00`), accepts the
request (its second byte is `00`), and announces an IPv6 address (type `04`) or a name
(type `03`) of more than eight bytes. -/
def Overlong (stream : Bytes) : Prop :=
  stream[0]? = some 0x05 ∧ stream[1]? = some 0x00 ∧ stream[3]? = some 0x00 ∧
    (stream[5]? = some 0x04 ∨
      stream[5]? = some 0x03 ∧ ∃ len, stream[6]? = some len ∧ 8 < len.toNat)

/-! ### Every other reply fits -/

section Safe

variable {legal : Hist → (e : Sys) → Resp e → Prop} {fd : Fd} {stream : Bytes} {h : Hist}

/-- What holds at every moment of the negotiation. -/
structure Sent (fd : Fd) (stream : Bytes) (h : Hist) : Prop where
  fit : AllFit h
  prefix_of : received fd h <+: stream

/-- The requests of the negotiation that read nothing. -/
def ReadsNothing : Sys → Prop
  | .read _ _ _ _ _ => False
  | _ => True

theorem received_of_readsNothing {e : Sys} (he : ReadsNothing e) (r : Resp e) :
    received fd (⟨e, r⟩ :: h) = received fd h := by
  cases e <;> first | exact absurd he id | rfl

theorem AllFit.cons {e : Sys} {r : Resp e} (hh : AllFit h) (he : FitsArray e) :
    AllFit (⟨e, r⟩ :: h) := by
  intro ev hev
  rcases List.mem_cons.mp hev with rfl | hmem
  · exact he
  · exact hh ev hmem

/-- A part of the negotiation that reads nothing. -/
theorem Within.sent {α : Type} {p : Proc α} {Q : α → Prop} (hp : Within ReadsNothing p Q)
    {got : Bytes} (hs : Sent fd stream h) (hgot : received fd h = got) :
    Always legal (Sent fd stream) p
      (fun a h' => (Sent fd stream h' ∧ received fd h' = got) ∧ Q a) h := by
  refine (hp.always (S := fun h => Sent fd stream h ∧ received fd h = got) ⟨hs, hgot⟩ ?_).mono
    (fun _ hS => hS.1) fun _ _ _ hQ => hQ
  rintro h e r ⟨hs, hgot⟩ he -
  have hrec := @received_of_readsNothing fd h e he r
  refine ⟨⟨hs.fit.cons ?_, hrec ▸ hs.prefix_of⟩, hrec.trans hgot⟩
  cases e <;> first | exact absurd he id | trivial

variable (hsend : ∀ h e r, legal h e r → received fd (⟨e, r⟩ :: h) <+: stream)

include hsend

/-- **An exact read** that fits the array adds what it returns to what was received. -/
theorem always_readExact {cap len : ℕ} (hfit : len ≤ cap) {got : Bytes}
    (hs : Sent fd stream h) (hgot : received fd h = got) :
    Always legal (Sent fd stream) (readExact fd cap len)
      (fun r h' => Sent fd stream h' ∧ received fd h' = got ++ r.2 ∧
        (r.1 = true → r.2.length = len)) h := by
  refine Always.loop (fun part h => Sent fd stream h ∧ received fd h = got ++ part ∧
    part.length ≤ len) ⟨hs, by simpa using hgot, by simp⟩ ?_
  rintro part h ⟨hs, hgot, hlen⟩
  split_ifs with hlt
  · rw [sys, Prog.request_bind', always_call]
    refine ⟨hs, fun r hl => ?_⟩
    have hfits : FitsArray (.read .handshake fd cap part.length (len - part.length)) := by
      simp only [FitsArray]
      omega
    have hs' : Sent fd stream (⟨.read .handshake fd cap part.length (len - part.length), r⟩ :: h) :=
      ⟨hs.fit.cons hfits, hsend _ _ _ hl⟩
    rcases r with ⟨bytes, hne, hle⟩ | _ | err
    · refine always_pure.mpr ⟨hs', hs', ?_, ?_⟩
      · simp only [received, if_pos, hgot, List.append_assoc]
      · rw [List.length_append]
        omega
    · exact always_pure.mpr ⟨hs', hs', hgot, fun h => absurd h (by simp)⟩
    · cases err <;> first
        | exact always_pure.mpr ⟨hs', hs', hgot, hlen⟩
        | exact always_pure.mpr ⟨hs', hs', hgot, fun h => absurd h (by simp)⟩
  · exact always_pure.mpr ⟨hs, hs, hgot, fun _ => by simp only; omega⟩

/-- The bound address fits, unless it is overlong. -/
theorem always_socks5BoundAddress {x y ver code rsv type : UInt8}
    (hlong : ¬Overlong stream) (hx : x = 0x05) (hy : y = 0x00) (hcode : code = 0x00)
    (hs : Sent fd stream h) (hgot : received fd h = [x, y] ++ [ver, code, rsv, type]) :
    Always legal (Sent fd stream) (socks5BoundAddress fd [ver, code, rsv, type])
      (fun _ h' => Sent fd stream h') h := by
  subst hx hy hcode
  have hpre : ∀ {h'} {more : Bytes}, Sent fd stream h' →
      received fd h' = [0x05, 0x00] ++ [ver, 0x00, rsv, type] ++ more →
        ∃ rest, stream = 0x05 :: 0x00 :: ver :: 0x00 :: rsv :: type :: (more ++ rest) := by
    intro h' more hs' hrec
    obtain ⟨rest, hrest⟩ := hs'.prefix_of
    exact ⟨rest, by rw [← hrest, hrec]; simp⟩
  have hread : ∀ {len : ℕ} {got : Bytes} {h'}, len ≤ repSize → Sent fd stream h' →
      received fd h' = got → Always legal (Sent fd stream) (readExact fd repSize len >>= fun r =>
        pure r.1) (fun _ h' => Sent fd stream h') h' := by
    intro len got h' hfit hs' hgot'
    refine always_bind'.mpr ((always_readExact hsend hfit hs' hgot').mono (fun _ => id) ?_)
    rintro r h'' - ⟨hs'', -, -⟩
    exact always_pure.mpr ⟨hs'', hs''⟩
  simp only [socks5BoundAddress, repByte, List.getD_cons_succ, List.getD_cons_zero]
  split_ifs with h1 h3 h4
  · exact hread (by decide) hs hgot
  · -- a name: its length is the next byte
    refine always_bind'.mpr ((always_readExact hsend (by decide) hs hgot).mono (fun _ => id) ?_)
    rintro ⟨ok, more⟩ h' - ⟨hs', hgot', hlen⟩
    simp only
    split_ifs with hok
    · exact always_pure.mpr ⟨hs', hs'⟩
    obtain ⟨len, rfl⟩ := List.length_eq_one_iff.mp (hlen (by simpa using hok))
    refine hread ?_ hs' hgot'
    by_contra hbig
    obtain ⟨rest, rfl⟩ := hpre hs' hgot'
    simp only [List.getD_cons_zero, repSize] at hbig
    exact hlong ⟨rfl, rfl, rfl, Or.inr ⟨by simp [h3], len, rfl, by omega⟩⟩
  · -- an IPv6 address never fits
    obtain ⟨rest, rfl⟩ := @hpre _ [] hs (by simpa using hgot)
    exact absurd ⟨rfl, rfl, rfl, Or.inl (by simp [h4])⟩ hlong
  · refine (Within.sent (Within.step ?_ fun _ => (within_pure (Q := fun _ => True)).mpr trivial)
      hs hgot).post_mono fun _ _ hQ => hQ.1.1
    trivial

omit hsend in
theorem within_greeting (via : Via) (buf : Bytes) :
    Within ReadsNothing (wcatFullWrite via fd buf) fun _ => True :=
  within_wcatFullWrite (fun _ => trivial) buf

omit hsend in
/-- A failure that is only logged. -/
theorem always_report {level : LogLevel} {event fmt : String} {args : List LogArg}
    (hs : Sent fd stream h) :
    Always legal (Sent fd stream) (do sys (.log level event fmt args); pure false)
      (fun _ h' => Sent fd stream h') h := by
  refine (Within.sent (Q := fun _ => True) (Within.step ?_ fun _ => ?_) hs rfl).post_mono
    fun _ _ hQ => hQ.1.1
  · trivial
  · trivial

/-- The request and its reply, after a greeting that was taken. -/
theorem always_socks5Connect {x y : UInt8} {dstHost : Bytes} {port : ℕ} (hlong : ¬Overlong stream)
    (hx : x = 0x05) (hy : y = 0x00) (hs : Sent fd stream h) (hgot : received fd h = [x, y]) :
    Always legal (Sent fd stream) (socks5Connect fd dstHost port [x, y])
      (fun _ h' => Sent fd stream h') h := by
  rw [socks5Connect, always_bind']
  refine (Within.sent (within_greeting _ _) hs hgot).mono (fun _ => id) ?_
  rintro n h - ⟨⟨hs, hgot⟩, -⟩
  split_ifs
  · exact always_report hs
  refine always_bind'.mpr ((always_readExact hsend (by decide) hs hgot).mono (fun _ => id) ?_)
  rintro ⟨ok, more⟩ h - ⟨hs, hgot, hlen⟩
  refine Always.ite (fun _ => ?_) fun hfail => ?_
  · refine always_bind'.mpr ((Within.sent (Q := fun _ => True) ?_ hs rfl).mono (fun _ => id) ?_)
    · exact Within.ite (fun _ => ⟨trivial, fun _ => trivial⟩) fun _ => ⟨trivial, fun _ => trivial⟩
    · exact fun _ h hs' hQ => always_pure.mpr ⟨hs', hs'⟩
  · simp only [Bool.or_eq_true, Bool.not_eq_true', decide_eq_true_eq, not_or, not_not] at hfail
    obtain ⟨hok, hcode⟩ := hfail
    have hlen4 : more.length = 4 := hlen (by simpa using hok)
    match more, hlen4 with
    | [ver, code, rsv, type], _ =>
      exact always_socks5BoundAddress hsend hlong hx hy hcode hs hgot

/-- **A reply that is not overlong fits.** -/
theorem always_socks5Negotiate {dstHost dstPort : Bytes} (hlong : ¬Overlong stream)
    (hs : Sent fd stream h) (hgot : received fd h = []) :
    Always legal (Sent fd stream) (socks5Negotiate fd dstHost dstPort)
      (fun _ h' => Sent fd stream h') h := by
  rw [socks5Negotiate]
  split
  · refine always_bind'.mpr ((Within.sent (within_greeting _ _) hs hgot).mono (fun _ => id) ?_)
    rintro n h - ⟨⟨hs, hgot⟩, -⟩
    have hread : Always legal (Sent fd stream)
        (if n = some 3 then readExact fd repSize 2 else pure (false, []))
        (fun r h' => Sent fd stream h' ∧ received fd h' = r.2 ∧ (r.1 = true → r.2.length = 2)) h := by
      split_ifs
      · exact (always_readExact hsend (by decide) hs hgot).post_mono fun _ _ hQ => hQ
      · exact always_pure.mpr ⟨hs, hs, hgot, fun h => absurd h (by simp)⟩
    refine always_bind'.mpr (hread.mono (fun _ => id) ?_)
    rintro ⟨ok, rep⟩ h - ⟨hs, hgot, hlen⟩
    simp only
    split_ifs with hfail
    · exact always_report hs
    · simp only [Bool.or_eq_true, Bool.not_eq_true', decide_eq_true_eq, not_or, not_not] at hfail
      obtain ⟨⟨hok, hx⟩, hy⟩ := hfail
      have hlen2 : rep.length = 2 := hlen (by simpa using hok)
      obtain ⟨x, y, rfl⟩ := List.length_eq_two.mp hlen2
      exact always_socks5Connect hsend hlong hx hy hs hgot
  · refine (Within.sent (Q := fun _ => True) (Within.step ?_ fun _ => Within.step ?_ fun _ => ?_)
      hs rfl).post_mono fun _ _ hQ => hQ.1.1
    · trivial
    · trivial
    · trivial

end Safe

/-! ### An overlong reply does not fit -/

section Overrun

variable {legal : Hist → (e : Sys) → Resp e → Prop} {fd : Fd} {stream dstHost dstPort : Bytes}
  {h : Hist}

/-- A write that is accepted at once. -/
theorem runs_wcatFullWrite {via : Via} {buf : Bytes} (hne : buf ≠ [])
    (hl : legal h (.write via fd buf) (.wrote buf.length le_rfl)) :
    Runs legal (wcatFullWrite via fd buf) h (⟨.write via fd buf, .wrote buf.length le_rfl⟩ :: h)
      (some (some buf.length)) := by
  obtain ⟨c, t, rfl⟩ := List.exists_cons_of_ne_nil hne
  refine Runs.again (?_ : Runs legal _ h
      (⟨.write via fd (c :: t), .wrote (c :: t).length le_rfl⟩ :: h)
      (some (Sum.inl (c :: t).length))) (Runs.leave ?_ (runs_ret.mpr ⟨rfl, rfl⟩))
  · exact Or.inr ⟨.wrote (c :: t).length le_rfl, hl, runs_pure.mpr ⟨rfl, by simp⟩⟩
  · rw [if_neg (lt_irrefl _)]
    exact runs_pure.mpr ⟨rfl, rfl⟩

/-- An exact read that is answered at once. -/
theorem runs_readExact {cap : ℕ} (bytes : Bytes) (hne : bytes ≠ [])
    (hl : legal h (.read .handshake fd cap 0 bytes.length) (.data bytes hne le_rfl)) :
    Runs legal (readExact fd cap bytes.length) h
      (⟨.read .handshake fd cap 0 bytes.length, .data bytes hne le_rfl⟩ :: h)
      (some (true, bytes)) := by
  obtain ⟨c, t, rfl⟩ := List.exists_cons_of_ne_nil hne
  refine Runs.again (?_ : Runs legal _ h
      (⟨.read .handshake fd cap 0 (c :: t).length, .data (c :: t) hne le_rfl⟩ :: h)
      (some (Sum.inl (c :: t)))) (Runs.leave ?_ (runs_ret.mpr ⟨rfl, rfl⟩))
  · exact Or.inr ⟨.data (c :: t) hne le_rfl, hl, runs_pure.mpr ⟨rfl, rfl⟩⟩
  · rw [if_neg (lt_irrefl _)]
    exact runs_pure.mpr ⟨rfl, rfl⟩

/-- An exact read of anything begins with a read of all of it. -/
theorem runs_readExact_request {cap len : ℕ}
    (hl : legal h (.read .handshake fd cap 0 (len + 1)) .eof) :
    Runs legal (readExact fd cap (len + 1)) h
      (⟨.read .handshake fd cap 0 (len + 1), .eof⟩ :: h) none :=
  ⟨[], h, .refl, Or.inl ⟨Or.inr ⟨.eof, hl, Runs.cut _ _⟩, rfl⟩⟩

/-- What an overlong stream looks like. -/
theorem Overlong.shape (hlong : Overlong stream) : ∃ ver rsv type rest,
    stream = [0x05, 0x00] ++ [ver, 0x00, rsv, type] ++ rest ∧
      (type = 0x04 ∨ type = 0x03 ∧ ∃ len rest', rest = len :: rest' ∧ 8 < len.toNat) := by
  obtain ⟨h0, h1, h3, h5⟩ := hlong
  match stream, h0, h1, h3, h5 with
  | a :: b :: ver :: c :: rsv :: type :: rest, h0, h1, h3, h5 =>
    simp only [List.getElem?_cons_zero, List.getElem?_cons_succ, Option.some.injEq] at h0 h1 h3 h5
    subst h0 h1 h3
    refine ⟨ver, rsv, type, rest, rfl, h5.imp_right fun ⟨ht, len, hlen, hbig⟩ => ⟨ht, ?_⟩⟩
    cases rest with
    | nil => simp at hlen
    | cons len' rest' =>
      simp only [List.getElem?_cons_zero, Option.some.injEq] at hlen
      exact ⟨len', rest', rfl, hlen ▸ hbig⟩

/-- Anything but a read may happen while the proxy is sending. -/
theorem sending_write {via : Via} {buf : Bytes} {r : WriteRes buf.length}
    (hs : received fd h <+: stream) : Sending fd stream h (.write via fd buf) r :=
  ⟨⟨by simp [opens], by simp [opens], trivial⟩, hs⟩

/-- The next bytes of the stream may be read. -/
theorem sending_read {cap off len : ℕ} {bytes : Bytes} (hne : bytes ≠ []) (hle : bytes.length ≤ len)
    (hs : received fd h ++ bytes <+: stream) :
    Sending fd stream h (.read .handshake fd cap off len) (.data bytes hne hle) :=
  ⟨⟨by simp [opens], by simp [opens], trivial⟩, by simpa [received] using hs⟩

/-- The connection may be closed at any time. -/
theorem sending_eof {cap off len : ℕ} (hs : received fd h <+: stream) :
    Sending fd stream h (.read .handshake fd cap off len) .eof :=
  ⟨⟨by simp [opens], by simp [opens], trivial⟩, hs⟩

/-- **An overlong reply overruns `rep`**, in the run in which every piece of it comes
at once. -/
theorem not_readsFit (hask : Askable dstHost dstPort) (hlong : Overlong stream)
    (hfresh : received fd h = []) : ¬ReadsFit fd dstHost dstPort stream h := by
  obtain ⟨ver, rsv, type, rest, hstream, htype⟩ := hlong.shape
  obtain ⟨hhost, hport⟩ := hask
  obtain ⟨port, hport⟩ := Option.isSome_iff_exists.mp hport
  -- the dialogue up to the type of the address, each part at once
  let h₁ : Hist := ⟨.write .handshake fd socks5Greeting, .wrote socks5Greeting.length le_rfl⟩ :: h
  let h₂ : Hist := ⟨.read .handshake fd repSize 0 2, .data [0x05, 0x00] (by simp) le_rfl⟩ :: h₁
  let h₃ : Hist := ⟨.write .handshake fd (socks5Request dstHost port),
    .wrote (socks5Request dstHost port).length le_rfl⟩ :: h₂
  let h₄ : Hist := ⟨.read .handshake fd repSize 0 4,
    .data [ver, 0x00, rsv, type] (by simp) le_rfl⟩ :: h₃
  have hrec₁ : received fd h₁ = [] := hfresh
  have hrec₂ : received fd h₂ = [0x05, 0x00] := by simp [h₂, received, hrec₁]
  have hrec₃ : received fd h₃ = [0x05, 0x00] := hrec₂
  have hrec₄ : received fd h₄ = [0x05, 0x00] ++ [ver, 0x00, rsv, type] := by
    simp [h₄, received, hrec₃]
  have hpre : ∀ {h' : Hist} {got : Bytes}, received fd h' = got →
      got <+: [0x05, 0x00] ++ [ver, 0x00, rsv, type] ++ rest → received fd h' <+: stream := by
    rintro h' got rfl hgot
    rwa [hstream]
  have hmore : ∀ {h' : Hist} {got more : Bytes}, received fd h' = got →
      got ++ more <+: [0x05, 0x00] ++ [ver, 0x00, rsv, type] ++ rest →
        received fd h' ++ more <+: stream := by
    rintro h' got more rfl hgot
    rwa [hstream]
  have hgreet : Runs (Sending fd stream) (wcatFullWrite .handshake fd socks5Greeting) h h₁
      (some (some 3)) :=
    runs_wcatFullWrite (by simp [socks5Greeting]) (sending_write (hpre hfresh List.nil_prefix))
  have hchoice : Runs (Sending fd stream) (readExact fd repSize 2) h₁ h₂
      (some (true, [0x05, 0x00])) :=
    runs_readExact [0x05, 0x00] (by simp) (sending_read _ _ (hmore hrec₁ (by simp)))
  have hrequest : Runs (Sending fd stream)
      (wcatFullWrite .handshake fd (socks5Request dstHost port)) h₂ h₃
      (some (some (socks5Request dstHost port).length)) :=
    runs_wcatFullWrite (by simp [socks5Request]) (sending_write (hpre hrec₂ (by simp)))
  have hreply : Runs (Sending fd stream) (readExact fd repSize 4) h₃ h₄
      (some (true, [ver, 0x00, rsv, type])) :=
    runs_readExact [ver, 0x00, rsv, type] (by simp) (sending_read _ _ (hmore hrec₃ (by simp)))
  -- what is asked for next is too much
  have hbound : ∃ e r g, ¬FitsArray e ∧ Runs (Sending fd stream)
      (socks5BoundAddress fd [ver, 0x00, rsv, type]) h₄ (⟨e, r⟩ :: g ++ h₄) none := by
    rw [socks5BoundAddress]
    rcases htype with rfl | ⟨rfl, len, rest', rfl, hbig⟩
    · refine ⟨.read .handshake fd repSize 0 18, .eof, [], by simp [FitsArray, repSize], ?_⟩
      rw [if_neg (by simp [repByte]), if_neg (by simp [repByte]), if_pos (by simp [repByte])]
      exact runs_bind.mpr (Or.inl ⟨runs_readExact_request (sending_eof (hpre hrec₄ (by simp))), rfl⟩)
    · let ev : Ev := ⟨.read .handshake fd repSize 0 1, .data [len] (by simp) le_rfl⟩
      have hrec₅ : received fd (ev :: h₄) = [0x05, 0x00] ++ [ver, 0x00, rsv, 0x03] ++ [len] := by
        simp [ev, received, hrec₄]
      refine ⟨.read .handshake fd repSize 0 (len.toNat + 2), .eof, [ev], ?_, ?_⟩
      · simp only [FitsArray, repSize]
        omega
      rw [if_neg (by simp [repByte]), if_pos (by simp [repByte])]
      refine runs_bind.mpr (Or.inr ⟨(true, [len]), ev :: h₄, runs_readExact [len] (by simp)
        (sending_read _ _ (hmore hrec₄ (by simp))), ?_⟩)
      exact runs_bind.mpr (Or.inl ⟨runs_readExact_request (sending_eof (hpre hrec₅ (by simp))), rfl⟩)
  obtain ⟨e, r, g, hbig, hbound⟩ := hbound
  have hconnect : Runs (Sending fd stream) (socks5Connect fd dstHost port [0x05, 0x00]) h₂
      (⟨e, r⟩ :: g ++ h₄) none := by
    refine runs_bind.mpr (Or.inr ⟨_, h₃, hrequest, ?_⟩)
    rw [if_neg (by simp [socks5Request]; omega)]
    refine runs_bind.mpr (Or.inr ⟨_, h₄, hreply, ?_⟩)
    exact hbound
  have hrun : Runs (Sending fd stream) (socks5Negotiate fd dstHost dstPort) h
      (⟨e, r⟩ :: g ++ h₄) none := by
    rw [socks5Negotiate, hport, decide_eq_true hhost]
    refine runs_bind.mpr (Or.inr ⟨_, h₁, hgreet, ?_⟩)
    refine runs_bind.mpr (Or.inr ⟨_, h₂, hchoice, ?_⟩)
    exact hconnect
  intro hfit
  have hsuffix : ⟨e, r⟩ :: g ++ h₄ = (⟨e, r⟩ :: g ++ h₄.take 4) ++ h := by
    simp [h₄, h₃, h₂, h₁]
  rw [hsuffix] at hrun
  exact hbig (hfit _ _ hrun ⟨e, r⟩ (by simp))

end Overrun

/-! ### When every read fits -/

/-- A dialogue received after a history in which nothing was. -/
theorem received_append (fd : Fd) (g h : Hist) :
    received fd (g ++ h) = received fd h ++ received fd g := by
  induction g with
  | nil => simp [received]
  | cons ev g ih =>
    obtain ⟨e, r⟩ := ev
    by_cases he : ReadsNothing e
    · rw [List.cons_append, received_of_readsNothing he, received_of_readsNothing he, ih]
    · cases e <;> try exact absurd trivial he
      rename_i via fd' cap off len
      cases via <;> rcases r with _ | _ | _ <;> simp [received, ih]

/-- A target that cannot be asked for is refused without a read. -/
theorem within_refused {fd : Fd} {dstHost dstPort : Bytes} (hask : ¬Askable dstHost dstPort) :
    Within ReadsNothing (socks5Negotiate fd dstHost dstPort) fun _ => True := by
  rw [socks5Negotiate]
  split
  · rename_i port hport hhost
    exact absurd ⟨by simpa using hhost, by rw [hport]; rfl⟩ hask
  · exact Within.step (by trivial) fun _ => Within.step (by trivial) fun _ => trivial

/-- **Exactly which replies fit**: all, unless the target can be asked for and the reply
is overlong. -/
theorem readsFit_iff (fd : Fd) (dstHost dstPort stream : Bytes) (h : Hist)
    (hfresh : received fd h = []) :
    ReadsFit fd dstHost dstPort stream h ↔ ¬(Askable dstHost dstPort ∧ Overlong stream) := by
  constructor
  · exact fun hfit ⟨hask, hlong⟩ => not_readsFit hask hlong hfresh hfit
  intro hnot ext o hr
  obtain ⟨g, hg, hr⟩ := Runs.shift (g := []) hr
  obtain rfl := List.append_cancel_right hg
  have hsend : ∀ g e r, After (Sending fd stream) h g e r → received fd (⟨e, r⟩ :: g) <+: stream := by
    rintro g e r ⟨-, hpre⟩
    rwa [← List.cons_append, received_append, hfresh, List.nil_append] at hpre
  have hstart : Sent fd stream [] := ⟨fun _ h => absurd h (by simp), List.nil_prefix⟩
  by_cases hlong : Overlong stream
  · have hask : ¬Askable dstHost dstPort := fun hask => hnot ⟨hask, hlong⟩
    exact ((Within.sent (within_refused hask) hstart rfl).safe hr).fit
  · exact ((always_socks5Negotiate hsend hlong hstart rfl).safe hr).fit

/-- A proxy that answers with an IPv4 address is read without overrun. -/
theorem readsFit_ipv4_reply :
    ReadsFit (.sock .tcp 3) (lit "example.org") (lit "443")
      [0x05, 0x00, 0x05, 0x00, 0x00, 0x01, 10, 0, 0, 1, 0x01, 0xbb] [] := by
  refine (readsFit_iff _ _ _ _ _ rfl).mpr fun h => ?_
  obtain ⟨-, -, -, -, h5⟩ := h
  simp at h5

/-- A proxy that answers with an IPv6 address makes the negotiation overrun `rep`. -/
theorem not_readsFit_ipv6_reply :
    ¬ReadsFit (.sock .tcp 3) (lit "example.org") (lit "443")
      ([0x05, 0x00, 0x05, 0x00, 0x00, 0x04] ++ List.replicate 18 0x00) [] :=
  not_readsFit (by decide) ⟨rfl, rfl, rfl, Or.inl rfl⟩ rfl

end Wirecat
