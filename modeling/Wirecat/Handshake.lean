import Wirecat.Fidelity
import Wirecat.Socks5
import Wirecat.Written

/-!
# The SOCKS5 handshake

What `socks5_negotiate` says to a proxy, when it says it, and how much of the answer it takes.
The two messages of the protocol, the request and the reply, have one layout: a head of four bytes,
an address whose length is for its type to say, and a port. `Wirecat.decodeMessage` reads it off a
stream and returns the rest of the stream, so "one complete frame and no more" is the
statement that the rest is what was not read.

The server's view of the request (`Wirecat.decodeMessage_socks5Request`) is about bytes. The client's
part is about runs, and runs may stop at any moment; so that the request is only written after the
method was read can be said of each moment by itself: where more than the greeting has
been written, the two bytes `05 00` have been read (`Wirecat.Spoken`).

Whether the reply has room in `rep` is another matter, settled in `Wirecat.readsFit_iff`: here a
read counts for the bytes it takes off the connection.
-/

namespace Wirecat

open CString Interaction

/-! ### The messages -/

/-- The addresses of the protocol. -/
inductive SocksAddress
  | ipv4 (bytes : Bytes)
  | domain (name : Bytes)
  | ipv6 (bytes : Bytes)
  deriving DecidableEq

/-- A request, where `code` is the command, or a reply, where it is the result. -/
structure SocksMessage where
  version : UInt8
  code : UInt8
  address : SocksAddress
  port : ℕ
  deriving DecidableEq

/-- The first `n` bytes and the rest, where there are so many. -/
def takeExactly (n : ℕ) (s : Bytes) : Option (Bytes × Bytes) :=
  if n ≤ s.length then some (s.take n, s.drop n) else none

/-- A name, which its length precedes, and the rest. -/
def decodeName : Bytes → Option (SocksAddress × Bytes)
  | [] => none
  | len :: s => (takeExactly len.toNat s).map fun p => (.domain p.1, p.2)

/-- An address of the type `type`, and the rest. -/
def decodeAddress (type : UInt8) (s : Bytes) : Option (SocksAddress × Bytes) :=
  if type = 0x01 then (takeExactly 4 s).map fun p => (.ipv4 p.1, p.2)
  else if type = 0x03 then decodeName s
  else if type = 0x04 then (takeExactly 16 s).map fun p => (.ipv6 p.1, p.2)
  else none

/-- A port, the high byte first, and the rest. -/
def decodePort : Bytes → Option (ℕ × Bytes)
  | hi :: lo :: rest => some (256 * hi.toNat + lo.toNat, rest)
  | _ => none

/-- **A message as the protocol lays it out**, and the rest of the stream. -/
def decodeMessage : Bytes → Option (SocksMessage × Bytes)
  | version :: code :: _ :: type :: s =>
      (decodeAddress type s).bind fun a =>
        (decodePort a.2).map fun p => (⟨version, code, a.1, p.1⟩, p.2)
  | _ => none

theorem takeExactly_append {n : ℕ} {s : Bytes} (hs : s.length = n) (rest : Bytes) :
    takeExactly n (s ++ rest) = some (s, rest) := by
  subst hs
  rw [takeExactly, if_pos (by simp), List.take_left, List.drop_left]

/-- The bytes `part` after the head complete a message whose code is `code`, whatever follows. -/
def Completes (head part : Bytes) (code : UInt8) : Prop :=
  ∃ m : SocksMessage, m.code = code ∧ ∀ rest, decodeMessage (head ++ part ++ rest) = some (m, rest)

/-- An address and a port, where the length of the address is known. -/
theorem completes_of_address {ver code rsv type hi lo : UInt8} (addr : SocksAddress)
    (bytes : Bytes) (haddr : ∀ rest, decodeAddress type (bytes ++ rest) = some (addr, rest)) :
    Completes [ver, code, rsv, type] (bytes ++ [hi, lo]) code := by
  refine ⟨⟨ver, code, addr, 256 * hi.toNat + lo.toNat⟩, rfl, fun rest => ?_⟩
  have hsplit : [ver, code, rsv, type] ++ (bytes ++ [hi, lo]) ++ rest =
      ver :: code :: rsv :: type :: (bytes ++ (hi :: lo :: rest)) := by
    simp
  rw [hsplit, decodeMessage, haddr]
  rfl

/-- What is two bytes longer than an address ends with a port. -/
theorem exists_port {n : ℕ} {part : Bytes} (hlen : part.length = n + 2) :
    ∃ bytes hi lo, bytes.length = n ∧ part = bytes ++ [hi, lo] := by
  obtain ⟨hi, lo, hport⟩ : ∃ hi lo, part.drop n = [hi, lo] :=
    List.length_eq_two.mp (by rw [List.length_drop]; omega)
  refine ⟨part.take n, hi, lo, by rw [List.length_take]; omega, ?_⟩
  rw [← hport, List.take_append_drop]

theorem completes_ipv4 {ver code rsv : UInt8} {part : Bytes} (hlen : part.length = 6) :
    Completes [ver, code, rsv, 0x01] part code := by
  obtain ⟨bytes, hi, lo, hbytes, rfl⟩ := @exists_port 4 part hlen
  refine completes_of_address (.ipv4 bytes) bytes fun rest => ?_
  rw [decodeAddress, if_pos rfl, takeExactly_append hbytes]
  rfl

theorem completes_domain {ver code rsv len : UInt8} {part : Bytes}
    (hlen : part.length = len.toNat + 2) : Completes [ver, code, rsv, 0x03] (len :: part) code := by
  obtain ⟨bytes, hi, lo, hbytes, rfl⟩ := exists_port hlen
  refine completes_of_address (.domain bytes) (len :: bytes) fun rest => ?_
  rw [decodeAddress, if_neg (by decide), if_pos rfl, List.cons_append, decodeName,
    takeExactly_append hbytes]
  rfl

theorem completes_ipv6 {ver code rsv : UInt8} {part : Bytes} (hlen : part.length = 18) :
    Completes [ver, code, rsv, 0x04] part code := by
  obtain ⟨bytes, hi, lo, hbytes, rfl⟩ := @exists_port 16 part hlen
  refine completes_of_address (.ipv6 bytes) bytes fun rest => ?_
  rw [decodeAddress, if_neg (by decide), if_neg (by decide), if_pos rfl, takeExactly_append hbytes]
  rfl

/-! ### What is said, and when -/

section
variable {legal : Hist → (e : Sys) → Resp e → Prop} {fd : Fd} {h₀ h : Hist} {w r dstHost : Bytes}
  {port : ℕ}

/-- Since `h₀`, `w` was written to the proxy and `r` was read from it. -/
def Said (fd : Fd) (h₀ : Hist) (w r : Bytes) (h : Hist) : Prop :=
  writtenTo fd h = writtenTo fd h₀ ++ w ∧ received fd h = received fd h₀ ++ r

/-- **The order of the handshake**: what is written is the greeting and then the request, and
nothing of the request before the method was read. -/
structure Spoken (dstHost : Bytes) (port : ℕ) (w r : Bytes) : Prop where
  written : w <+: socks5Greeting ++ socks5Request dstHost port
  answered : socks5Greeting.length < w.length → [0x05, 0x00] <+: r

/-- The handshake is in order. -/
def InOrder (fd : Fd) (h₀ : Hist) (dstHost : Bytes) (port : ℕ) (h : Hist) : Prop :=
  ∃ w r, Said fd h₀ w r h ∧ Spoken dstHost port w r

theorem Spoken.hear (hs : Spoken dstHost port w r) (more : Bytes) :
    Spoken dstHost port w (r ++ more) :=
  ⟨hs.written, fun hlt => (hs.answered hlt).trans (List.prefix_append r more)⟩

/-- The request may be written after the method. -/
theorem spoken_request (dstHost : Bytes) (port k : ℕ) (more : Bytes) :
    Spoken dstHost port (socks5Greeting ++ (socks5Request dstHost port).take k)
      ([0x05, 0x00] ++ more) :=
  ⟨(List.prefix_append_right_inj _).mpr (List.take_prefix k _), fun _ => List.prefix_append _ _⟩

/-- The requests that say nothing to the proxy. -/
def Unsaid (fd : Fd) (e : Sys) : Prop := ReadsNothing e ∧ ∀ via buf, e ≠ .write via fd buf

/-- A part that says nothing leaves what was said as it was. -/
theorem Within.unsaid {α : Type} {p : Proc α} {Q : α → Prop} (hp : Within (Unsaid fd) p Q)
    (hsaid : Said fd h₀ w r h) :
    Always legal (Said fd h₀ w r) p (fun a h' => Said fd h₀ w r h' ∧ Q a) h := by
  refine hp.always (S := Said fd h₀ w r) hsaid ?_
  rintro h e x hsaid ⟨hread, hwrite⟩ -
  rw [Said, writtenTo_other hwrite, received_of_readsNothing hread]
  exact hsaid

/-- A part that says nothing. -/
theorem Within.said {α : Type} {p : Proc α} {Q : α → Prop} (hp : Within (Unsaid fd) p Q)
    (hsaid : Said fd h₀ w r h) (hs : Spoken dstHost port w r) :
    Always legal (InOrder fd h₀ dstHost port) p (fun a h' => Said fd h₀ w r h' ∧ Q a) h := by
  exact (Within.unsaid hp hsaid).mono (fun _ hS => ⟨w, r, hS, hs⟩) fun _ _ _ hQ => hQ

theorem within_failure {level : LogLevel} {event fmt : String} {args : List LogArg} :
    Within (Unsaid fd) (do sys (.log level event fmt args); pure false) fun ok => ok = false :=
  Within.step ⟨trivial, fun _ _ => by simp⟩ fun _ => within_pure.mpr rfl

/-- A failure that is logged. -/
theorem always_failure {level : LogLevel} {event fmt : String} {args : List LogArg}
    {Q : Hist → Prop} (hsaid : Said fd h₀ w r h) (hs : Spoken dstHost port w r) :
    Always legal (InOrder fd h₀ dstHost port) (do sys (.log level event fmt args); pure false)
      (fun ok h' => ok = true → Q h') h := by
  refine (Within.said within_failure hsaid hs).post_mono fun ok _ hQ htrue => ?_
  rw [hQ.2] at htrue
  exact absurd htrue (by simp)

/-- **Writing** in pieces, each of which may be the last. -/
theorem always_say {buf : Bytes} (hsaid : Said fd h₀ w r h)
    (hs : ∀ k, Spoken dstHost port (w ++ buf.take k) r) :
    Always legal (InOrder fd h₀ dstHost port) (wcatFullWrite .handshake fd buf)
      (fun n h' => ∃ k, Said fd h₀ (w ++ buf.take k) r h' ∧
        (n = some buf.length → k = buf.length)) h := by
  have hstart : Said fd h₀ (w ++ buf.take 0) r h := by
    rwa [List.take_zero, List.append_nil]
  refine Always.loop (fun off h => off ≤ buf.length ∧ Said fd h₀ (w ++ buf.take off) r h)
    ⟨Nat.zero_le _, hstart⟩ ?_
  rintro off h ⟨hoff, hsaid⟩
  have horder : ∀ {k h}, Said fd h₀ (w ++ buf.take k) r h → InOrder fd h₀ dstHost port h :=
    fun hsaid => ⟨_, _, hsaid, hs _⟩
  refine Always.ite (fun hlt => Always.ask (horder hsaid) fun x _ => ?_) fun hge => ?_
  · rcases x with ⟨n, hle⟩ | err
    · have hnew : Said fd h₀ (w ++ buf.take (off + n)) r
          (⟨.write .handshake fd (buf.drop off), .wrote n hle⟩ :: h) := by
        refine ⟨?_, hsaid.2⟩
        rw [writtenTo, if_pos rfl, hsaid.1, List.append_assoc, List.append_assoc, ← List.take_add]
      rw [List.length_drop] at hle
      cases n with
      | zero =>
        exact always_pure.mpr ⟨horder hnew, _, hnew, fun hn => Option.some.inj hn⟩
      | succ n => exact always_pure.mpr ⟨horder hnew, by omega, hnew⟩
    · have hnew : Said fd h₀ (w ++ buf.take off) r
          (⟨.write .handshake fd (buf.drop off), .error err⟩ :: h) := hsaid
      cases err
      case eintr => exact (always_pure (a := Sum.inl off)).mpr ⟨horder hnew, hoff, hnew⟩
      all_goals
        exact (always_pure (a := Sum.inr none) (Q := roundPost _ _)).mpr
          ⟨horder hnew, off, hnew, fun hn => absurd hn (by simp)⟩
  · exact always_pure.mpr ⟨horder hsaid, off, hsaid, fun hn => Option.some.inj hn⟩

/-- **Reading** in pieces, up to the number of bytes that is asked for. -/
theorem always_hear {cap len : ℕ} (hsaid : Said fd h₀ w r h) (hs : Spoken dstHost port w r) :
    Always legal (InOrder fd h₀ dstHost port) (readExact fd cap len)
      (fun x h' => Said fd h₀ w (r ++ x.2) h' ∧ (x.1 = true → x.2.length = len)) h := by
  have hstart : Said fd h₀ w (r ++ []) h := by
    rwa [List.append_nil]
  refine Always.loop (fun got h => got.length ≤ len ∧ Said fd h₀ w (r ++ got) h)
    ⟨Nat.zero_le _, hstart⟩ ?_
  rintro got h ⟨hlen, hsaid⟩
  have horder : ∀ {got h}, Said fd h₀ w (r ++ got) h → InOrder fd h₀ dstHost port h :=
    fun hsaid => ⟨_, _, hsaid, hs.hear _⟩
  refine Always.ite (fun hlt => Always.ask (horder hsaid) fun x _ => ?_) fun hge => ?_
  · have hfail : ∀ x : ReadRes (len - got.length),
        Said fd h₀ w (r ++ got) (⟨.read .handshake fd cap got.length (len - got.length), x⟩ :: h) →
        Always legal (InOrder fd h₀ dstHost port) (pure (.inr (false, got)) : Proc (Bytes ⊕ _))
          (roundPost (fun got h => got.length ≤ len ∧ Said fd h₀ w (r ++ got) h)
            fun x h' => Said fd h₀ w (r ++ x.2) h' ∧ (x.1 = true → x.2.length = len))
          (⟨.read .handshake fd cap got.length (len - got.length), x⟩ :: h) := fun x hnew =>
      always_pure.mpr ⟨horder hnew, hnew, fun htrue => absurd htrue (by simp)⟩
    rcases x with ⟨bytes, hne, hle⟩ | _ | err
    · have hnew : Said fd h₀ w (r ++ (got ++ bytes))
          (⟨.read .handshake fd cap got.length (len - got.length), .data bytes hne hle⟩ :: h) := by
        refine ⟨hsaid.1, ?_⟩
        rw [received, if_pos rfl, hsaid.2, List.append_assoc, List.append_assoc]
      refine always_pure.mpr ⟨horder hnew, ?_, hnew⟩
      rw [List.length_append]
      omega
    · exact hfail _ hsaid
    · cases err
      case eintr =>
        exact (always_pure (a := Sum.inl got) (Q := roundPost _ _)).mpr ⟨horder hsaid, hlen, hsaid⟩
      all_goals exact hfail _ hsaid
  · exact always_pure.mpr ⟨horder hsaid, hsaid, fun _ => by dsimp only; omega⟩

/-! ### The parts of the handshake -/

/-- **What a success has said**: all of the greeting and the request, and it has read the method and
one message whose code is `0`. -/
def Agreed (fd : Fd) (h₀ : Hist) (dstHost : Bytes) (port : ℕ) (h : Hist) : Prop :=
  ∃ head part, Said fd h₀ (socks5Greeting ++ socks5Request dstHost port)
    ([0x05, 0x00] ++ (head ++ part)) h ∧ Completes head part 0x00

/-- The whole request has been written. -/
theorem spoken_all (dstHost : Bytes) (port : ℕ) (more : Bytes) :
    Spoken dstHost port (socks5Greeting ++ socks5Request dstHost port) ([0x05, 0x00] ++ more) := by
  have hall := spoken_request dstHost port (socks5Request dstHost port).length more
  rwa [List.take_length] at hall

/-- A last read that completes the message. -/
theorem always_hear_last {cap len : ℕ} {head part : Bytes}
    (hsaid : Said fd h₀ (socks5Greeting ++ socks5Request dstHost port)
      ([0x05, 0x00] ++ (head ++ part)) h)
    (hcomp : ∀ more : Bytes, more.length = len → Completes head (part ++ more) 0x00) :
    Always legal (InOrder fd h₀ dstHost port) (readExact fd cap len >>= fun x => pure x.1)
      (fun ok h' => ok = true → Agreed fd h₀ dstHost port h') h := by
  refine always_bind'.mpr ((always_hear hsaid (spoken_all dstHost port _)).mono (fun _ => id) ?_)
  rintro ⟨ok, more⟩ h hin ⟨hsaid, hlen⟩
  refine always_pure.mpr ⟨hin, fun hok => ⟨head, part ++ more, ?_, hcomp more (hlen hok)⟩⟩
  rwa [List.append_assoc, List.append_assoc] at hsaid

/-- The bound address. -/
theorem always_hear_address {ver rsv type : UInt8}
    (hsaid : Said fd h₀ (socks5Greeting ++ socks5Request dstHost port)
      ([0x05, 0x00] ++ ([ver, 0x00, rsv, type] ++ [])) h) :
    Always legal (InOrder fd h₀ dstHost port) (socks5BoundAddress fd [ver, 0x00, rsv, type])
      (fun ok h' => ok = true → Agreed fd h₀ dstHost port h') h := by
  simp only [socks5BoundAddress, repByte, List.getD_cons_succ, List.getD_cons_zero]
  split_ifs with h1 h3 h4
  · subst h1
    exact always_hear_last hsaid fun more hlen => completes_ipv4 hlen
  · -- a name: its length is the next byte
    subst h3
    refine always_bind'.mpr ((always_hear hsaid (spoken_all dstHost port _)).mono (fun _ => id) ?_)
    rintro ⟨ok, more⟩ h hin ⟨hsaid, hlen⟩
    dsimp only at hsaid hlen ⊢
    cases ok with
    | false => exact always_pure.mpr ⟨hin, fun hok => absurd hok (by simp)⟩
    | true =>
      obtain ⟨len, rfl⟩ := List.length_eq_one_iff.mp (hlen rfl)
      rw [if_neg (by simp)]
      rw [List.append_nil, List.append_assoc] at hsaid
      exact always_hear_last hsaid fun more hlen => completes_domain hlen
  · subst h4
    exact always_hear_last hsaid fun more hlen => completes_ipv6 hlen
  · exact always_failure hsaid (spoken_all dstHost port _)

theorem exists_of_length_eq_four {l : Bytes} (hl : l.length = 4) : ∃ a b c d, l = [a, b, c, d] := by
  obtain ⟨a, l, rfl⟩ := List.exists_cons_of_length_eq_add_one hl
  obtain ⟨b, c, d, rfl⟩ := List.length_eq_three.mp (Nat.succ.inj hl)
  exact ⟨a, b, c, d, rfl⟩

/-- The four bytes of a head take the place of the two of the method. -/
theorem overlay_head {rep : Bytes} (hrep : rep.length = 2) (a b c d : UInt8) :
    overlay rep [a, b, c, d] = [a, b, c, d] := by
  rw [overlay, List.drop_eq_nil_of_le (by simp [hrep]), List.append_nil]

/-- The request and its reply, after the method. -/
theorem always_request {rep : Bytes} (hrep : rep.length = 2)
    (hsaid : Said fd h₀ (socks5Greeting ++ []) ([0x05, 0x00] ++ []) h) :
    Always legal (InOrder fd h₀ dstHost port) (socks5Connect fd dstHost port rep)
      (fun ok h' => ok = true → Agreed fd h₀ dstHost port h') h := by
  rw [List.append_nil] at hsaid
  have hreq : (socks5Request dstHost port).length = 7 + dstHost.length := by
    simp [socks5Request]
    omega
  rw [socks5Connect, always_bind']
  refine (always_say hsaid fun k => spoken_request dstHost port k []).mono (fun _ => id) ?_
  rintro n h - ⟨k, hsaid, hall⟩
  by_cases hn : n = some (7 + dstHost.length)
  · obtain rfl := hall (hreq ▸ hn)
    rw [List.take_length] at hsaid
    rw [if_neg (not_not.mpr hn)]
    refine always_bind'.mpr ((always_hear hsaid (spoken_all dstHost port [])).mono (fun _ => id) ?_)
    rintro ⟨ok, more⟩ h - ⟨hsaid, hlen⟩
    refine Always.ite (fun _ => ?_) fun hgood => ?_
    · -- one of two messages is logged
      have hlogs : ∀ fmt args, Within (Unsaid fd) (sys (.log .error "proxy" fmt args))
          fun _ => True := fun _ _ => ⟨⟨trivial, fun _ _ => by simp⟩, fun _ => trivial⟩
      refine always_bind'.mpr ((Within.said (Q := fun _ => True) ?_ hsaid
        ((spoken_all dstHost port []).hear more)).mono (fun _ => id) ?_)
      · exact Within.ite (fun _ => hlogs _ _) fun _ => hlogs _ _
      · exact fun _ h hin _ => always_pure.mpr ⟨hin, fun hok => absurd hok (by simp)⟩
    · simp only [Bool.or_eq_true, Bool.not_eq_true', decide_eq_true_eq, not_or, not_not] at hgood
      obtain ⟨hok, hcode⟩ := hgood
      have hlen4 : more.length = 4 := hlen (by simpa using hok)
      obtain ⟨ver, code, rsv, type, rfl⟩ := exists_of_length_eq_four hlen4
      rw [overlay_head hrep] at hcode ⊢
      obtain rfl : code = 0x00 := hcode
      refine always_hear_address ?_
      rwa [List.append_nil] at hsaid
  · rw [if_pos hn]
    exact always_failure hsaid (spoken_request dstHost port k [])

end

/-! ### What it comes to -/

/-- A read of the dialogue that failed, or found the end. -/
def breaks (fd : Fd) : Ev → Bool
  | ⟨.read .handshake fd' _ _ _, .eof⟩ => fd' = fd
  | ⟨.read .handshake fd' _ _ _, .error e⟩ => fd' = fd && e ≠ .eintr
  | _ => false

/-- A read of the dialogue failed in the run from `h` to `h'`. -/
def Broken (fd : Fd) (h h' : Hist) : Prop := ∃ ev, Happens h h' ev ∧ breaks fd ev = true

theorem Broken.mono {fd : Fd} {h₀ h h' h₁ : Hist} (hb : Broken fd h h') (hs : h₀ <:+ h)
    (hs' : h' <:+ h₁) : Broken fd h₀ h₁ := by
  obtain ⟨ev, hev, hbreaks⟩ := hb
  exact ⟨ev, hev.mono hs hs', hbreaks⟩

section
variable {legal : Hist → (e : Sys) → Resp e → Prop} {fd : Fd} {h₀ h h' : Hist} {w r dstHost : Bytes}
  {port : ℕ} {ok : Bool} {stream : Bytes}

end

/-! ### That it ends -/

section
variable {fd : Fd} {h : Hist} {dstHost : Bytes} {port : ℕ}

/-- After any history `p` may return `a`, and has then taken `r`. -/
def MayTake {α : Type} (fd : Fd) (p : Proc α) (a : α) (r : Bytes) : Prop :=
  ∀ h, ∃ h', Runs Legal p h h' (some a) ∧ received fd h' = received fd h ++ r

theorem MayTake.bind {α β : Type} {p : Proc α} {f : α → Proc β} {a : α} {b : β} {r r' : Bytes}
    (hp : MayTake fd p a r) (hf : MayTake fd (f a) b r') : MayTake fd (p >>= f) b (r ++ r') := by
  intro h
  obtain ⟨h₁, hrun, hrec⟩ := hp h
  obtain ⟨h₂, hrun', hrec'⟩ := hf h₁
  exact ⟨h₂, runs_bind_some'.mpr ⟨a, h₁, hrun, hrun'⟩, by rw [hrec', hrec, List.append_assoc]⟩

end

/-! ### The whole -/

end Wirecat
