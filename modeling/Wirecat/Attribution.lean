import Wirecat.Delivery
import Wirecat.Transcript

/-!
# Who said what

With `--chat` every line a client reads should begin with the label of its author and
be all of that author. What the broker sees to is less: it labels the lines of a
*sender* (`line_start` is a member of the sender's slot), and the lines of a *receiver*
are put together from what several senders said.

The two agree as long as nobody speaks into a line of somebody else
(`Wirecat.Orderly`): who begins a line finds no line unfinished with any of the others,
and who goes on with one finds that very line unfinished with all of them. Then every
line every client reads is attributed (`Wirecat.chat_attributed`), and otherwise a
client can even write under the label of another (`Wirecat.not_attributed_forgery`).
-/

namespace Wirecat

open CString Interaction Broadcast Transcript

/-! ### The text of a chunk -/

/-- The label of the client with this serial number. -/
def serialLabel (n : ℕ) : Bytes := chatLabel (n % 2 ^ 32)

/-- A text, all by the client with this serial number. -/
def tagged (n : ℕ) (text : Bytes) : List (ℕ × UInt8) := text.map (Prod.mk n)

theorem digit_ne_newline : ∀ d < 10, (48 + d).toUInt8 ≠ chr '\n' := by decide

theorem newline_not_mem_digitsRev (fuel n : ℕ) : chr '\n' ∉ digitsRev fuel n := by
  induction fuel generalizing n with
  | zero => simp [digitsRev]
  | succ fuel ih =>
    rw [digitsRev, List.mem_cons, not_or]
    refine ⟨(digit_ne_newline _ (Nat.mod_lt _ (by decide))).symm, ?_⟩
    split_ifs
    · simp
    · exact ih _

theorem newline_not_mem_chatLabel (id : ℕ) : chr '\n' ∉ chatLabel id := by
  simp only [chatLabel, List.mem_append, not_or]
  exact ⟨⟨by decide, by simpa [decimal] using newline_not_mem_digitsRev _ _⟩, by decide⟩

theorem hexChar_ne_newline : ∀ n < 16, hexChar n ≠ chr '\n' := by decide

theorem newline_not_mem_chatByte {c : UInt8} (hc : c ≠ chr '\n') : chr '\n' ∉ chatByte c := by
  have hlt : c.toNat < 256 := c.toNat_lt
  rw [chatByte, if_neg hc]
  split_ifs with h1 h2 h3
  · simp [hc.symm]
  · decide
  · simp only [List.mem_append, not_or, List.mem_cons, List.not_mem_nil, or_false]
    exact ⟨by decide, (hexChar_ne_newline _ (by omega)).symm, (hexChar_ne_newline _ (by omega)).symm⟩
  · simp [hc.symm]

theorem chatByte_newline : chatByte (chr '\n') = [chr '\n'] := if_pos rfl

/-- The line a client is in the middle of: none at the start of a line, else one of its
own. -/
def lineOf (a : ℕ) (lineStart : Bool) : Option ℕ := if lineStart then none else some a

/-- The unfinished line `cur` is the one that is said to be open. -/
def InLine (open? : Option ℕ) (cur : List (ℕ × UInt8)) : Prop :=
  match open? with
  | none => cur = []
  | some a => OwnedBy serialLabel a cur

theorem ne_newline_of_tagged {a : ℕ} {text : Bytes} (h : chr '\n' ∉ text) :
    ∀ c ∈ tagged a text, c.2 ≠ chr '\n' := by
  rintro c hc rfl'
  obtain ⟨b, hb, rfl⟩ := List.mem_map.mp hc
  exact h (rfl' ▸ hb)

theorem owner_of_tagged {a : ℕ} {text : Bytes} : ∀ c ∈ tagged a text, c.1 = a := by
  intro c hc
  obtain ⟨b, -, rfl⟩ := List.mem_map.mp hc
  rfl

/-- Where a line starts, the label makes it a line of the author's own. -/
theorem InLine.labelled {a : ℕ} {lineStart : Bool} {cur : List (ℕ × UInt8)}
    (hm : InLine (lineOf a lineStart) cur) :
    OwnedBy serialLabel a (cur ++ tagged a (if lineStart then serialLabel a else [])) := by
  cases lineStart with
  | true =>
    obtain rfl : cur = [] := hm
    refine ⟨owner_of_tagged, ?_⟩
    rw [List.nil_append, tagged, List.map_map]
    exact (List.map_id _).symm ▸ List.prefix_refl _
  | false => exact OwnedBy.append hm owner_of_tagged

/-- **The text of a chunk is a turn of its sender**, whom it leaves at the start of a line or
in the middle of one of its own. The induction is on the chunk; `said` is what the sender
had said before. -/
theorem turn_chatText (a : ℕ) {lineStart : Bool} {said : Bytes} (chunk : Bytes)
    {cur : List (ℕ × UInt8)} (hls : lineStart = atLineStart said)
    (hm : InLine (lineOf a lineStart) cur) :
    (∀ line ∈ finished (chr '\n') cur (tagged a (chatText (a % 2 ^ 32) lineStart chunk)),
      OwnedBy serialLabel a line) ∧
    InLine (lineOf a (atLineStart (said ++ chunk)))
      (unfinished (chr '\n') cur (tagged a (chatText (a % 2 ^ 32) lineStart chunk))) := by
  induction chunk generalizing lineStart said cur with
  | nil =>
    rw [List.append_nil, ← hls]
    exact ⟨by simp [chatText, tagged, finished], hm⟩
  | cons c chunk ih =>
    have hend : decide (c = chr '\n') = atLineStart (said ++ [c]) := by simp [atLineStart]
    have htext : tagged a (chatText (a % 2 ^ 32) lineStart (c :: chunk)) =
        tagged a (if lineStart then serialLabel a else []) ++ (tagged a (chatByte c) ++
          tagged a (chatText (a % 2 ^ 32) (decide (c = chr '\n')) chunk)) := by
      simp only [chatText, tagged, List.map_append, serialLabel, List.append_assoc]
    have hplain : ∀ x ∈ tagged a (if lineStart then serialLabel a else []), x.2 ≠ chr '\n' := by
      refine ne_newline_of_tagged ?_
      split_ifs
      · exact newline_not_mem_chatLabel _
      · simp
    rw [htext, finished_append, unfinished_append, finished_of_no_newline hplain,
      unfinished_of_no_newline hplain, List.nil_append, finished_append, unfinished_append,
      show said ++ c :: chunk = said ++ [c] ++ chunk by simp]
    have hown := hm.labelled
    by_cases hc : c = chr '\n'
    · -- the byte ends the line, and the next one starts with a label
      subst hc
      obtain ⟨hfin, hmid⟩ := @ih _ _ [] hend rfl
      rw [chatByte_newline]
      refine ⟨fun line hl => ?_, hmid⟩
      rcases List.mem_cons.mp hl with rfl | hl
      · exact hown.append (@owner_of_tagged _ [chr '\n'])
      · exact hfin line hl
    · have hbyte := ne_newline_of_tagged (a := a) (newline_not_mem_chatByte hc)
      rw [finished_of_no_newline hbyte, unfinished_of_no_newline hbyte, List.nil_append]
      refine ih hend ?_
      rw [decide_eq_false hc]
      exact OwnedBy.append hown owner_of_tagged

/-! ### The stream of a receiver -/

/-- What a client is entitled to, with the author of every byte. -/
def transcript (cfg : Config) (fd : Fd) (lost : Bool) (l : List (Deed Fd UInt8)) :
    List (ℕ × UInt8) :=
  heardBy (fun l k chunk => tagged (serial k l) (payload cfg l k chunk)) fd lost l

theorem transcript_bytes (cfg : Config) (fd : Fd) (l : List (Deed Fd UInt8)) :
    (transcript cfg fd false l).map Prod.snd = heard cfg fd l := by
  rw [transcript, ← heardBy_map, heard]
  congr 1
  funext l k chunk
  rw [tagged, List.map_map]
  exact List.map_id _

/-- **Attributed chat**: every line the client reads begins with the label of one client, and
all the rest of it is of that client. -/
def ChatAttributed (cfg : Config) (fd : Fd) (l : List (Deed Fd UInt8)) : Prop :=
  Attributed (chr '\n') serialLabel (transcript cfg fd false l)

/-- Whose line the client on `fd` is in the middle of: the sender of the last chunk it
heard, unless that chunk ended its line. With `lost`, the newest chunk was not heard. -/
def openLine (fd : Fd) : Bool → List (Deed Fd UInt8) → Option ℕ
  | _, [] => none
  | lost, .joined k :: l => if k = fd then none else openLine fd lost l
  | lost, .said k chunk :: l =>
      if k = fd ∨ lost then openLine fd false l
      else lineOf (serial k l) (atLineStart (saidBy k l ++ chunk))
  | _, .unsaid :: l => openLine fd true l
  | lost, .met _ :: l | lost, .sent _ _ :: l | lost, .left _ :: l => openLine fd lost l

/-- The line the client on `k` is in the middle of, if there is one. -/
def ownLine (k : Fd) (l : List (Deed Fd UInt8)) : Option ℕ :=
  lineOf (serial k l) (atLineStart (saidBy k l))

/-- **Orderly chat**: when a client speaks, every other client is in the middle of the same
line as the speaker, or both are at the start of one. -/
def Orderly : Bool → List (Deed Fd UInt8) → Prop
  | _, [] => True
  | lost, .said k _ :: l => (lost = false → ∀ fd, fd ≠ k → present fd l = true →
      openLine fd false l = ownLine k l) ∧ Orderly false l
  | _, .unsaid :: l => Orderly true l
  | lost, .met _ :: l | lost, .joined _ :: l | lost, .sent _ _ :: l | lost, .left _ :: l =>
      Orderly lost l

/-- **Orderly chat is attributed.** The induction is on the deeds. -/
theorem attributed_of_orderly {cfg : Config} (hchat : cfg.chat = true) {fd : Fd} {lost : Bool}
    {l : List (Deed Fd UInt8)} (hl : Orderly lost l) (hp : present fd l = true) :
    Attributed (chr '\n') serialLabel (transcript cfg fd lost l) ∧
      InLine (openLine fd lost l) (unfinished (chr '\n') [] (transcript cfg fd lost l)) := by
  induction l generalizing lost with
  | nil => simp [present] at hp
  | cons d l ih =>
    cases d with
    | met k => exact ih hl hp
    | sent k bytes => exact ih hl hp
    | left k => exact ih hl (Bool.and_eq_true_iff.mp hp).2
    | unsaid => exact ih hl hp
    | joined k =>
      by_cases hk : k = fd
      · subst hk
        simp [transcript, heardBy, Attributed, lines, finished, unfinished, openLine, InLine]
      · have hp' : present fd l = true := by simpa [present, hk] using hp
        simpa [transcript, heardBy, openLine, hk] using ih hl hp'
    | said k chunk =>
      obtain ⟨hsame, hl⟩ := hl
      obtain ⟨hatt, hopen⟩ := ih hl hp
      by_cases hk : k = fd ∨ lost = true
      · simpa [transcript, heardBy, openLine, hk] using And.intro hatt hopen
      · obtain ⟨hne, hlost⟩ := not_or.mp hk
        rw [hsame (Bool.eq_false_of_not_eq_true hlost) fd (Ne.symm hne) hp] at hopen
        obtain ⟨hfin, hmid⟩ := turn_chatText (serial k l) chunk rfl hopen
        have htext : transcript cfg fd lost (.said k chunk :: l) = transcript cfg fd false l ++
            tagged (serial k l) (chatText (serial k l % 2 ^ 32) (atLineStart (saidBy k l)) chunk) := by
          simp [transcript, heardBy, hk, payload, hchat]
        have hline : openLine fd lost (.said k chunk :: l) =
            lineOf (serial k l) (atLineStart (saidBy k l ++ chunk)) := by
          simp [openLine, hk]
        rw [htext, hline, unfinished_append]
        refine ⟨hatt.append ⟨hfin, ?_⟩, hmid⟩
        cases hend : atLineStart (saidBy k l ++ chunk) with
        | true =>
          rw [hend] at hmid
          exact .inl hmid
        | false =>
          rw [hend] at hmid
          exact .inr hmid

/-! ### The broker -/

/-- **Orderly chat is attributed**: wherever the broker gets to while nobody speaks into a
line of somebody else, what a client was sent and what is pending for it is an attributed
transcript. -/
theorem chat_attributed {cfg : Config} (hchat : cfg.chat = true) {listener : Fd} {h₁ g : Hist}
    {s : BrokerState} (hr : Reaches Legal (brokerRound cfg listener) brokerInit h₁ s (g ++ h₁))
    (hord : Orderly false (deeds g)) (j : ℕ) (fd : Fd) (hj : (s.clients j).fd = some fd) :
    (transcript cfg fd false (deeds g)).map Prod.snd =
      sentTo fd (deeds g) ++ (s.clients j).pending ∧ ChatAttributed cfg fd (deeds g) := by
  obtain ⟨hp, hq⟩ := (wcatBrokerRun_delivery cfg listener h₁).loop_head s g hr j fd hj
  exact ⟨(transcript_bytes cfg fd _).trans hq.symm, (attributed_of_orderly hchat hord hp).1⟩

/-- Three clients join, and then the second says `a`, the first ends its line, and the second
says `text`, which goes on with its own line. -/
def chatScript (text : Bytes) (h : Hist) : (e : Sys) → Resp e
  | .stop => false
  | .poll fds _ => .reporting fds (
      if pollCount h < 3 then { pollin := true } :: List.replicate (pollCount h) .none
      else if pollCount h = 4 then [.none, { pollin := true }, .none, .none]
      else [.none, .none, { pollin := true }, .none])
  | .accept _ => .ok (10 + pollCount h)
  | .setNonblock _ _ => true
  | .realloc _ => true
  | .read _ _ _ _ len =>
      let bytes := if pollCount h = 4 then lit "a" else if pollCount h = 5 then lit "\n" else text
      if hb : bytes ≠ [] ∧ bytes.length ≤ len then .data bytes hb.1 hb.2 else .eof
  | e => refuse e

/-- The broker with `--chat` after `n` rounds of this. -/
def chatRounds (text : Bytes) (n : ℕ) : Option (BrokerState × Hist) :=
  execRounds (lawful (chatScript text)) (brokerRound { chat := true } (.sock .tcp 3)) 1000 n
    brokerInit []

theorem reaches_chatRounds {text : Bytes} {n : ℕ} {s : BrokerState} {g : Hist}
    (hx : chatRounds text n = some (s, g)) :
    Reaches Legal (brokerRound { chat := true } (.sock .tcp 3)) brokerInit [] s (g ++ []) := by
  rw [List.append_nil]
  exact execRounds_reaches (legal_lawful _) hx

/-- The deeds of the first four rounds. -/
def firstLine : List (Deed Fd UInt8) :=
  [.said (.conn .tcp 12) (lit "a"), .joined (.conn .tcp 13), .met (.conn .tcp 13),
    .joined (.conn .tcp 12), .met (.conn .tcp 12), .joined (.conn .tcp 11), .met (.conn .tcp 11)]

theorem orderly_firstLine : Orderly false firstLine := by
  refine ⟨fun _ fd _ _ => ?_, trivial⟩
  simp [openLine, ownLine, lineOf, saidBy, atLineStart]

/-- After the second client has said `a`, the third reads the beginning of a line of the
second. -/
theorem chat_attributed_firstLine : ∃ s g, chatRounds [] 4 = some (s, g) ∧
    sentTo (.conn .tcp 13) (deeds g) ++ (s.clients 2).pending = lit "<client2> a" ∧
      ChatAttributed { chat := true } (.conn .tcp 13) (deeds g) := by
  have hx : (chatRounds [] 4).any (fun r => (r.1.clients 2).fd = some (.conn .tcp 13) ∧
      deeds r.2 = firstLine ∧
      sentTo (.conn .tcp 13) (deeds r.2) ++ (r.1.clients 2).pending = lit "<client2> a") = true := by
    decide +kernel
  obtain ⟨⟨s, g⟩, hx, hj⟩ := (Option.any_eq_true _ _).mp hx
  obtain ⟨hj, hg, ht⟩ := of_decide_eq_true hj
  have hord : Orderly false (deeds g) := by
    rw [hg]
    exact orderly_firstLine
  exact ⟨s, g, hx, ht, (chat_attributed rfl (reaches_chatRounds hx) hord 2 _ hj).2⟩

/-- **A client writes under another's label**: the first client ends a line the second has
begun, and the second goes on with it. -/
theorem not_attributed_forgery : ∃ s g,
    Reaches Legal (brokerRound { chat := true } (.sock .tcp 3)) brokerInit [] s (g ++ []) ∧
      (s.clients 2).fd = some (.conn .tcp 13) ∧
      tagged 2 (lit "<client1> hi\n") ∈
        lines (chr '\n') (transcript { chat := true } (.conn .tcp 13) false (deeds g)) ∧
      ¬ChatAttributed { chat := true } (.conn .tcp 13) (deeds g) := by
  have hx : (chatRounds (lit "<client1> hi\n") 6).any (fun r =>
      (r.1.clients 2).fd = some (.conn .tcp 13) ∧ tagged 2 (lit "<client1> hi\n") ∈
        lines (chr '\n') (transcript { chat := true } (.conn .tcp 13) false (deeds r.2))) = true := by
    decide +kernel
  obtain ⟨⟨s, g⟩, hx, hj⟩ := (Option.any_eq_true _ _).mp hx
  obtain ⟨hj, hline⟩ := of_decide_eq_true hj
  refine ⟨s, g, reaches_chatRounds hx, hj, hline, fun hatt => ?_⟩
  obtain ⟨a, howner, hlabel⟩ := hatt _ hline
  obtain rfl : 2 = a := howner (2, chr '<') (by decide)
  exact absurd hlabel (by decide)

end Wirecat
