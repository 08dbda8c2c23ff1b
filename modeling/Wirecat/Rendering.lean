import Wirecat.Delivery
import Wirecat.Labels
import Wirecat.Written

/-!
# How a chunk is rendered

With `--chat` a chunk is rendered before it is passed round: a label where a line starts, and
escapes for control characters. The text is `Wirecat.chatText`, and this file is about the text and
about the function that computes it.

The chunks a sender's words arrive in should not matter. They do not, since the only thing that is
carried from one chunk to the next is whether a line starts there (`Wirecat.chatText_append`). In
`Wirecat.chatMarked` every byte says whether it belongs to a label: the labels stand where lines
start, one each (`Wirecat.labelMarked_lines`), and without them there is what the sender said, with
its control characters escaped (`Wirecat.labelMarked_unlabelled`).

The function fails when it is refused memory, and it returns `NULL` for an empty chunk too; in every
other run it returns the text (`Wirecat.runs_formatChatMessage`).
-/

namespace Wirecat

open CString Interaction

variable {legal : Hist → (e : Sys) → Resp e → Prop} {h h' : Hist}

/-! ### Memory -/

/-- An allocation was refused in the run from `h` to `h'`. -/
def Exhausted (h h' : Hist) : Prop := ∃ size, Happens h h' ⟨.realloc size, false⟩

theorem Exhausted.mono {h₀ h₁ : Hist} (he : Exhausted h h') (hs : h₀ <:+ h) (hs' : h' <:+ h₁) :
    Exhausted h₀ h₁ := by
  obtain ⟨size, hev⟩ := he
  exact ⟨size, hev.mono hs hs'⟩

theorem growCap_pos {fuel cap need : ℕ} (hcap : 0 < cap) : 0 < growCap fuel cap need := by
  induction fuel generalizing cap with
  | zero => exact hcap
  | succ fuel ih =>
    rw [growCap]
    split_ifs
    · omega
    · exact ih (by omega)
    · exact hcap

/-- **Appending** appends, unless memory is refused or there cannot be enough of it. -/
theorem runs_appendBytes {b : ChatBuffer} {buf : Bytes} {r : Option ChatBuffer}
    (hr : Runs legal (appendBytes b buf) h h' (some r)) :
    (∃ cap, r = some ⟨b.out ++ buf, cap, b.lineStart⟩ ∧ (0 < b.cap ∨ buf ≠ [] → 0 < cap)) ∨
      r = none ∧ (Exhausted h h' ∨ sizeMax < b.out.length + buf.length) := by
  rw [appendBytes] at hr
  have hstart : 0 < (if b.cap = 0 then 128 else b.cap) := by split_ifs <;> omega
  generalize (if b.cap = 0 then 128 else b.cap) = start at hr hstart
  split_ifs at hr with hempty hmax hfits
  · obtain ⟨-, rfl⟩ := runs_pure.mp hr
    obtain rfl := List.length_eq_zero_iff.mp hempty
    exact .inl ⟨b.cap, by rw [List.append_nil], by simp⟩
  · obtain ⟨-, rfl⟩ := runs_pure.mp hr
    exact .inr ⟨rfl, .inr (by omega)⟩
  · obtain ⟨-, rfl⟩ := runs_pure.mp hr
    exact .inl ⟨b.cap, rfl, fun _ => by omega⟩
  · obtain ⟨ok, -, hr⟩ := runs_ask.mp hr
    cases ok with
    | true =>
      obtain ⟨-, rfl⟩ := runs_pure.mp hr
      exact .inl ⟨_, rfl, fun _ => growCap_pos hstart⟩
    | false =>
      obtain ⟨rfl, rfl⟩ := runs_pure.mp hr
      exact .inr ⟨rfl, .inl ⟨_, happens_cons.mpr rfl⟩⟩

/-! ### Labels and escapes -/

/-- A byte that is not a control character, or is a tab or a line feed. -/
def Printable (c : UInt8) : Prop := (32 ≤ c ∨ c = chr '\n' ∨ c = chr '\t') ∧ c ≠ 127

instance (c : UInt8) : Decidable (Printable c) :=
  inferInstanceAs (Decidable ((32 ≤ c ∨ c = chr '\n' ∨ c = chr '\t') ∧ c ≠ 127))

theorem printable_digit : ∀ d < 10, Printable (48 + d).toUInt8 := by decide

theorem printable_digitsRev (fuel n : ℕ) : ∀ c ∈ digitsRev fuel n, Printable c := by
  induction fuel generalizing n with
  | zero => simp [digitsRev]
  | succ fuel ih =>
    intro c hc
    rw [digitsRev] at hc
    rcases List.mem_cons.mp hc with rfl | hc
    · exact printable_digit _ (Nat.mod_lt _ (by decide))
    · split_ifs at hc
      · exact absurd hc List.not_mem_nil
      · exact ih _ c hc

theorem printable_chatLabel (id : ℕ) : ∀ c ∈ chatLabel id, Printable c := by
  intro c hc
  have hopen : ∀ c ∈ lit "<client", Printable c := by decide +kernel
  have hclose : ∀ c ∈ lit "> ", Printable c := by decide +kernel
  rw [chatLabel, List.mem_append, List.mem_append] at hc
  rcases hc with (hc | hc) | hc
  · exact hopen c hc
  · exact printable_digitsRev _ _ c (List.mem_reverse.mp hc)
  · exact hclose c hc

theorem length_digitsRev {fuel n k : ℕ} (hn : n < 10 ^ (k + 1)) :
    (digitsRev fuel n).length ≤ k + 1 := by
  induction fuel generalizing n k with
  | zero => simp [digitsRev]
  | succ fuel ih =>
    rw [digitsRev, List.length_cons]
    split_ifs with hlast
    · simp
    · cases k with
      | zero => omega
      | succ k =>
        rw [pow_succ] at hn
        have := @ih (n / 10) k (by omega)
        omega

/-- A label fits `prefix`. -/
theorem length_chatLabel {id : ℕ} (hid : id < 2 ^ 32) : (chatLabel id).length ≤ 19 := by
  have hdigits := @length_digitsRev (id + 1) id 9 (by omega)
  rw [chatLabel, decimal, List.length_append, List.length_append, List.length_reverse]
  have hopen : (lit "<client").length = 7 := by decide
  have hclose : (lit "> ").length = 2 := by decide
  omega

theorem printable_hexChar : ∀ n < 16, Printable (hexChar n) := by decide

/-- A rendered byte is printable. -/
theorem printable_chatByte (c : UInt8) : ∀ b ∈ chatByte c, Printable b := by
  have hlt : c.toNat < 256 := c.toNat_lt
  rw [chatByte]
  split_ifs with hlf htab hcr hctrl
  · simp [hlf, Printable, chr]
  · simp [htab, Printable, chr]
  · decide +kernel
  · have hopen : ∀ b ∈ lit "\\x", Printable b := by decide +kernel
    intro b hb
    simp only [List.mem_append, List.mem_cons, List.not_mem_nil, or_false] at hb
    rcases hb with hb | rfl | rfl
    · exact hopen b hb
    · exact printable_hexChar _ (by omega)
    · exact printable_hexChar _ (by omega)
  · obtain ⟨hge, hdel⟩ := not_or.mp hctrl
    simpa using ⟨.inl (UInt8.not_lt.mp hge), hdel⟩

theorem length_chatByte (c : UInt8) : 0 < (chatByte c).length ∧ (chatByte c).length ≤ 4 := by
  have hcr : (lit "\\r").length = 2 := by decide
  have hx : (lit "\\x").length = 2 := by decide
  rw [chatByte]
  split_ifs <;> simp [hcr, hx]

/-! ### The text -/

/-- The text is the chunk with a label in front of every line. -/
theorem chatText_eq (id : ℕ) : chatText id = labelText (chatLabel id) chatByte := by
  funext lineStart x
  induction x generalizing lineStart with
  | nil => rfl
  | cons c x ih => rw [chatText, labelText, ih]

/-- **Chunks do not matter**: only whether a line starts is carried from one to the next. -/
theorem chatText_append (id : ℕ) (lineStart : Bool) (x y : Bytes) :
    chatText id lineStart (x ++ y) =
      chatText id lineStart x ++ chatText id (lineStartAfter lineStart x) y := by
  rw [chatText_eq]
  exact labelText_append _ _ lineStart x y

/-- The text is printable. -/
theorem printable_chatText (id : ℕ) (lineStart : Bool) (x : Bytes) :
    ∀ c ∈ chatText id lineStart x, Printable c := by
  induction x generalizing lineStart with
  | nil => simp [chatText]
  | cons b x ih =>
    intro c hc
    rw [chatText, List.mem_append, List.mem_append] at hc
    rcases hc with (hc | hc) | hc
    · split_ifs at hc
      · exact printable_chatLabel id c hc
      · exact absurd hc List.not_mem_nil
    · exact printable_chatByte b c hc
    · exact ih _ c hc

/-- A byte becomes at most four, with a label in front. -/
theorem length_chatText {id : ℕ} (hid : id < 2 ^ 32) (lineStart : Bool) (x : Bytes) :
    (chatText id lineStart x).length ≤ 23 * x.length := by
  induction x generalizing lineStart with
  | nil => simp [chatText]
  | cons c x ih =>
    have hlabel := length_chatLabel hid
    have hbyte := (length_chatByte c).2
    have hrest := ih (decide (c = chr '\n'))
    rw [chatText, List.length_append, List.length_append, List.length_cons]
    split_ifs
    · omega
    · rw [List.length_nil]
      omega

/-! ### Lines and labels -/

/-- What a text becomes without labels. -/
def escaped (x : Bytes) : Bytes := x.flatMap chatByte

/-- The text of a chunk, and of every byte whether it belongs to a label. -/
def chatMarked (id : ℕ) : Bool → Bytes → List (Bool × UInt8) := labelMarked (chatLabel id) chatByte

theorem chatMarked_text (id : ℕ) (lineStart : Bool) (x : Bytes) :
    (chatMarked id lineStart x).map Prod.snd = chatText id lineStart x := by
  rw [chatMarked, chatText_eq]
  exact labelMarked_text _ _ lineStart x

/-! ### The function -/

/-- How a rendering of `text` after the bytes of `b` can go: the bytes are there, or memory was
refused, or there cannot be enough of it. -/
def Appended (b : ChatBuffer) (text : Bytes) (lineStart : Bool) (h h' : Hist)
    (r : Option ChatBuffer) : Prop :=
  (∃ cap, r = some ⟨b.out ++ text, cap, lineStart⟩ ∧ (0 < b.cap ∨ text ≠ [] → 0 < cap)) ∨
    r = none ∧ (Exhausted h h' ∨ sizeMax < b.out.length + text.length)

/-- The label, where a line starts. -/
theorem runs_chatLabel {id : ℕ} (hid : id < 2 ^ 32) {b : ChatBuffer} {r : Option ChatBuffer}
    (hr : Runs legal (if b.lineStart then
        if 32 ≤ (chatLabel id).length then pure none else appendBytes b (chatLabel id)
      else pure (some b)) h h' (some r)) :
    Appended b (if b.lineStart then chatLabel id else []) b.lineStart h h' r := by
  have hshort : ¬32 ≤ (chatLabel id).length := by
    have := length_chatLabel hid
    omega
  split_ifs at hr ⊢ with hls
  · exact runs_appendBytes hr
  · obtain ⟨-, rfl⟩ := runs_pure.mp hr
    exact .inl ⟨b.cap, by rw [List.append_nil], by simp⟩

theorem runs_formatChatByte {id : ℕ} (hid : id < 2 ^ 32) {c : UInt8} {b : ChatBuffer}
    {r : Option ChatBuffer} (hr : Runs legal (formatChatByte id c b) h h' (some r)) :
    Appended b ((if b.lineStart then chatLabel id else []) ++ chatByte c) (decide (c = chr '\n'))
      h h' r := by
  obtain ⟨labelled, h₁, hlabel, hr⟩ := runs_bind_some'.mp hr
  rcases runs_chatLabel hid hlabel with ⟨cap, rfl, hcap⟩ | ⟨rfl, hfail⟩
  · obtain ⟨appended, h₂, hbyte, hret⟩ := runs_bind_some'.mp hr
    obtain ⟨rfl, rfl⟩ := runs_pure.mp hret
    rcases runs_appendBytes hbyte with ⟨cap', rfl, hcap'⟩ | ⟨rfl, hfail⟩
    · refine .inl ⟨cap', by simp, fun _ => hcap' (.inr ?_)⟩
      exact List.length_pos_iff.mp (length_chatByte c).1
    · refine .inr ⟨rfl, hfail.imp (fun he => he.mono hlabel.suffix (List.suffix_refl _)) fun hmax => ?_⟩
      simp only [List.length_append] at hmax ⊢
      omega
  · obtain ⟨rfl, rfl⟩ := runs_pure.mp hr
    refine .inr ⟨rfl, hfail.imp (fun he => he) fun hmax => ?_⟩
    rw [List.length_append]
    omega

theorem runs_formatChatLoop {id : ℕ} (hid : id < 2 ^ 32) {buf : Bytes} {b : ChatBuffer}
    {r : Option ChatBuffer} (hr : Runs legal (Prog.forEach buf (fun c b => match b with
      | none => pure none
      | some b => formatChatByte id c b) (some b)) h h' (some r)) :
    Appended b (chatText id b.lineStart buf) (lineStartAfter b.lineStart buf) h h' r := by
  induction buf generalizing b h with
  | nil =>
    obtain ⟨-, rfl⟩ := runs_ret.mp hr
    exact .inl ⟨b.cap, by simp [chatText, lineStartAfter], by simp [chatText]⟩
  | cons c buf ih =>
    obtain ⟨r₁, h₁, hbyte, hrest⟩ := runs_bind_some.mp hr
    rw [lineStartAfter_cons, chatText]
    rcases runs_formatChatByte hid hbyte with ⟨cap, rfl, hcap⟩ | ⟨rfl, hfail⟩
    · have hbyteCap : 0 < cap := hcap (.inr fun hnil => by
        have := congrArg List.length hnil
        have hpos := (length_chatByte c).1
        simp only [List.length_append, List.length_nil] at this
        omega)
      rcases ih hrest with ⟨cap', rfl, hcap'⟩ | ⟨rfl, hfail⟩
      · exact .inl ⟨cap', by rw [List.append_assoc], fun _ => hcap' (.inl hbyteCap)⟩
      · refine .inr ⟨rfl, hfail.imp (fun he => he.mono hbyte.suffix (List.suffix_refl _)) fun hmax => ?_⟩
        simp only [List.length_append] at hmax ⊢
        omega
    · -- what has failed stays failed
      have hnone : Within (fun _ => True) (Prog.forEach buf (fun c b => match b with
          | none => pure none
          | some b => formatChatByte id c b) none) fun r => r = none :=
        Within.forEach (fun r => r = none) rfl (by rintro c _ rfl; rfl)
      obtain rfl := hnone.result hrest
      refine .inr ⟨rfl, hfail.imp (fun he => he.mono (List.suffix_refl _) hrest.suffix) fun hmax => ?_⟩
      simp only [List.length_append] at hmax ⊢
      omega

/-- What `format_chat_message` is to return: the text, and whether a line starts after it. There is
nothing to return for an empty chunk. -/
def rendering (sender : BrokerClient) (buf : Bytes) : Option (Bytes × Bool) :=
  if buf = [] then none
  else some (chatText sender.id sender.lineStart buf, lineStartAfter sender.lineStart buf)

/-- **What it returns**, unless memory was refused or there cannot be enough of it. -/
theorem runs_formatChatMessage {sender : BrokerClient} (hid : sender.id < 2 ^ 32) {buf : Bytes}
    {r : Option (Bytes × Bool)} (hr : Runs legal (formatChatMessage sender buf) h h' (some r)) :
    r = rendering sender buf ∨ r = none ∧
      (Exhausted h h' ∨ sizeMax < (chatText sender.id sender.lineStart buf).length) := by
  obtain ⟨b, h₁, hloop, hret⟩ := runs_bind_some'.mp hr
  obtain ⟨rfl, rfl⟩ := runs_pure.mp hret
  rw [rendering]
  split_ifs with hempty
  · subst hempty
    obtain ⟨-, rfl⟩ := runs_ret.mp hloop
    exact .inl rfl
  rcases runs_formatChatLoop hid hloop with ⟨cap, rfl, hcap⟩ | ⟨rfl, hfail⟩
  · have htext : chatText sender.id sender.lineStart buf ≠ [] := by
      obtain ⟨c, buf, rfl⟩ := List.exists_cons_of_ne_nil hempty
      intro hnil
      have := congrArg List.length hnil
      have hpos := (length_chatByte c).1
      simp only [chatText, List.length_append, List.length_nil] at this
      omega
    have hpos := hcap (.inr htext)
    simp [hpos.ne']
  · exact .inr ⟨rfl, by simpa using hfail⟩

/-! ### Chat rendering -/

/-- **Rendering for chat**, of a sender. -/
structure ChatRendering (sender : BrokerClient) : Prop where
  /-- In every run the rendering is returned, unless memory was refused. -/
  returned : ∀ buf h h' r, Runs Legal (formatChatMessage sender buf) h h' (some r) →
    r = rendering sender buf ∨ r = none ∧
      (Exhausted h h' ∨ sizeMax < (chatText sender.id sender.lineStart buf).length)
  /-- Two chunks, rendered one after the other, are rendered as one. -/
  chunks : ∀ x y h₁ h₁' m₁ h₂ h₂' m₂ h h' m,
    Runs Legal (formatChatMessage sender x) h₁ h₁' (some (some m₁)) →
    Runs Legal (formatChatMessage { sender with lineStart := m₁.2 } y) h₂ h₂' (some (some m₂)) →
    Runs Legal (formatChatMessage sender (x ++ y)) h h' (some (some m)) →
    m = (m₁.1 ++ m₂.1, m₂.2)
  /-- So is the text of any two chunks, empty ones too. -/
  text_append : ∀ x y, chatText sender.id sender.lineStart (x ++ y) =
      chatText sender.id sender.lineStart x ++
        chatText sender.id (lineStartAfter sender.lineStart x) y ∧
    lineStartAfter sender.lineStart (x ++ y) = lineStartAfter (lineStartAfter sender.lineStart x) y
  /-- No control character but tabs and line feeds is in the text. -/
  sanitised : ∀ x, ∀ c ∈ chatText sender.id sender.lineStart x, Printable c
  /-- Every line that is started has its label in front, and there are no other labels. -/
  labels : ∀ x, (chatMarked sender.id sender.lineStart x).map Prod.snd =
      chatText sender.id sender.lineStart x ∧
    chatMarked sender.id sender.lineStart x =
      linesLabelled (chatLabel sender.id) chatByte sender.lineStart (startedLines x) ∧
    CutIntoLines x (startedLines x)
  /-- Without the labels there is what was said, escaped. -/
  unlabelled : ∀ x, ((chatMarked sender.id sender.lineStart x).filter fun c => !c.1).map Prod.snd =
    escaped x

theorem rendering_some {sender : BrokerClient} {buf : Bytes} {m : Bytes × Bool} {P : Prop}
    (hr : some m = rendering sender buf ∨ some m = none ∧ P) :
    m = (chatText sender.id sender.lineStart buf, lineStartAfter sender.lineStart buf) := by
  rcases hr with hr | ⟨hr, -⟩
  · rw [rendering] at hr
    split_ifs at hr
    exact Option.some.inj hr
  · cases hr

/-- **Chat rendering** does not depend on the chunks, puts the labels where lines start, and escapes
what is not printable. -/
theorem chatRendering (sender : BrokerClient) (hid : sender.id < 2 ^ 32) : ChatRendering sender where
  returned _ _ _ _ hr := runs_formatChatMessage hid hr
  chunks x y _ _ m₁ _ _ m₂ _ _ m hx hy hxy := by
    have hm₁ := rendering_some (runs_formatChatMessage hid hx)
    have hm₂ := rendering_some
      (@runs_formatChatMessage _ _ _ { sender with lineStart := m₁.2 } hid _ _ hy)
    have hm := rendering_some (runs_formatChatMessage hid hxy)
    rw [hm, hm₂, hm₁, chatText_append, lineStartAfter_append]
  text_append x y := ⟨chatText_append _ _ _ _, lineStartAfter_append _ _ _⟩
  sanitised x := printable_chatText _ _ x
  labels x := ⟨chatMarked_text _ _ _, labelMarked_lines _ _ _ x, startedLines_cut x⟩
  unlabelled x := labelMarked_unlabelled _ _ _ x

/-- A line with a tab and a carriage return, and the beginning of another. -/
example : chatText 7 true (lit "a\tb\r\nc") = lit "<client7> a\tb\\r\n<client7> c" := by decide

/-- The largest number a client can have. -/
theorem chatRendering_last : ChatRendering { id := 2 ^ 32 - 1 } := chatRendering _ (by decide)

end Wirecat
