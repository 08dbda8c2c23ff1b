import Wirecat.CArray
import Wirecat.Sessions

/-!
# The echo buffer

`multi_echo_pending_append` keeps what was sent to the attached session and may come back as an
echo, in an array of 8192 bytes. What does not fit pushes out the oldest bytes, and of a text that is
longer than the array only the end is kept: the array holds the newest bytes of all there were
(`Wirecat.echoPending_newest`).

`Wirecat.Memory.multiEchoPendingAppend` is the function on the array, with its accesses and the
differences of its sizes checked. The rest of the development has only what the array holds, as
`Wirecat.multiEchoPendingAppend`; the two agree (`Wirecat.multiEchoPendingAppend_held`).
-/

namespace Wirecat

open CString CArray

namespace Memory

/-- `pending` and `pending_len`. -/
structure EchoPending where
  pending : Arr UInt8 multiEchoPending
  pendingLen : ℕ

/-- What is pending. -/
def EchoPending.bytes (p : EchoPending) : Bytes := p.pending.held p.pendingLen

/-- Making room for a text of `len` bytes. -/
def makeRoom (p : EchoPending) (len : ℕ) : Option EchoPending := do
  if (← sub multiEchoPending p.pendingLen) < len then
    let drop ← sub len (← sub multiEchoPending p.pendingLen)
    if p.pendingLen ≤ drop then some { p with pendingLen := 0 }
    else
      let pending ← p.pending.move 0 drop (← sub p.pendingLen drop)
      some ⟨pending, ← sub p.pendingLen drop⟩
  else some p

/-- The end of the text, as much of it as the array holds. -/
def newest (buf : Bytes) : Option Bytes := do
  if multiEchoPending < buf.length then
    some (buf.drop (← sub buf.length multiEchoPending))
  else some buf

/-- `multi_echo_pending_append`. -/
def multiEchoPendingAppend (p : EchoPending) (buf : Bytes) : Option EchoPending := do
  let p ← makeRoom p buf.length
  let buf ← newest buf
  let pending ← p.pending.copy p.pendingLen buf
  some ⟨pending, p.pendingLen + buf.length⟩

end Memory

variable {p : Memory.EchoPending}

/-- **The newest bytes** are what is kept. -/
theorem multiEchoPendingAppend_eq {pending : Bytes} (hp : pending.length ≤ multiEchoPending)
    (buf : Bytes) :
    multiEchoPendingAppend pending buf = (pending ++ buf).rtake multiEchoPending := by
  rw [multiEchoPendingAppend, List.rtake, List.length_append, List.drop_append]
  generalize multiEchoPending = cap at hp
  have hold : ∀ k, pending.length ≤ k → pending.drop k = [] := fun k => List.drop_eq_nil_of_le
  dsimp only
  split_ifs with hroom hdrop hlong hlong hlong
  · rw [hold _ (by omega)]
    congr 2
    omega
  · rw [hold _ (by omega), show pending.length + buf.length - cap - pending.length = 0 by omega]
    rfl
  · omega
  · congr 2
    · omega
    · rw [show pending.length + buf.length - cap - pending.length = 0 by omega]
      rfl
  · omega
  · rw [show pending.length + buf.length - cap = 0 by omega]
    simp

/-- Room is made within the array. -/
theorem makeRoom_eq (hp : p.pendingLen ≤ multiEchoPending) (len : ℕ) :
    ∃ q, Memory.makeRoom p len = some q ∧ q.pendingLen ≤ p.pendingLen ∧
      q.bytes = if multiEchoPending - p.pendingLen < len then
          if p.pendingLen ≤ len - (multiEchoPending - p.pendingLen) then []
          else p.bytes.drop (len - (multiEchoPending - p.pendingLen))
        else p.bytes := by
  simp only [Memory.makeRoom, sub_of_le hp, Option.bind_eq_bind, Option.bind_some]
  generalize multiEchoPending - p.pendingLen = room
  split_ifs with hlt hdrop
  · rw [sub_of_le hlt.le, Option.bind_some, if_pos hdrop]
    exact ⟨_, rfl, Nat.zero_le _, rfl⟩
  · -- what is left of the old bytes moves to the front
    push Not at hdrop
    obtain ⟨pending, hmove, hheld⟩ :=
      Arr.held_removed (a := p.pending) (Nat.zero_le (len - room)) hdrop.le hp
    rw [sub_of_le hlt.le, Option.bind_some, if_neg hdrop.not_ge, sub_of_le hdrop.le,
      Option.bind_some, hmove]
    exact ⟨_, rfl, Nat.sub_le _ _, hheld⟩
  · exact ⟨p, rfl, le_rfl, rfl⟩

/-- **The function on the array** makes no access outside of it, and does to what the array holds what
it should. -/
theorem multiEchoPendingAppend_held (hp : p.pendingLen ≤ multiEchoPending) (buf : Bytes) :
    ∃ q, Memory.multiEchoPendingAppend p buf = some q ∧ q.pendingLen ≤ multiEchoPending ∧
      q.bytes = multiEchoPendingAppend p.bytes buf := by
  have hlen : p.bytes.length = p.pendingLen := Arr.length_held hp
  obtain ⟨q, hmake, hle, hq⟩ := makeRoom_eq hp buf.length
  have hqlen : q.bytes.length = q.pendingLen := Arr.length_held (hle.trans hp)
  have hnewest : Memory.newest buf = some
      (if multiEchoPending < buf.length then buf.drop (buf.length - multiEchoPending) else buf) := by
    rw [Memory.newest]
    split_ifs with hlong
    · rw [sub_of_le hlong.le]
      rfl
    · rfl
  generalize hadded : (if multiEchoPending < buf.length then
    buf.drop (buf.length - multiEchoPending) else buf) = added at hnewest
  have hresult : q.bytes ++ added = multiEchoPendingAppend p.bytes buf := by
    rw [multiEchoPendingAppend, hlen, ← hadded, hq]
  have hfits : q.pendingLen + added.length ≤ multiEchoPending := by
    have htotal := congrArg List.length
      (hresult.trans (multiEchoPendingAppend_eq (hlen.le.trans hp) buf))
    rw [List.length_append, hqlen, List.rtake, List.length_drop] at htotal
    omega
  refine ⟨⟨q.pending.splice q.pendingLen added hfits, q.pendingLen + added.length⟩, ?_, hfits, ?_⟩
  · simp only [Memory.multiEchoPendingAppend, hmake, hnewest, Option.bind_eq_bind,
      Option.bind_some, Arr.copy_of_le hfits]
  · rw [← hresult]
    exact Arr.held_splice hfits

theorem rtake_min_length {α : Type} (l : List α) (n : ℕ) : l.rtake (min n l.length) = l.rtake n := by
  rw [List.rtake, List.rtake]
  congr 1
  omega

theorem length_rtake {α : Type} (l : List α) (n : ℕ) : (l.rtake n).length = min n l.length := by
  rw [List.rtake, List.length_drop]
  omega

/-- **The echo buffer keeps the newest bytes**, whatever it held and however long the text is, and
nothing is stored outside of it. -/
theorem echoPending_newest (hp : p.pendingLen ≤ multiEchoPending) (buf : Bytes) :
    ∃ q, Memory.multiEchoPendingAppend p buf = some q ∧
      q.pendingLen = min multiEchoPending (p.pendingLen + buf.length) ∧
      q.bytes = (p.bytes ++ buf).rtake (min multiEchoPending (p.pendingLen + buf.length)) := by
  obtain ⟨q, happend, hle, hq⟩ := multiEchoPendingAppend_held hp buf
  have hlen : p.bytes.length = p.pendingLen := Arr.length_held hp
  have hqlen : q.bytes.length = q.pendingLen := Arr.length_held hle
  have htotal : (p.bytes ++ buf).length = p.pendingLen + buf.length := by
    rw [List.length_append, hlen]
  rw [multiEchoPendingAppend_eq (hlen.le.trans hp)] at hq
  refine ⟨q, happend, ?_, ?_⟩
  · rw [← hqlen, hq, length_rtake, htotal]
  · rw [hq, ← htotal, rtake_min_length]

/-- A text for a full buffer: the two oldest bytes make room. -/
theorem echoPending_newest_full : ∃ q,
    Memory.multiEchoPendingAppend ⟨Arr.filled multiEchoPending (chr 'x'), multiEchoPending⟩ (lit "ls") =
        some q ∧
      q.pendingLen = multiEchoPending ∧ q.bytes = List.replicate 8190 (chr 'x') ++ lit "ls" := by
  obtain ⟨q, happend, hlen, hq⟩ := echoPending_newest
    (p := ⟨Arr.filled multiEchoPending (chr 'x'), multiEchoPending⟩) le_rfl (lit "ls")
  refine ⟨q, happend, hlen.trans (min_eq_left (Nat.le_add_right _ _)), hq.trans ?_⟩
  have hheld : (⟨Arr.filled multiEchoPending (chr 'x'), multiEchoPending⟩ : Memory.EchoPending).bytes =
      List.replicate 8192 (chr 'x') := List.take_of_length_le (by simp [Arr.filled])
  rw [hheld, min_eq_left (Nat.le_add_right _ _), List.rtake, List.length_append, List.length_replicate,
    show 8192 + (lit "ls").length - multiEchoPending = 2 from rfl,
    List.drop_append_of_le_length (by rw [List.length_replicate]; decide), List.drop_replicate]

end Wirecat
