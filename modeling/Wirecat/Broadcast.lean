import Mathlib.Data.List.Infix
import Mathlib.Logic.Function.Basic

/-!
# Broadcasting

What a broadcast is, seen from the participants. Members join a room and leave it;
what one of them says is for all the others that are there. This file says nothing of
queues: a run is the list of the deeds of the members, newest first.

* `Broadcast.heardBy` is what a member is *entitled* to: everything the others said
  since it joined, in the order in which they said it, in the rendering of the room.
  The rendering of a chunk may depend on everything that came before it.
* `Broadcast.sentTo` is what a member *got*.
* `Broadcast.Faithful`: at no moment has a member that is present got anything but a
  beginning of what it is entitled to.

A member is an element of a type, and elements are used again: who leaves may come
back, as somebody else. Everything here is therefore counted from the last time the
member joined, and a person is told from a later one of the same name by the number
of its admission (`Broadcast.serial`).
-/

namespace Broadcast

/-- What can happen in a room. -/
inductive Deed (K B : Type)
  /-- The member `k` is at the door. -/
  | met (k : K)
  /-- The member `k` is admitted. -/
  | joined (k : K)
  /-- The member `k` says something. -/
  | said (k : K) (chunk : List B)
  /-- What was said last could not be rendered, and is not for anybody. -/
  | unsaid
  /-- Something is delivered to the member `k`. -/
  | sent (k : K) (bytes : List B)
  /-- The member `k` leaves, or is turned away. -/
  | left (k : K)
  deriving DecidableEq

variable {K B C D : Type} [DecidableEq K]

/-! ### Who is there -/

/-- Whether `k` came to the door and has not left since. -/
def known (k : K) : List (Deed K B) → Bool
  | [] => false
  | .met k' :: l => k' = k || known k l
  | .left k' :: l => k' ≠ k && known k l
  | _ :: l => known k l

/-- Whether `k` was admitted and has not left since. -/
def present (k : K) : List (Deed K B) → Bool
  | [] => false
  | .joined k' :: l => k' = k || present k l
  | .left k' :: l => k' ≠ k && present k l
  | _ :: l => present k l

/-- How many have been admitted. -/
def joins : List (Deed K B) → ℕ
  | [] => 0
  | .joined _ :: l => joins l + 1
  | _ :: l => joins l

/-- The number of the last admission of `k`, from 1. -/
def serial (k : K) : List (Deed K B) → ℕ
  | [] => 0
  | .joined k' :: l => if k' = k then joins l + 1 else serial k l
  | _ :: l => serial k l

/-! ### What is said and what is delivered -/

/-- What `k` has said since it joined. -/
def saidBy (k : K) : List (Deed K B) → List B
  | [] => []
  | .joined k' :: l => if k' = k then [] else saidBy k l
  | .said k' chunk :: l => if k' = k then saidBy k l ++ chunk else saidBy k l
  | _ :: l => saidBy k l

/-- What has been delivered to `k` since it joined. -/
def sentTo (k : K) : List (Deed K B) → List B
  | [] => []
  | .joined k' :: l => if k' = k then [] else sentTo k l
  | .sent k' bytes :: l => if k' = k then sentTo k l ++ bytes else sentTo k l
  | _ :: l => sentTo k l

/-- **What `k` is entitled to**: what the others have said since it joined, as `render`
makes it out of the past, the speaker and the chunk. With `lost`, what was said last is
left out: it could not be rendered. -/
def heardBy (render : List (Deed K B) → K → List B → List C) (k : K) :
    Bool → List (Deed K B) → List C
  | _, [] => []
  | lost, .joined k' :: l => if k' = k then [] else heardBy render k lost l
  | lost, .said k' chunk :: l =>
      heardBy render k false l ++ if k' = k ∨ lost then [] else render l k' chunk
  | _, .unsaid :: l => heardBy render k true l
  | lost, .met _ :: l | lost, .sent _ _ :: l | lost, .left _ :: l => heardBy render k lost l

/-- **A faithful room**: nobody has got anything but a beginning of what it is entitled
to. -/
def Faithful (render : List (Deed K B) → K → List B → List B) (l : List (Deed K B)) : Prop :=
  ∀ k, present k l = true → sentTo k l <+: heardBy render k false l

/-- Rendering byte by byte may be done afterwards. -/
theorem heardBy_map (render : List (Deed K B) → K → List B → List C) (f : C → D) (k : K)
    (lost : Bool) (l : List (Deed K B)) :
    heardBy (fun l k chunk => (render l k chunk).map f) k lost l =
      (heardBy render k lost l).map f := by
  induction l generalizing lost with
  | nil => rfl
  | cons d l ih =>
    cases d with
    | joined k' =>
      simp only [heardBy, ih]
      split_ifs <;> rfl
    | said k' chunk =>
      simp only [heardBy, ih, List.map_append]
      split_ifs <;> rfl
    | _ => simp only [heardBy, ih]

/-! ### Others do not matter -/

variable {k k' : K} {l : List (Deed K B)}

/-- What the deeds of another member leave as it was for `k`: everything but what is
said to it. -/
structure Same (k : K) (l l' : List (Deed K B)) : Prop where
  known : known k l' = known k l
  present : present k l' = present k l
  serial : serial k l' = serial k l
  saidBy : saidBy k l' = saidBy k l
  sentTo : sentTo k l' = sentTo k l

theorem Same.trans {l' l'' : List (Deed K B)} (h : Same k l l') (h' : Same k l' l'') : Same k l l'' where
  known := h'.known.trans h.known
  present := h'.present.trans h.present
  serial := h'.serial.trans h.serial
  saidBy := h'.saidBy.trans h.saidBy
  sentTo := h'.sentTo.trans h.sentTo

theorem same_met (hne : k' ≠ k) : Same k l (.met k' :: l) := by
  constructor <;> simp [known, present, serial, saidBy, sentTo, hne]

theorem same_joined (hne : k' ≠ k) : Same k l (.joined k' :: l) := by
  constructor <;> simp [known, present, serial, saidBy, sentTo, hne]

theorem same_said (hne : k' ≠ k) {chunk : List B} : Same k l (.said k' chunk :: l) := by
  constructor <;> simp [known, present, serial, saidBy, sentTo, hne]

theorem same_unsaid : Same k l (.unsaid :: l) := by
  constructor <;> simp [known, present, serial, saidBy, sentTo]

theorem same_sent (hne : k' ≠ k) {bytes : List B} : Same k l (.sent k' bytes :: l) := by
  constructor <;> simp [known, present, serial, saidBy, sentTo, hne]

theorem same_left (hne : k' ≠ k) : Same k l (.left k' :: l) := by
  constructor <;> simp [known, present, serial, saidBy, sentTo, hne]

end Broadcast
