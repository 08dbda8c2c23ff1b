import Mathlib.GroupTheory.Perm.List
import Wirecat.Selection

/-!
# Going round the sessions

`:next` and `:prev` go from the active session to the one in the next slot that is in use, or
in the one before, and round again. The table has holes, so what the two functions do is
stated for the list of the sessions without them, `Wirecat.liveIds`: the one is the cyclic
permutation of that list (`Wirecat.multiNextSessionId_eq`), the other is that of the list
backwards (`Wirecat.multiPrevSessionId_eq`), which is its inverse. That each undoes the
other, and that going round in either direction meets every session once, is then a fact about
permutations (`Wirecat.sessionCycling`).

Only the numbers are compared. Two live sessions with one number would be one session to the
operator, and the code would not find the second; the numbers of live sessions have to
differ, and nothing else is asked of the table.
-/

namespace Wirecat

open CString Interaction

/-! ### Round a list -/

section
variable {α : Type}

theorem headD_headD (as bs : List α) (a : α) : as.headD (bs.headD a) = (as ++ bs).headD a := by
  cases as <;> rfl

theorem headD_append_cons (as bs : List α) (a : α) : (as ++ a :: bs).headD a = as.headD a := by
  cases as <;> rfl

variable [DecidableEq α] {l as bs : List α} {a : α}

/-- What comes after an entry of a list, going round. -/
theorem formPerm_apply_split (hl : (as ++ a :: bs).Nodup) :
    (as ++ a :: bs).formPerm a = (bs ++ as).headD a := by
  have hrot : as ++ a :: bs ~r a :: (bs ++ as) :=
    ⟨as.length, by rw [List.rotate_append_length_eq, List.cons_append]⟩
  rw [List.formPerm_eq_of_isRotated hl hrot]
  have hnodup : (a :: (bs ++ as)).Nodup := hrot.nodup_iff.mp hl
  cases hrest : bs ++ as with
  | nil => rw [List.formPerm_singleton, Equiv.Perm.one_apply, List.headD_nil]
  | cons b rest =>
    rw [hrest] at hnodup
    rw [List.formPerm_apply_head _ _ _ hnodup, List.headD_cons]

/-- **Going round a list** from an entry of it meets every entry once. -/
theorem perm_formPerm_pow (hl : l.Nodup) (ha : a ∈ l) :
    List.Perm ((List.range l.length).map fun n => (l.formPerm ^ n) a) l := by
  obtain ⟨i, hi, rfl⟩ := List.mem_iff_getElem.mp ha
  have hround : (List.range l.length).map (fun n => (l.formPerm ^ n) l[i]) = l.rotate i := by
    refine List.ext_getElem (by simp) fun n hn hn' => ?_
    rw [List.getElem_map, List.getElem_range, List.formPerm_pow_apply_getElem l hl,
      List.getElem_rotate]
    simp only [Nat.add_comm]
  rw [hround]
  exact List.rotate_perm l i

theorem formPerm_pow_length (hl : l.Nodup) : (l.formPerm ^ l.length) a = a := by
  rw [List.formPerm_pow_length_eq_one_of_nodup l hl, Equiv.Perm.one_apply]

end

/-! ### The live sessions -/

/-- The slots that are in use. -/
def liveSlots (s : MultiState) (max : ℕ) : List ℕ :=
  (List.range max).filter fun i => (s.sessions i).live

/-- The numbers of the live sessions, in the order of their slots. -/
def liveIds (s : MultiState) (max : ℕ) : List ℕ :=
  (liveSlots s max).map fun i => (s.sessions i).id

/-- The live sessions have pairwise distinct numbers. -/
def DistinctIds (s : MultiState) (max : ℕ) : Prop :=
  ∀ i < max, ∀ j < max, (s.sessions i).live = true → (s.sessions j).live = true →
    (s.sessions i).id = (s.sessions j).id → i = j

variable {s : MultiState} {max id k : ℕ}

theorem mem_liveSlots {i : ℕ} : i ∈ liveSlots s max ↔ i < max ∧ (s.sessions i).live = true := by
  rw [liveSlots, List.mem_filter, List.mem_range]

theorem mem_liveIds : id ∈ liveIds s max ↔ HasSession max s id := by
  simp only [liveIds, List.mem_map, mem_liveSlots, HasSession, and_assoc]

theorem nodup_liveIds (hs : DistinctIds s max) : (liveIds s max).Nodup := by
  refine List.Nodup.map_on (fun i hi j hj hij => ?_) ((List.nodup_range).filter _)
  obtain ⟨hi, hlive⟩ := mem_liveSlots.mp hi
  obtain ⟨hj, hlive'⟩ := mem_liveSlots.mp hj
  exact hs i hi j hj hlive hlive' hij

/-- The search for a slot in use, with what is done when there is none. -/
theorem search_eq (s : MultiState) (slots : List ℕ) (other : ℕ) :
    (slots.find? fun i => (s.sessions i).live).elim other (fun i => (s.sessions i).id) =
      ((slots.filter fun i => (s.sessions i).live).map fun i => (s.sessions i).id).headD other := by
  rw [← List.head?_filter]
  cases slots.filter fun i => (s.sessions i).live <;> rfl

theorem firstLiveId_eq (s : MultiState) (slots : List ℕ) : firstLiveId s slots =
    ((slots.filter fun i => (s.sessions i).live).map fun i => (s.sessions i).id).headD 0 := by
  rw [← search_eq, firstLiveId]
  cases slots.find? fun i => (s.sessions i).live <;> rfl

/-- A search that goes on from the first slot ends at a session at the latest. -/
theorem firstLiveId_of_mem {slots : List ℕ} (other : ℕ) (hk : k ∈ slots)
    (hlive : (s.sessions k).live = true) : firstLiveId s slots =
      ((slots.filter fun i => (s.sessions i).live).map fun i => (s.sessions i).id).headD other := by
  have hmem : (s.sessions k).id ∈ (slots.filter fun i => (s.sessions i).live).map
      fun i => (s.sessions i).id :=
    List.mem_map.mpr ⟨k, List.mem_filter.mpr ⟨hk, hlive⟩, rfl⟩
  rw [firstLiveId_eq]
  cases hids : (slots.filter fun i => (s.sessions i).live).map fun i => (s.sessions i).id with
  | nil => exact absurd (hids ▸ hmem) List.not_mem_nil
  | cons => rfl

/-- **The table around a slot**: the live sessions before it, itself, and those after it. -/
theorem liveIds_split (hk : k < max) (hlive : (s.sessions k).live = true) :
    liveIds s max = liveIds s k ++ (s.sessions k).id ::
      (((List.range max).drop (k + 1)).filter fun i => (s.sessions i).live).map
        fun i => (s.sessions i).id := by
  have hrange : List.range max = List.range k ++ k :: (List.range max).drop (k + 1) := by
    have hsplit := List.take_append_drop k (List.range max)
    rw [List.take_range, Nat.min_eq_left hk.le,
      List.drop_eq_getElem_cons (by rwa [List.length_range]), List.getElem_range] at hsplit
    exact hsplit.symm
  generalize (List.range max).drop (k + 1) = after at hrange ⊢
  rw [liveIds, liveSlots, hrange, List.filter_append, List.map_append,
    List.filter_cons_of_pos (by simpa using hlive)]
  rfl

/-- **The next session** is the next in the list of the live ones, going round. -/
theorem multiNextSessionId_eq (hs : DistinctIds s max) (hid : HasSession max s id) :
    multiNextSessionId s max id = (liveIds s max).formPerm id := by
  obtain ⟨k, hfind⟩ := Option.isSome_iff_exists.mp (multiFindById_isSome.mpr hid)
  obtain ⟨hk, hlive, rfl⟩ := multiFindById_eq_some hfind
  have hnodup := nodup_liveIds hs
  have hfirst := firstLiveId_of_mem (s.sessions k).id (List.mem_range.mpr hk) hlive
  rw [← liveSlots, ← liveIds] at hfirst
  have hnext : multiNextSessionId s max (s.sessions k).id =
      (((List.range max).drop (k + 1)).find? fun i => (s.sessions i).live).elim
        (firstLiveId s (List.range max)) fun i => (s.sessions i).id := by
    rw [multiNextSessionId, hfind, multiFirstSessionId]
    dsimp only
    cases ((List.range max).drop (k + 1)).find? fun i => (s.sessions i).live <;> rfl
  rw [hnext, search_eq, hfirst]
  rw [liveIds_split hk hlive] at hnodup ⊢
  rw [formPerm_apply_split hnodup, headD_append_cons, headD_headD]

/-- **The session before** is the next in the list read backwards. -/
theorem multiPrevSessionId_eq (hs : DistinctIds s max) (hid : HasSession max s id) :
    multiPrevSessionId s max id = (liveIds s max).reverse.formPerm id := by
  obtain ⟨k, hfind⟩ := Option.isSome_iff_exists.mp (multiFindById_isSome.mpr hid)
  obtain ⟨hk, hlive, rfl⟩ := multiFindById_eq_some hfind
  have hnodup := nodup_liveIds hs
  have hlast := firstLiveId_of_mem (s.sessions k).id
    (List.mem_reverse.mpr (List.mem_range.mpr hk)) hlive
  rw [List.filter_reverse, List.map_reverse, ← liveSlots, ← liveIds] at hlast
  have hprev : multiPrevSessionId s max (s.sessions k).id =
      ((List.range k).reverse.find? fun i => (s.sessions i).live).elim
        (firstLiveId s (List.range max).reverse) fun i => (s.sessions i).id := by
    rw [multiPrevSessionId, hfind]
    dsimp only
    cases (List.range k).reverse.find? fun i => (s.sessions i).live <;> rfl
  rw [hprev, search_eq, hlast, List.filter_reverse, List.map_reverse, ← liveSlots, ← liveIds]
  rw [liveIds_split hk hlive] at hnodup ⊢
  generalize (((List.range max).drop (k + 1)).filter fun i => (s.sessions i).live).map
    (fun i => (s.sessions i).id) = after at hnodup ⊢
  have hback : (liveIds s k ++ (s.sessions k).id :: after).reverse =
      after.reverse ++ (s.sessions k).id :: (liveIds s k).reverse := by
    simp
  have hnodup' := hback ▸ List.nodup_reverse.mpr hnodup
  rw [hback, formPerm_apply_split hnodup', headD_append_cons, headD_headD]

/-! ### Going round -/

/-- Going round with `f` from the active session: every live session is met once, and the way
ends where it began. -/
structure GoesRound (s : MultiState) (max : ℕ) (f : ℕ → ℕ) : Prop where
  meets : List.Perm ((List.range (liveIds s max).length).map fun n => f^[n] s.activeId)
    (liveIds s max)
  closes : f^[(liveIds s max).length] s.activeId = s.activeId

/-- A function that is a cyclic permutation of the live sessions goes round. -/
theorem goesRound_of_formPerm {l : List ℕ} {f : ℕ → ℕ} (hl : l.Nodup)
    (hids : List.Perm l (liveIds s max)) (hactive : s.activeId ∈ l)
    (hf : ∀ id ∈ l, f id = l.formPerm id) : GoesRound s max f := by
  have hiter : ∀ n, f^[n] s.activeId = (l.formPerm ^ n) s.activeId ∧
      (l.formPerm ^ n) s.activeId ∈ l := by
    intro n
    induction n with
    | zero => exact ⟨rfl, hactive⟩
    | succ n ih =>
      rw [Function.iterate_succ_apply', ih.1, hf _ ih.2, pow_succ', Equiv.Perm.mul_apply]
      exact ⟨rfl, List.formPerm_apply_mem_of_mem ih.2⟩
  refine ⟨?_, ?_⟩
  · rw [← hids.length_eq]
    simp only [hiter]
    exact (perm_formPerm_pow hl hactive).trans hids
  · rw [← hids.length_eq, (hiter _).1, formPerm_pow_length hl]

/-- **Cycling through the sessions**, for every table whose live sessions have distinct
numbers. -/
theorem sessionCycling (s : MultiState) (max : ℕ) (hs : DistinctIds s max) :
    (HasSession max s s.activeId →
      multiPrevSessionId s max (multiNextSessionId s max s.activeId) = s.activeId ∧
      multiNextSessionId s max (multiPrevSessionId s max s.activeId) = s.activeId ∧
      GoesRound s max (multiNextSessionId s max) ∧ GoesRound s max (multiPrevSessionId s max)) ∧
    ((∀ i < max, (s.sessions i).live = false) → ∀ id,
      multiNextSessionId s max id = 0 ∧ multiPrevSessionId s max id = 0) := by
  have hnodup := nodup_liveIds hs
  constructor
  · intro hactive
    have hnext : ∀ id ∈ liveIds s max, multiNextSessionId s max id = (liveIds s max).formPerm id :=
      fun id hid => multiNextSessionId_eq hs (mem_liveIds.mp hid)
    have hprev : ∀ id ∈ (liveIds s max).reverse,
        multiPrevSessionId s max id = (liveIds s max).reverse.formPerm id :=
      fun id hid => multiPrevSessionId_eq hs (mem_liveIds.mp (List.mem_reverse.mp hid))
    have hmem := mem_liveIds.mpr hactive
    have hmem' := List.mem_reverse.mpr hmem
    refine ⟨?_, ?_, ?_, ?_⟩
    · rw [hnext _ hmem, hprev _ (List.mem_reverse.mpr (List.formPerm_apply_mem_of_mem hmem)),
        List.formPerm_reverse, ← Equiv.Perm.mul_apply, inv_mul_cancel, Equiv.Perm.one_apply]
    · rw [hprev _ hmem', hnext _ (List.mem_reverse.mp (List.formPerm_apply_mem_of_mem hmem')),
        List.formPerm_reverse, ← Equiv.Perm.mul_apply, mul_inv_cancel, Equiv.Perm.one_apply]
    · exact goesRound_of_formPerm hnodup (.refl _) hmem hnext
    · exact goesRound_of_formPerm (List.nodup_reverse.mpr hnodup) (List.reverse_perm _) hmem' hprev
  · intro hnone id
    have hempty : ∀ n ≤ max, liveIds s n = [] := by
      refine fun n hn => List.map_eq_nil_iff.mpr (List.filter_eq_nil_iff.mpr fun i hi => ?_)
      rw [hnone i ((List.mem_range.mp hi).trans_le hn)]
      decide
    have hfind : multiFindById s max id = none := by
      rw [← Option.not_isSome_iff_eq_none, multiFindById_isSome, ← mem_liveIds, hempty max le_rfl]
      exact List.not_mem_nil
    rw [multiNextSessionId, multiPrevSessionId, hfind, multiFirstSessionId, firstLiveId_eq,
      ← liveSlots, ← liveIds, hempty max le_rfl]
    exact ⟨rfl, rfl⟩

/-- A table with a hole: the sessions 7, 2 and 5 are in the slots 0, 2 and 3, and session 2 is
active. -/
def sparseTable : MultiState :=
  { sessions := fun i => match i with
      | 0 => { fd := some (.conn .tcp 4), id := 7 }
      | 2 => { fd := some (.conn .tcp 5), id := 2 }
      | 3 => { fd := some (.conn .tcp 6), id := 5 }
      | _ => multiSessionInit
    activeId := 2 }

/-- From session 2 on, the order is 2, 5, 7. -/
theorem sessionCycling_sparse :
    ((List.range 3).map fun n => (multiNextSessionId sparseTable 4)^[n] 2) = [2, 5, 7] ∧
      GoesRound sparseTable 4 (multiNextSessionId sparseTable 4) ∧
      GoesRound sparseTable 4 (multiPrevSessionId sparseTable 4) := by
  have hdistinct : DistinctIds sparseTable 4 := by
    unfold DistinctIds
    decide
  have hactive : HasSession 4 sparseTable sparseTable.activeId := ⟨2, by decide, rfl, rfl⟩
  exact ⟨by decide, ((sessionCycling sparseTable 4 hdistinct).1 hactive).2.2⟩

end Wirecat
