import Wirecat.Custody
import Wirecat.Tables

/-!
# Tables of descriptors

What the broker and the multi-session listener hold is what their table says
(`Wirecat.Roster`): a connection that is let in is put in a free slot, and every function that
closes one frees its slot in the same step. The ledger of the descriptors is therefore kept by
the two programs, by the rule for tables (`Wirecat.rosterRule`). At the end the slots that are
still taken are closed one by one, and nothing is left.
-/

namespace Wirecat

open CString Interaction

/-! ### Slots -/

section Slots

variable {S S' : Set Fd} {max : ℕ} {fds : ℕ → Option Fd}

/-- **What a table of `max` slots holds**: the descriptors in it, each in one slot, and none
of them held by anyone else. -/
structure Roster (S : Set Fd) (max : ℕ) (fds : ℕ → Option Fd) (S' : Set Fd) : Prop where
  holds : S' = S ∪ {fd | ∃ i, fds i = some fd}
  apart : ∀ i fd, fds i = some fd → fd ∉ S
  once : ∀ i j fd, fds i = some fd → fds j = some fd → i = j
  lt_max : ∀ i fd, fds i = some fd → i < max

theorem roster_empty : Roster S max (fun _ => none) S :=
  ⟨by simp, by simp, by simp, by simp⟩

/-- An empty table holds nothing. -/
theorem Roster.empty (hs : Roster S max fds S') (hnone : ∀ i, i < max → fds i = none) :
    S' = S := by
  rw [hs.holds]
  ext x
  refine ⟨?_, Or.inl⟩
  rintro (hx | ⟨i, hi⟩)
  · exact hx
  · rw [hnone i (hs.lt_max i x hi)] at hi
    cases hi

theorem Roster.mem (hs : Roster S max fds S') {i : ℕ} {fd : Fd}
    (hi : fds i = some fd) : fd ∈ S' :=
  hs.holds ▸ Or.inr ⟨i, hi⟩

/-- A new descriptor is put in a free slot. -/
theorem Roster.join (hs : Roster S max fds S') {i : ℕ} {fd : Fd} (hi : i < max)
    (hfree : fds i = none) (hnew : fd ∉ S') :
    Roster S max (Function.update fds i (some fd)) (S' ∪ {fd}) := by
  have hother : ∀ j fd', fds j = some fd' → j ≠ i ∧ fd' ≠ fd := by
    intro j fd' hj
    refine ⟨fun h => ?_, fun h => hnew (h ▸ hs.mem hj)⟩
    rw [h, hfree] at hj
    cases hj
  constructor
  · rw [hs.holds]
    ext x
    simp only [Set.mem_union, Set.mem_ofPred_eq, Set.mem_singleton_iff]
    constructor
    · rintro ((hx | ⟨j, hj⟩) | rfl)
      · exact Or.inl hx
      · exact Or.inr ⟨j, by rw [Function.update_of_ne (hother j x hj).1, hj]⟩
      · exact Or.inr ⟨i, Function.update_self ..⟩
    · rintro (hx | ⟨j, hj⟩)
      · exact Or.inl (Or.inl hx)
      · rcases eq_or_ne j i with rfl | hne
        · rw [Function.update_self, Option.some.injEq] at hj
          exact Or.inr hj.symm
        · rw [Function.update_of_ne hne] at hj
          exact Or.inl (Or.inr ⟨j, hj⟩)
  · intro j x hj hx
    rcases eq_or_ne j i with rfl | hne
    · rw [Function.update_self, Option.some.injEq] at hj
      exact hnew (hs.holds ▸ Or.inl (hj ▸ hx))
    · rw [Function.update_of_ne hne] at hj
      exact hs.apart j x hj hx
  · intro j k x hj hk
    rcases eq_or_ne j i with rfl | hji <;> rcases eq_or_ne k j with rfl | hkj
    · rfl
    · rw [Function.update_self, Option.some.injEq] at hj
      rw [Function.update_of_ne hkj] at hk
      exact absurd hj.symm (hother k x hk).2
    · rfl
    · rw [Function.update_of_ne hji] at hj
      rcases eq_or_ne k i with rfl | hki
      · rw [Function.update_self, Option.some.injEq] at hk
        exact absurd hk.symm (hother j x hj).2
      · rw [Function.update_of_ne hki] at hk
        exact hs.once j k x hj hk
  · intro j x hj
    rcases eq_or_ne j i with rfl | hne
    · exact hi
    · rw [Function.update_of_ne hne] at hj
      exact hs.lt_max j x hj

/-- A slot is freed, and its descriptor closed. -/
theorem Roster.drop (hs : Roster S max fds S') {i : ℕ} {fd : Fd}
    (hi : fds i = some fd) : Roster S max (Function.update fds i none) ( S' \ {fd}) := by
  have hkept : ∀ j x, Function.update fds i none j = some x → j ≠ i ∧ fds j = some x := by
    intro j x hj
    rcases eq_or_ne j i with rfl | hne
    · rw [Function.update_self] at hj
      cases hj
    · rw [Function.update_of_ne hne] at hj
      exact ⟨hne, hj⟩
  refine ⟨?_, fun j x hj => hs.apart j x (hkept j x hj).2,
    fun j k x hj hk => hs.once j k x (hkept j x hj).2 (hkept k x hk).2,
    fun j x hj => hs.lt_max j x (hkept j x hj).2⟩
  rw [hs.holds]
  ext x
  simp only [Set.mem_sdiff, Set.mem_union, Set.mem_ofPred_eq, Set.mem_singleton_iff]
  constructor
  · rintro ⟨hx | ⟨j, hj⟩, hne⟩
    · exact Or.inl hx
    · refine Or.inr ⟨j, ?_⟩
      rw [Function.update_of_ne, hj]
      rintro rfl
      exact hne (Option.some.inj (hj.symm.trans hi))
  · rintro (hx | ⟨j, hj⟩)
    · exact ⟨Or.inl hx, fun h => hs.apart i fd hi (h ▸ hx)⟩
    · obtain ⟨hne, hj⟩ := hkept j x hj
      exact ⟨Or.inr ⟨j, hj⟩, fun h => hne (hs.once j i fd (h ▸ hj) hi)⟩

end Slots

section Ledger

variable {legal : Hist → (e : Sys) → Resp e → Prop} {lasting : Obj → Prop}
variable (hlegal : ∀ h e r, legal h e r → Legal h e r ∧ Steady lasting ⟨e, r⟩)
variable {S S' : Set Fd} {max : ℕ} {fds : ℕ → Option Fd}

theorem inert_of_uninvolved {e : Sys} (he : Uninvolved e = true) (r : Resp e) : descriptors.Inert ∅ ⟨e, r⟩ :=
  inert_of_neutral (by cases e <;> first | rfl | exact he) r

/-- What is held while a connection has come in that is in no slot yet. -/
def Roster.Beside (S : Set Fd) (max : ℕ) (fds : ℕ → Option Fd) (fd : Fd) (S' : Set Fd) : Prop :=
  ∃ T, Roster S max fds T ∧ fd ∉ T ∧ S' = T ∪ {fd}

include hlegal

/-- Closing whatever is in a slot frees it. -/
theorem keeps_closeSlot (hs : Roster S max fds S') (i : ℕ) :
    descriptors.Keeps legal S' (wcatCloseQuiet? (fds i))
      fun _ => Roster S max (Function.update fds i none) := by
  rcases hi : fds i with _ | fd
  · refine Accounts.keeps_pure ?_
    rw [← hi, Function.update_eq_self]
    exact hs
  · refine (keeps_wcatCloseQuiet hlegal (hs.mem hi)).mono ?_
    rintro - _ rfl
    exact hs.drop hi

theorem Roster.Beside.dismiss {fd : Fd} (hs : Roster.Beside S max fds fd S') :
    descriptors.Keeps legal S' (wcatCloseQuiet fd) fun _ => Roster S max fds := by
  obtain ⟨T, hT, hnew, rfl⟩ := hs
  refine (keeps_giveBack hlegal hnew).mono ?_
  rintro - _ rfl
  exact hT

omit hlegal in
theorem Roster.Beside.check {fd : Fd} (cfg : Config) (hs : Roster.Beside S max fds fd S') :
    descriptors.Keeps legal S' (wcatAccessCheckFd cfg fd) fun _ => Roster.Beside S max fds fd := by
  refine (keeps_neutral (within_wcatAccessCheckFd neutral_of_still rfl cfg)).mono ?_
  rintro - _ ⟨rfl, -⟩
  exact hs

/-- **The ledger of the descriptors is kept by a table.** -/
def rosterRule (cfg : Config) (S : Set Fd) (max : ℕ) : TableRule Fd cfg where
  legal := legal
  ledger := descriptors
  max := max
  Seated := Roster S max
  Arrived := Roster.Beside S max
  Admitted := Roster.Beside S max
  uninvolved := inert_of_uninvolved
  read _ _ _ _ _ _ _ := (inert_of_neutral rfl _).mono (Set.empty_subset _)
  write _ _ _ _ _ := (inert_of_neutral rfl _).mono (Set.empty_subset _)
  leave := keeps_closeSlot hlegal
  accept hs listener sizes := by
    refine (keeps_wcatAccept hlegal listener sizes).mono ?_
    rintro (_ | peer) T hpeer
    · exact (hpeer : T = _) ▸ hs
    · exact ⟨_, hs, hpeer⟩
  check hs := (hs.check cfg).mono fun ok _ h => by cases ok <;> exact h
  arrived := id
  dismiss := Roster.Beside.dismiss hlegal
  join := by
    rintro fds _ fd ⟨T, hT, hnew, rfl⟩ i hi hfree
    exact hT.join hi hfree hnew

/-- **The broker closes every client**, and its listener. -/
theorem keeps_wcatBrokerRun (cfg : Config) :
    descriptors.Keeps legal S (wcatBrokerRun cfg) fun _ S' => S' = S := by
  have hopen : descriptors.Keeps legal S (brokerOpen cfg) fun r => Got S r.toOption := by
    refine Accounts.Keeps.ite (fun _ => Keeps.neutral rfl fun _ _ _ => Accounts.keeps_pure rfl)
      fun _ => (keeps_openListener hlegal cfg).bind ?_
    rintro (_ | listener) S₁ hgot
    · exact Keeps.neutral rfl fun _ _ _ => Accounts.keeps_pure hgot
    · exact Keeps.beside (P := fun _ => True) (Within.ite (fun _ => ⟨rfl, fun _ => trivial⟩)
        fun _ => ⟨rfl, fun _ => trivial⟩) fun _ _ => Accounts.keeps_pure hgot
  refine hopen.bind ?_
  rintro (status | listener) S₁ hgot
  · exact Accounts.keeps_pure hgot
  obtain ⟨hnew, rfl⟩ := hgot
  let D := rosterRule hlegal cfg (S ∪ {listener}) cfg.maxClients
  refine Accounts.Keeps.bind (Q := fun (p : ℕ × BrokerState) => D.Seated p.2.slotFds)
    (Accounts.Keeps.loop (fun (s : BrokerState) => D.Seated s.slotFds) roster_empty
      fun s T hT => TableRule.keeps_brokerRound (D := D) rfl listener hT) ?_
  rintro ⟨result, s⟩ T hT
  refine (TableRule.keeps_dropClients hT cfg.maxClients).bind fun s' T' h => ?_
  obtain rfl : T' = S ∪ {listener} := Roster.empty h.1 h.2
  exact (keeps_giveBack hlegal hnew).bind fun _ _ hS => Accounts.keeps_pure hS

theorem keeps_multiOpen (cfg : Config) :
    descriptors.Keeps legal S (multiOpen cfg) fun r => Got S (r.toOption.map Prod.fst) := by
  refine Accounts.Keeps.ite (fun _ => Keeps.neutral rfl fun _ _ _ => Accounts.keeps_pure rfl)
    fun _ => (keeps_openListener hlegal cfg).bind ?_
  rintro (_ | listener) S₁ hgot
  · exact Keeps.neutral rfl fun _ _ _ => Accounts.keeps_pure hgot
  have hraw : Within (Neutral · = true) multiRawInput fun _ => True :=
    Within.step rfl fun _ => Within.ite (fun _ => Within.step rfl fun _ =>
      Within.ite (fun _ => within_sys rfl) fun _ => trivial) fun _ => trivial
  refine Keeps.beside hraw fun interactive _ => Keeps.neutral rfl fun _ _ _ =>
    Keeps.beside (P := fun _ => True) (Within.ite (fun _ => drawn_multiRedrawInput (fun _ => rfl)
      (fun _ => rfl) _) fun _ => within_sys rfl) fun _ _ => Accounts.keeps_pure hgot

/-- **The multi-session listener closes every session**, and its listener. -/
theorem keeps_runMultiListen (cfg : Config) :
    descriptors.Keeps legal S (runMultiListen cfg) fun _ S' => S' = S := by
  refine (keeps_multiOpen hlegal cfg).bind ?_
  rintro (status | ⟨listener, interactive⟩) S₁ hgot
  · exact Accounts.keeps_pure hgot
  obtain ⟨hnew, rfl⟩ := hgot
  let D := rosterRule hlegal cfg (S ∪ {listener}) cfg.brokerMaxClients.toNat
  refine Accounts.Keeps.bind (Q := fun (s : MultiState) => D.Seated s.slotFds)
    (Accounts.Keeps.loop (fun (s : MultiState) => D.Seated s.slotFds) roster_empty
      fun s T hT => TableRule.keeps_multiRound (D := D) rfl listener hT) fun s T hT => ?_
  refine (TableRule.keeps_multiSessionCloses hT cfg.brokerMaxClients.toNat).bind fun s' T' h => ?_
  obtain rfl : T' = S ∪ {listener} := Roster.empty h.1 h.2
  refine Keeps.beside (P := fun _ => True) (Within.ite (fun _ => within_sys rfl)
    fun _ => trivial) fun _ _ => ?_
  exact (keeps_giveBack hlegal hnew).bind fun _ _ hS => Accounts.keeps_pure hS

end Ledger

end Wirecat
