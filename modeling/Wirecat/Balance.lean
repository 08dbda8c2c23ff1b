import Wirecat.Roster

/-!
# Every descriptor is closed

The ledger of `Wirecat.descriptors` is kept by every mode (`Wirecat.keeps_dispatch`), and
`Wirecat.dispatch_balanced` says what comes of it: in a graceful run nothing is closed that is
not open, and when the program ends nothing is left open.

What makes a run graceful (`Wirecat.Graceful`) is what the code does not take care of. A
`close` that is interrupted is repeated; the writing side of a child over pipes is closed when
its peer ends, and again with the child; and a child that cannot be started leaves the peer it
was for.
-/

namespace Wirecat

open CString Interaction

/-! ### Every mode -/

/-- Whether the mode runs a child for its peers. -/
def Config.runsChild (cfg : Config) : Prop :=
  cfg.execPath.isSome = true ∧ (cfg.mode = .connect ∨ cfg.mode = .listen)

/-- The streams that must not end, for the other side is a child over pipes. -/
def Config.lasting (cfg : Config) : Obj → Prop
  | .net => cfg.runsChild ∧ cfg.pty = false
  | .left => cfg.mode = .relay ∧ (lit "exec:").isPrefixOf (cfg.right.getD []) = true
  | .right => cfg.mode = .relay ∧ (lit "exec:").isPrefixOf (cfg.left.getD []) = true
  | _ => False

/-- **A graceful event**: no `close` is interrupted, the peer of a child over pipes does not
end before the child does, and a child that is asked for is started. -/
def Graceful (cfg : Config) (ev : Ev) : Prop :=
  Steady cfg.lasting ev ∧ (cfg.runsChild → spawnFails ev = false)

/-- **Every mode gives back what it opens.** -/
theorem keeps_dispatch {legal : Hist → (e : Sys) → Resp e → Prop} {cfg : Config} {S : Set Fd}
    (hlegal : ∀ h e r, legal h e r → Legal h e r ∧ Graceful cfg ⟨e, r⟩) :
    descriptors.Keeps legal S (dispatch cfg) fun _ S' => S' = S := by
  have hsteady : ∀ h e r, legal h e r → Legal h e r ∧ Steady cfg.lasting ⟨e, r⟩ := fun h e r hl =>
    ⟨(hlegal h e r hl).1, (hlegal h e r hl).2.1⟩
  have hspawn : cfg.mode = .connect ∨ cfg.mode = .listen → cfg.execPath.isSome = true →
      ∀ h e r, legal h e r → spawnFails ⟨e, r⟩ = false := fun hmode hexec h e r hl =>
    (hlegal h e r hl).2.2 ⟨hexec, hmode⟩
  have hlast : cfg.mode = .connect ∨ cfg.mode = .listen → cfg.execPath.isSome = true →
      cfg.pty = false → cfg.lasting .net := fun hmode hexec hpty => ⟨⟨hexec, hmode⟩, hpty⟩
  rw [dispatch]
  cases hmode : cfg.mode with
  | connect =>
    exact Accounts.Keeps.ite
      (fun _ => keeps_runQuicConnect hsteady (hspawn (.inl hmode)) (hlast (.inl hmode)))
      fun _ => keeps_runConnect hsteady (hspawn (.inl hmode)) (hlast (.inl hmode))
  | listen =>
    refine Accounts.Keeps.ite
      (fun _ => keeps_runQuicListen hsteady (hspawn (.inr hmode)) (hlast (.inr hmode))) fun _ => ?_
    by_cases hmulti : cfg.multi = true
    · rw [runListen, if_pos hmulti]
      exact keeps_runMultiListen hsteady cfg
    · exact keeps_runListen hsteady (hspawn (.inr hmode)) (hlast (.inr hmode)) (by simpa using hmulti)
  | send => exact keeps_wcatSendFile hsteady cfg
  | recv => exact keeps_wcatRecvFile hsteady cfg
  | relay => exact keeps_runRelay hsteady (fun hexec => ⟨hmode, hexec⟩) fun hexec => ⟨hmode, hexec⟩
  | broker => exact keeps_wcatBrokerRun hsteady cfg
  | proxy => exact keeps_wcatProxyServerRun hsteady cfg
  | none => exact Accounts.keeps_pure rfl

/-- **The descriptors balance**, in every mode: as long as all is graceful, what is closed is
open, and when the program ends nothing is left open. -/
theorem dispatch_balanced {cfg : Config} {h : Hist} {o : Option ℕ}
    (hr : Runs Legal (dispatch cfg) [] h o) (hgrace : ∀ ev ∈ h, Graceful cfg ev) :
    (∀ fd r g, ⟨.close fd, r⟩ :: g <:+ h → isOpen g fd = true) ∧
      (o ≠ none → ∀ fd, isOpen h fd = false) := by
  have hgrace' : Throughout (fun _ ev => Graceful cfg ev) [] h := by
    have happend : Throughout (fun _ ev => Graceful cfg ev) [] (h ++ []) :=
      throughout_append.mpr hgrace
    rwa [List.append_nil] at happend
  have hkeeps : descriptors.Keeps (Among Legal fun _ ev => Graceful cfg ev) (descriptors.held [])
      (dispatch cfg) fun _ S' => S' = descriptors.held [] := keeps_dispatch fun _ _ _ hl => hl
  obtain ⟨hclosed, hend⟩ := hkeeps.run (hr.among hgrace')
  refine ⟨fun fd r g hsuf => isOpen_iff.mpr (hclosed _ g hsuf (List.nil_suffix) rfl), ?_⟩
  intro ho fd
  obtain ⟨status, rfl⟩ := Option.ne_none_iff_exists'.mp ho
  have hheld := hend status rfl
  rw [← Bool.not_eq_true, isOpen_iff, hheld]
  exact Set.notMem_empty fd

/-- A child over pipes behind a Unix socket. -/
def childConfig : Config := { mode := .connect, unixSocket := true, execPath := some (lit "c") }

/-- An environment in which the child ends at once. -/
def childEnds (h : Hist) : (e : Sys) → Resp e
  | .stop => false
  | .socket _ => .ok 3
  | .connect _ _ | .close _ => none
  | .pipe => if isOpen h (.pipe 4) then some (6, 7) else some (4, 5)
  | .fork _ => some 9
  | .poll fds _ =>
      .reporting fds (fds.map fun p => { pollin := p.fd = some (.pipe 6) })
  | e => refuse e

/-- The run against it. -/
def childRun : Hist × Option ℕ := exec (lawful childEnds) 100 (dispatch childConfig) []

/-- Nothing is left open in it. -/
theorem dispatch_balanced_childRun :
    (∀ fd r g, ⟨.close fd, r⟩ :: g <:+ childRun.1 → isOpen g fd = true) ∧
      (childRun.2 ≠ none → ∀ fd, isOpen childRun.1 fd = false) := by
  have hr : Runs Legal (dispatch childConfig) [] childRun.1 childRun.2 :=
    exec_runs (legal_lawful childEnds) 100 _ []
  refine dispatch_balanced hr ?_
  have hall : childRun.1.all (fun ev =>
      !interruptedClose ev && !endOf .net ev && !spawnFails ev) = true := by decide +kernel
  intro ev hev
  have hev' := List.all_eq_true.mp hall ev hev
  simp only [Bool.and_eq_true, Bool.not_eq_eq_eq_not, Bool.not_true] at hev'
  refine ⟨⟨hev'.1.1, ?_⟩, fun _ => hev'.2⟩
  intro o ho
  cases o with
  | net => exact hev'.1.2
  | left | right => exact absurd ho.1 (by decide)
  | _ => exact ho.elim

/-- It is a finished run, in which descriptors were opened. -/
example : childRun.2 = some 0 ∧ childRun.1.countP (fun ev => !(opens ev).isEmpty) = 3 := by
  decide +kernel

end Wirecat
