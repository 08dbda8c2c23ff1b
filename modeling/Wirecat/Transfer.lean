import Wirecat.Interaction.Parties
import Wirecat.Traffic

/-!
# A file from one machine to another

`wcat send` on the one side and `wcat recv` on the other: two copies, one after the other, with a
connection in between. At every moment of every interleaving of the two, what was written to the
received file is a beginning of what was read from the sent one; so however the transfer ends, the
received file holds nothing that is not in the other, in its place.

That nothing is missing is more. Each of the two may report success for a copy that is not complete
(`Wirecat.transfer_complete_iff`), and then the other cannot know. When both report success, no
read of either failed and neither was asked to stop, the end of the connection was the end of what
was sent, and the files are equal (`Wirecat.joint_transfer`).

Over TLS this is a statement about what is inside it: the streams are those of the copies, and the
connection is between them (`Wirecat.Delivers`).
-/

namespace Wirecat

open CString Interaction Conduit

/-- **The copy is faithful so far**: the destination has accepted a beginning of what was read. -/
def Faithful (h : Hist) : Prop := bytesWritten .dst h <+: bytesRead .src h

section
variable {legal : Hist → (e : Sys) → Resp e → Prop} {g h ext : Hist} {α : Type} {Q : α → Prop}

theorem Unseen.faithful (hu : Unseen h) : Faithful h := by
  rw [Faithful, (hu .dst).2]
  exact List.nil_prefix

theorem Faithful.later (hf : Faithful h) (hu : Unseen ext) : Faithful (ext ++ h) := by
  rw [Faithful, (hu.same .dst).2, (hu.same .src).1]
  exact hf

/-- A part of a transfer that is not its copy. -/
theorem Faithful.meanwhile (hf : Faithful h) {p : Proc α} (hp : Within Unobserved p Q) :
    Always legal Faithful p (fun _ _ => True) h := by
  refine (always_unseen hp).mono ?_ fun _ _ _ _ => trivial
  rintro _ ⟨ext, rfl, hu⟩
  exact hf.later hu

/-- A part of a transfer before its copy. -/
theorem Unseen.meanwhile (hu : Unseen h) {p : Proc α} (hp : Within Unobserved p Q) :
    Always legal Faithful p (fun a g => Unseen g ∧ Q a) h := by
  refine (always_unseen hp).mono ?_ ?_
  · rintro _ ⟨ext, rfl, hext⟩
    exact hu.faithful.later hext
  · rintro a _ - ⟨⟨ext, rfl, hext⟩, ha⟩
    exact ⟨hext.append hu, ha⟩

/-- **A copy is faithful** at every moment, and so is what follows it. -/
theorem Unseen.copy (hu : Unseen h) {src dst : Stream} (hsrc : src.obj = .src)
    (hdst : dst.obj = .dst) (hw : dst.Writable) (opts : RelayOptions) {f : Bool → Proc ℕ}
    (hf : ∀ ok, Within Unobserved (f ok) fun _ => True) :
    Always legal Faithful (wcatCopyStream src dst opts >>= f) (fun _ _ => True) h := by
  have hne : src.obj ≠ dst.obj := by
    rw [hsrc, hdst]
    decide
  have hcopy := @always_wcatCopyStream (After legal h) src dst hw opts
  have hfaithful : ∀ ext, Follows (copyWiring src dst) (copySt src) ext → Faithful (ext ++ h) := by
    intro ext hfollows
    obtain ⟨s, hv⟩ := Option.isSome_iff_exists.mp hfollows
    have hrun := run_of_view hv
    have hput := put_append_owed (show (copySt src).carry = none from rfl) hrun dst.obj
    have hroute := routedTo_eq_gotFrom (w := copyWiring src dst) (relayWiring_peer_iff hne .ab)
      (trace ext)
    have hall : bytesWritten dst.obj ext <+: bytesRead src.obj ext := ⟨_, hput.trans hroute⟩
    rw [hsrc, hdst] at hall
    rw [Faithful, bytesRead_append, bytesWritten_append, (hu _).1, (hu _).2]
    exact hall
  refine always_bind'.mpr (hcopy.shift.mono ?_ ?_)
  · rintro _ ⟨ext, rfl, hfollows⟩
    exact hfaithful ext hfollows
  · rintro ok _ ⟨ext, rfl, hfollows⟩ -
    exact (hfaithful ext hfollows).meanwhile (hf ok)

/-- What is left to do when a transfer cannot go on. -/
theorem within_giveUp (fd : Fd) (rc : ℕ) :
    Within Unobserved (do wcatCloseQuiet fd; pure rc) fun _ => True :=
  (within_close_unobserved fd).next fun _ => trivial

/-- **Sending is faithful.** -/
theorem faithful_wcatSendFile (cfg : Config) :
    Always legal Faithful (wcatSendFile cfg) (fun _ _ => True) [] := by
  have hq := unobserved_of_quiet
  have hopen : ∀ path write, Unobserved (.openFile path write) := fun _ _ =>
    unobserved_of_beside trivial
  have hstart : Unseen [] := fun _ => ⟨rfl, rfl⟩
  refine always_bind'.mpr ((hstart.meanwhile (within_sys (hopen _ _))).mono
    (fun _ => id) fun r g _ hu => ?_)
  rcases r with err | n
  · exact hu.1.faithful.meanwhile (Q := fun _ => True) (Within.step (hq _ rfl) fun _ => trivial)
  simp only
  split
  · exact hu.1.faithful.meanwhile (Q := fun _ => True)
      (Within.step (hq _ rfl) fun _ => within_giveUp _ _)
  rename_i proxy _
  have hsocket : Within Unobserved (sendSocket cfg proxy) fun _ => True :=
    ((within_sendSocket beside_of_quiet trivial (fun _ _ => trivial) (fun _ => trivial)
      (fun _ _ _ _ => trivial) fun _ _ => trivial).mono (fun _ => unobserved_of_beside)
      fun _ => id).footprint
  refine always_bind'.mpr ((hu.1.meanwhile hsocket).mono (fun _ => id) fun r g _ hu => ?_)
  rcases r with _ | sock
  · exact hu.1.faithful.meanwhile (Q := fun _ => True)
      (Within.step (hq _ rfl) fun _ => within_giveUp _ _)
  refine always_bind'.mpr ((hu.1.meanwhile (within_networkStream_unobserved _ _ _ _)).mono
    (fun _ => id) fun r g _ hu => ?_)
  rcases r with _ | dst
  · exact hu.1.faithful.meanwhile (within_giveUp _ _)
  obtain ⟨hu, hnet⟩ := hu
  exact hu.copy rfl hnet.obj_eq hnet.writable _ fun ok =>
    (within_closeNetwork_unobserved hnet).next fun _ => within_giveUp _ _

/-- Receiving, from the open source on. -/
theorem Unseen.recvStream (hu : Unseen h) {cfg : Config} {src : Stream} (hsrc : src.obj = .src)
    (hclose : Within Unobserved (if (!cfg.udp) = true then closeNetwork src else pure ())
      fun _ => True) (listener file : Fd) :
    Always legal Faithful (recvStream cfg src listener file) (fun _ _ => True) h := by
  refine hu.copy hsrc rfl (fun _ _ hio => by simp [wcatStreamFromFd] at hio) _ fun ok => ?_
  exact hclose.next fun _ => (within_close_unobserved _).next fun _ => within_giveUp _ _

/-- **Receiving is faithful.** -/
theorem faithful_wcatRecvFile (cfg : Config) :
    Always legal Faithful (wcatRecvFile cfg) (fun _ _ => True) [] := by
  have hq := unobserved_of_quiet
  have hc : ∀ fd, Unobserved (.close fd) := fun _ => unobserved_of_beside trivial
  have hopen : ∀ path write, Unobserved (.openFile path write) := fun _ _ =>
    unobserved_of_beside trivial
  have hstart : Unseen [] := fun _ => ⟨rfl, rfl⟩
  refine always_bind'.mpr ((hstart.meanwhile (within_sys (hopen _ _))).mono
    (fun _ => id) fun r g _ hu => ?_)
  rcases r with err | n
  · exact hu.1.faithful.meanwhile (Q := fun _ => True) (Within.step (hq _ rfl) fun _ => trivial)
  have hlisten : Within Unobserved (if cfg.udp = true then
      wcatUdpBind cfg.hostArg cfg.portArg cfg.family
      else wcatTcpListen cfg.hostArg cfg.portArg cfg.family 16) fun _ => True :=
    Within.ite (fun _ => (within_wcatUdpBind hq unobserved_socket (fun _ => hc _) _ _ _).footprint)
      fun _ => (within_inetListen hq unobserved_socket (fun _ => hc _) _ _ _ _).footprint
  refine always_bind'.mpr ((hu.1.meanwhile hlisten).mono (fun _ => id) fun r g _ hu => ?_)
  rcases r with _ | listener
  · exact hu.1.faithful.meanwhile (Q := fun _ => True)
      (Within.step (hq _ rfl) fun _ => within_giveUp _ _)
  refine Always.ite (fun hudp => ?_) fun _ => ?_
  · exact hu.1.recvStream rfl (Within.ite (fun h => by simp [hudp] at h) fun _ => trivial) _ _
  have haccept : Within Unobserved (acceptWhenReady listener (some (128, 32))) fun _ => True :=
    (within_acceptWhenReady (still_of_quiet hq) (fun _ _ => ⟨rfl, rfl⟩)
      (unobserved_of_beside trivial) _).footprint
  refine always_bind'.mpr ((hu.1.meanwhile haccept).mono (fun _ => id) fun r g _ hu => ?_)
  rcases r with _ | peer
  · exact hu.1.faithful.meanwhile ((within_close_unobserved _).next fun _ => within_giveUp _ _)
  have hcheck : Within Unobserved (wcatAccessCheckFd cfg peer.fd) fun _ => True :=
    within_wcatAccessCheckFd (still_of_quiet hq) (unobserved_of_beside trivial) cfg
  refine always_bind'.mpr ((hu.1.meanwhile hcheck).mono (fun _ => id) fun r g _ hu => ?_)
  refine Always.ite (fun _ => ?_) fun _ => ?_
  · exact hu.1.faithful.meanwhile ((within_close_unobserved _).next fun _ =>
      (within_close_unobserved _).next fun _ => within_giveUp _ _)
  refine always_bind'.mpr ((hu.1.meanwhile (within_sys (hq _ rfl))).mono (fun _ => id)
    fun _ g _ hu => ?_)
  refine always_bind'.mpr ((hu.1.meanwhile (within_networkStream_unobserved _ _ _ _)).mono
    (fun _ => id) fun r g _ hu => ?_)
  rcases r with _ | src
  · exact hu.1.faithful.meanwhile ((within_close_unobserved _).next fun _ => within_giveUp _ _)
  obtain ⟨hu, hnet⟩ := hu
  exact hu.recvStream hnet.obj_eq (Within.ite (fun _ => within_closeNetwork_unobserved hnet)
    fun _ => trivial) _ _

end

/-! ### Both together -/

/-- **The connection of a transfer**, between the streams of the two copies: what is received was
sent, in that order. -/
def Delivers (s r : Hist) : Prop := bytesRead .src r <+: bytesWritten .dst s

instance (s r : Hist) : Decidable (Delivers s r) := inferInstanceAs (Decidable (_ <+: _))

/-- **A transfer is faithful from one machine to the other**: in every interleaving of the two, at
every moment, what was written to the received file is a beginning of what was read from the sent
one. Where both report success, no read failed and neither was asked to stop, and the end of the
connection is the end of what was sent, the sent file was read to its end and nothing of it is
missing. -/
theorem joint_transfer {scfg rcfg : Config} {w : Interleaving Sys Resp Sys Resp} {o o' : Option ℕ}
    (hj : Joint Legal Legal Delivers (wcatSendFile scfg) [] (wcatRecvFile rcfg) [] w o o') :
    (∀ w', w' <:+ w → bytesWritten .dst (secondOf w') <+: bytesRead .src (firstOf w')) ∧
      (o = some 0 → o' = some 0 →
        (CleanEnd .src (secondOf w) → bytesRead .src (secondOf w) = bytesWritten .dst (firstOf w)) →
        ¬FailedRead .src (firstOf w) → ¬StopSeen (firstOf w) →
        ¬FailedRead .src (secondOf w) → ¬StopSeen (secondOf w) →
          CleanEnd .src (firstOf w) ∧ bytesWritten .dst (secondOf w) = bytesRead .src (firstOf w)) := by
  have hnil : ∀ h : Hist, h ++ [] = h := List.append_nil
  refine ⟨fun w' hw => ?_, ?_⟩
  · have hj' := hj.before hw
    have hfirst := hnil _ ▸ hj'.first
    have hsecond := hnil _ ▸ hj'.second
    have hreceived : Faithful (secondOf w') := (faithful_wcatRecvFile rcfg).safe hsecond
    have hsent : Faithful (firstOf w') := (faithful_wcatSendFile scfg).safe hfirst
    exact hreceived.trans ((hj'.linked w' (List.suffix_refl _)).trans hsent)
  · rintro rfl rfl hend hfail hstop hfail' hstop'
    obtain ⟨-, hsent, -⟩ := transfer_complete_iff [] (firstOf w)
    obtain ⟨-, -, hreceived⟩ := transfer_complete_iff [] (secondOf w)
    obtain ⟨hclean, hwritten⟩ := (hsent scfg hj.first).mpr ⟨hfail, hstop⟩
    obtain ⟨hclean', hwritten'⟩ := (hreceived rcfg hj.second).mpr ⟨hfail', hstop'⟩
    exact ⟨hclean, hwritten'.trans ((hend hclean').trans hwritten)⟩

/-! ### A transfer -/

/-- The command line of the sender of one. -/
def senderConfig : Config :=
  { mode := .send, host := some (lit "h"), port := some (lit "2"), file := some (lit "f") }

/-- The command line of the receiver. -/
def receiverConfig : Config := { mode := .recv, port := some (lit "2"), file := some (lit "g") }

/-- What surrounds the sender: the file holds "hi". -/
def sender (h : Hist) : (e : Sys) → Resp e
  | .stop => false
  | .openFile _ _ => .ok 3
  | .getaddrinfo _ _ _ _ _ => some 1
  | .socket _ => .ok 4
  | .connect _ _ | .close _ => none
  | .write _ _ buf => .all buf
  | .read _ _ _ _ len => readOnce .src (lit "hi") h len
  | .poll fds _ => .reporting fds (fds.map fun _ => { pollin := true, pollout := true })
  | e => refuse e

/-- What surrounds the receiver: somebody comes, and "hi" is what they send. -/
def receiver (h : Hist) : (e : Sys) → Resp e
  | .stop => false
  | .openFile _ _ => .ok 3
  | .getaddrinfo _ _ _ _ _ => some 1
  | .socket _ => .ok 4
  | .bind _ _ | .listen _ _ | .close _ => none
  | .setNonblock _ _ => true
  | .accept _ => .ok 5
  | .write _ _ buf => .all buf
  | .read _ _ _ _ len => readOnce .src (lit "hi") h len
  | .poll fds _ => .reporting fds (fds.map fun _ => { pollin := true, pollout := true })
  | e => refuse e

/-- The run of the sender. -/
def senderRun : Hist × Option ℕ := exec (lawful sender) 100 (wcatSendFile senderConfig) []

/-- The run of the receiver. -/
def receiverRun : Hist × Option ℕ := exec (lawful receiver) 100 (wcatRecvFile receiverConfig) []

/-- The two, by turns: the receiver waits, the file is sent, received, and closed on either side. -/
def handedOver (s r : Hist) : Interleaving Sys Resp Sys Resp :=
  (r.take 5).map .inr ++ ((s.take 4).map .inl ++ (((r.drop 5).take 6).map .inr ++
    ((s.drop 4).map .inl ++ ((r.drop 5).drop 6).map .inr)))

theorem of_handedOver (s r : Hist) :
    firstOf (handedOver s r) = s ∧ secondOf (handedOver s r) = r := by
  simp only [handedOver, firstOf_append, secondOf_append, firstOf_map_inl, firstOf_map_inr,
    secondOf_map_inl, secondOf_map_inr, List.nil_append, List.append_nil, List.take_append_drop,
    and_self]

theorem joint_handedOver :
    Joint Legal Legal Delivers (wcatSendFile senderConfig) [] (wcatRecvFile receiverConfig) []
      (handedOver senderRun.1 receiverRun.1) (some 0) (some 0) := by
  obtain ⟨hfirst, hsecond⟩ := of_handedOver senderRun.1 receiverRun.1
  have hs := exec_runs (legal_lawful sender) 100 (wcatSendFile senderConfig) []
  have hr := exec_runs (legal_lawful receiver) 100 (wcatRecvFile receiverConfig) []
  have hrs : senderRun.2 = some 0 := by decide +kernel
  have hrr : receiverRun.2 = some 0 := by decide +kernel
  refine ⟨?_, ?_, ?_⟩
  · rw [hfirst, List.append_nil]
    exact hrs ▸ hs
  · rw [hsecond, List.append_nil]
    exact hrr ▸ hr
  · have hall : ∀ w ∈ (handedOver senderRun.1 receiverRun.1).tails,
        Delivers (firstOf w) (secondOf w) := by decide +kernel
    exact fun w hw => hall w ((List.mem_tails _ _).mpr hw)

/-- The received file is the sent one. -/
theorem joint_transfer_handedOver :
    bytesWritten .dst receiverRun.1 = bytesRead .src senderRun.1 := by
  obtain ⟨hfirst, hsecond⟩ := of_handedOver senderRun.1 receiverRun.1
  have hend : bytesRead .src receiverRun.1 = bytesWritten .dst senderRun.1 := by decide +kernel
  have hboth := (joint_transfer joint_handedOver).2 rfl rfl
  rw [hfirst, hsecond] at hboth
  exact (hboth (fun _ => hend) (by decide +kernel) (by decide +kernel) (by decide +kernel)
    (by decide +kernel)).2

/-- And it is not empty. -/
example : bytesWritten .dst receiverRun.1 = lit "hi" := by decide +kernel

end Wirecat
