import Wirecat.BitPrefix
import Wirecat.Config

/-!
# Allow and deny lists

`src/access.c`. A list is a comma-separated sequence of addresses and of networks
in prefix notation. `Wirecat.parseNet` reads one entry, `Wirecat.matchNet` compares
an address with it, and `Wirecat.wcatAccessCheckFd` asks the kernel who the peer is
and decides.

An entry is read into a `Wirecat.AccessNet`, which cannot be built with a prefix
longer than its address: this is what keeps the comparison inside the two arrays.
`Wirecat.matchNet_iff` says what the comparison decides – that the address agrees
with the network on its leading bits – and `Wirecat.listMatches_iff` what a whole
list decides.

## The traps

* A trailing comma ends the list and opens no entry: `10.0.0.1,` has one entry.
* The comparison is made between addresses of one family. A peer that reached an
  IPv6 listener over IPv4 is reported in the mapped form, as a sixteen-byte
  address, and no entry in IPv4 notation is compared with it.
-/

namespace Wirecat

open CString Interaction BitPrefix

/-! ### Networks -/

/-- The family of an entry of a list, and of an address compared with it. -/
inductive IpFamily
  | inet | inet6
  deriving DecidableEq, Repr

/-- How many bytes an address of the family has. -/
def IpFamily.size : IpFamily → ℕ
  | .inet => 4
  | .inet6 => 16

/-- `access_net`: an address and how many of its leading bits count. -/
structure AccessNet where
  family : IpFamily
  addr : Bytes
  bits : ℕ
  addr_length : addr.length = family.size
  bits_le : bits ≤ 8 * family.size
  deriving DecidableEq

/-- `INET6_ADDRSTRLEN`. -/
def inet6Addrstrlen : ℕ := 46

/-- The prefix length of an entry: all of the address when there is no slash,
otherwise a number from 0 to `max`. -/
def parseBits (max : ℕ) : Option Bytes → Option ℕ
  | none => some max
  | some text =>
      let c := strtol text
      if ¬c.converted ∨ ¬c.rest.isEmpty ∨ c.value < 0 ∨ max < c.value then none
      else some c.value.toNat

theorem parseBits_le {max bits : ℕ} {text : Option Bytes} (h : parseBits max text = some bits) :
    bits ≤ max := by
  cases text with
  | none =>
    obtain rfl := Option.some.inj h
    exact le_rfl
  | some text =>
    simp only [parseBits] at h
    split_ifs at h with hc
    obtain rfl := Option.some.inj h
    push Not at hc
    omega

/-- An entry of the given family: its address, then its prefix length. -/
def parseNetAs (family : IpFamily) (addr : Bytes) (haddr : addr.length = family.size)
    (suffix : Option Bytes) : Option AccessNet :=
  match hb : parseBits (8 * family.size) suffix with
  | none => none
  | some bits => some ⟨family, addr, bits, haddr, parseBits_le hb⟩

/-- The address of an entry and, when there is a slash, what follows it. -/
def splitPrefix (spec : Bytes) : Bytes × Option Bytes :=
  match splitFirst (chr '/') spec with
  | some (ip, bits) => (ip, some bits)
  | none => (spec, none)

/-- `parse_net`. -/
def parseNet (spec : Bytes) : Option AccessNet :=
  if spec.isEmpty then none
  else
    let (ip, suffix) := splitPrefix spec
    if ip.length = 0 ∨ inet6Addrstrlen ≤ ip.length then none
    else
      match h4 : inetPton4 ip with
      | some addr => parseNetAs .inet addr (length_inetPton4 h4) suffix
      | none =>
          match h6 : inetPton6 ip with
          | some addr => parseNetAs .inet6 addr (length_inetPton6 h6) suffix
          | none => none

/-- `match_net`: the whole bytes of the prefix with `memcmp`, the last under a
mask. -/
def matchNet (addr : Bytes) (net : AccessNet) : Bool :=
  let full := net.bits / 8
  let rem := net.bits % 8
  if 0 < full ∧ addr.take full ≠ net.addr.take full then false
  else if rem ≠ 0 ∧
      addr.getD full 0 &&& leadMask rem ≠ net.addr.getD full 0 &&& leadMask rem then false
  else true

/-- **What the comparison decides**: agreement on the leading bits. -/
theorem matchNet_iff {addr : Bytes} {net : AccessNet} (h : addr.length = net.family.size) :
    matchNet addr net = true ↔ Agree net.bits addr net.addr := by
  have hbits := net.bits_le
  have hnet := net.addr_length
  rw [agree_iff (by omega) (by omega), matchNet]
  -- with no whole byte to compare, the two empty prefixes are equal
  have htake : ¬(0 < net.bits / 8 ∧ addr.take (net.bits / 8) ≠ net.addr.take (net.bits / 8)) ↔
      addr.take (net.bits / 8) = net.addr.take (net.bits / 8) := by
    rcases Nat.eq_zero_or_pos (net.bits / 8) with hzero | hpos
    · simp [hzero]
    · simp [hpos]
  split_ifs with h1 h2
  · simp only [false_iff, not_and]
    exact fun heq => absurd (htake.mpr heq) (not_not.mpr h1)
  · simp only [false_iff, not_and]
    exact fun _ hmask => h2.2 (hmask h2.1)
  · push Not at h2
    exact iff_of_true rfl ⟨htake.mp h1, h2⟩

/-! ### Lists -/

/-- The pieces of a list between its commas, in the order the loops visit them.
The loops stop at the end of the text, so nothing follows a trailing comma. -/
def listEntries : Bytes → List Bytes
  | [] => []
  | c :: t =>
      if c = chr ',' then [] :: listEntries t
      else match listEntries t with
        | [] => [[c]]
        | e :: es => (c :: e) :: es

/-- A space or a tab. -/
def isBlank (c : UInt8) : Bool := c = chr ' ' || c = chr '\t'

/-- An entry without the spaces and tabs around it. -/
def trimBlank (s : Bytes) : Bytes := ((s.dropWhile isBlank).reverse.dropWhile isBlank).reverse

/-- The size of the array an entry is copied to. -/
def tokenSize : ℕ := inet6Addrstrlen + 8

/-- The entry of a list that a piece of its text stands for. An empty one and one
that does not fit the array are passed over. -/
def entryNet (piece : Bytes) : Option AccessNet :=
  let token := trimBlank piece
  if 0 < token.length ∧ token.length < tokenSize then parseNet token else none

/-- `list_matches`. -/
def listMatches (list : Bytes) (family : IpFamily) (addr : Bytes) : Bool :=
  (listEntries list).any fun piece => match entryNet piece with
    | some net => net.family = family && matchNet addr net
    | none => false

/-- `wcat_access_validate_list`. -/
def wcatAccessValidateList : Option Bytes → Bool
  | none => true
  | some list => (listEntries list).all fun piece => (entryNet piece).isSome

/-- The networks a list denotes. -/
def networks (list : Bytes) : List AccessNet := (listEntries list).filterMap entryNet

/-- **What a list decides**: the address is in one of its networks of that family. -/
theorem listMatches_iff {list : Bytes} {family : IpFamily} {addr : Bytes}
    (h : addr.length = family.size) :
    listMatches list family addr = true ↔
      ∃ net ∈ networks list, net.family = family ∧ Agree net.bits addr net.addr := by
  simp only [listMatches, List.any_eq_true, networks, List.mem_filterMap]
  constructor
  · rintro ⟨piece, hmem, hp⟩
    cases hn : entryNet piece with
    | none => simp [hn] at hp
    | some net =>
      simp only [hn, Bool.and_eq_true, decide_eq_true_eq] at hp
      exact ⟨net, ⟨piece, hmem, hn⟩, hp.1, (matchNet_iff (by rw [h, hp.1])).mp hp.2⟩
  · rintro ⟨net, ⟨piece, hmem, hn⟩, hfam, hagree⟩
    refine ⟨piece, hmem, ?_⟩
    simp only [hn, hfam, decide_true, Bool.true_and]
    exact (matchNet_iff (by rw [h, hfam])).mpr hagree

/-! ### The decision -/

/-- `fd_peer_addr`: the family and the address of the peer. -/
def fdPeerAddr (fd : Fd) : Proc (Option (IpFamily × Bytes)) := do
  match ← sys (.getpeername fd) with
  | some (.inet a) => pure (some (.inet, a.1))
  | some (.inet6 a) => pure (some (.inet6, a.1))
  | some .other | none => pure none

/-- `wcat_access_check_fd`. -/
def wcatAccessCheckFd (cfg : Config) (fd : Fd) : Proc Bool := do
  if cfg.allowList = none ∧ cfg.denyList = none then pure true
  else
    match ← fdPeerAddr fd with
    | none => do
        sys (.logErrno "access" (lit "failed to read peer address"))
        pure false
    | some (family, addr) => do
        if cfg.denyList.any fun list => listMatches list family addr then do
          sys (.log .warn "access_denied" "denied peer %s" [.addr addr])
          pure false
        else if cfg.allowList.any fun list => !listMatches list family addr then do
          sys (.log .warn "access_denied" "peer %s not in allow list" [.addr addr])
          pure false
        else pure true

/-! ### What the decision depends on -/

/-- Legal answers, when the kernel reports the peer of `fd` as `peer`. -/
def Reporting (fd : Fd) (peer : SockAddr) (h : Hist) (e : Sys) (r : Resp e) : Prop :=
  Legal h e r ∧ match (⟨e, r⟩ : Ev) with
    | ⟨.getpeername fd', r⟩ => fd' = fd → r = some peer
    | _ => True

/-- The address `fd_peer_addr` copies out of a peer's socket address. -/
def SockAddr.peerAddr : SockAddr → Option (IpFamily × Bytes)
  | .inet a => some (.inet, a.1)
  | .inet6 a => some (.inet6, a.1)
  | .other => none

/-- The decision on an address: in no network of the deny list, and not outside an
allow list. -/
def permits (cfg : Config) (family : IpFamily) (addr : Bytes) : Bool :=
  !(cfg.denyList.any fun list => listMatches list family addr) &&
    !(cfg.allowList.any fun list => !listMatches list family addr)

variable {cfg : Config} {fd : Fd} {peer : SockAddr} {family : IpFamily} {addr : Bytes} {h h' : Hist}

theorem runs_fdPeerAddr {o : Option (IpFamily × Bytes)} :
    Runs (Reporting fd peer) (fdPeerAddr fd) h h' (some o) ↔
      h' = ⟨.getpeername fd, some peer⟩ :: h ∧ o = peer.peerAddr := by
  simp only [fdPeerAddr, runs_bind_some', runs_request]
  constructor
  · rintro ⟨r, h₁, ⟨⟨-, hrep⟩, rfl⟩, hr⟩
    obtain rfl : r = some peer := hrep rfl
    cases peer <;> exact runs_pure.mp hr
  · rintro ⟨rfl, rfl⟩
    refine ⟨some peer, _, ⟨⟨⟨by simp [opens], by simp [opens], trivial⟩, fun _ => rfl⟩, rfl⟩, ?_⟩
    cases peer <;> exact runs_pure.mpr ⟨rfl, rfl⟩

theorem runs_log {level : LogLevel} {event fmt : String} {args : List LogArg} {r : Unit} :
    Runs (Reporting fd peer) (sys (.log level event fmt args)) h h' (some r) ↔
      h' = ⟨.log level event fmt args, r⟩ :: h := by
  rw [sys, runs_request, and_iff_right_iff_imp]
  exact fun _ => ⟨⟨by simp [opens], by simp [opens], trivial⟩, trivial⟩

/-- **The check decides by the reported address**, and by nothing else. -/
theorem runs_wcatAccessCheckFd (hpeer : peer.peerAddr = some (family, addr)) (b : Bool) :
    (∃ h', Runs (Reporting fd peer) (wcatAccessCheckFd cfg fd) h h' (some b)) ↔
      b = permits cfg family addr := by
  rw [wcatAccessCheckFd, permits]
  split_ifs with hnone
  · rw [hnone.1, hnone.2]
    simp [runs_pure]
  · simp only [runs_bind_some', runs_fdPeerAddr, hpeer]
    constructor
    · rintro ⟨h', o, h₁, ⟨-, rfl⟩, hr⟩
      simp only at hr
      split_ifs at hr with hdeny hallow
      · obtain ⟨-, h₂, -, hb⟩ := runs_bind_some'.mp hr
        simp [(runs_pure.mp hb).2, hdeny]
      · obtain ⟨-, h₂, -, hb⟩ := runs_bind_some'.mp hr
        simp [(runs_pure.mp hb).2, hallow]
      · simp [(runs_pure.mp hr).2, hdeny, hallow]
    · rintro rfl
      refine exists_comm.mp ⟨some (family, addr),
        exists_comm.mp ⟨⟨.getpeername fd, some peer⟩ :: h, ?_⟩⟩
      rw [exists_and_left]
      refine ⟨⟨rfl, rfl⟩, ?_⟩
      simp only
      split_ifs with hdeny hallow
      · exact ⟨_, runs_bind_some'.mpr ⟨(), _, runs_log.mpr rfl, runs_pure.mpr ⟨rfl, by simp [hdeny]⟩⟩⟩
      · exact ⟨_, runs_bind_some'.mpr ⟨(), _, runs_log.mpr rfl, runs_pure.mpr ⟨rfl, by simp [hallow]⟩⟩⟩
      · exact ⟨_, runs_pure.mpr ⟨rfl, by simp [hdeny, hallow]⟩⟩

/-! ### Peers in the mapped form -/

/-- `::ffff:a.b.c.d`, the form in which an IPv6 listener reports an IPv4 peer. -/
def mapped (a : IPv4) : IPv6 :=
  ⟨List.replicate 10 0 ++ [0xff, 0xff] ++ a.1, by simp [a.2]⟩

/-- Every entry of a list is an IPv4 address, with or without a prefix length. -/
def Ipv4Notation (list : Bytes) : Prop :=
  ∀ piece ∈ listEntries list, (inetPton4 (splitPrefix (trimBlank piece)).1).isSome

instance (list : Bytes) : Decidable (Ipv4Notation list) :=
  inferInstanceAs (Decidable (∀ piece ∈ _, _))

/-- Lists the command line accepts, all of whose entries are in IPv4 notation. -/
structure Ipv4Rules (cfg : Config) : Prop where
  allow_valid : wcatAccessValidateList cfg.allowList = true
  deny_valid : wcatAccessValidateList cfg.denyList = true
  allow_ipv4 : ∀ list ∈ cfg.allowList, Ipv4Notation list
  deny_ipv4 : ∀ list ∈ cfg.denyList, Ipv4Notation list

/-- **The decision is the same** for the peer `a` whichever way it is reported. -/
def SameDecision (cfg : Config) (fd : Fd) (a : IPv4) : Prop :=
  ∀ h₁ h₂ b₁ b₂,
    (∃ h', Runs (Reporting fd (.inet a)) (wcatAccessCheckFd cfg fd) h₁ h' (some b₁)) →
    (∃ h', Runs (Reporting fd (.inet6 (mapped a))) (wcatAccessCheckFd cfg fd) h₂ h' (some b₂)) →
    b₁ = b₂

/-- The address is in one of the networks of a list. -/
def Listed (list : Option Bytes) (a : IPv4) : Prop :=
  ∃ text ∈ list, ∃ net ∈ networks text, Agree net.bits a.1 net.addr

theorem family_parseNetAs {family : IpFamily} {addr : Bytes} {haddr : addr.length = family.size}
    {suffix : Option Bytes} {net : AccessNet}
    (hp : parseNetAs family addr haddr suffix = some net) : net.family = family := by
  rw [parseNetAs] at hp
  split at hp
  · exact absurd hp (by simp)
  · rw [← Option.some.inj hp]

/-- An entry whose address is a dotted quad is an IPv4 network. -/
theorem parseNet_ipv4 {spec : Bytes} {net : AccessNet} (hp : parseNet spec = some net)
    (h4 : (inetPton4 (splitPrefix spec).1).isSome) : net.family = .inet := by
  simp only [parseNet] at hp
  split_ifs at hp
  split at hp
  · exact family_parseNetAs hp
  · rename_i hnone
    rw [hnone] at h4
    exact absurd h4 (by simp)

/-- A list in IPv4 notation denotes IPv4 networks only. -/
theorem family_of_mem_networks {list : Bytes} (hl : Ipv4Notation list) {net : AccessNet}
    (hn : net ∈ networks list) : net.family = .inet := by
  obtain ⟨piece, hmem, hp⟩ := List.mem_filterMap.mp hn
  simp only [entryNet] at hp
  split_ifs at hp
  exact parseNet_ipv4 hp (hl piece hmem)

/-- No entry in IPv4 notation matches a peer reported in the mapped form. -/
theorem listMatches_mapped {list : Bytes} (hl : Ipv4Notation list) (a : IPv4) :
    listMatches list .inet6 (mapped a).1 = false := by
  rw [Bool.eq_false_iff, Ne, listMatches_iff (mapped a).2]
  rintro ⟨net, hn, hfam, -⟩
  rw [family_of_mem_networks hl hn] at hfam
  exact absurd hfam (by decide)

/-- On IPv4 entries the scan of a list decides membership in its networks. -/
theorem any_listMatches_iff {list : Option Bytes} (hl : ∀ text ∈ list, Ipv4Notation text)
    (a : IPv4) : (list.any fun text => listMatches text .inet a.1) = true ↔ Listed list a := by
  cases list with
  | none => simp [Listed]
  | some text =>
    rw [Option.any_some, @listMatches_iff text .inet a.1 a.2]
    simp only [Listed, Option.mem_some_iff, exists_eq_left']
    refine exists_congr fun net => and_congr_right fun hn => ?_
    rw [family_of_mem_networks (hl text rfl) hn]
    simp

/-- **When the decision does not depend on how the peer is reported.** A peer in
the mapped form is in no network of either list. So an allow list turns it away,
and a deny list lets it in: the two decisions agree when the first would also have
turned the IPv4 address away, and the second would also have let it in. -/
theorem sameDecision_iff (cfg : Config) (fd : Fd) (a : IPv4) (hrules : Ipv4Rules cfg) :
    SameDecision cfg fd a ↔
      (cfg.allowList = none → ¬Listed cfg.denyList a) ∧
        (cfg.allowList ≠ none → ¬(Listed cfg.allowList a ∧ ¬Listed cfg.denyList a)) := by
  have hsame : SameDecision cfg fd a ↔
      permits cfg .inet a.1 = permits cfg .inet6 (mapped a).1 := by
    simp only [SameDecision, @runs_wcatAccessCheckFd _ _ (.inet a) _ _ _ rfl,
      @runs_wcatAccessCheckFd _ _ (.inet6 (mapped a)) _ _ _ rfl]
    exact ⟨fun hs => hs [] [] _ _ rfl rfl, fun he _ _ _ _ h₁ h₂ => by rw [h₁, h₂, he]⟩
  have hdeny := any_listMatches_iff hrules.deny_ipv4 a
  have hdeny6 : (cfg.denyList.any fun text => listMatches text .inet6 (mapped a).1) = false := by
    cases hd : cfg.denyList with
    | none => rfl
    | some text => exact listMatches_mapped (hrules.deny_ipv4 text hd) a
  rw [hsame, permits, permits, hdeny6, ← hdeny]
  cases ha : cfg.allowList with
  | none => simp
  | some text =>
    have hallow := any_listMatches_iff hrules.allow_ipv4 a
    rw [ha, Option.any_some] at hallow
    rw [Option.any_some, Option.any_some, listMatches_mapped (hrules.allow_ipv4 text ha) a, ← hallow]
    cases listMatches text .inet a.1 <;> simp

/-- An address outside the deny list is let in under either form. -/
theorem sameDecision_outside_deny :
    SameDecision { denyList := some (lit "10.0.0.0/8, 192.0.2.7") } (.conn .tcp 5)
      ⟨[127, 0, 0, 1], rfl⟩ := by
  have hrules : Ipv4Rules { denyList := some (lit "10.0.0.0/8, 192.0.2.7") } :=
    ⟨rfl, by decide +kernel, fun _ h => by simp at h, by decide +kernel⟩
  refine (sameDecision_iff _ _ _ hrules).mpr ⟨fun _ hlisted => ?_, fun hallow => absurd rfl hallow⟩
  rw [← any_listMatches_iff hrules.deny_ipv4] at hlisted
  exact absurd hlisted (by decide +kernel)

/-- A deny list of one address lets that address in when it is reported in the
mapped form. -/
theorem not_sameDecision_denied_address :
    Ipv4Rules { denyList := some (lit "10.0.0.1") } ∧
      ¬SameDecision { denyList := some (lit "10.0.0.1") } (.conn .tcp 5) ⟨[10, 0, 0, 1], rfl⟩ := by
  refine ⟨⟨rfl, by decide +kernel, fun _ h => by simp at h, by decide +kernel⟩, fun hs => ?_⟩
  have h4 := (@runs_wcatAccessCheckFd { denyList := some (lit "10.0.0.1") } (.conn .tcp 5)
    (.inet ⟨[10, 0, 0, 1], rfl⟩) _ _ [] rfl false).mpr
      (by decide +kernel)
  have h6 := (@runs_wcatAccessCheckFd { denyList := some (lit "10.0.0.1") } (.conn .tcp 5)
    (.inet6 (mapped ⟨[10, 0, 0, 1], rfl⟩)) _ _ [] rfl true).mpr
      (by decide +kernel)
  exact absurd (hs [] [] _ _ h4 h6) (by simp)

end Wirecat
