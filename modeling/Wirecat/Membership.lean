import Mathlib.Data.List.TakeWhile
import Wirecat.Access

/-!
# What the lists mean

`Wirecat.listMatches` scans a list in an array of its own, piece by piece; the check of
the command line, `Wirecat.wcatAccessValidateList`, scans it once more. This file says
what a list *denotes* without either scan, and that the decision is membership in what
is denoted.

A list is its entries: what stands between two commas, less the blanks around it
(`Wirecat.Entry`). An entry is an address, or an address, a slash and a number
(`Wirecat.Denotes`), and denotes the addresses of its family that agree with it on that
many leading bits (`Wirecat.InList`). None of the three mentions the size of an array or
the order of a scan, and an entry denotes at most one network
(`Wirecat.Denotes.unique`) because no text is an address of both families
(`Wirecat.inetPton6_of_inetPton4`).

`Wirecat.listMatches_eq_inList` is the statement for one list, and
`Wirecat.wcatAccessCheckFd_iff` the statement for a configuration.
-/

namespace Wirecat

open CString Interaction BitPrefix

/-! ### Entries -/

/-- `e` is `piece` without the blanks around it. -/
structure Trims (piece e : Bytes) : Prop where
  split : ∃ l r, piece = l ++ e ++ r ∧ (∀ c ∈ l, isBlank c) ∧ ∀ c ∈ r, isBlank c
  head : ∀ c ∈ e.head?, !isBlank c
  last : ∀ c ∈ e.getLast?, !isBlank c

/-- **An entry of a list**: what stands between two commas, less the blanks around it, if
anything is left. -/
def Entry (list e : Bytes) : Prop := e ≠ [] ∧ ∃ piece ∈ list.splitOn (chr ','), Trims piece e

/-- A text that is an address, and which. -/
inductive IsAddress (text : Bytes) : IpFamily → Bytes → Prop
  | inet {a : Bytes} (h : inetPton4 text = some a) : IsAddress text .inet a
  | inet6 {a : Bytes} (h : inetPton6 text = some a) : IsAddress text .inet6 a

/-- A text that is a number, as `strtol` reads one, with nothing after it. -/
structure IsNumeral (text : Bytes) (k : ℕ) : Prop where
  converted : (strtol text).converted = true
  rest : (strtol text).rest = []
  value : (strtol text).value = k

/-- **What an entry denotes**: an address with all of its bits, or with as many as the
number after the slash says. -/
inductive Denotes : Bytes → AccessNet → Prop
  | host {e : Bytes} {net : AccessNet} (noSlash : chr '/' ∉ e)
      (address : IsAddress e net.family net.addr) (bits : net.bits = 8 * net.family.size) :
      Denotes e net
  | network {a t : Bytes} {net : AccessNet} (noSlash : chr '/' ∉ a)
      (address : IsAddress a net.family net.addr) (bits : IsNumeral t net.bits) :
      Denotes (a ++ chr '/' :: t) net

/-- **Membership in a list**: the address agrees with an entry of its family on the bits
that count. -/
def InList (list : Bytes) (family : IpFamily) (addr : Bytes) : Prop :=
  ∃ e net, Entry list e ∧ Denotes e net ∧ net.family = family ∧ Agree net.bits addr net.addr

/-! ### Blanks -/

theorem dropWhile_blank {l s : Bytes} (hl : ∀ c ∈ l, isBlank c) (hs : ∀ c ∈ s.head?, !isBlank c) :
    (l ++ s).dropWhile isBlank = s := by
  induction l with
  | nil =>
    cases s with
    | nil => rfl
    | cons c s =>
      have hc : isBlank c = false := by simpa using hs c rfl
      rw [List.nil_append, List.dropWhile_cons_of_neg (by simp [hc])]
  | cons c l ih =>
    rw [List.cons_append, List.dropWhile_cons_of_pos (hl c (by simp))]
    exact ih fun d hd => hl d (by simp [hd])

/-- Trimming leaves nothing else. -/
theorem Trims.eq {piece e : Bytes} (ht : Trims piece e) (he : e ≠ []) : trimBlank piece = e := by
  obtain ⟨⟨l, r, rfl, hl, hr⟩, hhead, hlast⟩ := ht
  rw [trimBlank, List.append_assoc, dropWhile_blank hl, List.reverse_append, dropWhile_blank,
    List.reverse_reverse]
  · exact fun c hc => hr c (List.mem_reverse.mp hc)
  · rwa [List.head?_reverse]
  · cases e with
    | nil => exact absurd rfl he
    | cons c e => exact hhead

/-- What is trimmed is blank, and what is left begins and ends with something else. -/
theorem trims_trimBlank (piece : Bytes) : Trims piece (trimBlank piece) := by
  set s := piece.dropWhile isBlank with hs
  have hsplit : ∀ xs : Bytes, xs = xs.takeWhile isBlank ++ xs.dropWhile isBlank := fun xs =>
    List.takeWhile_append_dropWhile.symm
  have hblank : ∀ xs : Bytes, ∀ c ∈ xs.takeWhile isBlank, isBlank c := fun xs c hc =>
    List.mem_takeWhile_imp hc
  have hfirst : ∀ xs : Bytes, ∀ c ∈ (xs.dropWhile isBlank).head?, !isBlank c := fun xs c hc => by
    have := List.head?_dropWhile_not isBlank xs
    rw [hc] at this
    simpa using this
  have hback : s = trimBlank piece ++ (s.reverse.takeWhile isBlank).reverse := by
    rw [trimBlank, ← List.reverse_append, ← hsplit, List.reverse_reverse]
  refine ⟨⟨piece.takeWhile isBlank, (s.reverse.takeWhile isBlank).reverse, ?_, hblank piece, ?_⟩,
    ?_, ?_⟩
  · rw [List.append_assoc, ← hback, hs, ← hsplit]
  · exact fun c hc => hblank _ c (List.mem_reverse.mp hc)
  · intro c hc
    refine hfirst piece c ?_
    rw [← hs, hback, List.head?_append, hc]
    rfl
  · intro c hc
    rw [trimBlank, List.getLast?_reverse] at hc
    exact hfirst _ c hc

/-! ### Commas -/

/-- The scan visits the pieces between the commas, less an empty one at the end. -/
theorem splitOn_listEntries (list : Bytes) :
    list.splitOn (chr ',') = listEntries list ∨ list.splitOn (chr ',') = listEntries list ++ [[]] := by
  induction list with
  | nil => exact Or.inr rfl
  | cons c t ih =>
    rw [List.splitOn, List.splitOnP_cons_eq_if_modifyHead, listEntries]
    by_cases hc : c = chr ','
    · simp only [hc, BEq.rfl, if_true]
      rcases ih with ih | ih <;> rw [List.splitOn] at ih <;> rw [ih]
      · exact Or.inl rfl
      · exact Or.inr rfl
    · rw [if_neg (by simpa using hc), if_neg hc]
      rcases ih with ih | ih <;> rw [List.splitOn] at ih <;> rw [ih]
      · have hne := List.splitOnP_ne_nil (· == chr ',') t
        rw [ih] at hne
        cases hp : listEntries t with
        | nil => exact absurd hp hne
        | cons e es => exact Or.inl rfl
      · cases listEntries t with
        | nil => exact Or.inl rfl
        | cons e es => exact Or.inr rfl

/-- An entry is what the scan finds in one of the pieces it visits. -/
theorem Entry.piece {list e : Bytes} (he : Entry list e) :
    ∃ piece ∈ listEntries list, trimBlank piece = e := by
  obtain ⟨hne, piece, hmem, ht⟩ := he
  rcases splitOn_listEntries list with hs | hs <;> rw [hs] at hmem
  · exact ⟨piece, hmem, ht.eq hne⟩
  · rcases List.mem_append.mp hmem with hmem | hmem
    · exact ⟨piece, hmem, ht.eq hne⟩
    · obtain rfl := List.mem_singleton.mp hmem
      exact absurd (ht.eq hne).symm hne

/-- What the scan finds is an entry. -/
theorem entry_of_piece {list piece : Bytes} (hmem : piece ∈ listEntries list)
    (hne : trimBlank piece ≠ []) : Entry list (trimBlank piece) := by
  refine ⟨hne, piece, ?_, trims_trimBlank piece⟩
  rcases splitOn_listEntries list with hs | hs <;> rw [hs]
  · exact hmem
  · exact List.mem_append_left _ hmem

/-! ### Addresses -/

/-- The characters of a dotted quad. -/
def isQuadChar (c : UInt8) : Bool := isDigit c || c = chr '.'

theorem isQuadChar_of_inetPton4Scan {s : Bytes} {sawDigit : Bool} {octets cur : ℕ} {tmp a : Bytes}
    (h : inetPton4Scan s sawDigit octets cur tmp = some a) : ∀ c ∈ s, isQuadChar c := by
  induction s generalizing sawDigit octets cur tmp with
  | nil => exact fun c hc => absurd hc (by simp)
  | cons ch rest ih =>
    simp only [inetPton4Scan] at h
    refine List.forall_mem_cons.mpr ?_
    split_ifs at h with hdigit h0 hbig hsaw h5 hdot h4
    · exact ⟨by simp [isQuadChar, hdigit], ih h⟩
    · exact ⟨by simp [isQuadChar, hdigit], ih h⟩
    · exact ⟨by simp [isQuadChar, (Bool.and_eq_true_iff.mp hdot).1], ih h⟩

/-- The scan for an IPv6 address stores nothing before the first colon, and a dotted quad
does not fill the address on its own. -/
theorem inetPton6Scan_quad {s curtok : Bytes} {xdigits val : ℕ} (hs : ∀ c ∈ s, isQuadChar c) :
    inetPton6Scan s curtok xdigits val [] none = none := by
  induction s generalizing xdigits val with
  | nil =>
    simp only [inetPton6Scan, inetPton6Finish]
    split_ifs <;> simp_all
  | cons ch rest ih =>
    obtain ⟨hch, hrest⟩ := List.forall_mem_cons.mp hs
    rw [inetPton6Scan]
    cases hx : hexDigit ch with
    | some digit =>
      simp only
      split_ifs
      · rfl
      · exact ih hrest
    | none =>
      have hcolon : ch ≠ chr ':' := by
        rintro rfl
        exact absurd hch (by decide)
      simp only [if_neg hcolon]
      split_ifs
      · cases hq : inetPton4 curtok with
        | none => rfl
        | some quad =>
          have hlen := length_inetPton4 hq
          simp [inetPton6Finish, hlen]
      · rfl

/-- **No text is an address of both families.** -/
theorem inetPton6_of_inetPton4 {s a : Bytes} (h : inetPton4 s = some a) : inetPton6 s = none := by
  have hs : ∀ c ∈ s, isQuadChar c := isQuadChar_of_inetPton4Scan h
  cases s with
  | nil => rfl
  | cons c rest =>
    have hcolon : c ≠ chr ':' := by
      rintro rfl
      exact absurd (hs (chr ':') (by simp)) (by decide)
    simp only [inetPton6, if_neg hcolon]
    exact inetPton6Scan_quad hs

theorem IsAddress.unique {text a b : Bytes} {f g : IpFamily} (ha : IsAddress text f a)
    (hb : IsAddress text g b) : f = g ∧ a = b := by
  cases ha with
  | inet ha =>
    cases hb with
    | inet hb => exact ⟨rfl, Option.some.inj (ha.symm.trans hb)⟩
    | inet6 hb => exact absurd (hb.symm.trans (inetPton6_of_inetPton4 ha)) (by simp)
  | inet6 ha =>
    cases hb with
    | inet hb => exact absurd (ha.symm.trans (inetPton6_of_inetPton4 hb)) (by simp)
    | inet6 hb => exact ⟨rfl, Option.some.inj (ha.symm.trans hb)⟩

/-! ### Networks -/

theorem parseBits_none {max bits : ℕ} (h : parseBits max none = some bits) : bits = max :=
  (Option.some.inj h).symm

theorem parseBits_some {max bits : ℕ} {t : Bytes} (h : parseBits max (some t) = some bits) :
    IsNumeral t bits := by
  simp only [parseBits] at h
  split_ifs at h with hc
  obtain rfl := Option.some.inj h
  push Not at hc
  obtain ⟨hconv, hrest, hpos, -⟩ := hc
  exact ⟨hconv, List.isEmpty_iff.mp (by simpa using hrest), (Int.toNat_of_nonneg hpos).symm⟩

theorem parseNetAs_eq {family : IpFamily} {a : Bytes} {ha : a.length = family.size}
    {suffix : Option Bytes} {net : AccessNet} (h : parseNetAs family a ha suffix = some net) :
    net.family = family ∧ net.addr = a ∧ parseBits (8 * family.size) suffix = some net.bits := by
  rw [parseNetAs] at h
  split at h
  · exact absurd h (by simp)
  · rename_i bits hb
    rw [← Option.some.inj h]
    exact ⟨rfl, rfl, hb⟩

/-- What `parse_net` reads is what an entry denotes. -/
theorem parseNet_denotes {e : Bytes} {net : AccessNet} (h : parseNet e = some net) :
    Denotes e net := by
  have haddress : IsAddress (splitPrefix e).1 net.family net.addr ∧
      parseBits (8 * net.family.size) (splitPrefix e).2 = some net.bits := by
    simp only [parseNet] at h
    split_ifs at h
    split at h
    · rename_i h4
      obtain ⟨hf, ha, hb⟩ := parseNetAs_eq h
      rw [hf, ha]
      exact ⟨.inet h4, hb⟩
    · split at h
      · rename_i h6
        obtain ⟨hf, ha, hb⟩ := parseNetAs_eq h
        rw [hf, ha]
        exact ⟨.inet6 h6, hb⟩
      · exact absurd h (by simp)
  obtain ⟨haddr, hbits⟩ := haddress
  rw [splitPrefix] at haddr hbits
  cases hs : splitFirst (chr '/') e with
  | none =>
    simp only [hs] at haddr hbits
    exact .host (splitFirst_eq_none.mp hs) haddr (parseBits_none hbits)
  | some p =>
    obtain ⟨a, t⟩ := p
    simp only [hs] at haddr hbits
    obtain ⟨rfl, hnot⟩ := splitFirst_eq_some.mp hs
    exact .network hnot haddr (parseBits_some hbits)

theorem AccessNet.ext {m n : AccessNet} (hf : m.family = n.family) (ha : m.addr = n.addr)
    (hb : m.bits = n.bits) : m = n := by
  cases m
  cases n
  simp only at hf ha hb
  subst hf ha hb
  rfl

/-- **An entry denotes at most one network.** -/
theorem Denotes.unique {e : Bytes} {m n : AccessNet} (hm : Denotes e m) (hn : Denotes e n) :
    m = n := by
  cases hm with
  | host hno haddr hbits =>
    cases hn with
    | host _ haddr' hbits' =>
      obtain ⟨hf, ha⟩ := haddr.unique haddr'
      exact AccessNet.ext hf ha (by rw [hbits, hbits', hf])
    | network => exact absurd (by simp) hno
  | @network a t _ hno haddr hbits =>
    generalize he : a ++ chr '/' :: t = e at hn
    cases hn with
    | host hno' => exact absurd (he ▸ by simp) hno'
    | @network a' t' _ hno' haddr' hbits' =>
      have hs := (splitFirst_eq_some.mpr ⟨rfl, hno⟩ : splitFirst (chr '/') _ = some (a, t))
      rw [he, splitFirst_eq_some.mpr ⟨rfl, hno'⟩] at hs
      obtain ⟨rfl, rfl⟩ := Prod.mk.inj (Option.some.inj hs)
      obtain ⟨hf, ha⟩ := haddr.unique haddr'
      exact AccessNet.ext hf ha (by exact_mod_cast hbits.value.symm.trans hbits'.value)

/-! ### Lists -/

/-- Every entry of a list that was accepted has been read. -/
theorem Entry.read {list e : Bytes} (hvalid : wcatAccessValidateList (some list) = true)
    (he : Entry list e) : ∃ net ∈ networks list, Denotes e net := by
  obtain ⟨piece, hmem, rfl⟩ := he.piece
  obtain ⟨net, hnet⟩ := Option.isSome_iff_exists.mp (List.all_eq_true.mp hvalid piece hmem)
  refine ⟨net, List.mem_filterMap.mpr ⟨piece, hmem, hnet⟩, ?_⟩
  simp only [entryNet] at hnet
  split_ifs at hnet
  exact parseNet_denotes hnet

/-- Every network that was read is denoted by an entry. -/
theorem exists_entry {list : Bytes} {net : AccessNet} (hn : net ∈ networks list) :
    ∃ e, Entry list e ∧ Denotes e net := by
  obtain ⟨piece, hmem, hnet⟩ := List.mem_filterMap.mp hn
  simp only [entryNet] at hnet
  split_ifs at hnet with hlen
  exact ⟨trimBlank piece, entry_of_piece hmem (List.length_pos_iff.mp hlen.1), parseNet_denotes hnet⟩

/-- **The scan of a list that was accepted decides membership in it.** -/
theorem listMatches_eq_inList {list addr : Bytes} {family : IpFamily}
    (hvalid : wcatAccessValidateList (some list) = true) (hlen : addr.length = family.size) :
    listMatches list family addr = true ↔ InList list family addr := by
  rw [listMatches_iff hlen]
  constructor
  · rintro ⟨net, hn, hfam, hagree⟩
    obtain ⟨e, he, hd⟩ := exists_entry hn
    exact ⟨e, net, he, hd, hfam, hagree⟩
  · rintro ⟨e, net, he, hd, hfam, hagree⟩
    obtain ⟨net', hn, hd'⟩ := he.read hvalid
    obtain rfl := hd.unique hd'
    exact ⟨net, hn, hfam, hagree⟩

/-- No entry is passed over: it denotes a network, and an address of that network is
matched. -/
theorem Entry.matched {list e : Bytes} (hvalid : wcatAccessValidateList (some list) = true)
    (he : Entry list e) : ∃ net, Denotes e net ∧ ∀ addr : Bytes, addr.length = net.family.size →
      Agree net.bits addr net.addr → listMatches list net.family addr = true := by
  obtain ⟨net, -, hd⟩ := he.read hvalid
  refine ⟨net, hd, fun addr hlen hagree => ?_⟩
  exact (listMatches_eq_inList hvalid hlen).mpr ⟨e, net, he, hd, rfl, hagree⟩

/-! ### The decision -/

theorem SockAddr.length_peerAddr {peer : SockAddr} {family : IpFamily} {addr : Bytes}
    (h : peer.peerAddr = some (family, addr)) : addr.length = family.size := by
  cases peer with
  | inet a =>
    obtain ⟨rfl, rfl⟩ := Prod.mk.inj (Option.some.inj h)
    exact a.2
  | inet6 a =>
    obtain ⟨rfl, rfl⟩ := Prod.mk.inj (Option.some.inj h)
    exact a.2
  | other => exact absurd h (by simp [SockAddr.peerAddr])

/-- **The decision is membership**: the check returns, and it lets a peer in exactly when
its address is in no network of the deny list and, if there is an allow list, in one of
its networks; and every entry of the two lists is compared. -/
theorem wcatAccessCheckFd_iff {cfg : Config} {fd : Fd} {peer : SockAddr} {family : IpFamily}
    {addr : Bytes} (hallow : wcatAccessValidateList cfg.allowList = true)
    (hdeny : wcatAccessValidateList cfg.denyList = true)
    (hpeer : peer.peerAddr = some (family, addr)) (h : Hist) (b : Bool) :
    ((∃ h', Runs (Reporting fd peer) (wcatAccessCheckFd cfg fd) h h' (some b)) ↔
      (b = true ↔ (∀ list ∈ cfg.denyList, ¬InList list family addr) ∧
        ∀ list ∈ cfg.allowList, InList list family addr)) ∧
    ∀ list, list ∈ cfg.allowList ∨ list ∈ cfg.denyList → ∀ e, Entry list e →
      ∃ net, Denotes e net ∧ ∀ a : Bytes, a.length = net.family.size →
        Agree net.bits a net.addr → listMatches list net.family a = true := by
  have hlen := SockAddr.length_peerAddr hpeer
  constructor
  · have hpermits : permits cfg family addr = true ↔
        (∀ list ∈ cfg.denyList, ¬InList list family addr) ∧
          ∀ list ∈ cfg.allowList, InList list family addr := by
      rw [permits, Bool.and_eq_true]
      refine and_congr ?_ ?_
      · cases hd : cfg.denyList with
        | none => simp
        | some list => simp [← listMatches_eq_inList (hd ▸ hdeny) hlen]
      · cases ha : cfg.allowList with
        | none => simp
        | some list => simp [← listMatches_eq_inList (ha ▸ hallow) hlen]
    rw [runs_wcatAccessCheckFd hpeer, ← hpermits, Bool.eq_iff_iff]
  · rintro list (hl | hl) e he
    · exact he.matched (hl ▸ hallow)
    · exact he.matched (hl ▸ hdeny)

/-- A peer in a denied network is turned away. -/
theorem wcatAccessCheckFd_iff_denied :
    ∃ h', Runs (Reporting (.conn .tcp 5) (.inet ⟨[10, 1, 2, 3], rfl⟩))
      (wcatAccessCheckFd { denyList := some (lit "192.0.2.7,\t10.0.0.0/8 ,") } (.conn .tcp 5)) []
      h' (some false) := by
  refine (@wcatAccessCheckFd_iff { denyList := some (lit "192.0.2.7,\t10.0.0.0/8 ,") } _ _ _ _
    rfl (by decide +kernel) rfl [] false).1.mpr ?_
  have hm : InList (lit "192.0.2.7,\t10.0.0.0/8 ,") .inet [10, 1, 2, 3] :=
    (listMatches_eq_inList (by decide +kernel) rfl).mp (by decide +kernel)
  exact iff_of_false (by simp) fun hno => hno.1 _ rfl hm

end Wirecat
