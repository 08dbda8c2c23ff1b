import Wirecat.Interaction.Progress
import Wirecat.Quic

/-!
# Choosing an application protocol

A QUIC client offers a list of protocol names, each with its length in front, and the server
looks for its own name in it (`select_alpn_cb`). The list is the peer's, so every length in it
is a claim about bytes that need not be there.

The function is a program over the loads it makes from the array (`Wirecat.Load`): what it reads
is then part of its history, and what it does may not depend on anything else. `off` never
exceeds `in_len`, so nothing wraps around.

What the list means is said without the function: it holds the names that an encoder put there
(`Wirecat.encodeAlpn`), as many of them as can be had from the front (`Wirecat.LongestEntries`).
The rest of the array – a length with too few bytes behind it – is no entry. A name may be empty
there; the server's own never is.
-/

namespace Wirecat

open CString Interaction

/-! ### Loads -/

/-- What the function reads of the array `in`. -/
inductive Load
  /-- `in[i]`. -/
  | byte (i : ℕ)
  /-- The `len` bytes from `in + off` on, for `memcmp`. -/
  | span (off len : ℕ)

/-- What a load gives. -/
abbrev Load.Res : Load → Type
  | .byte _ => UInt8
  | .span _ _ => Bytes

/-- A load of nothing beyond `n`. -/
def Load.Inside (n : ℕ) : Load → Prop
  | .byte i => i < n
  | .span off len => off + len ≤ n

/-- What a load gives when the array holds `inp`. -/
def Load.value (inp : Bytes) : (l : Load) → l.Res
  | .byte i => inp.getD i 0
  | .span off len => (inp.drop off).take len

/-- The array holds `inp`. -/
def Holding (inp : Bytes) : History Load Load.Res → (l : Load) → l.Res → Prop :=
  fun _ l r => r = l.value inp

/-- `select_alpn_cb`: where the chosen name is and how long, or `none` for
`SSL_TLSEXT_ERR_ALERT_FATAL`. -/
def selectAlpnCb (arg : Option Bytes) (inLen : ℕ) : Prog Load Load.Res (Option (ℕ × ℕ)) := do
  let alpn := arg.getD (lit "wcat/1")
  if alpn.length = 0 ∨ 255 < alpn.length then pure none
  else
    Prog.loop (fun off => do
      if off < inLen then
        let itemLen ← Prog.request (.byte off)
        let off := off + 1
        if inLen - off < itemLen.toNat then pure (.inr none)
        else do
          let same ← (if itemLen.toNat = alpn.length then do
              let item ← Prog.request (.span off alpn.length)
              pure (decide (item = alpn))
            else pure false)
          if same then pure (.inr (some (off, itemLen.toNat)))
          else pure (.inl (off + itemLen.toNat))
      else pure (.inr none)) 0

/-! ### What the list means -/

/-- A name as `set_alpn` puts it into a list. -/
def encodeAlpn (alpn : Bytes) : Bytes := alpn.length.toUInt8 :: alpn

/-- A list of names as an encoder writes it, one entry after the other. -/
def encodeList (names : List Bytes) : Bytes := names.flatMap encodeAlpn

/-- Names whose length fits the byte in front of them. -/
def FitByte (names : List Bytes) : Prop := ∀ name ∈ names, name.length ≤ 255

/-- **The longest well-formed prefix** of a list holds these names: they are there, and what
else is there in front of the list is among them. -/
structure LongestEntries (inp : Bytes) (names : List Bytes) : Prop where
  fit : FitByte names
  there : encodeList names <+: inp
  longest : ∀ names', FitByte names' → encodeList names' <+: inp → names' <+: names

variable {inp alpn rest : Bytes} {names : List Bytes} {len : UInt8}

theorem toUInt8_toNat {n : ℕ} (hn : n ≤ 255) : n.toUInt8.toNat = n :=
  UInt8.toNat_ofNat_of_lt' (show n < 256 by omega)

theorem toUInt8_length (hlen : alpn.length = len.toNat) : alpn.length.toUInt8 = len := by
  rw [hlen]
  exact UInt8.ofNat_toNat

theorem encodeList_append (names names' : List Bytes) :
    encodeList (names ++ names') = encodeList names ++ encodeList names' := List.flatMap_append

theorem encodeList_singleton (name : Bytes) : encodeList [name] = encodeAlpn name :=
  List.append_nil _

/-- The first entry of a list is the one its first byte announces. -/
theorem eq_of_encode_prefix {name : Bytes} {tail : Bytes} (hfit : name.length ≤ 255)
    (hpre : encodeAlpn name ++ tail <+: len :: rest) :
    len.toNat = name.length ∧ name ++ tail <+: rest := by
  rw [encodeAlpn, List.cons_append] at hpre
  obtain ⟨hlen, hpre⟩ := List.cons_prefix_cons.mp hpre
  exact ⟨by rw [← hlen, toUInt8_toNat hfit], hpre⟩

/-- An entry of which there is not enough ends the list. -/
theorem longestEntries_stop (hshort : rest.length < len.toNat) : LongestEntries (len :: rest) [] where
  fit := by simp [FitByte]
  there := List.nil_prefix
  longest := by
    intro names hfit hpre
    cases names with
    | nil => exact List.prefix_rfl
    | cons name names =>
      obtain ⟨hlen, hpre⟩ := eq_of_encode_prefix (hfit name List.mem_cons_self) hpre
      have hle := hpre.length_le
      rw [List.length_append] at hle
      omega

theorem longestEntries_nil : LongestEntries [] [] where
  fit := by simp [FitByte]
  there := List.nil_prefix
  longest := by
    intro names _ hpre
    cases names with
    | nil => exact List.prefix_rfl
    | cons name names => exact absurd (List.prefix_nil.mp hpre) (by simp [encodeList, encodeAlpn])

/-- An entry that is there is followed by the entries of the rest. -/
theorem LongestEntries.cons {name : Bytes} (hlen : len.toNat = name.length)
    (hrest : LongestEntries rest names) : LongestEntries (len :: (name ++ rest)) (name :: names) where
  fit := List.forall_mem_cons.mpr ⟨by have := len.toNat_lt; omega, hrest.fit⟩
  there := by
    rw [encodeList, List.flatMap_cons, encodeAlpn, toUInt8_length hlen.symm, List.cons_append]
    exact List.cons_prefix_cons.mpr ⟨rfl, (List.prefix_append_right_inj name).mpr hrest.there⟩
  longest := by
    intro names' hfit hpre
    cases names' with
    | nil => exact List.nil_prefix
    | cons name' names' =>
      obtain ⟨hfit', hfits⟩ := List.forall_mem_cons.mp hfit
      have hfirst : len.toNat = name'.length ∧ name' ++ encodeList names' <+: name ++ rest :=
        eq_of_encode_prefix hfit' hpre
      obtain ⟨hlen', hpre'⟩ := hfirst
      -- both names are the first bytes of the rest, and they are of one length
      have hsame : name' = name := by
        have hshort := List.prefix_of_prefix_length_le ((List.prefix_append _ _).trans hpre')
          (List.prefix_append name rest) (by omega)
        exact hshort.eq_of_length (by omega)
      subst hsame
      exact List.cons_prefix_cons.mpr
        ⟨rfl, hrest.longest names' hfits ((List.prefix_append_right_inj _).mp hpre')⟩

/-- Every list has a longest well-formed prefix. -/
theorem exists_longestEntries (inp : Bytes) : ∃ names, LongestEntries inp names := by
  induction hn : inp.length using Nat.strong_induction_on generalizing inp with
  | _ n ih =>
    cases inp with
    | nil => exact ⟨[], longestEntries_nil⟩
    | cons len rest =>
      by_cases hshort : rest.length < len.toNat
      · exact ⟨[], longestEntries_stop hshort⟩
      · rw [List.length_cons] at hn
        obtain ⟨names, hnames⟩ := ih (rest.drop len.toNat).length
          (by rw [List.length_drop]; omega) _ rfl
        have hcons : LongestEntries (len :: (rest.take len.toNat ++ rest.drop len.toNat))
            (rest.take len.toNat :: names) := hnames.cons (by rw [List.length_take]; omega)
        rw [List.take_append_drop] at hcons
        exact ⟨_, hcons⟩

theorem LongestEntries.unique {names' : List Bytes} (hn : LongestEntries inp names)
    (hn' : LongestEntries inp names') : names = names' := by
  have hpre := hn'.longest names hn.fit hn.there
  exact hpre.eq_of_length_le (hn.longest names' hn'.fit hn'.there).length_le

/-- Entries that are passed are followed by the entries of the rest. -/
theorem LongestEntries.after {passed : List Bytes} (hfit : FitByte passed)
    (hrest : LongestEntries rest names) :
    LongestEntries (encodeList passed ++ rest) (passed ++ names) := by
  induction passed with
  | nil => exact hrest
  | cons name passed ih =>
    obtain ⟨hname, hfit⟩ := List.forall_mem_cons.mp hfit
    have hcons := (ih hfit).cons (toUInt8_toNat hname)
    rwa [← List.append_assoc] at hcons

/-- **What an encoder wrote** is all entries. -/
theorem longestEntries_encodeList (hfit : FitByte names) :
    LongestEntries (encodeList names) names := by
  have hall := longestEntries_nil.after hfit
  rwa [List.append_nil, List.append_nil] at hall

/-! ### The search -/

/-- `set_alpn` offers a list of one name. -/
theorem setAlpn_encodes (hlen : ¬(alpn.length = 0 ∨ 255 < alpn.length)) :
    setAlpn alpn = sys (.ssl (.setAlpnProtos (encodeList [alpn]))) := by
  rw [setAlpn, if_neg hlen, encodeList_singleton, encodeAlpn]

/-- **At the head of the loop**: the entries before `off` have been passed, and the name was not
among them. -/
structure Searched (alpn inp : Bytes) (off : ℕ) (h : History Load Load.Res) : Prop where
  entries : ∃ passed rest, inp = encodeList passed ++ rest ∧ off = (encodeList passed).length ∧
    FitByte passed ∧ alpn ∉ passed
  inside : ∀ ev ∈ h, ev.1.Inside inp.length
  loads : h.length ≤ 2 * off

/-- What holds of the loads at any time. -/
def LoadsOk (n : ℕ) (h : History Load Load.Res) : Prop :=
  (∀ ev ∈ h, ev.1.Inside n) ∧ h.length ≤ 2 * n

/-- What the search finds: the first entry that is the name, or that there is none. -/
def Found (alpn inp : Bytes) (r : Option (ℕ × ℕ)) : Prop :=
  ∃ names, LongestEntries inp names ∧ match r with
    | none => alpn ∉ names
    | some (off, len) => ∃ before after, names = before ++ alpn :: after ∧ alpn ∉ before ∧
        off = (encodeList before).length + 1 ∧ len = alpn.length

theorem Searched.ok {off : ℕ} {h : History Load Load.Res} (hp : Searched alpn inp off h)
    (hle : off ≤ inp.length) : LoadsOk inp.length h := ⟨hp.inside, by have := hp.loads; omega⟩

theorem Searched.off_le {off : ℕ} {h : History Load Load.Res} (hp : Searched alpn inp off h) :
    off ≤ inp.length := by
  obtain ⟨passed, rest, rfl, rfl, -, -⟩ := hp.entries
  rw [List.length_append]
  omega

/-- Where the search has come to an entry: its name, and what follows it. -/
structure AtEntry (inp : Bytes) (off : ℕ) (len : UInt8) (passed : List Bytes) (item after : Bytes) :
    Prop where
  split : inp = encodeList passed ++ len :: (item ++ after)
  off : off = (encodeList passed).length
  len : item.length = len.toNat
  fit : FitByte passed

section
variable {off : ℕ} {passed : List Bytes} {item after : Bytes}

theorem AtEntry.encoded (he : AtEntry inp off len passed item after) :
    inp = encodeList (passed ++ [item]) ++ after := by
  rw [he.split, encodeList_append, encodeList_singleton, encodeAlpn, toUInt8_length he.len,
    List.append_assoc, List.cons_append]

theorem AtEntry.next (he : AtEntry inp off len passed item after) :
    off + 1 + len.toNat = (encodeList (passed ++ [item])).length := by
  rw [encodeList_append, encodeList_singleton, encodeAlpn, List.length_append, he.off,
    List.length_cons, he.len]
  omega

theorem AtEntry.fits (he : AtEntry inp off len passed item after) : FitByte (passed ++ [item]) := by
  have hlt := len.toNat_lt
  have hle := he.len
  refine List.forall_mem_append.mpr ⟨he.fit, ?_⟩
  simp only [List.mem_singleton, forall_eq]
  omega

theorem AtEntry.inside (he : AtEntry inp off len passed item after) :
    off + 1 + len.toNat ≤ inp.length := by
  rw [he.next, he.encoded, List.length_append]
  omega

/-- The name of the entry, as it is loaded. -/
theorem AtEntry.span (he : AtEntry inp off len passed item after) :
    (inp.drop (off + 1)).take len.toNat = item := by
  rw [he.split, he.off, ← List.drop_drop, List.drop_left, List.drop_one, List.tail_cons,
    ← he.len, List.take_left]

/-- **The comparison** loads the entry when its length is right. -/
theorem always_same {h : History Load Load.Res} (he : AtEntry inp off len passed item after)
    (hin : ∀ ev ∈ h, ev.1.Inside inp.length) (hloads : h.length ≤ 2 * off + 1) :
    Always (Holding inp) (LoadsOk inp.length)
      (if len.toNat = alpn.length then do
        let item ← Prog.request (.span (off + 1) alpn.length)
        pure (decide (item = alpn))
      else pure false : Prog Load Load.Res Bool)
      (fun same h' => same = decide (item = alpn) ∧ (∀ ev ∈ h', ev.1.Inside inp.length) ∧
        h'.length ≤ 2 * off + 2) h := by
  have hinside := he.inside
  have hok : LoadsOk inp.length h := ⟨hin, by omega⟩
  refine Always.ite (fun heq => Always.ask hok fun item' hitem => ?_) fun hne => ?_
  · have hin' : ∀ ev ∈ (⟨.span (off + 1) alpn.length, item'⟩ :: h : History Load Load.Res),
        ev.1.Inside inp.length :=
      List.forall_mem_cons.mpr ⟨by rw [Load.Inside]; omega, hin⟩
    have hvalue : item' = item := by rw [hitem, Load.value, ← heq, he.span]
    refine always_pure.mpr ⟨⟨hin', ?_⟩, by rw [hvalue], hin', ?_⟩
    · rw [List.length_cons]
      omega
    · rw [List.length_cons]
      omega
  · refine always_pure.mpr ⟨hok, (decide_eq_false fun heq => hne ?_).symm, hin, by omega⟩
    rw [← he.len, heq]

end

/-- An entry that is there has a name and something that follows it. -/
theorem exists_atEntry {off : ℕ} {passed : List Bytes} (hinp : inp = encodeList passed ++ len :: rest)
    (hoff : off = (encodeList passed).length) (hfit : FitByte passed)
    (hroom : len.toNat ≤ rest.length) :
    AtEntry inp off len passed (rest.take len.toNat) (rest.drop len.toNat) where
  split := by rw [hinp, List.take_append_drop]
  off := hoff
  len := by
    rw [List.length_take]
    omega
  fit := hfit

/-- **The search**: each round stops at the end of the list, stops at the name, or passes one more
entry. -/
theorem always_selectAlpnCb {arg : Option Bytes}
    (hname : ¬((arg.getD (lit "wcat/1")).length = 0 ∨ 255 < (arg.getD (lit "wcat/1")).length)) :
    Always (Holding inp) (LoadsOk inp.length) (selectAlpnCb arg inp.length)
      (fun r _ => Found (arg.getD (lit "wcat/1")) inp r) [] := by
  rw [selectAlpnCb]
  generalize arg.getD (lit "wcat/1") = alpn at hname ⊢
  rw [if_neg hname]
  refine Always.loop (Searched alpn inp) ⟨⟨[], inp, rfl, rfl, by simp [FitByte], by simp⟩, by simp,
    le_rfl⟩ ?_
  intro off h hp
  have hok := hp.ok hp.off_le
  have hloads := hp.loads
  obtain ⟨passed, rest, hinp, hoff, hfit, hnot⟩ := hp.entries
  have hlength : inp.length = off + rest.length := by rw [hinp, List.length_append, hoff]
  refine Always.ite (fun hlt => ?_) fun hend => ?_
  · obtain ⟨len, rest, rfl⟩ : ∃ len rest', rest = len :: rest' :=
      List.exists_cons_of_length_pos (by omega)
    rw [List.length_cons] at hlength
    refine Always.ask hok fun r hr => ?_
    obtain rfl : r = len := by
      rw [hr, Load.value, hinp, hoff, List.getD_eq_getElem?_getD, List.getElem?_append_right le_rfl,
        Nat.sub_self]
      rfl
    have hin : ∀ ev ∈ (⟨.byte off, r⟩ :: h : History Load Load.Res), ev.1.Inside inp.length :=
      List.forall_mem_cons.mpr ⟨hlt, hp.inside⟩
    have hlen : (⟨.byte off, r⟩ :: h : History Load Load.Res).length ≤ 2 * off + 1 := by
      rw [List.length_cons]
      omega
    refine Always.ite (fun hshort => ?_) fun hroom => ?_
    · -- there is less than the length says
      refine always_pure.mpr ⟨⟨hin, by omega⟩, passed ++ [], ?_, by simpa using hnot⟩
      rw [hinp]
      exact (longestEntries_stop (by omega)).after hfit
    · have he := exists_atEntry hinp hoff hfit (by omega)
      refine always_bind'.mpr ((always_same he hin hlen).mono (fun _ => id) ?_)
      rintro same h' hok' ⟨rfl, hin', hlen'⟩
      refine Always.ite (fun heq => ?_) fun hne => ?_
      · -- the name is found, and whatever comes after it does not matter
        rw [decide_eq_true_eq] at heq
        obtain ⟨names, hnames⟩ := exists_longestEntries (rest.drop r.toNat)
        refine always_pure.mpr ⟨hok', _, he.encoded ▸ hnames.after he.fits, passed, names, ?_, hnot,
          by rw [hoff], by rw [← heq, he.len]⟩
        rw [heq, List.append_assoc, List.singleton_append]
      · rw [decide_eq_true_eq] at hne
        refine always_pure.mpr ⟨hok', ⟨_, _, he.encoded, he.next, he.fits, ?_⟩, hin', by omega⟩
        rw [List.mem_append, List.mem_singleton, not_or]
        exact ⟨hnot, fun h => hne h.symm⟩
  · refine always_pure.mpr ⟨hok, passed ++ [], ?_, by simpa using hnot⟩
    obtain rfl : rest = [] := List.length_eq_zero_iff.mp (by omega)
    rw [hinp]
    exact longestEntries_nil.after hfit

/-- No round goes by without a load. -/
theorem busy_selectAlpnCb (arg : Option Bytes) (n : ℕ) : Busy (selectAlpnCb arg n) := by
  rw [selectAlpnCb]
  generalize arg.getD (lit "wcat/1") = alpn
  refine Busy.ite (busy_pure _) (Busy.loop (fun off => ?_) (fun off => ?_) 0)
  · refine Busy.ite ((busy_request _).bind' fun len => Busy.ite (busy_pure _) ?_) (busy_pure _)
    refine Busy.bind' (Busy.ite ((busy_request _).bind' fun _ => busy_pure _) (busy_pure _)) ?_
    exact fun same => Busy.ite (busy_pure _) (busy_pure _)
  · split_ifs
    · exact asks_request
    · rfl

/-- **Choosing a protocol**, for the name `alpn` and the list `inp`. -/
structure SelectsAlpn (arg : Option Bytes) (alpn inp : Bytes) : Prop where
  /-- It returns: it asks for no more than two loads for each byte, and it never spins. -/
  returns : (∃ h r, Runs (Holding inp) (selectAlpnCb arg inp.length) [] h (some r)) ∧
    Busy (selectAlpnCb arg inp.length) ∧
    ∀ h o, Runs (Holding inp) (selectAlpnCb arg inp.length) [] h o → h.length ≤ 2 * inp.length
  /-- Nothing beyond the list is read. -/
  inside : ∀ h o, Runs (Holding inp) (selectAlpnCb arg inp.length) [] h o →
    ∀ ev ∈ h, ev.1.Inside inp.length
  /-- It succeeds when the name is an entry. -/
  selects : ∀ h r, Runs (Holding inp) (selectAlpnCb arg inp.length) [] h (some r) →
    (r.isSome = true ↔ ∃ names, LongestEntries inp names ∧ alpn ∈ names)
  /-- What it chooses is that entry. -/
  denotes : ∀ h off len, Runs (Holding inp) (selectAlpnCb arg inp.length) [] h (some (some (off, len))) →
    ∃ before after, LongestEntries inp (before ++ alpn :: after) ∧
      off = (encodeList before).length + 1 ∧ len = alpn.length ∧ off + len ≤ inp.length ∧
      (inp.drop off).take len = alpn
  /-- The list that `set_alpn` offers is one that an encoder wrote. -/
  offered : setAlpn alpn = sys (.ssl (.setAlpnProtos (encodeList [alpn])))
  /-- For a list that an encoder wrote, the entries are its names. -/
  encoded : ∀ names, (∀ name ∈ names, 1 ≤ name.length ∧ name.length ≤ 255) → inp = encodeList names →
    ∀ h r, Runs (Holding inp) (selectAlpnCb arg inp.length) [] h (some r) →
      (r.isSome = true ↔ alpn ∈ names)

theorem Found.isSome_iff {r : Option (ℕ × ℕ)} (hf : Found alpn inp r) :
    r.isSome = true ↔ ∃ names, LongestEntries inp names ∧ alpn ∈ names := by
  obtain ⟨names, hnames, hr⟩ := hf
  have hiff : r.isSome = true ↔ alpn ∈ names := by
    rcases r with _ | ⟨off, len⟩
    · exact iff_of_false (by simp) hr
    · obtain ⟨before, after, rfl, -⟩ := hr
      exact iff_of_true rfl (by simp)
  rw [hiff]
  refine ⟨fun hmem => ⟨names, hnames, hmem⟩, ?_⟩
  rintro ⟨names', hnames', hmem⟩
  rwa [hnames.unique hnames']

/-- What was found is where it was found. -/
theorem Found.span {off len : ℕ} (hf : Found alpn inp (some (off, len))) :
    ∃ before after, LongestEntries inp (before ++ alpn :: after) ∧
      off = (encodeList before).length + 1 ∧ len = alpn.length ∧ off + len ≤ inp.length ∧
      (inp.drop off).take len = alpn := by
  obtain ⟨_, hnames, before, after, rfl, -, rfl, rfl⟩ := hf
  refine ⟨before, after, hnames, rfl, rfl, ?_⟩
  obtain ⟨more, hinp⟩ := hnames.there
  have hsplit : inp = encodeList before ++ ([alpn.length.toUInt8] ++ (alpn ++
      (encodeList after ++ more))) := by
    rw [← hinp, encodeList_append, encodeList, encodeList, List.flatMap_cons, encodeAlpn]
    simp [encodeList]
  constructor
  · rw [hsplit]
    simp only [List.length_append, List.length_singleton]
    omega
  · rw [hsplit, ← List.drop_drop, List.drop_left, List.singleton_append, List.drop_one,
      List.tail_cons, List.take_left]

/-- **Choosing a protocol**, for every name of 1 to 255 bytes and every list. -/
theorem alpnSelection (arg : Option Bytes) (inp : Bytes)
    (hname : 1 ≤ (arg.getD (lit "wcat/1")).length ∧ (arg.getD (lit "wcat/1")).length ≤ 255) :
    SelectsAlpn arg (arg.getD (lit "wcat/1")) inp := by
  have hsearch := @always_selectAlpnCb inp arg (by omega)
  have hsome : ∀ h r, Runs (Holding inp) (selectAlpnCb arg inp.length) [] h (some r) →
      (r.isSome = true ↔ ∃ names, LongestEntries inp names ∧ arg.getD (lit "wcat/1") ∈ names) :=
    fun h r hr => (hsearch.post hr).isSome_iff
  refine ⟨⟨?_, busy_selectAlpnCb arg _, ?_⟩, ?_, hsome, ?_, setAlpn_encodes (by omega), ?_⟩
  · exact Runs.returns (busy_selectAlpnCb arg _) (fun _ l => ⟨l.value inp, rfl⟩)
      fun h' hr => (hsearch.safe hr).2
  · exact fun h o hr => (hsearch.safe hr).2
  · exact fun h o hr => (hsearch.safe hr).1
  · exact fun h off len hr => (hsearch.post hr).span
  · rintro names hfit rfl h r hr
    have hall := longestEntries_encodeList fun name hname => (hfit name hname).2
    rw [hsome h r hr]
    refine ⟨?_, fun hmem => ⟨names, hall, hmem⟩⟩
    rintro ⟨names', hnames', hmem⟩
    rwa [hall.unique hnames']

/-- From a list with an empty entry, another name, and too long a length at its end, `wcat/1` is
chosen. -/
theorem alpnSelection_second :
    SelectsAlpn none (lit "wcat/1") (encodeList [[], lit "h3", lit "wcat/1"] ++ [9, 0]) ∧
      ∃ names, LongestEntries (encodeList [[], lit "h3", lit "wcat/1"] ++ [9, 0]) names ∧
        lit "wcat/1" ∈ names := by
  refine ⟨alpnSelection none _ ⟨by decide, by decide⟩, [[], lit "h3", lit "wcat/1"] ++ [], ?_,
    by decide⟩
  refine (longestEntries_stop (by decide)).after ?_
  simp only [FitByte, List.mem_cons, List.not_mem_nil, or_false, forall_eq_or_imp, forall_eq]
  decide

end Wirecat
