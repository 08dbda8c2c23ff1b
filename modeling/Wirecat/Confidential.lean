import Wirecat.Interaction.Ledger
import Wirecat.Modes

/-!
# Peers are authenticated before they are talked to

What TLS is asked for is settled in the order of some twenty calls of OpenSSL, in four
functions: `wcat_tls_client_open`, `wcat_tls_server_open`, `wcat_quic_client_open` and the
opening of a QUIC listener. A ledger says what each call is worth (`Wirecat.assurances`): that
the peer has to show a certificate, who is trusted to sign it, which name it has to bear; then
that a handshake came to its end on a descriptor, and that the certificate was verified in it.

A handshake needs the first three, as the command line has them, and the exchange of a byte
over TLS needs the last two. The exchange of a byte in the clear, on a command line that asks
for TLS, needs something that nothing gives.

The dialogue with a proxy is in the clear, and is with the proxy.

A QUIC listener is followed less closely. Its handshakes are made inside OpenSSL: a connection
that `SSL_accept_connection` returns counts as shaken, though it may be returned before its
handshake is complete, and of the certificate of its client nothing is said
(`Wirecat.Config.insists`).
-/

namespace Wirecat

open CString Interaction

/-! ### The ledger -/

/-- What can be relied on in a conversation over TLS. -/
inductive Assurance
  /-- The peer has to show a certificate; a client that shows none is refused, if `strict`. -/
  | asking (strict : Bool)
  /-- Who is trusted to sign it: those of a file, or of the system. -/
  | trusting (caFile : Option Bytes)
  /-- The name that the certificate has to bear. -/
  | named (host : Bytes)
  /-- A handshake came to its end, since the descriptor was connected. -/
  | shaken (fd : Fd)
  /-- The certificate that was shown in the last handshake was verified. -/
  | verified
  /-- Bytes may be exchanged in the clear. -/
  | cleartext
  deriving DecidableEq

/-- Whether it is a setting of the context, which a handshake then works with. -/
def Assurance.ofContext : Assurance → Bool
  | .asking _ | .trusting _ | .named _ => true
  | _ => false

/-- What an event gives. A connection from `SSL_accept_connection` is taken for shaken. -/
def gains : Ev → Set Assurance
  | ⟨.ssl (.setVerify true strict), _⟩ => {.asking strict}
  | ⟨.ssl (.loadVerifyLocations file), true⟩ => {.trusting (some file)}
  | ⟨.ssl .setDefaultVerifyPaths, true⟩ => {.trusting none}
  | ⟨.ssl (.set1Host name), true⟩ => {.named name}
  | ⟨.ssl .verifyResultOk, true⟩ => {.verified}
  | ⟨.sslConnect fd, true⟩ | ⟨.sslAccept fd, true⟩ | ⟨.sslAcceptConnection fd, true⟩ => {.shaken fd}
  | _ => ∅

/-- What an event takes away: a new context starts from nothing, and so does a new connection. -/
def loses : Ev → Set Assurance
  | ⟨.ssl (.ctxNew _ _), _⟩ => {k | k.ofContext = true}
  | ⟨.ssl (.setVerify _ _), _⟩ => {k | ∃ strict, k = .asking strict}
  | ⟨.connect fd _, _⟩ => {.shaken fd}
  | ⟨.accept listener, .ok n⟩ => {.shaken (listener.accepted n)}
  | ⟨.sslConnect _, _⟩ | ⟨.sslAccept _, _⟩ => {.verified}
  | _ => ∅

/-- Whether the command line insists on a certificate that is verified: of a server always,
unless it was told not to; of a client on request, but for a client of a QUIC listener. There
`--require-client-cert` sets the verification of the context and the rest is left to OpenSSL. -/
def Config.insists (cfg : Config) : Bool :=
  match cfg.mode with
  | .connect | .send => cfg.tlsVerify
  | _ => cfg.tlsRequireClientCert && !cfg.quic

/-- What has to be relied on before a byte is exchanged over TLS. -/
def assured (cfg : Config) (fd : Fd) : Set Assurance :=
  {k | k = .shaken fd ∨ k = .verified ∧ cfg.insists = true}

/-- Whether a request exchanges bytes with a peer in the clear. -/
def inTheClear : Sys → Bool
  | .read via fd _ _ _ | .write via fd _ => fd.isSocket && via ≠ .handshake
  | _ => false

/-- What has to be relied on for a request. -/
def needs (cfg : Config) : Sys → Set Assurance
  | .sslConnect _ => {k | cfg.tlsVerify = true ∧
      (k = .asking false ∨ k = .trusting cfg.caFile ∨ k = .named cfg.serverName)}
  | .sslAccept _ => {k | cfg.tlsRequireClientCert = true ∧
      (k = .asking true ∨ k = .trusting cfg.caFile)}
  | .sslRead _ fd _ | .sslWrite _ fd _ => assured cfg fd
  | e => {k | k = .cleartext ∧ cfg.tls = true ∧ inTheClear e = true}

/-- **The ledger of assurances.** -/
def assurances (cfg : Config) : Accounts Sys Resp Assurance where
  opened := gains
  closed := loses
  needed ev := needs cfg ev.1

/-! ### What leaves the assurances alone -/

section Spares

variable {cfg : Config} {fd : Fd} {T : Set Assurance}

/-- What is known once a peer can be talked to: nothing, when it is talked to in the clear. -/
def due (cfg : Config) (fd : Fd) : Set Assurance := if cfg.tls = true then assured cfg fd else ∅

/-- On this side of the network, nothing is needed, and nothing lost but settings. -/
theorem spares_of_domestic (hT : ∀ k ∈ T, k.ofContext = false) (e : Sys) (he : Domestic e = true) :
    (assurances cfg).Spares T e := by
  have hnone : ∀ r, Disjoint T (loses ⟨e, r⟩) := by
    intro r
    refine Set.disjoint_left.mpr fun k hk hlost => ?_
    have hkeep := hT k hk
    cases e with
    | ssl call =>
      cases call with
      | ctxNew => exact absurd (hkeep.symm.trans hlost) Bool.false_ne_true
      | setVerify =>
        obtain ⟨strict, rfl⟩ := hlost
        cases hkeep
      | _ => exact hlost
    | connect | accept | sslConnect | sslAccept => cases he
    | _ => exact hlost
  have hclear : inTheClear e = false := by
    cases e with
    | read via fd | write via fd =>
      have hsock : (!fd.isSocket) = true := he
      rw [inTheClear, (Bool.not_eq_true' _).mp hsock, Bool.false_and]
    | _ => rfl
  have hneeds : needs cfg e = ∅ := by
    have hempty : {k | k = Assurance.cleartext ∧ cfg.tls = true ∧ inTheClear e = true} = ∅ := by
      simp [hclear]
    cases e with
    | sslConnect | sslAccept | sslRead | sslWrite => cases he
    | _ => exact hempty
  exact fun r => ⟨hneeds.subset.trans (Set.empty_subset T), hnone r⟩

theorem ofContext_assured : ∀ k ∈ assured cfg fd, k.ofContext = false := by
  rintro _ (rfl | ⟨rfl, -⟩) <;> rfl

theorem ofContext_due : ∀ k ∈ due cfg fd, k.ofContext = false := by
  intro k hk
  rw [due] at hk
  split_ifs at hk
  · exact ofContext_assured k hk
  · exact hk.elim

/-- A session that was opened is talked over when all is assured. -/
theorem spares_of_sslTalk {e : Sys} (he : SslTalk fd e) : (assurances cfg).Spares (assured cfg fd) e := by
  have hlost : ∀ r, loses ⟨e, r⟩ = ∅ := by
    intro r
    cases e <;> first | exact he.elim | rfl
  refine fun r => ⟨?_, Set.disjoint_of_subset_right (hlost r).subset (Set.disjoint_empty _)⟩
  cases e with
  | sslRead o f len | sslWrite o f buf =>
    obtain rfl : f = fd := he
    exact subset_rfl
  | sslStreamConclude | sslShutdown => simp [assurances, needs, inTheClear]
  | _ => exact he.elim

/-- Bytes are exchanged in the clear when TLS was not asked for. -/
theorem spares_of_plainOn (htls : ¬cfg.tls = true) {e : Sys} (he : PlainOn fd e) :
    (assurances cfg).Spares T e := by
  intro r
  cases e with
  | read | write => simp [assurances, needs, loses, htls]
  | _ => exact he.elim

/-- Without assurances, whatever asks for none can be done. -/
theorem spares_empty {e : Sys} (he : needs cfg e = ∅) : (assurances cfg).Spares ∅ e := fun _ =>
  ⟨he.subset, Set.empty_disjoint _⟩

/-- What is tame leaves everything alone. -/
theorem spares_of_tame (e : Sys) (he : Tame e = true) : (assurances cfg).Spares T e := by
  refine fun r => ⟨?_, ?_⟩
  · cases e with
    | sslConnect | sslAccept | sslRead | sslWrite | read | write => cases he
    | _ => exact fun k hk => absurd hk.2.2 Bool.false_ne_true
  · have hlost : loses ⟨e, r⟩ = ∅ := by
      cases e with
      | ssl call => cases call <;> first | rfl | cases he
      | connect | accept | sslConnect | sslAccept => cases he
      | _ => rfl
    exact Set.disjoint_of_subset_right hlost.subset (Set.disjoint_empty _)

theorem spares_close (fd : Fd) : (assurances cfg).Spares T (.close fd) := fun _ =>
  ⟨by simp [assurances, needs, inTheClear], Set.disjoint_empty _⟩

end Spares

/-! ### Opening a session -/

section Opening

variable {cfg : Config} {fd : Fd} {S : Set Assurance}

/-- What `SSL_CTX_set_verify` and the file of the authorities give. -/
def settings (wanted strict : Bool) (caFile : Option Bytes) : Set Assurance :=
  {k | wanted = true ∧ (k = .asking strict ∨ k = .trusting caFile)}

/-- A session that could not be opened is closed. -/
theorem assures_failOpen {s : TlsStream} {report : Proc Unit}
    (hr : Within ((assurances cfg).Spares ∅) report fun _ => True) :
    (assurances cfg).Keeps Legal S (failOpen s report) fun r _ => r = none := by
  refine (Accounts.keeps_spared hr (Set.empty_subset S)).bind fun _ S₁ _ => ?_
  have hclose : Within ((assurances cfg).Spares ∅) (wcatTlsClose s) fun _ => True :=
    within_wcatTlsClose (spares_empty (by simp [needs, inTheClear])) (spares_close _)
  exact (Accounts.keeps_spared hclose (Set.empty_subset S₁)).bind fun _ _ _ =>
    Accounts.keeps_pure rfl

theorem assures_configureVerify (wanted : Bool) (caFile : Option Bytes) :
    (assurances cfg).Keeps Legal S (configureVerify wanted caFile)
      fun r S' => r = none → settings wanted false caFile ⊆ S' := by
  refine Accounts.Keeps.gain (Set.empty_subset S) (spares_empty (by simp [needs, inTheClear]))
    fun _ S₁ hS₁ => Accounts.Keeps.ite (fun hwanted => ?_) fun hnot => ?_
  swap
  · exact Accounts.keeps_pure fun _ k hk => absurd hk.1 hnot
  have hasking : {Assurance.asking false} ⊆ S₁ := by
    subst hwanted
    exact (Set.subset_union_right).trans hS₁
  have hsettings : ∀ {S'} {k : Assurance}, {Assurance.asking false} ∪ {k} ⊆ S' →
      k = .trusting caFile → settings wanted false caFile ⊆ S' := by
    rintro S' _ hS' rfl k ⟨-, rfl | rfl⟩
    · exact hS' (Or.inl rfl)
    · exact hS' (Or.inr rfl)
  rcases caFile with _ | file
  · refine Accounts.Keeps.gain hasking (spares_of_tame _ rfl) fun ok S₂ hS₂ => ?_
    rcases ok with _ | _
    · exact Accounts.keeps_pure (by simp)
    · exact Accounts.keeps_pure fun _ => hsettings hS₂ rfl
  · refine Accounts.Keeps.gain hasking (spares_of_tame _ rfl) fun ok S₂ hS₂ => ?_
    rcases ok with _ | _
    · exact Accounts.keeps_pure (by simp)
    · exact Accounts.keeps_pure fun _ => hsettings hS₂ rfl

theorem assures_configureClientVerify (caFile : Option Bytes) (wanted : Bool) :
    (assurances cfg).Keeps Legal S (configureClientVerify caFile wanted)
      fun r S' => r = some true → settings wanted true caFile ⊆ S' := by
  refine Accounts.Keeps.ite (fun hwanted => ?_) fun hnot => ?_
  swap
  · exact Accounts.keeps_pure fun _ k hk => absurd hk.1 hnot
  rcases caFile with _ | file
  · exact Accounts.Keeps.gain (Set.empty_subset S) (spares_of_tame _ rfl) fun _ _ _ =>
      Accounts.keeps_pure (by simp)
  refine Accounts.Keeps.gain (Set.empty_subset S) (spares_of_tame _ rfl) fun ok S₁ hS₁ => ?_
  rcases ok with _ | _
  · exact Accounts.keeps_pure (by simp)
  have htrusting : {Assurance.trusting (some file)} ⊆ S₁ := (Set.subset_union_right).trans hS₁
  have hspares : (assurances cfg).Spares {.trusting (some file)} (.ssl (.setVerify true true)) := by
    refine fun _ => ⟨by simp [assurances, needs, inTheClear], ?_⟩
    simp [assurances, loses]
  refine Accounts.Keeps.gain htrusting hspares fun _ S₂ hS₂ => Accounts.keeps_pure fun _ => ?_
  rintro k ⟨-, rfl | rfl⟩
  · exact hS₂ (Or.inr rfl)
  · exact hS₂ (Or.inl rfl)

/-- **Before the handshake of a client**: the name is set. -/
theorem assures_set1Host {T : Set Assurance} (hT : T ⊆ S) (wanted : Bool) (name : Bytes) :
    (assurances cfg).Keeps Legal S (if wanted then sys (.ssl (.set1Host name)) else pure true)
      fun ok S' => T ⊆ S' ∧ (ok = true → wanted = true → .named name ∈ S') := by
  refine Accounts.Keeps.ite (fun _ => ?_) fun hnot => ?_
  · refine (Accounts.keeps_gained hT (spares_of_tame _ rfl)).mono fun ok S' hS' =>
      ⟨Set.subset_union_left.trans hS', ?_⟩
    rintro rfl -
    exact hS' (Or.inr rfl)
  · exact Accounts.keeps_pure ⟨hT, fun _ hwanted => absurd hwanted hnot⟩

/-- **After a handshake**: the certificate is verified. -/
theorem assures_verifyResult {T : Set Assurance} (hT : T ⊆ S) (wanted : Bool) :
    (assurances cfg).Keeps Legal S (if wanted then sys (.ssl .verifyResultOk) else pure true)
      fun ok S' => T ⊆ S' ∧ (ok = true → wanted = true → .verified ∈ S') := by
  refine Accounts.Keeps.ite (fun _ => ?_) fun hnot => ?_
  · refine (Accounts.keeps_gained hT (spares_of_tame _ rfl)).mono fun ok S' hS' =>
      ⟨Set.subset_union_left.trans hS', ?_⟩
    rintro rfl -
    exact hS' (Or.inr rfl)
  · exact Accounts.keeps_pure ⟨hT, fun _ hwanted => absurd hwanted hnot⟩

/-- A session that was opened on `fd`, with all that has to be assured. -/
def Opened (cfg : Config) (fd : Fd) (r : Option TlsStream) (S : Set Assurance) : Prop :=
  ∀ t ∈ r, t.fd = fd ∧ assured cfg fd ⊆ S

theorem opened_failOpen {s : TlsStream} {report : Proc Unit}
    (hr : Within ((assurances cfg).Spares ∅) report fun _ => True) :
    (assurances cfg).Keeps Legal S (failOpen s report) (Opened cfg fd) := by
  refine (assures_failOpen hr).mono ?_
  rintro _ S' rfl t ht
  cases ht

theorem spares_log (level : LogLevel) (event fmt : String) (args : List LogArg) {T : Set Assurance} :
    Within ((assurances cfg).Spares T) (sys (.log level event fmt args)) fun _ => True :=
  within_sys (spares_of_tame _ rfl)

/-- The handshake of a client, with all that it needs. -/
theorem spares_sslConnect {T : Set Assurance} (hT : settings cfg.tlsVerify false cfg.caFile ⊆ T)
    (hnamed : cfg.tlsVerify = true → .named cfg.serverName ∈ T) (hverified : .verified ∉ T) :
    (assurances cfg).Spares T (.sslConnect fd) := by
  refine fun _ => ⟨?_, Set.disjoint_singleton_right.mpr hverified⟩
  rintro k ⟨hverify, hk | hk | rfl⟩
  · exact hT ⟨hverify, Or.inl hk⟩
  · exact hT ⟨hverify, Or.inr hk⟩
  · exact hnamed hverify

/-- What the handshake of a client works with. -/
def terms (cfg : Config) : Set Assurance :=
  settings cfg.tlsVerify false cfg.caFile ∪ {k | cfg.tlsVerify = true ∧ k = .named cfg.serverName}

/-- **The handshake of a client**, and what it is worth. -/
theorem assures_sslConnect (hT : terms cfg ⊆ S) :
    (assurances cfg).Keeps Legal S (sys (.sslConnect fd)) fun ok S' => ok = true → .shaken fd ∈ S' := by
  have hspares : (assurances cfg).Spares (terms cfg) (.sslConnect fd) := by
    refine spares_sslConnect Set.subset_union_left (fun h => Or.inr ⟨h, rfl⟩) ?_
    rintro (⟨-, h | h⟩ | ⟨-, h⟩) <;> cases h
  refine (Accounts.keeps_gained hT hspares).mono ?_
  rintro _ S' hS' rfl
  exact hS' (Or.inr rfl)

/-- **A TLS client** has authenticated its server as it was told to. -/
theorem assures_wcatTlsClientOpen (hins : cfg.insists = cfg.tlsVerify) (cert key : Option Bytes) :
    (assurances cfg).Keeps Legal S
      (wcatTlsClientOpen fd cfg.serverName cfg.tlsVerify cfg.caFile cert key) (Opened cfg fd) := by
  have hreport : ∀ event message, Within ((assurances cfg).Spares ∅) (logOpensslError event message)
      fun _ => True := fun _ _ => spares_log _ _ _ _
  refine Accounts.Keeps.gain (Set.empty_subset S) (spares_empty (by simp [needs, inTheClear]))
    fun _ S₁ _ => Accounts.Keeps.ite (fun _ => opened_failOpen (hreport _ _)) fun _ => ?_
  refine (assures_configureVerify _ _).bind fun failure S₂ hset => ?_
  rcases failure with _ | message
  swap
  · exact opened_failOpen (hreport _ _)
  refine (Accounts.keeps_spared (within_clientCertificate spares_of_tame _ _) (hset rfl)).bind
    fun cert S₃ h₃ => ?_
  rcases cert with _ | _ | _
  · exact opened_failOpen (within_pure.mpr trivial)
  · exact opened_failOpen (hreport _ _)
  refine Accounts.Keeps.gain h₃.1 (spares_of_tame _ rfl) fun _ S₄ h₄ =>
    Accounts.Keeps.ite (fun _ => opened_failOpen (hreport _ _)) fun _ => ?_
  refine Accounts.Keeps.gain (Set.subset_union_left.trans h₄) (spares_of_tame _ rfl) fun _ S₅ h₅ => ?_
  refine (assures_set1Host (Set.subset_union_left.trans h₅) _ _).bind fun hostOk S₆ h₆ =>
    Accounts.Keeps.ite (fun _ => opened_failOpen (hreport _ _)) fun hhost => ?_
  have hterms : terms cfg ⊆ S₆ := by
    refine Set.union_subset h₆.1 ?_
    rintro _ ⟨hverify, rfl⟩
    exact h₆.2 (by simpa using hhost) hverify
  refine (assures_sslConnect hterms).bind fun connected S₇ h₇ =>
    Accounts.Keeps.ite (fun _ => opened_failOpen (hreport _ _)) fun hconnected => ?_
  have hshaken : {.shaken fd} ⊆ S₇ := Set.singleton_subset_iff.mpr (h₇ (by simpa using hconnected))
  refine (assures_verifyResult hshaken _).bind fun verified S₈ h₈ =>
    Accounts.Keeps.ite (fun _ => opened_failOpen (spares_log _ _ _ _)) fun hverified => ?_
  have hassured : assured cfg fd ⊆ S₈ := by
    rintro _ (rfl | ⟨rfl, hinsists⟩)
    · exact h₈.1 rfl
    · exact h₈.2 (by simpa using hverified) (hins ▸ hinsists)
  refine Accounts.Keeps.gain hassured (spares_of_tame _ rfl) fun _ S₉ h₉ => Accounts.keeps_pure ?_
  rintro _ ⟨⟩
  exact ⟨rfl, Set.subset_union_left.trans h₉⟩

/-- **A TLS server** has authenticated its client as it was told to. -/
theorem assures_wcatTlsServerOpen (hins : cfg.insists = true → cfg.tlsRequireClientCert = true)
    (cert key : Option Bytes) :
    (assurances cfg).Keeps Legal S
      (wcatTlsServerOpen fd cert key cfg.caFile cfg.tlsRequireClientCert) (Opened cfg fd) := by
  have hreport : ∀ event message, Within ((assurances cfg).Spares ∅) (logOpensslError event message)
      fun _ => True := fun _ _ => spares_log _ _ _ _
  rcases cert with _ | cert
  · exact opened_failOpen (within_sys (spares_of_tame _ rfl))
  rcases key with _ | key
  · exact opened_failOpen (within_sys (spares_of_tame _ rfl))
  refine Accounts.Keeps.gain (Set.empty_subset S) (spares_empty (by simp [needs, inTheClear]))
    fun _ S₁ _ => Accounts.Keeps.ite (fun _ => opened_failOpen (hreport _ _)) fun _ => ?_
  refine (Accounts.keeps_spared (within_useCertificate spares_of_tame _ _) (Set.empty_subset S₁)).bind
    fun _ S₂ _ => Accounts.Keeps.ite (fun _ => opened_failOpen (hreport _ _)) fun _ => ?_
  refine (assures_configureClientVerify _ _).bind fun configured S₃ h₃ => ?_
  rcases configured with _ | _ | _
  · exact opened_failOpen (within_pure.mpr trivial)
  · exact opened_failOpen (hreport _ _)
  refine Accounts.Keeps.gain (h₃ rfl) (spares_of_tame _ rfl) fun _ S₄ h₄ =>
    Accounts.Keeps.ite (fun _ => opened_failOpen (hreport _ _)) fun _ => ?_
  have hspares : (assurances cfg).Spares (settings cfg.tlsRequireClientCert true cfg.caFile)
      (.sslAccept fd) := by
    refine fun _ => ⟨fun k hk => hk, Set.disjoint_singleton_right.mpr ?_⟩
    rintro ⟨-, h | h⟩ <;> cases h
  refine Accounts.Keeps.gain (Set.subset_union_left.trans h₄) hspares fun accepted S₅ h₅ =>
    Accounts.Keeps.ite (fun _ => opened_failOpen (hreport _ _)) fun haccepted => ?_
  have hshaken : {.shaken fd} ⊆ S₅ := by
    obtain rfl : accepted = true := by simpa using haccepted
    exact Set.subset_union_right.trans h₅
  refine (assures_verifyResult hshaken _).bind fun verified S₆ h₆ =>
    Accounts.Keeps.ite (fun _ => opened_failOpen (spares_log _ _ _ _)) fun hverified => ?_
  have hassured : assured cfg fd ⊆ S₆ := by
    rintro _ (rfl | ⟨rfl, hinsists⟩)
    · exact h₆.1 rfl
    · exact h₆.2 (by simpa using hverified) (hins hinsists)
  refine Accounts.Keeps.gain hassured (spares_of_tame _ rfl) fun _ S₇ h₇ => Accounts.keeps_pure ?_
  rintro _ ⟨⟩
  exact ⟨rfl, Set.subset_union_left.trans h₇⟩

/-- **A QUIC client** has authenticated its server as it was told to. -/
theorem assures_wcatQuicClientOpen (hins : cfg.insists = cfg.tlsVerify) :
    (assurances cfg).Keeps Legal S (wcatQuicClientOpen cfg)
      fun r S' => ∀ t ∈ r, Opened cfg t.fd r S' := by
  have hreport : ∀ event message, Within ((assurances cfg).Spares ∅) (logOpensslError event message)
      fun _ => True := fun _ _ => spares_log _ _ _ _
  have hfail : ∀ {S : Set Assurance} {s : TlsStream} {report : Proc Unit},
      Within ((assurances cfg).Spares ∅) report (fun _ => True) →
      (assurances cfg).Keeps Legal S (failOpen s report) fun r S' => ∀ t ∈ r, Opened cfg t.fd r S' := by
    intro S s report hr
    refine (assures_failOpen hr).mono ?_
    rintro _ S' rfl t ht
    cases ht
  have hconfigure : ∀ S, (assurances cfg).Keeps Legal S (configureClientCtx cfg)
      fun ok S' => ok = true → settings cfg.tlsVerify false cfg.caFile ⊆ S' := by
    intro S
    refine (assures_configureVerify _ _).bind fun failure S₁ h₁ => ?_
    rcases failure with _ | message
    swap
    · exact (Accounts.keeps_spared (hreport _ _) (Set.empty_subset S₁)).bind fun _ _ _ =>
        Accounts.keeps_pure (by simp)
    refine (Accounts.keeps_spared (within_clientCertificate spares_of_tame _ _) (h₁ rfl)).bind
      fun cert S₂ h₂ => ?_
    rcases cert with _ | _ | _
    · exact Accounts.keeps_pure (by simp)
    · exact (Accounts.keeps_spared (hreport _ _) (Set.empty_subset S₂)).bind fun _ _ _ =>
        Accounts.keeps_pure (by simp)
    · exact Accounts.keeps_pure fun _ => h₂.1
  refine Accounts.Keeps.gain (Set.empty_subset S) (spares_empty (by simp [needs, inTheClear]))
    fun ctx S₁ _ => ?_
  have hctx : (assurances cfg).Keeps Legal S₁ (if ctx then configureClientCtx cfg else pure false)
      fun ok S' => ok = true → settings cfg.tlsVerify false cfg.caFile ⊆ S' :=
    Accounts.Keeps.ite (fun _ => hconfigure S₁) fun _ => Accounts.keeps_pure (by simp)
  refine hctx.bind fun configured S₂ h₂ => Accounts.Keeps.ite (fun _ => ?_) fun hconfigured => ?_
  · exact (Accounts.keeps_spared (hreport _ _) (Set.empty_subset S₂)).bind fun _ _ _ =>
      Accounts.keeps_pure (by simp)
  have hset := h₂ (by simpa using hconfigured)
  have hspares : ∀ e, needs cfg e = ∅ → (∀ r, ∀ k ∈ loses ⟨e, r⟩, k.ofContext = false) →
      (assurances cfg).Spares (settings cfg.tlsVerify false cfg.caFile) e := by
    refine fun e hneeds hloses r => ⟨hneeds.subset.trans (Set.empty_subset _), ?_⟩
    refine Set.disjoint_right.mpr fun k hk => ?_
    have hfalse := hloses r k hk
    rintro ⟨-, rfl | rfl⟩ <;> cases hfalse
  refine (Accounts.keeps_spared (within_openUdpPeer spares_of_tame (hspares _
    (by simp [needs, inTheClear]) fun _ _ hk => hk.elim) (fun m k => hspares _
      (by simp [needs, inTheClear]) ?_) fun m => spares_close _) hset).bind fun fd S₃ h₃ => ?_
  · rintro _ _ rfl
    rfl
  rcases fd with _ | fd
  · exact Accounts.keeps_pure (by simp)
  refine Accounts.Keeps.gain h₃.1 (spares_of_tame _ rfl) fun _ S₄ h₄ =>
    Accounts.Keeps.ite (fun _ => hfail (hreport _ _)) fun _ => ?_
  refine Accounts.Keeps.gain (Set.subset_union_left.trans h₄) (spares_of_tame _ rfl) fun _ S₅ h₅ =>
    Accounts.Keeps.ite (fun _ => hfail (hreport _ _)) fun _ => ?_
  refine Accounts.Keeps.gain (Set.subset_union_left.trans h₅) (spares_of_tame _ rfl) fun _ S₆ h₆ => ?_
  refine (assures_set1Host (Set.subset_union_left.trans h₆) _ _).bind fun hostOk S₇ h₇ =>
    Accounts.Keeps.ite (fun _ => hfail (hreport _ _)) fun hhost => ?_
  have hterms : terms cfg ⊆ S₇ := by
    refine Set.union_subset h₇.1 ?_
    rintro _ ⟨hverify, rfl⟩
    exact h₇.2 (by simpa using hhost) hverify
  refine (Accounts.keeps_spared (within_setAlpn spares_of_tame _) hterms).bind fun alpnOk S₈ h₈ => ?_
  have hpeer : Within ((assurances cfg).Spares (terms cfg))
      (if alpnOk then sys (.ssl .set1InitialPeerAddr) else pure false) fun _ => True :=
    Within.ite (fun _ => within_sys (spares_of_tame _ rfl)) fun _ => trivial
  refine (Accounts.keeps_spared hpeer h₈.1).bind fun peerOk S₉ h₉ =>
    Accounts.Keeps.ite (fun _ => hfail (hreport _ _)) fun _ => ?_
  refine (assures_sslConnect h₉.1).bind fun connected S₁₀ h₁₀ =>
    Accounts.Keeps.ite (fun _ => hfail (hreport _ _)) fun hconnected => ?_
  have hshaken : {.shaken fd} ⊆ S₁₀ := Set.singleton_subset_iff.mpr (h₁₀ (by simpa using hconnected))
  refine (assures_verifyResult hshaken _).bind fun verified S₁₁ h₁₁ =>
    Accounts.Keeps.ite (fun _ => hfail (spares_log _ _ _ _)) fun hverified => ?_
  have hassured : assured cfg fd ⊆ S₁₁ := by
    rintro _ (rfl | ⟨rfl, hinsists⟩)
    · exact h₁₁.1 rfl
    · exact h₁₁.2 (by simpa using hverified) (hins ▸ hinsists)
  refine Accounts.Keeps.gain hassured (spares_of_tame _ rfl) fun _ S₁₂ h₁₂ =>
    Accounts.Keeps.ite (fun _ => hfail (hreport _ _)) fun _ => Accounts.keeps_pure ?_
  rintro _ ⟨⟩ _ ⟨⟩
  exact ⟨rfl, Set.subset_union_left.trans h₁₂⟩

/-- Which side of a session the mode is on. -/
structure OnSide (cfg : Config) (serverSide : Bool) : Prop where
  client : serverSide = false → cfg.insists = cfg.tlsVerify
  server : serverSide = true → cfg.insists = true → cfg.tlsRequireClientCert = true

/-- A stream with a peer that was opened, if there is one. -/
def Sound (cfg : Config) (fd : Fd) (r : Option Stream) (S : Set Assurance) : Prop :=
  ∀ net ∈ r, PeerIn ((assurances cfg).Spares (due cfg fd)) net ∧ due cfg fd ⊆ S

theorem peerIn_tls (htls : cfg.tls = true) {t : TlsStream} (ht : t.fd = fd) (obj : Obj) :
    PeerIn ((assurances cfg).Spares (due cfg fd)) (wcatStreamFromTls obj t) := by
  have htalk : ∀ e, SslTalk t.fd e → (assurances cfg).Spares (due cfg fd) e := by
    rw [due, if_pos htls, ← ht]
    exact fun e he => spares_of_sslTalk he
  exact ⟨sslTalk_stream htalk, within_wcatTlsClose (htalk _ rfl) (spares_close _)⟩

theorem peerIn_plain (htls : ¬cfg.tls = true) (obj : Obj) :
    PeerIn ((assurances cfg).Spares (due cfg fd)) (wcatStreamFromFd obj fd) :=
  ⟨plainOn_stream (fun _ he => spares_of_plainOn htls he) (spares_close _),
    within_wcatCloseQuiet (spares_close _)⟩

/-- **The stream of a session** is opened with all that has to be assured. -/
theorem assures_networkStream {serverSide : Bool} (hside : OnSide cfg serverSide) (obj : Obj) :
    (assurances cfg).Keeps Legal S (networkStream cfg obj fd serverSide) (Sound cfg fd) := by
  refine Accounts.Keeps.ite (fun htls => ?_) fun htls => Accounts.keeps_pure ?_
  · have hopen : (assurances cfg).Keeps Legal S
        (if serverSide then
          wcatTlsServerOpen fd cfg.certFile cfg.keyFile cfg.caFile cfg.tlsRequireClientCert
        else wcatTlsClientOpen fd cfg.serverName cfg.tlsVerify cfg.caFile cfg.clientCertFile
          cfg.clientKeyFile) (Opened cfg fd) := by
      refine Accounts.Keeps.ite (fun hserver => ?_) fun hnot => ?_
      · exact assures_wcatTlsServerOpen (hside.server hserver) _ _
      · exact assures_wcatTlsClientOpen (hside.client (by simpa using hnot)) _ _
    refine hopen.bind fun r S' hr => Accounts.keeps_pure ?_
    rintro net hnet
    obtain ⟨t, ht, rfl⟩ := Option.mem_map.mp hnet
    obtain ⟨hfd, hassured⟩ := hr t ht
    refine ⟨peerIn_tls htls hfd obj, ?_⟩
    rwa [due, if_pos htls]
  · rintro _ ⟨⟩
    refine ⟨peerIn_plain htls obj, ?_⟩
    rw [due, if_neg htls]
    exact Set.empty_subset S

end Opening

/-! ### The modes -/

section Modes

variable {cfg : Config} {fd : Fd} {S : Set Assurance} {α : Type} {Q : α → Prop}

/-- A program that needs nothing. -/
theorem assures_spared {p : Proc α} (hp : Within ((assurances cfg).Spares ∅) p Q) :
    (assurances cfg).Keeps Legal S p fun a _ => Q a :=
  (Accounts.keeps_spared hp (Set.empty_subset S)).mono fun _ _ h => h.2

/-- A program for a peer that can be talked to. -/
theorem assures_due {p : Proc α} (hp : Within ((assurances cfg).Spares (due cfg fd)) p Q)
    (hdue : due cfg fd ⊆ S) : (assurances cfg).Keeps Legal S p fun a _ => Q a :=
  (Accounts.keeps_spared hp hdue).mono fun _ _ h => h.2

theorem spares_empty_of_domestic (e : Sys) (he : Domestic e = true) :
    (assurances cfg).Spares ∅ e :=
  spares_of_domestic (fun _ h => h.elim) e he

theorem spares_due_of_domestic (e : Sys) (he : Domestic e = true) :
    (assurances cfg).Spares (due cfg fd) e :=
  spares_of_domestic ofContext_due e he

theorem spares_socket (t : Transport) : (assurances cfg).Spares ∅ (.socket t) :=
  spares_empty (by simp [needs, inTheClear])

theorem spares_connect (fd : Fd) (addr : Addr) : (assurances cfg).Spares ∅ (.connect fd addr) :=
  spares_empty (by simp [needs, inTheClear])

theorem spares_accept (listener : Fd) : (assurances cfg).Spares ∅ (.accept listener) :=
  spares_empty (by simp [needs, inTheClear])

theorem spares_getpeername (fd : Fd) : (assurances cfg).Spares ∅ (.getpeername fd) :=
  spares_empty (by simp [needs, inTheClear])

/-- The dialogue with a proxy is in the clear. -/
theorem spares_proxyRead (fd : Fd) (cap off len : ℕ) :
    (assurances cfg).Spares ∅ (.read .handshake fd cap off len) :=
  spares_empty (by simp [needs, inTheClear])

theorem spares_proxyWrite (fd : Fd) (buf : Bytes) :
    (assurances cfg).Spares ∅ (.write .handshake fd buf) :=
  spares_empty (by simp [needs, inTheClear])

variable {serverSide : Bool} (hside : OnSide cfg serverSide)

include hside

theorem assures_peerStream :
    (assurances cfg).Keeps Legal S (peerStream cfg fd serverSide) (Sound cfg fd) := by
  refine (assures_networkStream hside .net).bind fun r S' hr => Accounts.keeps_pure ?_
  split_ifs with hsctp
  swap
  · exact hr
  intro net hnet
  obtain ⟨net', hnet', rfl⟩ := Option.mem_map.mp hnet
  have htls : ¬cfg.tls = true := by simpa using (Bool.and_eq_true_iff.mp hsctp).1
  refine ⟨⟨⟨fun len => spares_of_plainOn htls rfl, ?_⟩, within_wcatCloseQuiet (spares_close _)⟩,
    (hr net' hnet').2⟩
  rintro _ ⟨⟩
  exact ⟨fun buf => spares_of_plainOn htls rfl, fun hne => absurd rfl hne⟩

/-- **A peer is served** when all that has to be is assured. -/
theorem assures_relayPeer :
    (assurances cfg).Keeps Legal S (relayPeer cfg fd serverSide) fun _ _ => True := by
  have hd : ∀ e, Domestic e = true → (assurances cfg).Spares (due cfg fd) e :=
    spares_due_of_domestic
  refine Accounts.Keeps.ite (fun _ => ?_) fun _ => ?_
  · refine (assures_spared (within_spawnExec spares_empty_of_domestic cfg)).bind fun r S₁ hr => ?_
    rcases r with _ | proc
    · exact Accounts.keeps_pure trivial
    obtain ⟨hin, hout⟩ := hr proc rfl
    refine (assures_peerStream hside).bind fun r S₂ hr => ?_
    rcases r with _ | net
    · exact assures_spared (Q := fun _ => True)
        ((within_processFinish spares_empty_of_domestic proc).next fun _ => within_pure.mpr trivial)
    obtain ⟨⟨hnet, hclose⟩, hdue⟩ := hr net rfl
    refine assures_due (Q := fun _ => True) ?_ hdue
    refine (within_wcatRelayBidirectional (still_of_domestic hd) (hd _ rfl)
      (a := { net with closeOnEof := false }) hnet (streamIn_child hd hout hin) _).next fun _ => ?_
    exact (within_processFinish hd proc).next fun _ => hclose.next fun _ => trivial
  · refine (assures_peerStream hside).bind fun r S₁ hr => ?_
    rcases r with _ | net
    · exact Accounts.keeps_pure trivial
    obtain ⟨⟨hnet, hclose⟩, hdue⟩ := hr net rfl
    refine assures_due (Q := fun _ => True) ?_ hdue
    exact (within_wcatRelayBidirectional (still_of_domestic hd) (hd _ rfl) hnet
      (streamIn_stdioStream hd) _).next fun _ => hclose.next fun _ => trivial

/-- **The listener that serves one peer at a time.** -/
theorem assures_listenRounds (hserver : serverSide = true) (listener : Fd) :
    (assurances cfg).Keeps Legal S (Prog.loop (listenRound cfg listener) 0) fun _ _ => True := by
  subst hserver
  have hd : ∀ e, Domestic e = true → (assurances cfg).Spares ∅ e := spares_empty_of_domestic
  refine Accounts.Keeps.loop (fun _ _ => True) trivial fun status S _ => ?_
  have hanything : ∀ (r : ℕ ⊕ ℕ) (S' : Set Assurance), True →
      Sum.elim (fun _ => True) (fun _ => True) r := by
    rintro (_ | _) _ _ <;> trivial
  have hagain : ∀ (S' : Set Assurance) (status : ℕ), (assurances cfg).Keeps Legal S'
      (listenAgain cfg status) fun r _ => Sum.elim (fun _ => True) (fun _ => True) r := by
    intro S' status
    refine (assures_spared (p := listenAgain cfg status) (Q := fun _ => True) ?_).mono hanything
    refine Within.ite (fun _ => ?_) fun _ => trivial
    exact Within.step (hd _ rfl) fun _ => Within.ite (fun _ => trivial) fun _ => trivial
  refine (assures_spared (within_acceptWhenReady (still_of_domestic hd) (hd _ rfl)
    (spares_accept listener) _)).bind fun r S₁ _ => ?_
  rcases r with _ | peer
  · refine (assures_spared (Q := fun _ => True) ?_).mono hanything
    exact Within.step (hd _ rfl) fun _ => Within.ite (fun _ => trivial) fun _ =>
      Within.step (hd _ rfl) fun _ => trivial
  refine (assures_spared (within_wcatAccessCheckFd (still_of_domestic hd) (spares_getpeername _)
    cfg)).bind fun ok S₂ _ => Accounts.Keeps.ite (fun _ => ?_) fun _ => ?_
  · exact (assures_spared (within_wcatCloseQuiet (hd _ rfl))).bind fun _ S₃ _ => hagain S₃ status
  · refine (assures_spared (within_sys (hd _ rfl))).bind fun _ S₃ _ => ?_
    exact (assures_relayPeer hside).bind fun status S₄ _ => hagain S₄ status

/-- **The receiver of a file.** -/
theorem assures_recvClient (hserver : serverSide = true) (listener : Fd) (n : ℕ) :
    (assurances cfg).Keeps Legal S (recvClient cfg listener (.file n)) fun _ _ => True := by
  subst hserver
  have hd : ∀ e, Domestic e = true → (assurances cfg).Spares ∅ e := spares_empty_of_domestic
  have hclose : ∀ fd, Within ((assurances cfg).Spares ∅) (wcatCloseQuiet fd) fun _ => True :=
    fun fd => within_wcatCloseQuiet (hd _ rfl)
  refine (assures_spared (within_acceptWhenReady (still_of_domestic hd) (hd _ rfl)
    (spares_accept listener) _)).bind fun r S₁ _ => ?_
  rcases r with _ | peer
  · exact assures_spared (Q := fun _ => True)
      ((hclose _).next fun _ => (hclose _).next fun _ => trivial)
  refine (assures_spared (within_wcatAccessCheckFd (still_of_domestic hd) (spares_getpeername _)
    cfg)).bind fun ok S₂ _ => Accounts.Keeps.ite (fun _ => ?_) fun _ => ?_
  · exact assures_spared (Q := fun _ => True) ((hclose _).next fun _ => (hclose _).next fun _ =>
      (hclose _).next fun _ => trivial)
  refine (assures_spared (within_sys (hd _ rfl))).bind fun _ S₃ _ => ?_
  refine (assures_networkStream hside .src).bind fun r S₄ hr => ?_
  rcases r with _ | src
  · exact assures_spared (Q := fun _ => True)
      ((hclose _).next fun _ => (hclose _).next fun _ => trivial)
  · exact assures_due (within_recvStream spares_due_of_domestic (hr src rfl).1 listener n)
      (hr src rfl).2

/-- **The sender of a file.** -/
theorem assures_sendOpenFile (hclient : serverSide = false) (proxy : Proxy) (n : ℕ) :
    (assurances cfg).Keeps Legal S (sendOpenFile cfg proxy (.file n)) fun _ _ => True := by
  subst hclient
  have hd : ∀ e, Domestic e = true → (assurances cfg).Spares ∅ e := spares_empty_of_domestic
  have hclose : ∀ fd, Within ((assurances cfg).Spares ∅) (wcatCloseQuiet fd) fun _ => True :=
    fun fd => within_wcatCloseQuiet (hd _ rfl)
  refine (assures_spared (within_sendSocket (quiet_of_domestic hd) (spares_socket _)
    (fun _ _ => spares_connect _ _) (fun _ => hd _ rfl) (fun _ => spares_proxyRead _) fun _ => spares_proxyWrite _)).bind
      fun r S₁ _ => ?_
  rcases r with _ | sock
  · exact assures_spared (Q := fun _ => True)
      (Within.step (hd _ rfl) fun _ => (hclose _).next fun _ => trivial)
  refine (assures_networkStream hside .dst).bind fun r S₂ hr => ?_
  rcases r with _ | dst
  · exact assures_spared (Q := fun _ => True) ((hclose _).next fun _ => trivial)
  obtain ⟨⟨hdst, hcloseDst⟩, hdue⟩ := hr dst rfl
  refine assures_due (Q := fun _ => True) ?_ hdue
  have hdue' : ∀ e, Domestic e = true → (assurances cfg).Spares (due cfg sock) e :=
    spares_due_of_domestic
  exact (within_wcatCopyStream (still_of_domestic hdue') (hdue' _ rfl) (streamIn_file hdue' _ n)
    hdst _).next fun _ => hcloseDst.next fun _ =>
      (within_wcatCloseQuiet (hdue' _ rfl)).next fun _ => trivial

theorem assures_wcatSendFile (hclient : serverSide = false) :
    (assurances cfg).Keeps Legal S (wcatSendFile cfg) fun _ _ => True := by
  have hd : ∀ e, Domestic e = true → (assurances cfg).Spares ∅ e := spares_empty_of_domestic
  refine (assures_spared (within_sys (hd _ rfl))).bind fun r S₁ _ => ?_
  rcases r with err | n
  · exact assures_spared (Q := fun _ => True) (Within.step (hd _ rfl) fun _ => trivial)
  rcases hproxy : wcatProxyParse cfg.proxyUrl with _ | proxy
  · simp only
    exact assures_spared (Q := fun _ => True) (Within.step (hd _ rfl) fun _ =>
      (within_wcatCloseQuiet (hd _ rfl)).next fun _ => trivial)
  · simp only
    exact assures_sendOpenFile hside hclient proxy n

/-- **A client.** -/
theorem assures_runConnect (hclient : serverSide = false) :
    (assurances cfg).Keeps Legal S (runConnect cfg) fun _ _ => True := by
  subst hclient
  have hd : ∀ e, Domestic e = true → (assurances cfg).Spares ∅ e := spares_empty_of_domestic
  refine (assures_spared (within_connectSocket hd (spares_socket _) (fun _ _ _ _ => spares_connect _ _)
    (fun _ => spares_proxyRead _) fun _ => spares_proxyWrite _)).bind fun r S₁ _ => ?_
  rcases r with _ | fd
  · exact assures_spared (Q := fun _ => True) (Within.step (hd _ rfl) fun _ => trivial)
  · refine (assures_spared (within_sys (hd _ rfl))).bind fun _ S₂ _ => ?_
    exact assures_relayPeer hside

theorem assures_runQuicConnect (hclient : serverSide = false) :
    (assurances cfg).Keeps Legal S (runQuicConnect cfg) fun _ _ => True := by
  refine (assures_wcatQuicClientOpen (hside.client hclient)).bind fun r S₁ hr => ?_
  rcases r with _ | quic
  · exact Accounts.keeps_pure trivial
  have hassured := (hr quic rfl quic rfl).2
  refine (Accounts.keeps_spared (within_sys (spares_of_tame _ rfl)) hassured).bind fun _ S₂ h₂ => ?_
  refine (Accounts.keeps_spared ?_ h₂.1).mono fun _ _ h => h.2
  exact within_serveQuicStream (spares_of_domestic ofContext_assured) fun _ he => spares_of_sslTalk he

omit hside in
/-- A QUIC connection that was accepted has a handshake behind it. -/
theorem assures_wcatQuicAccept (listener : QuicListener) :
    (assurances cfg).Keeps Legal S (wcatQuicAccept listener)
      fun r S' => ∀ t ∈ r, t.fd = listener.fd ∧ .shaken t.fd ∈ S' := by
  have hd : ∀ e, Domestic e = true → (assurances cfg).Spares ∅ e := spares_empty_of_domestic
  refine Accounts.Keeps.bind (Q := fun ok S' => ok = true → .shaken listener.fd ∈ S')
    (Accounts.Keeps.loop (fun _ _ => True) trivial fun _ S _ => ?_) fun accepted S₁ h₁ => ?_
  · refine Accounts.Keeps.gain (Set.empty_subset S) (hd _ rfl) fun stop S₁ _ =>
      Accounts.Keeps.ite (fun _ => ?_) fun _ => ?_
    · exact Accounts.Keeps.gain (Set.empty_subset S₁) (hd _ rfl) fun _ _ _ =>
        Accounts.keeps_pure (by simp)
    refine Accounts.Keeps.gain (Set.empty_subset S₁) (hd _ rfl) fun handled S₂ _ =>
      Accounts.Keeps.ite (fun _ => ?_) fun _ => ?_
    · exact (assures_spared (within_logOpensslError (still_of_domestic hd) _ _)).bind fun _ _ _ =>
        Accounts.keeps_pure (by simp)
    refine Accounts.Keeps.gain (Set.empty_subset S₂) (hd _ rfl) fun came S₃ h₃ =>
      Accounts.Keeps.ite (fun hcame => Accounts.keeps_pure fun _ => ?_) fun _ => ?_
    · subst hcame
      exact h₃ (Or.inr rfl)
    refine (assures_spared (within_waitForQuicActivity (still_of_domestic hd) _ _)).bind
      fun active S₄ _ => Accounts.Keeps.ite (fun _ => Accounts.keeps_pure trivial) fun _ => ?_
    exact Accounts.Keeps.gain (Set.empty_subset S₄) (hd _ rfl) fun _ _ _ =>
      Accounts.keeps_pure (by simp)
  · refine Accounts.Keeps.ite (fun _ => Accounts.keeps_pure (by simp)) fun haccepted => ?_
    have hshaken : {.shaken listener.fd} ⊆ S₁ :=
      Set.singleton_subset_iff.mpr (h₁ (by simpa using haccepted))
    refine Accounts.Keeps.gain hshaken (spares_of_tame _ rfl) fun blocking S₂ h₂ =>
      Accounts.Keeps.ite (fun _ => ?_) fun _ => Accounts.keeps_pure ?_
    · exact (assures_spared (within_logOpensslError (still_of_domestic hd) _ _)).bind fun _ _ _ =>
        Accounts.keeps_pure (by simp)
    · rintro _ ⟨⟩
      exact ⟨rfl, h₂ (Or.inl rfl)⟩

omit hside in
theorem assures_runQuicListen (hins : cfg.insists = false) :
    (assurances cfg).Keeps Legal S (runQuicListen cfg) fun _ _ => True := by
  have hd : ∀ e, Domestic e = true → (assurances cfg).Spares ∅ e := spares_empty_of_domestic
  have hclose : ∀ listener : QuicListener,
      Within ((assurances cfg).Spares ∅) (wcatQuicListenerClose listener) fun _ => True :=
    fun listener => within_wcatCloseQuiet (hd _ rfl)
  refine (assures_spared (within_wcatQuicListenerOpen (quiet_of_domestic hd) (spares_socket _)
    fun _ => hd _ rfl)).bind fun r S₁ _ => ?_
  rcases r with _ | listener
  · exact Accounts.keeps_pure trivial
  refine (assures_spared (within_sys (hd _ rfl))).bind fun _ S₂ _ => ?_
  refine (assures_wcatQuicAccept listener).bind fun r S₃ hr => ?_
  rcases r with _ | quic
  · exact assures_spared (Q := fun _ => True) ((hclose listener).next fun _ =>
      Within.step (hd _ rfl) fun _ => trivial)
  have hassured : assured cfg quic.fd ⊆ S₃ := by
    rintro k (rfl | ⟨-, hinsists⟩)
    · exact (hr quic rfl).2
    · exact absurd (hins.symm.trans hinsists) Bool.false_ne_true
  refine (Accounts.keeps_spared (within_sys (spares_of_tame _ rfl)) hassured).bind fun _ S₄ h₄ => ?_
  refine (Accounts.keeps_spared (within_serveQuicStream (spares_of_domestic ofContext_assured)
    fun _ he => spares_of_sslTalk he) h₄.1).bind fun status S₅ _ => ?_
  exact (assures_spared (hclose listener)).bind fun _ _ _ => Accounts.keeps_pure trivial

theorem assures_runListen (hserver : serverSide = true) (hmulti : cfg.multi = false) :
    (assurances cfg).Keeps Legal S (runListen cfg) fun _ _ => True := by
  have hd : ∀ e, Domestic e = true → (assurances cfg).Spares ∅ e := spares_empty_of_domestic
  refine Accounts.Keeps.ite (fun h => absurd h (by simp [hmulti])) fun _ =>
    Accounts.Keeps.ite (fun _ => ?_) fun _ => ?_
  · refine (assures_spared (within_wcatUdpBind (quiet_of_domestic hd) (spares_socket _)
      (fun _ => hd _ rfl) _ _ _)).bind fun r S₁ _ => ?_
    rcases r with _ | listener
    · exact assures_spared (Q := fun _ => True) (Within.step (hd _ rfl) fun _ => trivial)
    · exact hserver ▸ assures_relayPeer hside
  · refine (assures_spared (within_openListener hd (spares_socket _))).bind fun r S₁ _ => ?_
    rcases r with _ | listener
    · exact assures_spared (Q := fun _ => True) (Within.step (hd _ rfl) fun _ => trivial)
    refine (assures_spared (Q := fun _ => True) ?_).bind fun _ S₂ _ => ?_
    · exact Within.ite (fun _ => within_sys (hd _ rfl)) fun _ => within_sys (hd _ rfl)
    exact (assures_listenRounds hside hserver listener).bind fun _ S₃ _ =>
      (assures_spared (within_wcatCloseQuiet (hd _ rfl))).bind fun _ _ _ => Accounts.keeps_pure trivial

theorem assures_wcatRecvFile (hserver : serverSide = true) (hudp : cfg.tls = true → cfg.udp = false) :
    (assurances cfg).Keeps Legal S (wcatRecvFile cfg) fun _ _ => True := by
  have hd : ∀ e, Domestic e = true → (assurances cfg).Spares ∅ e := spares_empty_of_domestic
  have hfailed : ∀ n, Within ((assurances cfg).Spares ∅) (do
      sys (.logErrno "listen" (lit "listen failed"))
      wcatCloseQuiet (.file n)
      pure 1) fun _ => True := fun n =>
    Within.step (hd _ rfl) fun _ => (within_wcatCloseQuiet (hd _ rfl)).next fun _ => trivial
  refine (assures_spared (within_sys (hd _ rfl))).bind fun r S₁ _ => ?_
  rcases r with err | n
  · exact assures_spared (Q := fun _ => True) (Within.step (hd _ rfl) fun _ => trivial)
  by_cases hon : cfg.udp = true
  · simp only [hon, if_true]
    refine (assures_spared (within_wcatUdpBind (quiet_of_domestic hd) (spares_socket _)
      (fun _ => hd _ rfl) _ _ _)).bind fun r S₂ _ => ?_
    rcases r with _ | listener
    · exact assures_spared (hfailed n)
    have htls : ¬cfg.tls = true := fun htls => absurd (hon.symm.trans (hudp htls)) (by simp)
    have hdue : due cfg listener ⊆ S₂ := by
      rw [due, if_neg htls]
      exact Set.empty_subset S₂
    exact assures_due (within_recvStream spares_due_of_domestic (peerIn_plain htls .src) listener n)
      hdue
  · simp only [hon, if_false, Bool.false_eq_true]
    refine (assures_spared (within_inetListen (quiet_of_domestic hd) (spares_socket _)
      (fun _ => hd _ rfl) _ _ _ _)).bind fun r S₂ _ => ?_
    rcases r with _ | listener
    · exact assures_spared (hfailed n)
    · exact assures_recvClient hside hserver listener n

end Modes

/-! ### Every run -/

/-- **The modes that talk TLS** keep the ledger. -/
theorem assures_dispatch {cfg : Config} {S : Set Assurance}
    (hmode : cfg.mode = .connect ∨ cfg.mode = .listen ∨ cfg.mode = .send ∨ cfg.mode = .recv)
    (hmulti : cfg.multi = false) (hudp : cfg.tls = true → cfg.udp = false) :
    (assurances cfg).Keeps Legal S (dispatch cfg) fun _ _ => True := by
  have hclient : cfg.mode = .connect ∨ cfg.mode = .send → OnSide cfg false := by
    rintro (hm | hm) <;> exact ⟨fun _ => by simp [Config.insists, hm], by simp⟩
  have hserver : cfg.mode = .listen ∨ cfg.mode = .recv → OnSide cfg true := by
    refine fun hm => ⟨by simp, fun _ hins => ?_⟩
    rcases hm with hm | hm
    all_goals
      rw [Config.insists, hm] at hins
      exact (Bool.and_eq_true_iff.mp hins).1
  rw [dispatch]
  rcases hmode with hm | hm | hm | hm
  · simp only [hm]
    have hside := hclient (.inl hm)
    exact Accounts.Keeps.ite (fun _ => assures_runQuicConnect hside rfl)
      fun _ => assures_runConnect hside rfl
  · simp only [hm]
    refine Accounts.Keeps.ite (fun hquic => assures_runQuicListen ?_)
      fun _ => assures_runListen (hserver (.inl hm)) rfl hmulti
    simp [Config.insists, hm, hquic]
  · simp only [hm]
    exact assures_wcatSendFile (hclient (.inr hm)) rfl
  · simp only [hm]
    exact assures_wcatRecvFile (hserver (.inr hm)) rfl hudp

section Runs

variable {argv : List Bytes} {cfg : Config} {h g : Hist} {o : Option ℕ} {e : Sys} {r : Resp e}

/-- **Peers are authenticated before they are talked to**: on a command line that asks for TLS,
whatever is done has before it what it needs. -/
theorem wcatMain_authenticated (hp : wcatParseArgs argv = .ok cfg) (htls : cfg.tls = true)
    (hmode : cfg.mode = .connect ∨ cfg.mode = .listen ∨ cfg.mode = .send ∨ cfg.mode = .recv)
    (hr : Runs Legal (wcatMain argv) [] h o) (hev : ⟨e, r⟩ :: g <:+ h) :
    needs cfg e ⊆ (assurances cfg).held g := by
  have hacc := wcatParseArgs_accepted hp
  have hmulti : cfg.multi = false := by
    by_contra hon
    exact absurd (htls.symm.trans (hacc.multi_tls (by simpa using hon))) (by simp)
  rw [wcatMain, hp] at hr
  have hkeeps := assures_dispatch (S := (assurances cfg).held []) hmode hmulti hacc.tls_udp
  exact (hkeeps.run hr).1 _ g hev List.nil_suffix

/-- Nothing gives leave to exchange bytes in the clear. -/
theorem cleartext_notMem_held : .cleartext ∉ (assurances cfg).held h := by
  induction h with
  | nil => exact Set.notMem_empty _
  | cons ev h ih =>
    rintro (hmem | hmem)
    · exact ih hmem.1
    · simp only [assurances, gains] at hmem
      split at hmem <;> cases hmem

/-- **TLS that is asked for is used**: no byte is exchanged with a peer in the clear. -/
theorem wcatMain_confidential (hp : wcatParseArgs argv = .ok cfg) (htls : cfg.tls = true)
    (hmode : cfg.mode = .connect ∨ cfg.mode = .listen ∨ cfg.mode = .send ∨ cfg.mode = .recv)
    (hr : Runs Legal (wcatMain argv) [] h o) : ∀ ev ∈ h, inTheClear ev.1 = false := by
  rintro ⟨e, r⟩ hev
  obtain ⟨later, earlier, rfl⟩ := List.append_of_mem hev
  have hneeds := wcatMain_authenticated hp htls hmode hr (List.suffix_append later _)
  by_contra hclear
  have htrue : inTheClear e = true := by simpa using hclear
  refine cleartext_notMem_held (hneeds ?_)
  cases e with
  | read | write => exact ⟨rfl, htls, htrue⟩
  | _ => cases htrue

end Runs

/-- A command line that asks for TLS. -/
def tlsArgs : List Bytes := ["wcat", "connect", "--tls", "h", "1"].map lit

/-- What it is read as. -/
def tlsConfig : Config :=
  { mode := .connect, host := some (lit "h"), port := some (lit "1"), tls := true }

theorem wcatParseArgs_tlsArgs : wcatParseArgs tlsArgs = .ok tlsConfig := by decide +kernel

/-- An environment in which the server is authenticated, and ends at once. -/
def tlsServer (_ : Hist) : (e : Sys) → Resp e
  | .stop => false
  | .getaddrinfo _ _ _ _ _ => some 1
  | .socket _ => .ok 3
  | .connect _ _ | .close _ => none
  | .ssl _ | .sslConnect _ | .setNonblock _ _ => true
  | .poll fds _ => .reporting fds (fds.map fun p => { pollin := p.fd = some (.sock .tcp 3) })
  | e => refuse e

/-- The run against it. -/
def tlsRun : Hist × Option ℕ := exec (lawful tlsServer) 100 (wcatMain tlsArgs) []

theorem runs_tlsRun : Runs Legal (wcatMain tlsArgs) [] tlsRun.1 tlsRun.2 :=
  exec_runs (legal_lawful tlsServer) 100 _ []

/-- Whether a request reads from a TLS session on `fd`. -/
def sslReadsOn (fd : Fd) : Sys → Bool
  | .sslRead _ f _ => f = fd
  | _ => false

/-- The server is read from, after a handshake that verified its certificate. -/
theorem wcatMain_authenticated_tlsRun : ∃ ev, ev :: tlsRun.1.drop 3 <:+ tlsRun.1 ∧
    needs tlsConfig ev.1 = {.shaken (.sock .tcp 3), .verified} ∧
      needs tlsConfig ev.1 ⊆ (assurances tlsConfig).held (tlsRun.1.drop 3) := by
  have hany : (tlsRun.1[2]?.any fun ev => sslReadsOn (.sock .tcp 3) ev.1) = true := by
    decide +kernel
  obtain ⟨⟨e, r⟩, hread, hmatch⟩ := (Option.any_eq_true _ _).mp hany
  have hsuf : ⟨e, r⟩ :: tlsRun.1.drop 3 <:+ tlsRun.1 := by
    obtain ⟨hlen, hget⟩ := List.getElem?_eq_some_iff.mp hread
    rw [← hget, ← List.drop_eq_getElem_cons hlen]
    exact List.drop_suffix _ _
  refine ⟨⟨e, r⟩, hsuf, ?_, wcatMain_authenticated wcatParseArgs_tlsArgs rfl (.inl rfl)
    runs_tlsRun hsuf⟩
  cases e with
  | sslRead o fd len =>
    obtain rfl : fd = .sock .tcp 3 := of_decide_eq_true hmatch
    ext k
    simp [needs, assured, Config.insists, tlsConfig]
  | _ => cases hmatch

/-- It is read from, and nothing is exchanged with it in the clear. -/
theorem wcatMain_confidential_tlsRun :
    (tlsRun.1.any fun ev => sslReadsOn (.sock .tcp 3) ev.1) = true ∧
      ∀ ev ∈ tlsRun.1, inTheClear ev.1 = false := by
  constructor
  · decide +kernel
  · exact wcatMain_confidential wcatParseArgs_tlsArgs rfl (.inl rfl) runs_tlsRun

end Wirecat
