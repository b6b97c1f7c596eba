import P2pClipboard.Certificate

/-!
# The nonce of the sealed signatures

`lib/tls/src/lib.rs`, `lib/tls/src/upgrade.rs` and the sealing half of
`lib/tls/src/certificate.rs`.  A node makes two certificates at every start, one for
each end of a connection, and `encrypt_ext_signature` seals the signature of each.
An AEAD wants a new nonce for every plaintext under one key.  The key of the seal
comes from the pre-shared key and the identity key, and the nonce is a constant, so
that nothing in the pair changes from one certificate to the next.

The functions are followed a second time with a log of the seals made so far.
Forgetting the log gives the functions of `Certificate` back
(`generateLogged_fst`); what a call adds to it is `generateSeals`.

## Main definitions

* `Seal`, `NonceUnique` — a use of the AEAD, and the rule about nonces.
* `generateLogged`, `newWithPsk` — the code, with the log of its seals.
* `generateAll`, `starts` — sequences of calls, and a node started again and again.

## Main results

* `starts_eq_generateAll` — a run of starts is a sequence of calls of `generate`.
* `nonceUnique_generateAll_iff` — **nonces are used once exactly when nothing is
  sealed or all signed certificate keys are the same.**
* `not_nonceUnique_newWithPsk` — one start is enough to use a nonce twice.
-/

namespace P2pClipboard

namespace Certificate

/-! ### The rule about nonces -/

/-- A use of an AEAD. -/
structure Seal (Key : Type) where
  /-- The key. -/
  key : Key
  /-- The nonce. -/
  nonce : Bytes
  /-- What was sealed. -/
  plaintext : Bytes

/-- No two different plaintexts are sealed under the same key and nonce. -/
def NonceUnique {Key : Type} (log : List (Seal Key)) : Prop :=
  ∀ s ∈ log, ∀ t ∈ log, s.key = t.key → s.nonce = t.nonce → s.plaintext = t.plaintext

theorem nonceUnique_nil {Key : Type} : NonceUnique ([] : List (Seal Key)) := by
  intro s hs
  cases hs

/-- Under one key and one nonce there is room for one plaintext. -/
theorem nonceUnique_iff_of_constant {Key : Type} {log : List (Seal Key)}
    (h : ∀ s ∈ log, ∀ t ∈ log, s.key = t.key ∧ s.nonce = t.nonce) :
    NonceUnique log ↔ ∀ s ∈ log, ∀ t ∈ log, s.plaintext = t.plaintext := by
  constructor
  · intro hunique s hs t ht
    exact hunique s hs t ht (h s hs t ht).1 (h s hs t ht).2
  · intro hplain s hs t ht _ _
    exact hplain s hs t ht

/-! ### The code, with a log of its seals -/

section Code

variable (P : Primitives)

/-- `encrypt_ext_signature`; a seal that was made is entered in the log. -/
def encryptExtSignatureLogged (log : List (Seal P.AeadKey)) (rawSignature : Bytes)
    (psk : String) (publicKey : Bytes) : Option Bytes × List (Seal P.AeadKey) :=
  match sealingKey P psk publicKey with
  | none => (none, log)
  | some key =>
      match P.sealInPlace key nonce [] rawSignature with
      | none => (none, log)
      | some out => (some out, log ++ [⟨key, nonce, rawSignature⟩])

/-- The signature as it is put in the extension. -/
def signatureToExtensionLogged (log : List (Seal P.AeadKey)) (preSharedKey : Option String)
    (raw publicKey : Bytes) : Option Bytes × List (Seal P.AeadKey) :=
  match preSharedKey with
  | some psk => encryptExtSignatureLogged P log raw psk publicKey
  | none => (some raw, log)

/-- `make_libp2p_extension`. -/
def makeLibp2pExtensionLogged (log : List (Seal P.AeadKey)) (identityKeypair : P.Keypair)
    (certificateKeypair : P.CertificateKeypair) (preSharedKey : Option String) :
    Except GenError Extension × List (Seal P.AeadKey) :=
  let serializedPubkey := P.encodeProtobuf (P.publicOf identityKeypair)
  let msg := signingPrefix ++ P.publicKeyDer certificateKeypair
  match P.sign identityKeypair msg with
  | none => (.error .ringUnspecified, log)
  | some raw =>
      match signatureToExtensionLogged P log preSharedKey raw serializedPubkey with
      | (none, log) => (.error .ringKeyRejected, log)
      | (some signature, log) =>
          (.ok ⟨.p2pExt, true, P.encodeDer (serializedPubkey, signature)⟩, log)

/-- `generate`, with the certificate key it draws as an argument. -/
def generateLogged (log : List (Seal P.AeadKey)) (identityKeypair : P.Keypair)
    (certificateKeypair : P.CertificateKeypair) (preSharedKey : Option String) :
    Except GenError P.CertificateDer × List (Seal P.AeadKey) :=
  match makeLibp2pExtensionLogged P log identityKeypair certificateKeypair preSharedKey with
  | (.error e, log) => (.error e, log)
  | (.ok ext, log) =>
      match P.selfSigned certificateKeypair [ext] with
      | none => (.error .notSigned, log)
      | some der => (.ok der, log)

/-- What a server configuration depends on: its certificate, and the pre-shared key
its verifier opens the client's signature with. -/
structure ServerConfig where
  certificate : P.CertificateDer
  preSharedKey : Option String

/-- What a client configuration depends on. -/
structure ClientConfig where
  certificate : P.CertificateDer
  remotePeerId : Option PeerId
  preSharedKey : Option String

/-- `Config`. -/
structure Config where
  server : ServerConfig P
  client : ClientConfig P
  preSharedKey : Option String

/-- `make_server_config`. -/
def makeServerConfig (log : List (Seal P.AeadKey)) (keypair : P.Keypair)
    (certificateKeypair : P.CertificateKeypair) (psk : Option String) :
    Except GenError (ServerConfig P) × List (Seal P.AeadKey) :=
  match generateLogged P log keypair certificateKeypair psk with
  | (.error e, log) => (.error e, log)
  | (.ok certificate, log) => (.ok ⟨certificate, psk⟩, log)

/-- `make_client_config`. -/
def makeClientConfig (log : List (Seal P.AeadKey)) (keypair : P.Keypair)
    (certificateKeypair : P.CertificateKeypair) (remotePeerId : Option PeerId)
    (psk : Option String) : Except GenError (ClientConfig P) × List (Seal P.AeadKey) :=
  match generateLogged P log keypair certificateKeypair psk with
  | (.error e, log) => (.error e, log)
  | (.ok certificate, log) => (.ok ⟨certificate, remotePeerId, psk⟩, log)

/-- `Config::new_with_psk`, applied to an identity: the client's certificate is made
when the server's was. -/
def newWithPsk (log : List (Seal P.AeadKey)) (psk : Option String) (identity : P.Keypair)
    (serverKeypair clientKeypair : P.CertificateKeypair) :
    Except GenError (Config P) × List (Seal P.AeadKey) :=
  match makeServerConfig P log identity serverKeypair psk with
  | (.error e, log) => (.error e, log)
  | (.ok server, log) =>
      match makeClientConfig P log identity clientKeypair none psk with
      | (.error e, log) => (.error e, log)
      | (.ok client, log) => (.ok ⟨server, client, psk⟩, log)

/-- The log after `generate` was called with each of the certificate keys. -/
def generateAll (log : List (Seal P.AeadKey)) (identityKeypair : P.Keypair)
    (preSharedKey : Option String) (certificateKeypairs : List P.CertificateKeypair) :
    List (Seal P.AeadKey) :=
  certificateKeypairs.foldl
    (fun log certificateKeypair =>
      (generateLogged P log identityKeypair certificateKeypair preSharedKey).2) log

/-- The log after a node was started with each of the pairs of certificate keys. -/
def starts (log : List (Seal P.AeadKey)) (psk : Option String) (identity : P.Keypair)
    (keypairs : List (P.CertificateKeypair × P.CertificateKeypair)) :
    List (Seal P.AeadKey) :=
  keypairs.foldl (fun log pair => (newWithPsk P log psk identity pair.1 pair.2).2) log

/-- The certificate keys a start makes certificates for. -/
def startKeypairs (psk : Option String) (identity : P.Keypair)
    (pair : P.CertificateKeypair × P.CertificateKeypair) : List P.CertificateKeypair :=
  match generate P identity pair.1 psk with
  | .error _ => [pair.1]
  | .ok _ => [pair.1, pair.2]

/-- The seal of a signature; there is none when the sealing fails. -/
def signatureSeals (rawSignature : Bytes) (psk : String) (publicKey : Bytes) :
    List (Seal P.AeadKey) :=
  ((sealingKey P psk publicKey).bind fun key =>
    (P.sealInPlace key nonce [] rawSignature).map fun _ => ⟨key, nonce, rawSignature⟩).toList

/-- The seals of an extension: without a pre-shared key there is none. -/
def extensionSeals (preSharedKey : Option String) (raw publicKey : Bytes) :
    List (Seal P.AeadKey) :=
  match preSharedKey with
  | some psk => signatureSeals P raw psk publicKey
  | none => []

/-- The seals of a call of `generate`. -/
def generateSeals (identityKeypair : P.Keypair) (preSharedKey : Option String)
    (certificateKeypair : P.CertificateKeypair) : List (Seal P.AeadKey) :=
  match P.sign identityKeypair (signingPrefix ++ P.publicKeyDer certificateKeypair) with
  | none => []
  | some raw => extensionSeals P preSharedKey raw (P.encodeProtobuf (P.publicOf identityKeypair))

end Code

/-! ### What the log tells -/

section Log

variable {P : Primitives} (log : List (Seal P.AeadKey))

theorem encryptExtSignatureLogged_eq (raw : Bytes) (psk : String) (publicKey : Bytes) :
    encryptExtSignatureLogged P log raw psk publicKey =
      (encryptExtSignature P raw psk publicKey, log ++ signatureSeals P raw psk publicKey) := by
  rw [encryptExtSignatureLogged, encryptExtSignature, signatureSeals]
  cases sealingKey P psk publicKey with
  | none => simp
  | some key => cases hseal : P.sealInPlace key nonce [] raw <;> simp [hseal]

theorem signatureToExtensionLogged_eq (p : Option String) (raw publicKey : Bytes) :
    signatureToExtensionLogged P log p raw publicKey =
      (signatureToExtension P p raw publicKey, log ++ extensionSeals P p raw publicKey) := by
  cases p with
  | none => simp [signatureToExtensionLogged, signatureToExtension, extensionSeals]
  | some psk =>
    show encryptExtSignatureLogged P log raw psk publicKey =
      (encryptExtSignature P raw psk publicKey, log ++ signatureSeals P raw psk publicKey)
    exact encryptExtSignatureLogged_eq log raw psk publicKey

theorem makeLibp2pExtensionLogged_eq (k : P.Keypair) (certKey : P.CertificateKeypair)
    (p : Option String) :
    makeLibp2pExtensionLogged P log k certKey p =
      (makeLibp2pExtension P k certKey p, log ++ generateSeals P k p certKey) := by
  simp only [makeLibp2pExtensionLogged, makeLibp2pExtension, generateSeals,
    signatureToExtensionLogged_eq]
  cases P.sign k (signingPrefix ++ P.publicKeyDer certKey) with
  | none => simp
  | some raw =>
    cases hto : signatureToExtension P p raw (P.encodeProtobuf (P.publicOf k)) <;> simp [hto]

/-- A call of `generate` does what it did without the log, and enters its seals. -/
theorem generateLogged_eq (k : P.Keypair) (certKey : P.CertificateKeypair)
    (p : Option String) :
    generateLogged P log k certKey p =
      (generate P k certKey p, log ++ generateSeals P k p certKey) := by
  rw [generateLogged, makeLibp2pExtensionLogged_eq, generate]
  cases makeLibp2pExtension P k certKey p with
  | error e => rfl
  | ok ext => cases hder : P.selfSigned certKey [ext] <;> simp [hder]

/-- So the log is only looked on. -/
theorem generateLogged_fst (k : P.Keypair) (certKey : P.CertificateKeypair)
    (p : Option String) : (generateLogged P log k certKey p).1 = generate P k certKey p := by
  rw [generateLogged_eq]

/-- A sequence of calls enters the seals of each. -/
theorem generateAll_eq (k : P.Keypair) (p : Option String)
    (certKeys : List P.CertificateKeypair) :
    generateAll P log k p certKeys = log ++ certKeys.flatMap (generateSeals P k p) := by
  induction certKeys generalizing log with
  | nil => simp [generateAll]
  | cons certKey certKeys ih =>
    rw [generateAll, List.foldl_cons, ← generateAll, ih, generateLogged_eq, List.flatMap_cons,
      List.append_assoc]

/-- A start makes the server's certificate, and then the client's. -/
theorem newWithPsk_snd (p : Option String) (k : P.Keypair)
    (pair : P.CertificateKeypair × P.CertificateKeypair) :
    (newWithPsk P log p k pair.1 pair.2).2 = generateAll P log k p (startKeypairs P p k pair) := by
  rw [newWithPsk, makeServerConfig, startKeypairs, generateLogged_eq]
  cases generate P k pair.1 p with
  | error e => simp [generateAll, generateLogged_eq]
  | ok server =>
    simp only [makeClientConfig, generateAll, List.foldl_cons, List.foldl_nil, generateLogged_eq]
    cases generate P k pair.2 p <;> rfl

/-- A start whose certificates are made has a configuration. -/
theorem newWithPsk_eq_ok {p : Option String} {k : P.Keypair}
    {serverKey clientKey : P.CertificateKeypair} {server client : P.CertificateDer}
    (hserver : generate P k serverKey p = .ok server)
    (hclient : generate P k clientKey p = .ok client) :
    newWithPsk P log p k serverKey clientKey =
      (.ok ⟨⟨server, p⟩, ⟨client, none, p⟩, p⟩,
        generateAll P log k p [serverKey, clientKey]) := by
  simp only [newWithPsk, makeServerConfig, makeClientConfig, generateAll, List.foldl_cons,
    List.foldl_nil, generateLogged_eq, hserver, hclient]

/-- **A run of starts is a sequence of calls** of `generate`. -/
theorem starts_eq_generateAll (p : Option String) (k : P.Keypair)
    (pairs : List (P.CertificateKeypair × P.CertificateKeypair)) :
    starts P log p k pairs =
      generateAll P log k p (pairs.flatMap (startKeypairs P p k)) := by
  induction pairs generalizing log with
  | nil => rfl
  | cons pair pairs ih =>
    rw [starts, List.foldl_cons, ← starts, ih, newWithPsk_snd, List.flatMap_cons, generateAll,
      generateAll, generateAll, List.foldl_append]

end Log

/-! ### When nonces are used once -/

/-- What is assumed of an identity key and of the AEAD. -/
structure Primitives.SealsSignatures (P : Primitives) (k : P.Keypair) : Prop where
  /-- Different messages have different signatures. -/
  sign_injective : ∀ m m' s, P.sign k m = some s → P.sign k m' = some s → m = m'
  /-- An HMAC-SHA256 has the length of a ChaCha20-Poly1305 key. -/
  unboundKey_hmac : ∀ key msg, (P.unboundKey (P.hmacSign key msg)).isSome
  /-- Signatures can be sealed. -/
  seal_signature : ∀ m s key, P.sign k m = some s → (P.sealInPlace key nonce [] s).isSome

/-- The identity key signs a certificate key. -/
def Signs (P : Primitives) (k : P.Keypair) (certKey : P.CertificateKeypair) : Prop :=
  (P.sign k (signingPrefix ++ P.publicKeyDer certKey)).isSome

section Reuse

variable {P : Primitives} {k : P.Keypair}

theorem mem_generateSeals_iff {psk : String} {certKey : P.CertificateKeypair}
    {s : Seal P.AeadKey} :
    s ∈ generateSeals P k (some psk) certKey ↔
      P.sign k (signingPrefix ++ P.publicKeyDer certKey) = some s.plaintext ∧
        sealingKey P psk (P.encodeProtobuf (P.publicOf k)) = some s.key ∧ s.nonce = nonce ∧
        (P.sealInPlace s.key nonce [] s.plaintext).isSome := by
  obtain ⟨key, n, plaintext⟩ := s
  rw [generateSeals]
  cases P.sign k (signingPrefix ++ P.publicKeyDer certKey) with
  | none => simp
  | some raw =>
    simp only [extensionSeals, signatureSeals, Option.mem_toList, Option.bind_eq_some_iff,
      Option.map_eq_some_iff, Option.isSome_iff_exists, Option.some_inj, Seal.mk.injEq]
    constructor
    · rintro ⟨_, hkey, out, hout, rfl, rfl, rfl⟩
      exact ⟨rfl, hkey, rfl, out, hout⟩
    · rintro ⟨rfl, hkey, rfl, out, hout⟩
      exact ⟨key, hkey, out, hout, rfl, rfl, rfl⟩

theorem generateSeals_none (k : P.Keypair) (certKey : P.CertificateKeypair) :
    generateSeals P k none certKey = [] := by
  rw [generateSeals]
  cases P.sign k (signingPrefix ++ P.publicKeyDer certKey) <;> rfl

/-- With a pre-shared key, whatever is signed is sealed. -/
theorem exists_mem_generateSeals (assumed : P.SealsSignatures k) (psk : String)
    {certKey : P.CertificateKeypair} {raw : Bytes}
    (hraw : P.sign k (signingPrefix ++ P.publicKeyDer certKey) = some raw) :
    ∃ s ∈ generateSeals P k (some psk) certKey, s.plaintext = raw := by
  obtain ⟨key, hkey⟩ := Option.isSome_iff_exists.1
    (assumed.unboundKey_hmac (P.encodeProtobuf (P.publicOf k)) (utf8 psk))
  refine ⟨⟨key, nonce, raw⟩, mem_generateSeals_iff.2 ?_, rfl⟩
  exact ⟨hraw, hkey, rfl, assumed.seal_signature _ _ _ hraw⟩

/-- All seals of an identity and a pre-shared key have the same key and the same
nonce: only the signature is the certificate's own. -/
theorem constant_of_mem_generateSeals {psk : String} {certKey certKey' : P.CertificateKeypair}
    {s t : Seal P.AeadKey} (hs : s ∈ generateSeals P k (some psk) certKey)
    (ht : t ∈ generateSeals P k (some psk) certKey') : s.key = t.key ∧ s.nonce = t.nonce := by
  obtain ⟨-, hkey, hnonce, -⟩ := mem_generateSeals_iff.1 hs
  obtain ⟨-, hkey', hnonce', -⟩ := mem_generateSeals_iff.1 ht
  exact ⟨Option.some.inj (hkey.symm.trans hkey'), hnonce.trans hnonce'.symm⟩

/-- With a pre-shared key, nonces are used once exactly when the certificate keys that
were signed are the same. -/
theorem nonceUnique_generateAll_some_iff (assumed : P.SealsSignatures k) (psk : String)
    (certKeys : List P.CertificateKeypair) :
    NonceUnique (generateAll P [] k (some psk) certKeys) ↔
      ∀ c ∈ certKeys, ∀ c' ∈ certKeys, Signs P k c → Signs P k c' →
        P.publicKeyDer c = P.publicKeyDer c' := by
  have hconstant : ∀ s ∈ certKeys.flatMap (generateSeals P k (some psk)),
      ∀ t ∈ certKeys.flatMap (generateSeals P k (some psk)),
        s.key = t.key ∧ s.nonce = t.nonce := by
    intro s hs t ht
    obtain ⟨c, -, hs⟩ := List.mem_flatMap.1 hs
    obtain ⟨c', -, ht⟩ := List.mem_flatMap.1 ht
    exact constant_of_mem_generateSeals hs ht
  rw [generateAll_eq, List.nil_append, nonceUnique_iff_of_constant hconstant]
  constructor
  · intro hplain c hc c' hc' hsigns hsigns'
    obtain ⟨raw, hraw⟩ := Option.isSome_iff_exists.1 hsigns
    obtain ⟨raw', hraw'⟩ := Option.isSome_iff_exists.1 hsigns'
    obtain ⟨s, hs, rfl⟩ := exists_mem_generateSeals assumed psk hraw
    obtain ⟨t, ht, rfl⟩ := exists_mem_generateSeals assumed psk hraw'
    have hsame : s.plaintext = t.plaintext :=
      hplain s (List.mem_flatMap.2 ⟨c, hc, hs⟩) t (List.mem_flatMap.2 ⟨c', hc', ht⟩)
    -- one signature, so one message, which ends in the certificate's key
    rw [← hsame] at hraw'
    exact List.append_cancel_left (assumed.sign_injective _ _ _ hraw hraw')
  · intro hkeys s hs t ht
    obtain ⟨c, hc, hs⟩ := List.mem_flatMap.1 hs
    obtain ⟨c', hc', ht⟩ := List.mem_flatMap.1 ht
    have hraw := (mem_generateSeals_iff.1 hs).1
    have hraw' := (mem_generateSeals_iff.1 ht).1
    have hsame : P.publicKeyDer c = P.publicKeyDer c' :=
      hkeys c hc c' hc' (Option.isSome_of_eq_some hraw) (Option.isSome_of_eq_some hraw')
    rw [hsame, hraw'] at hraw
    exact (Option.some.inj hraw).symm

/-- **Nonces are used once exactly when nothing is sealed, or all certificate keys
that were signed are the same.**  The nonce and the key of the seal are the same for
every certificate, and certificates with different keys have different signatures. -/
theorem nonceUnique_generateAll_iff (P : Primitives) (k : P.Keypair)
    (assumed : P.SealsSignatures k) (psk : Option String)
    (certKeys : List P.CertificateKeypair) :
    NonceUnique (generateAll P [] k psk certKeys) ↔
      psk = none ∨ ∀ c ∈ certKeys, ∀ c' ∈ certKeys, Signs P k c → Signs P k c' →
        P.publicKeyDer c = P.publicKeyDer c' := by
  cases psk with
  | none =>
    have hnil : certKeys.flatMap (generateSeals P k none) = [] :=
      List.flatMap_eq_nil_iff.2 fun c _ => generateSeals_none k c
    simp only [generateAll_eq, hnil, List.append_nil, nonceUnique_nil, true_or]
  | some psk =>
    simp only [nonceUnique_generateAll_some_iff assumed, reduceCtorEq, false_or]

/-- A certificate that was made was signed. -/
theorem signs_of_generate_eq_ok {certKey : P.CertificateKeypair} {p : Option String}
    {der : P.CertificateDer} (h : generate P k certKey p = .ok der) : Signs P k certKey := by
  show (P.sign k (signingPrefix ++ P.publicKeyDer certKey)).isSome
  rw [generate, makeLibp2pExtension] at h
  cases hraw : P.sign k (signingPrefix ++ P.publicKeyDer certKey) with
  | none =>
    rw [hraw] at h
    cases h
  | some raw => rfl

/-- **One start is enough**: with a pre-shared key, a configuration whose two
certificates have different keys was made with one nonce for both. -/
theorem not_nonceUnique_newWithPsk (assumed : P.SealsSignatures k) {psk : String}
    {server client : P.CertificateKeypair} {config : Config P}
    (hconfig : (newWithPsk P [] (some psk) k server client).1 = .ok config)
    (hkeys : P.publicKeyDer server ≠ P.publicKeyDer client) :
    ¬NonceUnique (newWithPsk P [] (some psk) k server client).2 := by
  simp only [newWithPsk, makeServerConfig, makeClientConfig, generateLogged_eq] at hconfig
  cases hserver : generate P k server (some psk) with
  | error e =>
    rw [hserver] at hconfig
    cases hconfig
  | ok serverDer =>
    cases hclient : generate P k client (some psk) with
    | error e =>
      rw [hserver, hclient] at hconfig
      cases hconfig
    | ok clientDer =>
      rw [newWithPsk_eq_ok [] hserver hclient]
      intro hunique
      apply hkeys
      apply (nonceUnique_generateAll_some_iff assumed psk _).1 hunique
      · exact List.mem_cons_self
      · exact List.mem_cons_of_mem _ List.mem_cons_self
      · exact signs_of_generate_eq_ok hserver
      · exact signs_of_generate_eq_ok hclient

end Reuse

private theorem samplePrimitives_sealsSignatures (k : Bytes) :
    samplePrimitives.SealsSignatures k where
  sign_injective m m' s hm hm' := by
    have heq := Option.some.inj (hm.trans hm'.symm)
    exact List.append_cancel_left (List.cons.inj heq).2
  unboundKey_hmac _ _ := rfl
  seal_signature _ _ _ _ := rfl

private theorem generate_samplePrimitives (k certKey : Bytes) (p : Option String) :
    ∃ der, generate samplePrimitives k certKey p = .ok der := by
  cases p with
  | none => exact ⟨_, rfl⟩
  | some psk => exact ⟨_, rfl⟩

/-- With a pre-shared key the same certificate may be made twice, and without one any
two. -/
theorem generateAll_same_certificate :
    NonceUnique (generateAll samplePrimitives [] [7] (some "psk") [[9], [9]]) ∧
      NonceUnique (generateAll samplePrimitives [] [7] none [[9], [10]]) := by
  have hassumed := samplePrimitives_sealsSignatures [7]
  constructor
  · apply (nonceUnique_generateAll_iff samplePrimitives [7] hassumed (some "psk") _).2
    have hnine : ∀ c ∈ ([[9], [9]] : List Bytes), c = [9] := by simp
    refine .inr fun c hc c' hc' _ _ => ?_
    rw [hnine c hc, hnine c' hc']
  · exact (nonceUnique_generateAll_iff samplePrimitives [7] hassumed none _).2 (.inl rfl)

/-- The first start of a node with a pre-shared key: both certificates are made, and
two signatures are sealed with one nonce under one key. -/
theorem generateAll_first_start :
    samplePrimitives.SealsSignatures [7] ∧
      (∃ config, (newWithPsk samplePrimitives [] (some "psk") [7] [9] [10]).1 = .ok config) ∧
      (newWithPsk samplePrimitives [] (some "psk") [7] [9] [10]).2 =
        generateAll samplePrimitives [] [7] (some "psk") [[9], [10]] ∧
      ¬NonceUnique (generateAll samplePrimitives [] [7] (some "psk") [[9], [10]]) := by
  have hassumed := samplePrimitives_sealsSignatures [7]
  obtain ⟨server, hserver⟩ := generate_samplePrimitives [7] [9] (some "psk")
  obtain ⟨client, hclient⟩ := generate_samplePrimitives [7] [10] (some "psk")
  have hstart := newWithPsk_eq_ok [] hserver hclient
  refine ⟨hassumed, ⟨_, congrArg Prod.fst hstart⟩, congrArg Prod.snd hstart, ?_⟩
  intro hunique
  have hkeys := (nonceUnique_generateAll_some_iff hassumed "psk" [[9], [10]]).1 hunique
    [9] List.mem_cons_self [10] (List.mem_cons_of_mem _ List.mem_cons_self) rfl rfl
  exact absurd hkeys (by decide)

end Certificate

end P2pClipboard
