import P2pClipboard.Swarm

/-!
# Certificates with a pre-shared key

`lib/tls/src/certificate.rs`.  A node's TLS certificate carries, in an extension,
its public identity key and a signature made with the identity key over the
certificate's own key.  With a pre-shared key the signature is sealed: the sealing
key is an HMAC of the pre-shared key under the public identity key.  A verifier
opens the seal with its own pre-shared key and then checks the signature.

The cryptography and the encodings are outside: they are a `Primitives`, and
`Ideal` says what is assumed of them.

## Main definitions

* `Primitives`, `Primitives.Ideal` — the libraries used, and the assumptions.
* `generate`, `parse` — making a certificate, and checking one.
* `parseUnverified`, `P2pCertificate.verify` — the two halves of `parse`.

## Main results

* `decryptExtSignature_iff` — a sealed signature opens exactly under the same
  pre-shared key.
* `parse_generate_iff` — **a certificate is accepted exactly when both sides have
  the same pre-shared key**, or both have none, and then shows the peer's identity.
-/

namespace P2pClipboard

namespace Certificate

/-! ### X.509 -/

/-- The object identifiers the code compares with. -/
inductive Oid
  | p2pExt
  | rsaEncryption
  | sha256WithRsa
  | sha384WithRsa
  | sha512WithRsa
  | rsassaPss
  | sha256
  | sha384
  | sha512
  | ecPublicKey
  | ecP256
  | ecP384
  | ecP521
  | ecdsaWithSha256
  | ecdsaWithSha384
  | ecdsaWithSha512
  | ed25519
  | ed448
  /-- Any other one. -/
  | other (arcs : List ℕ)
  deriving DecidableEq, Repr

/-- The parameters of an algorithm. -/
inductive AlgorithmParameters
  /-- An object identifier, such as a named curve. -/
  | oid (o : Oid)
  /-- The parameters of RSASSA-PSS, of which only the hash matters. -/
  | rsassaPss (hashAlgorithm : Oid)
  /-- Anything else. -/
  | other
  deriving DecidableEq, Repr

/-- An algorithm with its parameters. -/
structure AlgorithmIdentifier where
  algorithm : Oid
  parameters : Option AlgorithmParameters
  deriving DecidableEq, Repr

/-- An extension of a certificate. -/
structure Extension where
  oid : Oid
  critical : Bool
  value : Bytes
  deriving DecidableEq, Repr

/-- A parsed certificate. -/
structure X509Certificate where
  extensions : List Extension
  /-- The certificate is valid at the time it is checked. -/
  isValid : Bool
  signatureAlgorithm : AlgorithmIdentifier
  /-- The algorithm of the certificate's key. -/
  subjectAlgorithm : AlgorithmIdentifier
  /-- The bits of the certificate's key. -/
  subjectPublicKey : Bytes
  /-- The certificate's key with its algorithm, as it stands in the certificate. -/
  subjectPkiRaw : Bytes
  /-- What the certificate's signature is over. -/
  tbsCertificate : Bytes
  signatureValue : Bytes
  deriving DecidableEq, Repr

/-- The signature schemes of TLS. -/
inductive SignatureScheme
  | rsaPkcs1Sha1
  | rsaPkcs1Sha256
  | rsaPkcs1Sha384
  | rsaPkcs1Sha512
  | ecdsaSha1Legacy
  | ecdsaNistp256Sha256
  | ecdsaNistp384Sha384
  | ecdsaNistp521Sha512
  | rsaPssSha256
  | rsaPssSha384
  | rsaPssSha512
  | ed25519
  | ed448
  deriving DecidableEq, Repr

/-- The errors of `webpki` the code returns. -/
inductive ParseError
  | badDer
  | extensionValueInvalid
  | unknownIssuer
  | unsupportedCriticalExtension
  | invalidCertValidity
  | signatureAlgorithmMismatch
  | unsupportedSignatureAlgorithm
  | unsupportedSignatureAlgorithmForPublicKey
  | invalidSignatureForPublicKey
  deriving DecidableEq, Repr

/-- The errors of `rcgen` the code returns. -/
inductive GenError
  | ringUnspecified
  | ringKeyRejected
  /-- The certificate could not be signed. -/
  | notSigned
  deriving DecidableEq, Repr

/-! ### What is outside -/

/-- The libraries used: identity keys, `ring`, `yasna`, `rcgen` and `x509-parser`. -/
structure Primitives where
  /-- Identity key pairs. -/
  Keypair : Type
  /-- Public identity keys. -/
  PublicKey : Type
  /-- The public half of a key pair. -/
  publicOf : Keypair → PublicKey
  /-- Sign with an identity key. -/
  sign : Keypair → Bytes → Option Bytes
  /-- Check a signature of an identity key. -/
  verify : PublicKey → Bytes → Bytes → Bool
  /-- The protobuf encoding of a public key. -/
  encodeProtobuf : PublicKey → Bytes
  /-- Its decoding. -/
  tryDecodeProtobuf : Bytes → Option PublicKey
  /-- The peer a public key belongs to. -/
  toPeerId : PublicKey → PeerId
  /-- HMAC-SHA256, of a message under a key. -/
  hmacSign : Bytes → Bytes → Bytes
  /-- Keys of the AEAD. -/
  AeadKey : Type
  /-- `UnboundKey::new` for ChaCha20-Poly1305. -/
  unboundKey : Bytes → Option AeadKey
  /-- `seal_in_place_append_tag`: key, nonce, associated data, plaintext. -/
  sealInPlace : AeadKey → Bytes → Bytes → Bytes → Option Bytes
  /-- `open_in_place`: key, nonce, associated data, ciphertext. -/
  openInPlace : AeadKey → Bytes → Bytes → Bytes → Option Bytes
  /-- The DER encoding of a pair of byte strings. -/
  encodeDer : Bytes × Bytes → Bytes
  /-- Its decoding. -/
  decodeDer : Bytes → Option (Bytes × Bytes)
  /-- Certificate key pairs. -/
  CertificateKeypair : Type
  /-- The public key of one, with its algorithm. -/
  publicKeyDer : CertificateKeypair → Bytes
  /-- Encoded certificates. -/
  CertificateDer : Type
  /-- A certificate with the given custom extensions, signed by its own key. -/
  selfSigned : CertificateKeypair → List Extension → Option CertificateDer
  /-- `X509Certificate::from_der`. -/
  fromDer : CertificateDer → Option X509Certificate
  /-- Check a signature under a scheme and the bits of a public key. -/
  verifyWith : SignatureScheme → Bytes → Bytes → Bytes → Bool

/-! ### The code -/

section Code

variable (P : Primitives)

/-- `P2P_SIGNING_PREFIX`. -/
def signingPrefix : Bytes := utf8 "libp2p-tls-handshake:"

/-- The nonce of the seal. -/
def nonce : Bytes := utf8 "p2pclipboard"

/-- The sealing key for a pre-shared key. -/
def sealingKey (psk : String) (publicKey : Bytes) : Option P.AeadKey :=
  P.unboundKey (P.hmacSign publicKey (utf8 psk))

/-- `encrypt_ext_signature`. -/
def encryptExtSignature (rawSignature : Bytes) (psk : String) (publicKey : Bytes) :
    Option Bytes :=
  (sealingKey P psk publicKey).bind fun key => P.sealInPlace key nonce [] rawSignature

/-- `decrypt_ext_signature`. -/
def decryptExtSignature (rawSignature : Bytes) (psk : String) (publicKey : Bytes) :
    Option Bytes :=
  (sealingKey P psk publicKey).bind fun key => P.openInPlace key nonce [] rawSignature

/-- The signature as it is put in the extension. -/
def signatureToExtension (preSharedKey : Option String) (raw publicKey : Bytes) :
    Option Bytes :=
  match preSharedKey with
  | some psk => encryptExtSignature P raw psk publicKey
  | none => some raw

/-- The signature as it is taken from the extension. -/
def signatureFromExtension (preSharedKey : Option String) (signature publicKey : Bytes) :
    Option Bytes :=
  match preSharedKey with
  | some psk => decryptExtSignature P signature psk publicKey
  | none => some signature

/-- `make_libp2p_extension`. -/
def makeLibp2pExtension (identityKeypair : P.Keypair)
    (certificateKeypair : P.CertificateKeypair) (preSharedKey : Option String) :
    Except GenError Extension :=
  let serializedPubkey := P.encodeProtobuf (P.publicOf identityKeypair)
  let msg := signingPrefix ++ P.publicKeyDer certificateKeypair
  match P.sign identityKeypair msg with
  | none => .error .ringUnspecified
  | some raw =>
      match signatureToExtension P preSharedKey raw serializedPubkey with
      | none => .error .ringKeyRejected
      | some signature => .ok ⟨.p2pExt, true, P.encodeDer (serializedPubkey, signature)⟩

/-- `generate`, with the certificate key it draws as an argument. -/
def generate (identityKeypair : P.Keypair) (certificateKeypair : P.CertificateKeypair)
    (preSharedKey : Option String) : Except GenError P.CertificateDer :=
  match makeLibp2pExtension P identityKeypair certificateKeypair preSharedKey with
  | .error e => .error e
  | .ok ext =>
      match P.selfSigned certificateKeypair [ext] with
      | none => .error .notSigned
      | some der => .ok der

/-- The contents of the extension. -/
structure P2pExtension where
  publicKey : P.PublicKey
  signature : Bytes

/-- A certificate with its extension. -/
structure P2pCertificate where
  certificate : X509Certificate
  extension : P2pExtension P

/-- One round of the loop over the extensions. -/
def parseExtension (preSharedKey : Option String) (found : Option (P2pExtension P))
    (ext : Extension) : Except ParseError (Option (P2pExtension P)) :=
  if ext.oid = .p2pExt then
    if found.isSome then .error .badDer
    else
      match P.decodeDer ext.value with
      | none => .error .extensionValueInvalid
      | some (publicKey, signature) =>
          match signatureFromExtension P preSharedKey signature publicKey with
          | none => .error .extensionValueInvalid
          | some signature =>
              match P.tryDecodeProtobuf publicKey with
              | none => .error .unknownIssuer
              | some publicKey => .ok (some ⟨publicKey, signature⟩)
  else if ext.critical then .error .unsupportedCriticalExtension
  else .ok found

/-- `parse_unverified`. -/
def parseUnverified (der : P.CertificateDer) (preSharedKey : Option String) :
    Except ParseError (P2pCertificate P) :=
  match P.fromDer der with
  | none => .error .badDer
  | some x509 => do
      let found ← x509.extensions.foldlM (parseExtension P preSharedKey) none
      match found with
      | none => .error .badDer
      | some extension => .ok ⟨x509, extension⟩

/-- `signature_scheme`. -/
def signatureScheme (certificate : X509Certificate) : Except ParseError SignatureScheme :=
  let signature := certificate.signatureAlgorithm.algorithm
  let remaining : Except ParseError SignatureScheme :=
    if signature = .ed25519 then .ok .ed25519
    else if signature = .ed448 then .ok .ed448
    else .error .unsupportedSignatureAlgorithm
  match certificate.subjectAlgorithm.algorithm with
  | .rsaEncryption =>
      match signature with
      | .sha256WithRsa => .ok .rsaPkcs1Sha256
      | .sha384WithRsa => .ok .rsaPkcs1Sha384
      | .sha512WithRsa => .ok .rsaPkcs1Sha512
      | .rsassaPss =>
          match certificate.signatureAlgorithm.parameters with
          | some (.rsassaPss .sha256) => .ok .rsaPssSha256
          | some (.rsassaPss .sha384) => .ok .rsaPssSha384
          | some (.rsassaPss .sha512) => .ok .rsaPssSha512
          | _ => .error .unsupportedSignatureAlgorithm
      | _ => remaining
  | .ecPublicKey =>
      match certificate.subjectAlgorithm.parameters with
      | some (.oid curve) =>
          if curve = .ecP256 ∧ signature = .ecdsaWithSha256 then .ok .ecdsaNistp256Sha256
          else if curve = .ecP384 ∧ signature = .ecdsaWithSha384 then .ok .ecdsaNistp384Sha384
          else if curve = .ecP521 ∧ signature = .ecdsaWithSha512 then .ok .ecdsaNistp521Sha512
          else .error .unsupportedSignatureAlgorithm
      | _ => .error .badDer
  | _ => remaining

/-- The schemes for which `public_key` finds a verification algorithm. -/
def SignatureScheme.Supported : SignatureScheme → Bool
  | .rsaPkcs1Sha1 | .ecdsaSha1Legacy | .ecdsaNistp521Sha512 | .ed448 => false
  | _ => true

/-- `verify_signature`, with the key of `public_key`. -/
def verifySignature (certificate : X509Certificate) (scheme : SignatureScheme)
    (message signature : Bytes) : Except ParseError Unit := do
  let current ← signatureScheme certificate
  if scheme ≠ current then .error .unsupportedSignatureAlgorithmForPublicKey
  else if scheme.Supported = false then .error .unsupportedSignatureAlgorithm
  else if P.verifyWith scheme certificate.subjectPublicKey message signature then .ok ()
  else .error .invalidSignatureForPublicKey

/-- `P2pCertificate::verify`. -/
def P2pCertificate.verify (cert : P2pCertificate P) : Except ParseError Unit :=
  if cert.certificate.isValid = false then .error .invalidCertValidity
  else do
    let scheme ← signatureScheme cert.certificate
    match verifySignature P cert.certificate scheme cert.certificate.tbsCertificate
        cert.certificate.signatureValue with
    | .error _ => .error .signatureAlgorithmMismatch
    | .ok () =>
        let msg := signingPrefix ++ cert.certificate.subjectPkiRaw
        if P.verify cert.extension.publicKey msg cert.extension.signature then .ok ()
        else .error .unknownIssuer

/-- `parse`. -/
def parse (der : P.CertificateDer) (preSharedKey : Option String) :
    Except ParseError (P2pCertificate P) := do
  let cert ← parseUnverified P der preSharedKey
  cert.verify
  return cert

/-- `peer_id`. -/
def P2pCertificate.peerId (cert : P2pCertificate P) : PeerId :=
  P.toPeerId cert.extension.publicKey

end Code

/-! ### What is assumed -/

/-- The primitives are ideal. -/
structure Primitives.Ideal (P : Primitives) : Prop where
  /-- HMAC is injective in the message. -/
  hmac_injective : ∀ key, Function.Injective (P.hmacSign key)
  /-- An HMAC-SHA256 has the length of a ChaCha20-Poly1305 key. -/
  unboundKey_hmac : ∀ key msg, (P.unboundKey (P.hmacSign key msg)).isSome
  /-- A key of the AEAD is its bytes. -/
  unboundKey_injective : ∀ a b key,
    P.unboundKey a = some key → P.unboundKey b = some key → a = b
  /-- Identity keys sign. -/
  sign_isSome : ∀ k m, (P.sign k m).isSome
  /-- A signature is accepted when it was made by that key on that message. -/
  verify_iff : ∀ k m s, P.verify (P.publicOf k) m s = true ↔ P.sign k m = some s
  /-- Signatures can be sealed. -/
  seal_signature : ∀ k m s key, P.sign k m = some s → (P.sealInPlace key nonce [] s).isSome
  /-- The AEAD opens what was sealed under the same key and nonce, and nothing else. -/
  open_seal : ∀ key n aad s c, P.sealInPlace key n aad s = some c →
    ∀ key' n' aad' s', P.openInPlace key' n' aad' c = some s' ↔
      key' = key ∧ n' = n ∧ aad' = aad ∧ s' = s
  /-- A signature is not a sealed one. -/
  open_signature : ∀ k m s, P.sign k m = some s →
    ∀ key n aad, P.openInPlace key n aad s = none
  /-- Public keys survive their encoding. -/
  protobuf_roundTrip : ∀ pk, P.tryDecodeProtobuf (P.encodeProtobuf pk) = some pk
  /-- So do pairs of byte strings. -/
  der_roundTrip : ∀ pair, P.decodeDer (P.encodeDer pair) = some pair
  /-- A certificate is made with the given extension, for a P-256 key, is read back
  within its validity period, and is signed by its own key. -/
  selfSigned_valid : ∀ certificateKeypair ext, ∃ der x509,
    P.selfSigned certificateKeypair [ext] = some der ∧ P.fromDer der = some x509 ∧
      x509.extensions = [ext] ∧ x509.isValid = true ∧
      x509.subjectPkiRaw = P.publicKeyDer certificateKeypair ∧
      x509.subjectAlgorithm = ⟨.ecPublicKey, some (.oid .ecP256)⟩ ∧
      x509.signatureAlgorithm.algorithm = .ecdsaWithSha256 ∧
      P.verifyWith .ecdsaNistp256Sha256 x509.subjectPublicKey x509.tbsCertificate
        x509.signatureValue = true

/-! ### The seal -/

section Seal

variable {P : Primitives} (ideal : P.Ideal)
include ideal

theorem sealingKey_isSome (psk : String) (publicKey : Bytes) :
    (sealingKey P psk publicKey).isSome :=
  ideal.unboundKey_hmac _ _

/-- Under one public key, different pre-shared keys give different sealing keys. -/
theorem sealingKey_injective {p q : String} {publicKey : Bytes} {key : P.AeadKey}
    (hp : sealingKey P p publicKey = some key) (hq : sealingKey P q publicKey = some key) :
    p = q := by
  have hmac := ideal.unboundKey_injective _ _ _ hp hq
  have hbytes : utf8 p = utf8 q := ideal.hmac_injective _ hmac
  have hsome : some p = some q := by
    rw [← fromUtf8_utf8 p, ← fromUtf8_utf8 q, hbytes]
  exact Option.some.inj hsome

/-- **A sealed signature opens exactly under the pre-shared key it was sealed
under**, and then is the signature. -/
theorem decryptExtSignature_iff {raw sealed publicKey : Bytes} {p : String}
    (h : encryptExtSignature P raw p publicKey = some sealed) (q : String) (opened : Bytes) :
    decryptExtSignature P sealed q publicKey = some opened ↔ p = q ∧ opened = raw := by
  obtain ⟨key, hkey, hseal⟩ := Option.bind_eq_some_iff.1 h
  constructor
  · intro hopen
    obtain ⟨key', hkey', hopen'⟩ := Option.bind_eq_some_iff.1 hopen
    obtain ⟨rfl, -, -, hraw⟩ := (ideal.open_seal _ _ _ _ _ hseal _ _ _ _).1 hopen'
    exact ⟨sealingKey_injective ideal hkey hkey', hraw⟩
  · rintro ⟨rfl, rfl⟩
    refine Option.bind_eq_some_iff.2 ⟨key, hkey, ?_⟩
    exact (ideal.open_seal _ _ _ _ _ hseal _ _ _ _).2 ⟨rfl, rfl, rfl, rfl⟩

/-- A bare signature opens under no pre-shared key. -/
theorem decryptExtSignature_signature {k : P.Keypair} {m raw : Bytes}
    (hraw : P.sign k m = some raw) (q : String) (publicKey : Bytes) :
    decryptExtSignature P raw q publicKey = none := by
  obtain ⟨key, hkey⟩ := Option.isSome_iff_exists.1 (sealingKey_isSome ideal q publicKey)
  rw [decryptExtSignature, hkey, Option.bind_some]
  exact ideal.open_signature k m raw hraw key _ _

/-- Every signature can be put in an extension. -/
theorem signatureToExtension_isSome {k : P.Keypair} {m raw : Bytes}
    (hraw : P.sign k m = some raw) (p : Option String) (publicKey : Bytes) :
    ∃ signature, signatureToExtension P p raw publicKey = some signature := by
  cases p with
  | none => exact ⟨raw, rfl⟩
  | some p =>
    obtain ⟨key, hkey⟩ := Option.isSome_iff_exists.1 (sealingKey_isSome ideal p publicKey)
    obtain ⟨c, hc⟩ := Option.isSome_iff_exists.1 (ideal.seal_signature k m raw key hraw)
    exact ⟨c, Option.bind_eq_some_iff.2 ⟨key, hkey, hc⟩⟩

/-- **The signature taken from the extension is good exactly when the pre-shared keys
agree**: a bare signature does not open, a sealed one is not a signature, and a seal
does not open under another key. -/
theorem signatureFromExtension_iff {k : P.Keypair} {m raw publicKey signature : Bytes}
    (hraw : P.sign k m = some raw) {p : Option String}
    (hto : signatureToExtension P p raw publicKey = some signature) (q : Option String)
    (taken : Bytes) :
    (signatureFromExtension P q signature publicKey = some taken ∧
        P.verify (P.publicOf k) m taken = true) ↔ p = q ∧ taken = raw := by
  rw [ideal.verify_iff, hraw, Option.some_inj, eq_comm (a := raw)]
  cases p with
  | none =>
    obtain rfl : raw = signature := Option.some.inj hto
    cases q with
    | none => simp [signatureFromExtension, eq_comm]
    | some q =>
      have hnone := decryptExtSignature_signature ideal hraw q publicKey
      simp [signatureFromExtension, hnone]
  | some p =>
    cases q with
    | none =>
      -- the seal would be taken for a signature, but it opens
      have hne : signature ≠ raw := by
        rintro rfl
        have hopen := (decryptExtSignature_iff ideal hto p signature).2 ⟨rfl, rfl⟩
        rw [decryptExtSignature_signature ideal hraw] at hopen
        cases hopen
      simp only [signatureFromExtension, Option.some_inj, reduceCtorEq, false_and, iff_false]
      rintro ⟨rfl, htaken⟩
      exact hne htaken
    | some q =>
      have hiff := decryptExtSignature_iff ideal hto q taken
      simp only [signatureFromExtension, hiff, Option.some_inj]
      exact ⟨fun h => h.1, fun h => ⟨h, h.2⟩⟩

end Seal

/-! ### Certificates of this program -/

section Agreement

variable {P : Primitives}

/-- `generate` makes the extension, and a certificate that carries it. -/
theorem generate_spec (ideal : P.Ideal) (k : P.Keypair) (certKey : P.CertificateKeypair)
    (p : Option String) :
    ∃ raw signature der,
      P.sign k (signingPrefix ++ P.publicKeyDer certKey) = some raw ∧
      signatureToExtension P p raw (P.encodeProtobuf (P.publicOf k)) = some signature ∧
      generate P k certKey p = .ok der ∧
      P.selfSigned certKey
        [⟨.p2pExt, true, P.encodeDer (P.encodeProtobuf (P.publicOf k), signature)⟩] =
          some der := by
  obtain ⟨raw, hraw⟩ := Option.isSome_iff_exists.1
    (ideal.sign_isSome k (signingPrefix ++ P.publicKeyDer certKey))
  obtain ⟨signature, hsig⟩ := signatureToExtension_isSome ideal hraw p
    (P.encodeProtobuf (P.publicOf k))
  obtain ⟨der, -, hder, -⟩ := ideal.selfSigned_valid certKey
    ⟨.p2pExt, true, P.encodeDer (P.encodeProtobuf (P.publicOf k), signature)⟩
  refine ⟨raw, signature, der, hraw, hsig, ?_, hder⟩
  simp only [generate, makeLibp2pExtension, hraw, hsig, hder]

/-- The loop over the extensions of a certificate made here: it has one, and that one
is read unless the seal does not open. -/
theorem parseUnverified_spec (ideal : P.Ideal) {der : P.CertificateDer}
    {x509 : X509Certificate} {pk : P.PublicKey} {signature : Bytes}
    (hder : P.fromDer der = some x509)
    (hext : x509.extensions = [⟨.p2pExt, true, P.encodeDer (P.encodeProtobuf pk, signature)⟩])
    (q : Option String) (cert : P2pCertificate P) :
    parseUnverified P der q = .ok cert ↔
      ∃ taken, signatureFromExtension P q signature (P.encodeProtobuf pk) = some taken ∧
        cert = ⟨x509, ⟨pk, taken⟩⟩ := by
  cases htaken : signatureFromExtension P q signature (P.encodeProtobuf pk) with
  | none =>
    simp [parseUnverified, hder, hext, parseExtension, ideal.der_roundTrip, htaken,
      bind, Except.bind]
  | some taken =>
    simp [parseUnverified, hder, hext, parseExtension, ideal.der_roundTrip, htaken,
      ideal.protobuf_roundTrip, bind, Except.bind, pure, Except.pure, eq_comm]

/-- A valid, self-signed certificate for a P-256 key verifies when its extension's
signature does. -/
theorem verify_iff_signature {cert : P2pCertificate P}
    (hvalid : cert.certificate.isValid = true)
    (hkey : cert.certificate.subjectAlgorithm = ⟨.ecPublicKey, some (.oid .ecP256)⟩)
    (halg : cert.certificate.signatureAlgorithm.algorithm = .ecdsaWithSha256)
    (hself : P.verifyWith .ecdsaNistp256Sha256 cert.certificate.subjectPublicKey
      cert.certificate.tbsCertificate cert.certificate.signatureValue = true) :
    cert.verify = .ok () ↔
      P.verify cert.extension.publicKey (signingPrefix ++ cert.certificate.subjectPkiRaw)
        cert.extension.signature = true := by
  have hscheme : signatureScheme cert.certificate = .ok .ecdsaNistp256Sha256 := by
    simp [signatureScheme, hkey, halg]
  have hverify : verifySignature P cert.certificate .ecdsaNistp256Sha256
      cert.certificate.tbsCertificate cert.certificate.signatureValue = .ok () := by
    simp [verifySignature, hscheme, hself, SignatureScheme.Supported, bind, Except.bind]
  simp only [P2pCertificate.verify, hvalid, hscheme, hverify, bind, Except.bind,
    Bool.true_eq_false, ↓reduceIte]
  split <;> simp_all

/-- `parse` accepts what `parse_unverified` reads and `verify` accepts. -/
theorem parse_ok_iff {der : P.CertificateDer} {q : Option String} {cert : P2pCertificate P} :
    parse P der q = .ok cert ↔
      parseUnverified P der q = .ok cert ∧ cert.verify = .ok () := by
  constructor
  · intro h
    obtain ⟨cert', hun, hrest⟩ := bind_eq_ok h
    obtain ⟨_, hver, hret⟩ := bind_eq_ok hrest
    obtain rfl : cert' = cert := Except.ok.inj hret
    exact ⟨hun, hver⟩
  · rintro ⟨hun, hver⟩
    simp only [parse, hun, hver, bind, Except.bind, pure, Except.pure]

/-- **A certificate is accepted exactly when both sides have the same pre-shared key**,
or both have none, and then it shows the identity it was made with. -/
theorem parse_generate_iff (P : Primitives) (ideal : P.Ideal) (k : P.Keypair)
    (certKey : P.CertificateKeypair) (p q : Option String) :
    ∃ der, generate P k certKey p = .ok der ∧
      ((∃ cert, parse P der q = .ok cert) ↔ p = q) ∧
      ∀ cert, parse P der q = .ok cert → cert.peerId = P.toPeerId (P.publicOf k) := by
  obtain ⟨raw, signature, der, hraw, hto, hgen, hder⟩ := generate_spec ideal k certKey p
  obtain ⟨der', x509, hder', hfrom, hext, hvalid, hpki, hkey, halg, hself⟩ :=
    ideal.selfSigned_valid certKey
      ⟨.p2pExt, true, P.encodeDer (P.encodeProtobuf (P.publicOf k), signature)⟩
  obtain rfl : der = der' := Option.some.inj (hder.symm.trans hder')
  -- what is self-signed is valid: all that can fail is the signature in the extension
  have hparse : ∀ cert, parse P der q = .ok cert ↔
      p = q ∧ cert = ⟨x509, ⟨P.publicOf k, raw⟩⟩ := by
    intro cert
    rw [parse_ok_iff, parseUnverified_spec ideal hfrom hext]
    constructor
    · rintro ⟨⟨taken, htaken, rfl⟩, hver⟩
      have hsig := (verify_iff_signature hvalid hkey halg hself).1 hver
      rw [hpki] at hsig
      obtain ⟨heq, rfl⟩ := (signatureFromExtension_iff ideal hraw hto q taken).1 ⟨htaken, hsig⟩
      exact ⟨heq, rfl⟩
    · rintro ⟨heq, rfl⟩
      obtain ⟨htaken, hsig⟩ :=
        (signatureFromExtension_iff ideal hraw hto q raw).2 ⟨heq, rfl⟩
      refine ⟨⟨raw, htaken, rfl⟩, (verify_iff_signature hvalid hkey halg hself).2 ?_⟩
      rw [hpki]
      exact hsig
  refine ⟨der, hgen, ⟨?_, ?_⟩, ?_⟩
  · rintro ⟨cert, hcert⟩
    exact ((hparse cert).1 hcert).1
  · intro heq
    exact ⟨_, (hparse _).2 ⟨heq, rfl⟩⟩
  · intro cert hcert
    obtain ⟨-, rfl⟩ := (hparse cert).1 hcert
    rfl

end Agreement

/-! ### Primitives that are ideal

The assumptions can be met: keys, signatures and seals are spelled out, and a marker
byte in front tells a signature from a seal. -/

/-- A byte string with its end marked. -/
private def quote : Bytes → Bytes
  | [] => [0]
  | b :: bs => 1 :: b :: quote bs

/-- Take a marked byte string off the front. -/
private def unquote : Bytes → Option (Bytes × Bytes)
  | 0 :: rest => some ([], rest)
  | 1 :: b :: rest => (unquote rest).map fun p => (b :: p.1, p.2)
  | _ => none

private theorem unquote_quote_append (bs rest : Bytes) :
    unquote (quote bs ++ rest) = some (bs, rest) := by
  induction bs with
  | nil => rfl
  | cons b bs ih => simp [quote, unquote, ih]

/-- Open a seal that spells out its key, nonce and associated data. -/
private def sampleOpen (key n aad : Bytes) : Bytes → Option Bytes
  | 1 :: c =>
      (unquote c).bind fun k => (unquote k.2).bind fun m => (unquote m.2).bind fun a =>
        if key = k.1 ∧ n = m.1 ∧ aad = a.1 then some a.2 else none
  | _ => none

private theorem sampleOpen_seal_iff (key n aad s key' n' aad' s' : Bytes) :
    sampleOpen key' n' aad' (1 :: (quote key ++ (quote n ++ (quote aad ++ s)))) = some s' ↔
      key' = key ∧ n' = n ∧ aad' = aad ∧ s' = s := by
  simp only [sampleOpen, unquote_quote_append, Option.bind_some,
    Option.ite_none_right_eq_some, Option.some_inj, and_assoc, eq_comm (a := s)]

/-- Primitives that spell everything out. -/
def samplePrimitives : Primitives where
  Keypair := Bytes
  PublicKey := Bytes
  publicOf k := k
  sign k m := some (0 :: (quote k ++ m))
  verify pk m s := s == 0 :: (quote pk ++ m)
  encodeProtobuf pk := pk
  tryDecodeProtobuf := some
  toPeerId := PeerId.mk
  hmacSign key m := quote key ++ m
  AeadKey := Bytes
  unboundKey := some
  sealInPlace key n aad s := some (1 :: (quote key ++ (quote n ++ (quote aad ++ s))))
  openInPlace := sampleOpen
  encodeDer pair := quote pair.1 ++ pair.2
  decodeDer := unquote
  CertificateKeypair := Bytes
  publicKeyDer k := k
  CertificateDer := X509Certificate
  selfSigned k exts := some
    { extensions := exts
      isValid := true
      signatureAlgorithm := ⟨.ecdsaWithSha256, none⟩
      subjectAlgorithm := ⟨.ecPublicKey, some (.oid .ecP256)⟩
      subjectPublicKey := k
      subjectPkiRaw := k
      tbsCertificate := k
      signatureValue := 0 :: (quote k ++ k) }
  fromDer := some
  verifyWith _ pk m s := s == 0 :: (quote pk ++ m)

private theorem samplePrimitives_ideal : samplePrimitives.Ideal where
  hmac_injective key := List.append_right_injective (quote key)
  unboundKey_hmac _ _ := rfl
  unboundKey_injective _ _ _ ha hb := Option.some.inj (ha.trans hb.symm)
  sign_isSome _ _ := rfl
  verify_iff k m s := by
    simp only [samplePrimitives, beq_iff_eq, Option.some_inj]
    exact eq_comm
  seal_signature _ _ _ _ _ := rfl
  open_seal key n aad s c hc key' n' aad' s' := by
    obtain rfl := Option.some.inj hc
    exact sampleOpen_seal_iff key n aad s key' n' aad' s'
  open_signature k m s hs key n aad := by
    obtain rfl := Option.some.inj hs
    rfl
  protobuf_roundTrip _ := rfl
  der_roundTrip pair := unquote_quote_append pair.1 pair.2
  selfSigned_valid k ext := by
    refine ⟨_, _, rfl, rfl, rfl, rfl, rfl, rfl, rfl, ?_⟩
    simp [samplePrimitives]

/-- Two nodes with the same pre-shared key. -/
theorem parse_generate_same_psk :
    ∃ der cert, generate samplePrimitives [7] [9] (some "psk") = .ok der ∧
      parse samplePrimitives der (some "psk") = .ok cert ∧ cert.peerId = ⟨[7]⟩ := by
  obtain ⟨der, hgen, hiff, hpeer⟩ := parse_generate_iff samplePrimitives
    samplePrimitives_ideal [7] [9] (some "psk") (some "psk")
  obtain ⟨cert, hcert⟩ := hiff.2 rfl
  exact ⟨der, cert, hgen, hcert, hpeer cert hcert⟩

/-- What is assumed of the primitives can be had. -/
theorem samplePrimitives_lawful : samplePrimitives.Ideal := samplePrimitives_ideal

end Certificate

end P2pClipboard
