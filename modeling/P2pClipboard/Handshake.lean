import P2pClipboard.Lib.Runs
import P2pClipboard.Nonce

/-!
# The handshake

`lib/tls/src/verifier.rs` and `lib/tls/src/upgrade.rs`.  Both ends of a connection show a
certificate and sign the handshake so far with its key.  The verifier looks at the
certificates the other end shows and at that signature; when `rustls` is done the upgrade
reads the certificate once more and reports the peer it belongs to.  Whenever a certificate
is read the clock is read too, so that it may have expired from one time to the next.

`rustls` itself is outside.  It is a `Rustls`, a function from what a connection brings to
how its handshake ends, of which one thing is assumed (`Rustls.AsksVerifier`): a handshake
that is completed has certificates, and the verifier has accepted these and a signature
with the key of the first.  What else a handshake may fail for is left open, and what the
other end sends is arbitrary.

What an outsider can send is limited by what it cannot make up: a signature of a node's
identity, and one with the key of a node's certificate (`UnforgedState`).  The seal of the
pre-shared key takes no part in that.

## Main definitions

* `Libp2pCertificateVerifier`, `verifyPresentedCerts`, `verifyTls13Signature` — the
  verifier.
* `Rustls`, `Rustls.AsksVerifier` — the handshakes, and what is assumed of them.
* `upgradeInbound`, `upgradeOutbound` — the upgrades.
* `WellFormed`, `Authenticates` — the certificates that are accepted, and the handshakes.
* `TlsNet` — any number of nodes, and what they are sent.

## Main results

* `parseAt_ok_iff` — the certificates that are accepted, whatever the libraries do.
* `upgrade_outcome` — **what a completed handshake has shown**, and how the upgrade ends then.
* `handshake_completes_iff` — **two nodes with one pre-shared key, and no others.**
* `no_impersonation` — **a peer that is reported took part in the handshake.**
-/

namespace P2pClipboard

namespace Certificate

/-! ### The clock -/

/-- `Validity`, in seconds. -/
structure Validity where
  notBefore : ℤ
  notAfter : ℤ
  deriving DecidableEq, Repr

/-- `is_valid`, at the time it is asked. -/
def Validity.isValid (v : Validity) (now : ℤ) : Bool :=
  decide (v.notBefore ≤ now) && decide (now ≤ v.notAfter)

section Clock

variable (P : Primitives) (validity : X509Certificate → Validity)

/-- `P2pCertificate::verify`, at a time. -/
def P2pCertificate.verifyAt (now : ℤ) (cert : P2pCertificate P) : Except ParseError Unit :=
  P2pCertificate.verify P
    { cert with
      certificate := { cert.certificate with isValid := (validity cert.certificate).isValid now } }

/-- `parse`, at a time. -/
def parseAt (now : ℤ) (der : P.CertificateDer) (preSharedKey : Option String) :
    Except ParseError (P2pCertificate P) := do
  let cert ← parseUnverified P der preSharedKey
  cert.verifyAt P validity now
  return cert

end Clock

/-! ### The verifier -/

/-- `rustls::CertificateError`, as far as the verifier makes it. -/
inductive CertificateError
  | badEncoding
  | badSignature
  | applicationVerificationFailure
  | other (e : ParseError)
  deriving DecidableEq, Repr

/-- `rustls::Error`, as far as the verifier makes it. -/
inductive TlsError
  /-- "libp2p-tls requires exactly one certificate". -/
  | general
  | invalidCertificate (e : CertificateError)
  deriving DecidableEq, Repr

/-- `From<certificate::ParseError>`. -/
def TlsError.ofParseError : ParseError → TlsError
  | .badDer => .invalidCertificate .badEncoding
  | e => .invalidCertificate (.other e)

/-- `From<certificate::VerificationError>`. -/
def TlsError.ofVerificationError : ParseError → TlsError
  | .invalidSignatureForPublicKey => .invalidCertificate .badSignature
  | e => .invalidCertificate (.other e)

/-- `Libp2pCertificateVerifier`. -/
structure Libp2pCertificateVerifier where
  /-- The peer that is to be reached, if that is known. -/
  remotePeerId : Option PeerId
  /-- The pre-shared key. -/
  preSharedKey : Option String

/-- `verification_schemes`. -/
def verificationSchemes : List SignatureScheme :=
  [.ecdsaNistp384Sha384, .ecdsaNistp256Sha256, .ed25519, .rsaPssSha512, .rsaPssSha384,
    .rsaPssSha256, .rsaPkcs1Sha512, .rsaPkcs1Sha384, .rsaPkcs1Sha256]

/-- `ClientCertVerifier` and `ServerCertVerifier`, as `rustls` calls them.  The time is that
of the call. -/
structure CertVerifier (P : Primitives) where
  /-- `verify_client_cert` or `verify_server_cert`: the end entity, and the intermediates. -/
  verifyCert : ℤ → P.CertificateDer → List P.CertificateDer → Except TlsError Unit
  /-- `verify_tls13_signature`: the message, the certificate, and the scheme and bytes of the
  signature. -/
  verifyTls13Signature : ℤ → Bytes → P.CertificateDer → SignatureScheme → Bytes →
    Except TlsError Unit
  /-- `supported_verify_schemes`. -/
  supportedVerifySchemes : List SignatureScheme

section Verifier

variable (P : Primitives) (validity : X509Certificate → Validity)

/-- `verify_presented_certs`. -/
def verifyPresentedCerts (now : ℤ) (endEntity : P.CertificateDer)
    (intermediates : List P.CertificateDer) (preSharedKey : Option String) :
    Except TlsError PeerId :=
  if !intermediates.isEmpty then .error .general
  else
    match parseAt P validity now endEntity preSharedKey with
    | .error e => .error (.ofParseError e)
    | .ok cert => .ok cert.peerId

/-- `verify_tls13_signature`. -/
def verifyTls13Signature (now : ℤ) (cert : P.CertificateDer) (scheme : SignatureScheme)
    (message signature : Bytes) (preSharedKey : Option String) : Except TlsError Unit :=
  match parseAt P validity now cert preSharedKey with
  | .error e => .error (.ofParseError e)
  | .ok cert =>
      match verifySignature P cert.certificate scheme message signature with
      | .error e => .error (.ofVerificationError e)
      | .ok () => .ok ()

/-- `verify_server_cert`. -/
def Libp2pCertificateVerifier.verifyServerCert (v : Libp2pCertificateVerifier) (now : ℤ)
    (endEntity : P.CertificateDer) (intermediates : List P.CertificateDer) :
    Except TlsError Unit := do
  let peerId ← verifyPresentedCerts P validity now endEntity intermediates v.preSharedKey
  match v.remotePeerId with
  | some remotePeerId =>
      if remotePeerId ≠ peerId then
        .error (.invalidCertificate .applicationVerificationFailure)
      else .ok ()
  | none => .ok ()

/-- `verify_client_cert`. -/
def Libp2pCertificateVerifier.verifyClientCert (v : Libp2pCertificateVerifier) (now : ℤ)
    (endEntity : P.CertificateDer) (intermediates : List P.CertificateDer) :
    Except TlsError Unit := do
  let _ ← verifyPresentedCerts P validity now endEntity intermediates v.preSharedKey
  return ()

/-- The verifier, of clients... -/
def Libp2pCertificateVerifier.ofClients (v : Libp2pCertificateVerifier) : CertVerifier P where
  verifyCert := v.verifyClientCert P validity
  verifyTls13Signature now message cert scheme signature :=
    verifyTls13Signature P validity now cert scheme message signature v.preSharedKey
  supportedVerifySchemes := verificationSchemes

/-- ... and of servers. -/
def Libp2pCertificateVerifier.ofServers (v : Libp2pCertificateVerifier) : CertVerifier P where
  verifyCert := v.verifyServerCert P validity
  verifyTls13Signature now message cert scheme signature :=
    verifyTls13Signature P validity now cert scheme message signature v.preSharedKey
  supportedVerifySchemes := verificationSchemes

end Verifier

/-! ### What `rustls` does -/

/-- What is left of a handshake: `CommonState`, and what the other end has signed. -/
structure CommonState (P : Primitives) where
  /-- `peer_certificates`. -/
  peerCertificates : Option (List P.CertificateDer)
  /-- The handshake as it was signed. -/
  transcript : Bytes
  /-- The scheme of the signature. -/
  scheme : SignatureScheme
  /-- The signature. -/
  signature : Bytes

/-- The handshakes of `rustls`. -/
structure Rustls (P : Primitives) where
  /-- What a handshake depends on besides the configuration: what the other end sends, the
  network, the clock, random numbers, and the sessions that can be resumed. -/
  Connection : Type
  /-- How it fails. -/
  Error : Type
  /-- The times at which the verifier is asked about the other end.  In a session that is
  resumed it was asked when the session began, and what was signed is that handshake. -/
  asked : Connection → ℤ → Prop
  /-- `TlsAcceptor::accept`, with the certificate to show and the verifier. -/
  accept : P.CertificateDer → CertVerifier P → Connection → Except Error (CommonState P)
  /-- `TlsConnector::connect`. -/
  connect : P.CertificateDer → CertVerifier P → Connection → Except Error (CommonState P)

/-- The verifier has accepted the other end: the first of its certificates as end entity, the
others as intermediates, and a signature with the key of the first. -/
def CertVerifier.Accepted {P : Primitives} (verifier : CertVerifier P) (asked : ℤ → Prop)
    (state : CommonState P) : Prop :=
  ∃ endEntity intermediates, state.peerCertificates = some (endEntity :: intermediates) ∧
    (∃ now, asked now ∧ verifier.verifyCert now endEntity intermediates = .ok ()) ∧
    ∃ now, asked now ∧ verifier.verifyTls13Signature now state.transcript endEntity
      state.scheme state.signature = .ok ()

/-- What is assumed of `rustls`: it completes no handshake without the verifier. -/
structure Rustls.AsksVerifier {P : Primitives} (R : Rustls P) : Prop where
  accept : ∀ certificate verifier conn state,
    R.accept certificate verifier conn = .ok state → verifier.Accepted (R.asked conn) state
  connect : ∀ certificate verifier conn state,
    R.connect certificate verifier conn = .ok state → verifier.Accepted (R.asked conn) state

/-! ### The upgrades -/

/-- `UpgradeError`, as far as it comes from a handshake. -/
inductive UpgradeError (E : Type)
  /-- "Failed to upgrade server connection". -/
  | serverUpgrade (e : E)
  /-- "Failed to upgrade client connection". -/
  | clientUpgrade (e : E)
  /-- "Failed to parse certificate". -/
  | badCertificate (e : ParseError)
  deriving DecidableEq, Repr

/-- How an upgrade ends without a peer. -/
inductive UpgradeFailure (E : Type)
  /-- With an error. -/
  | error (e : UpgradeError E)
  /-- "config enforces exactly one certificate". -/
  | panic
  deriving DecidableEq, Repr

section Code

variable (P : Primitives) (validity : X509Certificate → Validity)

/-- `extract_single_certificate`. -/
def extractSingleCertificate {E : Type} (now : ℤ) (state : CommonState P) (psk : Option String) :
    Except (UpgradeFailure E) (P2pCertificate P) :=
  match state.peerCertificates with
  | some [cert] =>
      match parseAt P validity now cert psk with
      | .error e => .error (.error (.badCertificate e))
      | .ok cert => .ok cert
  | _ => .error .panic

/-- What both upgrades do once the handshake has ended: the peer of its certificate, and the
connection. -/
def upgrade {E : Type} (failed : E → UpgradeError E) (preSharedKey : Option String) (now : ℤ)
    (handshake : Except E (CommonState P)) : Except (UpgradeFailure E) (PeerId × CommonState P) :=
  match handshake with
  | .error e => .error (.error (failed e))
  | .ok state =>
      (extractSingleCertificate P validity now state preSharedKey).map
        fun cert => (cert.peerId, state)

variable {P} (R : Rustls P)

/-- The handshake of a server... -/
def Config.accept (config : Config P) (conn : R.Connection) : Except R.Error (CommonState P) :=
  let verifier : Libp2pCertificateVerifier := ⟨none, config.server.preSharedKey⟩
  R.accept config.server.certificate (verifier.ofClients P validity) conn

/-- ... and of a client. -/
def Config.connect (config : Config P) (conn : R.Connection) : Except R.Error (CommonState P) :=
  let verifier : Libp2pCertificateVerifier :=
    ⟨config.client.remotePeerId, config.client.preSharedKey⟩
  R.connect config.client.certificate (verifier.ofServers P validity) conn

/-- `upgrade_inbound`.  The time is that after the handshake. -/
def upgradeInbound (config : Config P) (conn : R.Connection) (now : ℤ) :
    Except (UpgradeFailure R.Error) (PeerId × CommonState P) :=
  upgrade P validity .serverUpgrade config.preSharedKey now (config.accept validity R conn)

/-- `upgrade_outbound`.  The time is that after the handshake. -/
def upgradeOutbound (config : Config P) (conn : R.Connection) (now : ℤ) :
    Except (UpgradeFailure R.Error) (PeerId × CommonState P) :=
  upgrade P validity .clientUpgrade config.preSharedKey now (config.connect validity R conn)

end Code

/-! ### The certificates that are accepted -/

/-- An extension that is ignored. -/
def Extension.Ignored (e : Extension) : Prop := e.oid ≠ .p2pExt ∧ e.critical = false

section WellFormed

variable {P : Primitives}

/-- The contents of an extension, read with a pre-shared key. -/
def P2pExtension.ReadFrom (preSharedKey : Option String) (value : Bytes) (ext : P2pExtension P) :
    Prop :=
  ∃ publicKey signature, P.decodeDer value = some (publicKey, signature) ∧
    signatureFromExtension P preSharedKey signature publicKey = some ext.signature ∧
    P.tryDecodeProtobuf publicKey = some ext.publicKey

/-- A certificate that is accepted with a pre-shared key while it is valid, and how it is
read. -/
structure WellFormed (der : P.CertificateDer) (preSharedKey : Option String)
    (cert : P2pCertificate P) : Prop where
  /-- It is an X.509 certificate. -/
  fromDer : P.fromDer der = some cert.certificate
  /-- One of its extensions is that of libp2p, and all others can be ignored. -/
  extensions : ∃ before value critical after,
    cert.certificate.extensions = before ++ ⟨.p2pExt, critical, value⟩ :: after ∧
      (∀ e ∈ before, e.Ignored) ∧ (∀ e ∈ after, e.Ignored) ∧
      cert.extension.ReadFrom preSharedKey value
  /-- It is signed by its own key, under a scheme that is supported. -/
  selfSigned : ∃ scheme, signatureScheme cert.certificate = .ok scheme ∧
    scheme.Supported = true ∧ P.verifyWith scheme cert.certificate.subjectPublicKey
      cert.certificate.tbsCertificate cert.certificate.signatureValue = true
  /-- Its key is signed by the identity it shows. -/
  identity : P.verify cert.extension.publicKey (signingPrefix ++ cert.certificate.subjectPkiRaw)
    cert.extension.signature = true

variable {preSharedKey : Option String} {ext : P2pExtension P} {e : Extension}

theorem parseExtension_ignored (h : e.Ignored) (found : Option (P2pExtension P)) :
    parseExtension P preSharedKey found e = .ok found := by
  rw [parseExtension, if_neg h.1, h.2]
  rfl

/-- Any other extension is that of libp2p, or makes the certificate invalid. -/
theorem parseExtension_eq_ok (h : ¬e.Ignored) {found found' : Option (P2pExtension P)} :
    parseExtension P preSharedKey found e = .ok found' ↔
      e.oid = .p2pExt ∧ found = none ∧
        ∃ ext, found' = some ext ∧ ext.ReadFrom preSharedKey e.value := by
  rw [parseExtension]
  by_cases hoid : e.oid = .p2pExt
  · rw [if_pos hoid]
    cases found with
    | some ext => simp
    | none =>
      rw [if_neg (by simp)]
      simp only [hoid, true_and, P2pExtension.ReadFrom]
      cases P.decodeDer e.value with
      | none => simp
      | some pair =>
        obtain ⟨publicKey, signature⟩ := pair
        dsimp only
        cases hsignature : signatureFromExtension P preSharedKey signature publicKey with
        | none => simp [hsignature]
        | some taken =>
          dsimp only
          cases hkey : P.tryDecodeProtobuf publicKey with
          | none => simp [hkey]
          | some key =>
            constructor
            · intro heq
              obtain rfl := Except.ok.inj heq
              exact ⟨_, rfl, _, _, rfl, hsignature, hkey⟩
            · rintro ⟨⟨key', taken'⟩, rfl, _, _, hpair, hsignature', hkey'⟩
              obtain ⟨rfl, rfl⟩ := Prod.mk.inj (Option.some.inj hpair)
              obtain rfl := Option.some.inj (hkey.symm.trans hkey')
              obtain rfl := Option.some.inj (hsignature.symm.trans hsignature')
              rfl
  · have hcritical : e.critical = true := by
      simpa [Extension.Ignored, hoid] using h
    rw [if_neg hoid, if_pos hcritical]
    simp [hoid]

/-- Once the extension was found all others must be ignored. -/
theorem foldlM_parseExtension_some (exts : List Extension) (found : Option (P2pExtension P)) :
    exts.foldlM (parseExtension P preSharedKey) (some ext) = .ok found ↔
      found = some ext ∧ ∀ e ∈ exts, e.Ignored := by
  induction exts with
  | nil =>
    show Except.ok (some ext) = Except.ok found ↔ _
    simp [eq_comm]
  | cons e exts ih =>
    rw [List.foldlM_cons]
    by_cases hignored : e.Ignored
    · rw [parseExtension_ignored hignored, List.forall_mem_cons]
      simp only [hignored, true_and]
      exact ih
    · constructor
      · intro h
        obtain ⟨found', hfirst, -⟩ := bind_eq_ok h
        exact absurd ((parseExtension_eq_ok hignored).mp hfirst).2.1 (by simp)
      · intro h
        exact absurd (h.2 e List.mem_cons_self) hignored

/-- **The loop over the extensions** finds the one of libp2p. -/
theorem foldlM_parseExtension_none (exts : List Extension) :
    exts.foldlM (parseExtension P preSharedKey) none = .ok (some ext) ↔
      ∃ before value critical after, exts = before ++ ⟨.p2pExt, critical, value⟩ :: after ∧
        (∀ e ∈ before, e.Ignored) ∧ (∀ e ∈ after, e.Ignored) ∧
        ext.ReadFrom preSharedKey value := by
  induction exts with
  | nil =>
    show Except.ok none = Except.ok (some ext) ↔ _
    simp
  | cons e exts ih =>
    rw [List.foldlM_cons]
    by_cases hignored : e.Ignored
    · rw [parseExtension_ignored hignored]
      show exts.foldlM (parseExtension P preSharedKey) none = .ok (some ext) ↔ _
      rw [ih]
      constructor
      · rintro ⟨before, value, critical, after, rfl, hbefore, hafter, hread⟩
        exact ⟨e :: before, value, critical, after, rfl,
          List.forall_mem_cons.mpr ⟨hignored, hbefore⟩, hafter, hread⟩
      · rintro ⟨before, value, critical, after, heq, hbefore, hafter, hread⟩
        cases before with
        | nil =>
          obtain ⟨rfl, -⟩ := List.cons.inj heq
          exact absurd rfl hignored.1
        | cons e' before =>
          obtain ⟨-, rfl⟩ := List.cons.inj heq
          exact ⟨before, value, critical, after, rfl, (List.forall_mem_cons.mp hbefore).2, hafter,
            hread⟩
    · constructor
      · intro h
        obtain ⟨found, hfirst, hrest⟩ := bind_eq_ok h
        obtain ⟨hoid, -, ext', rfl, hread⟩ := (parseExtension_eq_ok hignored).mp hfirst
        obtain ⟨heq, hafter⟩ := (foldlM_parseExtension_some exts _).mp hrest
        obtain rfl := Option.some.inj heq
        obtain ⟨oid, critical, value⟩ := e
        obtain rfl : oid = .p2pExt := hoid
        exact ⟨[], value, critical, exts, rfl, by simp, hafter, hread⟩
      · rintro ⟨before, value, critical, after, heq, hbefore, hafter, hread⟩
        cases before with
        | nil =>
          obtain ⟨rfl, rfl⟩ := List.cons.inj heq
          rw [(parseExtension_eq_ok hignored).mpr ⟨rfl, rfl, ext, rfl, hread⟩]
          exact (foldlM_parseExtension_some exts _).mpr ⟨rfl, hafter⟩
        | cons e' before =>
          obtain ⟨rfl, -⟩ := List.cons.inj heq
          exact absurd (hbefore e List.mem_cons_self) hignored

/-- A signature is accepted under the certificate's own scheme only. -/
theorem verifySignature_eq_ok {certificate : X509Certificate} {scheme : SignatureScheme}
    {message signature : Bytes} :
    verifySignature P certificate scheme message signature = .ok () ↔
      signatureScheme certificate = .ok scheme ∧ scheme.Supported = true ∧
        P.verifyWith scheme certificate.subjectPublicKey message signature = true := by
  cases hscheme : signatureScheme certificate with
  | error e => simp [verifySignature, hscheme, bind, Except.bind]
  | ok current =>
    simp only [verifySignature, hscheme, bind, Except.bind, Except.ok.injEq]
    by_cases heq : scheme = current
    · subst heq
      cases hsupported : scheme.Supported with
      | false => simp
      | true => cases P.verifyWith scheme certificate.subjectPublicKey message signature <;> simp
    · simp [heq, Ne.symm heq]

/-- What `verify` asks for. -/
theorem verify_eq_ok {cert : P2pCertificate P} :
    cert.verify = .ok () ↔ cert.certificate.isValid = true ∧
      (∃ scheme, signatureScheme cert.certificate = .ok scheme ∧ scheme.Supported = true ∧
        P.verifyWith scheme cert.certificate.subjectPublicKey cert.certificate.tbsCertificate
          cert.certificate.signatureValue = true) ∧
      P.verify cert.extension.publicKey (signingPrefix ++ cert.certificate.subjectPkiRaw)
        cert.extension.signature = true := by
  rw [P2pCertificate.verify]
  cases cert.certificate.isValid with
  | false => simp
  | true =>
    rw [if_neg (by simp)]
    cases hscheme : signatureScheme cert.certificate with
    | error e => simp [bind, Except.bind]
    | ok scheme =>
      have hself : verifySignature P cert.certificate scheme cert.certificate.tbsCertificate
            cert.certificate.signatureValue = .ok () ↔
          scheme.Supported = true ∧ P.verifyWith scheme cert.certificate.subjectPublicKey
            cert.certificate.tbsCertificate cert.certificate.signatureValue = true := by
        rw [verifySignature_eq_ok]
        exact and_iff_right hscheme
      simp only [bind, Except.bind, Except.ok.injEq, exists_eq_left', true_and, ← hself]
      cases verifySignature P cert.certificate scheme cert.certificate.tbsCertificate
          cert.certificate.signatureValue with
      | error e => simp
      | ok u =>
        cases P.verify cert.extension.publicKey
          (signingPrefix ++ cert.certificate.subjectPkiRaw) cert.extension.signature <;> simp

/-- What `parse_unverified` reads. -/
theorem parseUnverified_eq_ok {der : P.CertificateDer} {cert : P2pCertificate P} :
    parseUnverified P der preSharedKey = .ok cert ↔
      P.fromDer der = some cert.certificate ∧
        cert.certificate.extensions.foldlM (parseExtension P preSharedKey) none =
          .ok (some cert.extension) := by
  obtain ⟨certificate, extension⟩ := cert
  rw [parseUnverified]
  cases hder : P.fromDer der with
  | none => simp
  | some x509 =>
    dsimp only
    constructor
    · intro h
      obtain ⟨found, hfound, h⟩ := bind_eq_ok h
      cases found with
      | none => cases h
      | some ext =>
        obtain ⟨rfl, rfl⟩ := P2pCertificate.mk.inj (Except.ok.inj h)
        exact ⟨rfl, hfound⟩
    · rintro ⟨hx509, hfound⟩
      obtain rfl := Option.some.inj hx509
      rw [hfound]
      rfl

/-- A certificate is well formed if `parse_unverified` reads it and its signatures are
good. -/
theorem wellFormed_iff {der : P.CertificateDer} {cert : P2pCertificate P} :
    WellFormed der preSharedKey cert ↔ parseUnverified P der preSharedKey = .ok cert ∧
      (∃ scheme, signatureScheme cert.certificate = .ok scheme ∧ scheme.Supported = true ∧
        P.verifyWith scheme cert.certificate.subjectPublicKey cert.certificate.tbsCertificate
          cert.certificate.signatureValue = true) ∧
      P.verify cert.extension.publicKey (signingPrefix ++ cert.certificate.subjectPkiRaw)
        cert.extension.signature = true := by
  rw [parseUnverified_eq_ok, foldlM_parseExtension_none]
  constructor
  · rintro ⟨hder, hextensions, hself, hidentity⟩
    exact ⟨⟨hder, hextensions⟩, hself, hidentity⟩
  · rintro ⟨⟨hder, hextensions⟩, hself, hidentity⟩
    exact ⟨hder, hextensions, hself, hidentity⟩

/-- What `parse` accepts, for a certificate that is valid or not. -/
theorem parse_ok_iff_wellFormed (der : P.CertificateDer) (preSharedKey : Option String)
    (cert : P2pCertificate P) :
    parse P der preSharedKey = .ok cert ↔
      WellFormed der preSharedKey cert ∧ cert.certificate.isValid = true := by
  rw [parse_ok_iff, verify_eq_ok, wellFormed_iff]
  constructor
  · rintro ⟨hun, hvalid, hgood⟩
    exact ⟨⟨hun, hgood⟩, hvalid⟩
  · rintro ⟨⟨hun, hgood⟩, hvalid⟩
    exact ⟨hun, hvalid, hgood⟩

/-- A certificate can be read in one way only. -/
theorem WellFormed.unique {der : P.CertificateDer} {cert cert' : P2pCertificate P}
    (h : WellFormed der preSharedKey cert) (h' : WellFormed der preSharedKey cert') :
    cert = cert' :=
  Except.ok.inj ((wellFormed_iff.mp h).1.symm.trans (wellFormed_iff.mp h').1)

section Clock

variable {validity : X509Certificate → Validity} {now : ℤ} {der : P.CertificateDer}
  {cert : P2pCertificate P}

/-- `verify` looks at the clock first. -/
theorem verifyAt_of_wellFormed (h : WellFormed der preSharedKey cert) :
    cert.verifyAt P validity now = if (validity cert.certificate).isValid now then .ok ()
      else .error .invalidCertValidity := by
  by_cases hvalid : (validity cert.certificate).isValid now = true
  · rw [if_pos hvalid]
    exact verify_eq_ok.mpr ⟨hvalid, h.selfSigned, h.identity⟩
  · rw [if_neg hvalid, P2pCertificate.verifyAt, P2pCertificate.verify]
    exact if_pos (Bool.not_eq_true _ ▸ hvalid)

/-- A well formed certificate is refused only for having expired, or not being valid yet. -/
theorem parseAt_of_wellFormed (h : WellFormed der preSharedKey cert) :
    parseAt P validity now der preSharedKey =
      if (validity cert.certificate).isValid now then .ok cert
      else .error .invalidCertValidity := by
  rw [parseAt, (wellFormed_iff.mp h).1]
  simp only [bind, Except.bind, verifyAt_of_wellFormed h]
  cases (validity cert.certificate).isValid now <;> rfl

/-- **The certificates that are accepted at a time**, whatever the libraries do: valid,
self-signed X.509 certificates with the libp2p extension, once, and no other critical one,
whose signature opens under the pre-shared key and is by the identity over the certificate's
key. -/
theorem parseAt_ok_iff :
    parseAt P validity now der preSharedKey = .ok cert ↔
      WellFormed der preSharedKey cert ∧ (validity cert.certificate).isValid now = true := by
  constructor
  · intro h
    obtain ⟨cert', hun, h⟩ := bind_eq_ok h
    obtain ⟨⟨⟩, hverify, h⟩ := bind_eq_ok h
    obtain rfl := Except.ok.inj h
    obtain ⟨hvalid, hgood⟩ := verify_eq_ok.mp hverify
    exact ⟨wellFormed_iff.mpr ⟨hun, hgood⟩, hvalid⟩
  · rintro ⟨hwell, hvalid⟩
    rw [parseAt_of_wellFormed hwell, if_pos hvalid]

/-- While the clock says what `isValid` says, `parseAt` is `parse`. -/
theorem parseAt_eq_parse (h : ∀ x509, P.fromDer der = some x509 →
    (validity x509).isValid now = x509.isValid) :
    parseAt P validity now der preSharedKey = parse P der preSharedKey := by
  rw [parseAt, parse]
  cases hun : parseUnverified P der preSharedKey with
  | error e => rfl
  | ok cert =>
    have hverify : cert.verifyAt P validity now = cert.verify := by
      rw [P2pCertificate.verifyAt, h _ (parseUnverified_eq_ok.mp hun).1]
    simp only [bind, Except.bind, hverify]

end Clock

end WellFormed

/-! ### What a completed handshake has shown -/

section Upgrade

variable {P : Primitives} {validity : X509Certificate → Validity} {R : Rustls P}
  {psk : Option String} {now : ℤ} {state : CommonState P} {cert : P2pCertificate P}
  {peer : PeerId}

/-- The other end of a handshake is authenticated: one certificate, which is well formed, and
a signature over the handshake with its key, under its scheme. -/
structure Authenticates (psk : Option String) (state : CommonState P) (cert : P2pCertificate P) :
    Prop where
  /-- The certificate. -/
  certificate : ∃ der, state.peerCertificates = some [der] ∧ WellFormed der psk cert
  /-- The scheme. -/
  scheme : signatureScheme cert.certificate = .ok state.scheme ∧ state.scheme.Supported = true
  /-- The signature. -/
  signature : P.verifyWith state.scheme cert.certificate.subjectPublicKey state.transcript
    state.signature = true

/-- The schemes asked for are those that can be checked. -/
theorem mem_verificationSchemes_iff (scheme : SignatureScheme) :
    scheme ∈ verificationSchemes ↔ scheme.Supported = true := by
  cases scheme <;> decide

/-- So nobody authenticates with a signature that was not asked for. -/
theorem Authenticates.mem_verificationSchemes (h : Authenticates psk state cert) :
    state.scheme ∈ verificationSchemes :=
  (mem_verificationSchemes_iff _).mpr h.scheme.2

/-- A handshake authenticates with one certificate. -/
theorem Authenticates.unique {cert' : P2pCertificate P} (h : Authenticates psk state cert)
    (h' : Authenticates psk state cert') : cert = cert' := by
  obtain ⟨der, hshown, hwell⟩ := h.certificate
  obtain ⟨der', hshown', hwell'⟩ := h'.certificate
  obtain ⟨rfl, -⟩ := List.cons.inj (Option.some.inj (hshown.symm.trans hshown'))
  exact hwell.unique hwell'

theorem verifyPresentedCerts_eq_ok {endEntity : P.CertificateDer}
    {intermediates : List P.CertificateDer} :
    verifyPresentedCerts P validity now endEntity intermediates psk = .ok peer ↔
      intermediates = [] ∧
        ∃ cert, parseAt P validity now endEntity psk = .ok cert ∧ cert.peerId = peer := by
  rw [verifyPresentedCerts]
  cases intermediates with
  | cons der intermediates => simp
  | nil => cases parseAt P validity now endEntity psk <;> simp

theorem verifyTls13Signature_eq_ok {der : P.CertificateDer} {scheme : SignatureScheme}
    {message signature : Bytes} :
    verifyTls13Signature P validity now der scheme message signature psk = .ok () ↔
      ∃ cert, parseAt P validity now der psk = .ok cert ∧
        verifySignature P cert.certificate scheme message signature = .ok () := by
  rw [verifyTls13Signature]
  cases parseAt P validity now der psk with
  | error e => simp
  | ok cert =>
    dsimp only
    cases hverify : verifySignature P cert.certificate scheme message signature <;>
      simp [hverify]

/-- The certificates that are accepted from a client... -/
theorem verifyClientCert_eq_ok (v : Libp2pCertificateVerifier) (endEntity : P.CertificateDer)
    (intermediates : List P.CertificateDer) :
    v.verifyClientCert P validity now endEntity intermediates = .ok () ↔
      intermediates = [] ∧
        ∃ cert, parseAt P validity now endEntity v.preSharedKey = .ok cert := by
  have hpresented : v.verifyClientCert P validity now endEntity intermediates = .ok () ↔
      ∃ peer, verifyPresentedCerts P validity now endEntity intermediates v.preSharedKey =
        .ok peer := by
    rw [Libp2pCertificateVerifier.verifyClientCert]
    cases verifyPresentedCerts P validity now endEntity intermediates v.preSharedKey <;>
      simp [bind, Except.bind, pure, Except.pure]
  rw [hpresented]
  simp [verifyPresentedCerts_eq_ok]

/-- ... and from a server, which may have to be a certain peer. -/
theorem verifyServerCert_eq_ok (v : Libp2pCertificateVerifier) (endEntity : P.CertificateDer)
    (intermediates : List P.CertificateDer) :
    v.verifyServerCert P validity now endEntity intermediates = .ok () ↔
      intermediates = [] ∧
        ∃ cert, parseAt P validity now endEntity v.preSharedKey = .ok cert ∧
          ∀ remotePeerId, v.remotePeerId = some remotePeerId → remotePeerId = cert.peerId := by
  have hpresented : v.verifyServerCert P validity now endEntity intermediates = .ok () ↔
      ∃ peer, verifyPresentedCerts P validity now endEntity intermediates v.preSharedKey =
          .ok peer ∧
        ∀ remotePeerId, v.remotePeerId = some remotePeerId → remotePeerId = peer := by
    rw [Libp2pCertificateVerifier.verifyServerCert]
    cases verifyPresentedCerts P validity now endEntity intermediates v.preSharedKey with
    | error e => simp [bind, Except.bind]
    | ok peer =>
      simp only [bind, Except.bind, Except.ok.injEq, exists_eq_left']
      cases v.remotePeerId with
      | none => simp
      | some remotePeerId => by_cases heq : remotePeerId = peer <;> simp [heq]
  rw [hpresented]
  constructor
  · rintro ⟨peer, hpeer, hremote⟩
    obtain ⟨hnil, cert, hcert, rfl⟩ := verifyPresentedCerts_eq_ok.mp hpeer
    exact ⟨hnil, cert, hcert, hremote⟩
  · rintro ⟨hnil, cert, hcert, hremote⟩
    exact ⟨_, verifyPresentedCerts_eq_ok.mpr ⟨hnil, cert, hcert, rfl⟩, hremote⟩

/-- How a verifier decides, where only some certificates are accepted. -/
structure CertVerifier.Checks (verifier : CertVerifier P) (validity : X509Certificate → Validity)
    (psk : Option String) (accepts : P2pCertificate P → Prop) : Prop where
  cert : ∀ now endEntity intermediates,
    verifier.verifyCert now endEntity intermediates = .ok () ↔
      intermediates = [] ∧
        ∃ cert, parseAt P validity now endEntity psk = .ok cert ∧ accepts cert
  signature : ∀ now message der scheme signature,
    verifier.verifyTls13Signature now message der scheme signature = .ok () ↔
      ∃ cert, parseAt P validity now der psk = .ok cert ∧
        verifySignature P cert.certificate scheme message signature = .ok ()

theorem Libp2pCertificateVerifier.ofClients_checks (v : Libp2pCertificateVerifier) :
    (v.ofClients P validity).Checks validity v.preSharedKey fun _ => True where
  cert now endEntity intermediates := by
    show v.verifyClientCert P validity now endEntity intermediates = .ok () ↔ _
    simpa using verifyClientCert_eq_ok v endEntity intermediates
  signature _ _ _ _ _ := verifyTls13Signature_eq_ok

theorem Libp2pCertificateVerifier.ofServers_checks (v : Libp2pCertificateVerifier) :
    (v.ofServers P validity).Checks validity v.preSharedKey fun cert =>
      ∀ remotePeerId, v.remotePeerId = some remotePeerId → remotePeerId = cert.peerId where
  cert _ endEntity intermediates := verifyServerCert_eq_ok v endEntity intermediates
  signature _ _ _ _ _ := verifyTls13Signature_eq_ok

/-- **What the verifier has accepted authenticates the other end**: both times it has read
the same certificate. -/
theorem CertVerifier.Checks.authenticates {verifier : CertVerifier P}
    {accepts : P2pCertificate P → Prop} {asked : ℤ → Prop}
    (h : verifier.Checks validity psk accepts) (haccepted : verifier.Accepted asked state) :
    ∃ cert, Authenticates psk state cert ∧ accepts cert ∧
      ∃ t, asked t ∧ (validity cert.certificate).isValid t = true := by
  obtain ⟨der, intermediates, hshown, ⟨t, hasked, hcert⟩, t', -, hsigned⟩ := haccepted
  obtain ⟨rfl, cert, hparse, haccepts⟩ := (h.cert _ _ _).mp hcert
  obtain ⟨cert', hparse', hsignature⟩ := (h.signature _ _ _ _ _).mp hsigned
  obtain ⟨hwell, hvalid⟩ := parseAt_ok_iff.mp hparse
  obtain rfl : cert = cert' := hwell.unique (parseAt_ok_iff.mp hparse').1
  obtain ⟨hscheme, hsupported, hverify⟩ := verifySignature_eq_ok.mp hsignature
  exact ⟨cert, ⟨⟨der, hshown, hwell⟩, ⟨hscheme, hsupported⟩, hverify⟩, haccepts, t, hasked,
    hvalid⟩

/-- **The second reading** finds the same certificate, unless it has expired since. -/
theorem upgrade_of_authenticates {E : Type} (failed : E → UpgradeError E)
    (h : Authenticates psk state cert) :
    upgrade P validity failed psk now (.ok state) =
      if (validity cert.certificate).isValid now then .ok (cert.peerId, state)
      else .error (.error (.badCertificate .invalidCertValidity)) := by
  obtain ⟨der, hshown, hwell⟩ := h.certificate
  simp only [upgrade, extractSingleCertificate, hshown, parseAt_of_wellFormed hwell]
  cases (validity cert.certificate).isValid now <;> rfl

/-- So an upgrade reports a peer for a handshake that has authenticated it, if the certificate
is still valid. -/
theorem upgrade_eq_ok {E : Type} {handshake : Except E (CommonState P)}
    (failed : E → UpgradeError E)
    (hshown : ∀ state, handshake = .ok state → ∃ cert, Authenticates psk state cert) :
    upgrade P validity failed psk now handshake = .ok (peer, state) ↔
      handshake = .ok state ∧ ∃ cert, Authenticates psk state cert ∧
        (validity cert.certificate).isValid now = true ∧ cert.peerId = peer := by
  cases handshake with
  | error e => simp [upgrade]
  | ok state' =>
    obtain ⟨cert, hauthenticates⟩ := hshown state' rfl
    rw [upgrade_of_authenticates failed hauthenticates]
    constructor
    · intro h
      split at h
      · next hvalid =>
        obtain ⟨hpeer, rfl⟩ := Prod.mk.inj (Except.ok.inj h)
        exact ⟨rfl, cert, hauthenticates, hvalid, hpeer⟩
      · cases h
    · rintro ⟨hstate, cert', hauthenticates', hvalid, rfl⟩
      obtain rfl := Except.ok.inj hstate
      obtain rfl := hauthenticates.unique hauthenticates'
      rw [if_pos hvalid]

/-- The three copies of the pre-shared key in a configuration are the same. -/
def Config.Agrees (config : Config P) : Prop :=
  config.server.preSharedKey = config.preSharedKey ∧
    config.client.preSharedKey = config.preSharedKey

variable {config : Config P} {conn : R.Connection}

/-- What a server has been shown once its handshake is completed... -/
theorem Config.authenticates_of_accept (asks : R.AsksVerifier) (hagrees : config.Agrees)
    (h : config.accept validity R conn = .ok state) :
    ∃ cert, Authenticates config.preSharedKey state cert ∧
      ∃ t, R.asked conn t ∧ (validity cert.certificate).isValid t = true := by
  let verifier : Libp2pCertificateVerifier := ⟨none, config.server.preSharedKey⟩
  have haccepted := asks.accept _ (verifier.ofClients P validity) _ _ h
  obtain ⟨cert, hauthenticates, -, hvalid⟩ := verifier.ofClients_checks.authenticates haccepted
  exact ⟨cert, hagrees.1 ▸ hauthenticates, hvalid⟩

/-- ... and a client. -/
theorem Config.authenticates_of_connect (asks : R.AsksVerifier) (hagrees : config.Agrees)
    (h : config.connect validity R conn = .ok state) :
    ∃ cert, Authenticates config.preSharedKey state cert ∧
      (∀ remotePeerId, config.client.remotePeerId = some remotePeerId →
        remotePeerId = cert.peerId) ∧
      ∃ t, R.asked conn t ∧ (validity cert.certificate).isValid t = true := by
  let verifier : Libp2pCertificateVerifier :=
    ⟨config.client.remotePeerId, config.client.preSharedKey⟩
  have haccepted := asks.connect _ (verifier.ofServers P validity) _ _ h
  obtain ⟨cert, hauthenticates, hremote, hvalid⟩ :=
    verifier.ofServers_checks.authenticates haccepted
  exact ⟨cert, hagrees.2 ▸ hauthenticates, hremote, hvalid⟩

/-- A server reports a peer for a handshake that was completed, with a certificate that is
still valid... -/
theorem upgradeInbound_eq_ok (asks : R.AsksVerifier) (hagrees : config.Agrees) :
    upgradeInbound validity R config conn now = .ok (peer, state) ↔
      config.accept validity R conn = .ok state ∧
        ∃ cert, Authenticates config.preSharedKey state cert ∧
          (validity cert.certificate).isValid now = true ∧ cert.peerId = peer :=
  upgrade_eq_ok _ fun _ h =>
    have ⟨cert, hauthenticates, _⟩ := config.authenticates_of_accept asks hagrees h
    ⟨cert, hauthenticates⟩

/-- ... and so does a client. -/
theorem upgradeOutbound_eq_ok (asks : R.AsksVerifier) (hagrees : config.Agrees) :
    upgradeOutbound validity R config conn now = .ok (peer, state) ↔
      config.connect validity R conn = .ok state ∧
        ∃ cert, Authenticates config.preSharedKey state cert ∧
          (validity cert.certificate).isValid now = true ∧ cert.peerId = peer :=
  upgrade_eq_ok _ fun _ h =>
    have ⟨cert, hauthenticates, _⟩ := config.authenticates_of_connect asks hagrees h
    ⟨cert, hauthenticates⟩

end Upgrade

/-! ### Two nodes -/

section Nodes

variable {P : Primitives} {log : List (Seal P.AeadKey)} {p q : Option String} {k : P.Keypair}
  {serverKey clientKey certKey : P.CertificateKeypair} {config : Config P}

/-- What a configuration is made of. -/
theorem newWithPsk_spec (h : (newWithPsk P log p k serverKey clientKey).1 = .ok config) :
    generate P k serverKey p = .ok config.server.certificate ∧
      generate P k clientKey p = .ok config.client.certificate ∧
      config.client.remotePeerId = none ∧ config.preSharedKey = p ∧ config.Agrees := by
  rw [newWithPsk, makeServerConfig, generateLogged_eq] at h
  cases hserver : generate P k serverKey p with
  | error e =>
    rw [hserver] at h
    cases h
  | ok server =>
    rw [hserver] at h
    dsimp only at h
    rw [makeClientConfig, generateLogged_eq] at h
    cases hclient : generate P k clientKey p with
    | error e =>
      rw [hclient] at h
      cases h
    | ok client =>
      rw [hclient] at h
      obtain rfl := Except.ok.inj h
      exact ⟨rfl, rfl, rfl, rfl, rfl, rfl⟩

/-- How `rustls` signs with the key of a certificate: the signatures are good under the key
that stands in the certificate. -/
def Primitives.SignsTls (P : Primitives) (signTls : P.CertificateKeypair → Bytes → Bytes) : Prop :=
  ∀ certKey exts der x509, P.selfSigned certKey exts = some der → P.fromDer der = some x509 →
    ∀ message, P.verifyWith .ecdsaNistp256Sha256 x509.subjectPublicKey message
      (signTls certKey message) = true

/-- The bits of the key are part of the key with its algorithm. -/
def Primitives.ReadsKey (P : Primitives) (keyBits : Bytes → Bytes) : Prop :=
  ∀ der x509, P.fromDer der = some x509 → x509.subjectPublicKey = keyBits x509.subjectPkiRaw

/-- How a generated certificate is read: with the pre-shared key it was made with, and with
no other. -/
theorem wellFormed_generate_iff (ideal : P.Ideal) {der : P.CertificateDer}
    (hder : generate P k certKey p = .ok der) :
    ∃ exts x509 raw, P.selfSigned certKey exts = some der ∧ P.fromDer der = some x509 ∧
      x509.subjectPkiRaw = P.publicKeyDer certKey ∧
      signatureScheme x509 = .ok .ecdsaNistp256Sha256 ∧
      ∀ q cert, WellFormed der q cert ↔ p = q ∧ cert = ⟨x509, ⟨P.publicOf k, raw⟩⟩ := by
  obtain ⟨raw, signature, der', hraw, hto, hgenerated, hself⟩ := generate_spec ideal k certKey p
  obtain rfl : der = der' := Except.ok.inj (hder.symm.trans hgenerated)
  obtain ⟨der', x509, hself', hfrom, hext, hvalid, hpki, hkey, halg, hown⟩ :=
    ideal.selfSigned_valid certKey
      ⟨.p2pExt, true, P.encodeDer (P.encodeProtobuf (P.publicOf k), signature)⟩
  obtain rfl : der = der' := Option.some.inj (hself.symm.trans hself')
  have hscheme : signatureScheme x509 = .ok .ecdsaNistp256Sha256 := by
    simp [signatureScheme, hkey, halg]
  refine ⟨_, x509, raw, hself, hfrom, hpki, hscheme, ?_⟩
  intro q cert
  -- what is self-signed is valid: the signature in the extension decides
  have hsignature : ∀ taken,
      P2pCertificate.verify P ⟨x509, ⟨P.publicOf k, taken⟩⟩ = .ok () ↔
        P.verify (P.publicOf k) (signingPrefix ++ P.publicKeyDer certKey) taken = true := by
    intro taken
    rw [verify_iff_signature hvalid hkey halg hown, ← hpki]
  have hread : WellFormed der q cert ↔ parse P der q = .ok cert := by
    rw [parse_ok_iff_wellFormed]
    constructor
    · intro hwell
      obtain rfl : x509 = cert.certificate := Option.some.inj (hfrom.symm.trans hwell.fromDer)
      exact ⟨hwell, hvalid⟩
    · exact And.left
  rw [hread, parse_ok_iff, parseUnverified_spec ideal hfrom hext]
  constructor
  · rintro ⟨⟨taken, htaken, rfl⟩, hverify⟩
    obtain ⟨heq, rfl⟩ := (signatureFromExtension_iff ideal hraw hto q taken).mp
      ⟨htaken, (hsignature taken).mp hverify⟩
    exact ⟨heq, rfl⟩
  · rintro ⟨heq, rfl⟩
    obtain ⟨htaken, hverify⟩ := (signatureFromExtension_iff ideal hraw hto q raw).mpr ⟨heq, rfl⟩
    exact ⟨⟨raw, htaken, rfl⟩, (hsignature raw).mpr hverify⟩

/-- A node authenticates to those who have its pre-shared key, and to nobody else. -/
theorem Authenticates.of_generate (ideal : P.Ideal) {der : P.CertificateDer}
    (hder : generate P k certKey p = .ok der) {state : CommonState P}
    (hshown : state.peerCertificates = some [der]) {cert : P2pCertificate P}
    (h : Authenticates q state cert) :
    p = q ∧ cert.peerId = P.toPeerId (P.publicOf k) ∧ P.fromDer der = some cert.certificate := by
  obtain ⟨_, x509, raw, -, hfrom, -, -, hwell⟩ := wellFormed_generate_iff ideal hder
  obtain ⟨der', hshown', hcert⟩ := h.certificate
  obtain ⟨rfl, -⟩ := List.cons.inj (Option.some.inj (hshown.symm.trans hshown'))
  obtain ⟨heq, rfl⟩ := (hwell q cert).mp hcert
  exact ⟨heq, rfl, hfrom⟩

/-- A certificate is valid at certain times. -/
def InPeriod (validity : X509Certificate → Validity) (times : ℤ → Prop) (der : P.CertificateDer) :
    Prop :=
  ∀ x509, P.fromDer der = some x509 → ∀ t, times t → (validity x509).isValid t = true

/-- What a node shows is accepted at certain times: its certificate, and the signatures with
the key of that, under a scheme that was asked for. -/
structure CertVerifier.AcceptsNode (verifier : CertVerifier P) (times : ℤ → Prop)
    (signTls : P.CertificateKeypair → Bytes → Bytes) (der : P.CertificateDer)
    (certKey : P.CertificateKeypair) : Prop where
  scheme : .ecdsaNistp256Sha256 ∈ verifier.supportedVerifySchemes
  cert : ∀ t, times t → verifier.verifyCert t der [] = .ok ()
  signature : ∀ t, times t → ∀ message,
    verifier.verifyTls13Signature t message der .ecdsaNistp256Sha256 (signTls certKey message) =
      .ok ()

/-- A verifier with the same pre-shared key accepts what a node shows. -/
theorem CertVerifier.Checks.acceptsNode (ideal : P.Ideal)
    {signTls : P.CertificateKeypair → Bytes → Bytes} (signs : P.SignsTls signTls)
    {validity : X509Certificate → Validity} {verifier : CertVerifier P}
    {accepts : P2pCertificate P → Prop} (h : verifier.Checks validity p accepts)
    (hschemes : verifier.supportedVerifySchemes = verificationSchemes)
    {der : P.CertificateDer} (hder : generate P k certKey p = .ok der)
    (haccepts : ∀ cert : P2pCertificate P, cert.peerId = P.toPeerId (P.publicOf k) → accepts cert)
    {times : ℤ → Prop} (hperiod : InPeriod validity times der) :
    verifier.AcceptsNode times signTls der certKey := by
  obtain ⟨exts, x509, raw, hself, hfrom, -, hscheme, hwell⟩ := wellFormed_generate_iff ideal hder
  have hparse : ∀ t, times t →
      parseAt P validity t der p = .ok ⟨x509, ⟨P.publicOf k, raw⟩⟩ := by
    intro t ht
    exact parseAt_ok_iff.mpr ⟨(hwell p _).mpr ⟨rfl, rfl⟩, hperiod x509 hfrom t ht⟩
  refine ⟨?_, ?_, ?_⟩
  · rw [hschemes]
    decide
  · intro t ht
    exact (h.cert _ _ _).mpr ⟨rfl, _, hparse t ht, haccepts _ rfl⟩
  · intro t ht message
    refine (h.signature _ _ _ _ _).mpr ⟨_, hparse t ht, ?_⟩
    exact verifySignature_eq_ok.mpr ⟨hscheme, rfl, signs certKey exts der x509 hself hfrom message⟩

/-- The ends of one connection between a client and a server, over which everything arrives:
each is shown the certificate of the other, and both complete their handshake if their
verifiers accept what they are shown. -/
structure Rustls.Joins (R : Rustls P) (signTls : P.CertificateKeypair → Bytes → Bytes)
    (client : P.CertificateDer) (clientKey : P.CertificateKeypair) (server : P.CertificateDer)
    (serverKey : P.CertificateKeypair) (conn conn' : R.Connection) : Prop where
  shownServer : ∀ verifier state, R.connect client verifier conn = .ok state →
    state.peerCertificates = some [server]
  shownClient : ∀ verifier state, R.accept server verifier conn' = .ok state →
    state.peerCertificates = some [client]
  completes : ∀ verifier verifier' : CertVerifier P,
    verifier.AcceptsNode (R.asked conn) signTls server serverKey →
      verifier'.AcceptsNode (R.asked conn') signTls client clientKey →
        (∃ state, R.connect client verifier conn = .ok state) ∧
          ∃ state, R.accept server verifier' conn' = .ok state

end Nodes

/-! ### Primitives that read the key of a certificate -/

/-- `samplePrimitives`, where the bits of a certificate's key are the key. -/
def tlsPrimitives : Primitives :=
  { samplePrimitives with
    fromDer := fun (x509 : X509Certificate) =>
      some { x509 with subjectPublicKey := x509.subjectPkiRaw } }

/-- The signatures of these are those of the identity keys. -/
def sampleSignTls (certKey message : Bytes) : Bytes :=
  (samplePrimitives.sign certKey message).getD []

private theorem tlsPrimitives_ideal : tlsPrimitives.Ideal := by
  have ideal := samplePrimitives_lawful
  exact
    { hmac_injective := ideal.hmac_injective
      unboundKey_hmac := ideal.unboundKey_hmac
      unboundKey_injective := ideal.unboundKey_injective
      sign_isSome := ideal.sign_isSome
      verify_iff := ideal.verify_iff
      seal_signature := ideal.seal_signature
      open_seal := ideal.open_seal
      open_signature := ideal.open_signature
      protobuf_roundTrip := ideal.protobuf_roundTrip
      der_roundTrip := ideal.der_roundTrip
      selfSigned_valid := by
        intro certKey ext
        refine ⟨_, _, rfl, rfl, rfl, rfl, rfl, rfl, rfl, ?_⟩
        simp [tlsPrimitives, samplePrimitives] }

private theorem tlsPrimitives_signsTls : tlsPrimitives.SignsTls sampleSignTls := by
  intro certKey exts der x509 hself hfrom message
  obtain rfl := Option.some.inj hself
  obtain rfl := Option.some.inj hfrom
  simp [tlsPrimitives, samplePrimitives, sampleSignTls]

private theorem tlsPrimitives_readsKey : tlsPrimitives.ReadsKey id := by
  intro der x509 hfrom
  obtain rfl := Option.some.inj hfrom
  rfl

private theorem exists_generate_tlsPrimitives (k certKey : Bytes) (p : Option String) :
    ∃ der, generate tlsPrimitives k certKey p = .ok der := by
  obtain ⟨_, _, der, -, -, hder, -⟩ := generate_spec tlsPrimitives_ideal k certKey p
  exact ⟨der, hder⟩

private theorem exists_newWithPsk_tlsPrimitives (k serverKey clientKey : Bytes)
    (p : Option String) :
    ∃ config, (newWithPsk tlsPrimitives [] p k serverKey clientKey).1 = .ok config ∧
      config.preSharedKey = p := by
  obtain ⟨server, hserver⟩ := exists_generate_tlsPrimitives k serverKey p
  obtain ⟨client, hclient⟩ := exists_generate_tlsPrimitives k clientKey p
  exact ⟨_, congrArg Prod.fst (newWithPsk_eq_ok [] hserver hclient), rfl⟩

/-- The years of a certificate that `rcgen` makes, 1975 to 4096. -/
def sampleValidity (_ : X509Certificate) : Validity := ⟨157766400, 67090118400⟩

/-- A handshake that asks the verifier at a time, and nothing else. -/
def sampleHandshake (verifier : CertVerifier tlsPrimitives)
    (conn : CommonState tlsPrimitives × ℤ) :
    Except (Option TlsError) (CommonState tlsPrimitives) :=
  match conn.1.peerCertificates with
  | some (endEntity :: intermediates) =>
      match verifier.verifyCert conn.2 endEntity intermediates with
      | .error e => .error (some e)
      | .ok () =>
          match verifier.verifyTls13Signature conn.2 conn.1.transcript endEntity conn.1.scheme
              conn.1.signature with
          | .error e => .error (some e)
          | .ok () => .ok conn.1
  | _ => .error none

/-- A connection is what the other end shows, and the time. -/
def sampleRustls : Rustls tlsPrimitives where
  Connection := CommonState tlsPrimitives × ℤ
  Error := Option TlsError
  asked conn t := t = conn.2
  accept _ := sampleHandshake
  connect _ := sampleHandshake

/-- What a node shows when it signs a handshake. -/
def sampleState (der : X509Certificate) (certKey transcript : Bytes) :
    CommonState tlsPrimitives :=
  ⟨some [der], transcript, .ecdsaNistp256Sha256, sampleSignTls certKey transcript⟩

private theorem sampleHandshake_eq_ok {verifier : CertVerifier tlsPrimitives}
    {conn : CommonState tlsPrimitives × ℤ} {state : CommonState tlsPrimitives} :
    sampleHandshake verifier conn = .ok state ↔
      state = conn.1 ∧ verifier.Accepted (fun t => t = conn.2) state := by
  rw [sampleHandshake]
  constructor
  · intro h
    split at h
    · next endEntity intermediates hshown =>
      split at h
      · cases h
      · next hcert =>
        split at h
        · cases h
        · next hsignature =>
          obtain rfl := Except.ok.inj h
          exact ⟨rfl, endEntity, intermediates, hshown, ⟨_, rfl, hcert⟩, _, rfl, hsignature⟩
    · cases h
  · rintro ⟨rfl, endEntity, intermediates, hshown, ⟨_, rfl, hcert⟩, _, rfl, hsignature⟩
    simp only [hshown, hcert, hsignature]

private theorem sampleRustls_asksVerifier : sampleRustls.AsksVerifier where
  accept _ _ _ _ h := (sampleHandshake_eq_ok.mp h).2
  connect _ _ _ _ h := (sampleHandshake_eq_ok.mp h).2

private theorem inPeriod_sampleValidity (times : ℤ → Prop) (htimes : ∀ t, times t → t = 1700000000)
    (der : X509Certificate) : InPeriod (P := tlsPrimitives) sampleValidity times der := by
  intro _ _ t ht
  obtain rfl := htimes t ht
  rfl

private theorem accepted_sampleState {verifier : CertVerifier tlsPrimitives} {now : ℤ}
    {der : X509Certificate} {certKey : Bytes} (transcript : Bytes)
    (h : verifier.AcceptsNode (fun t => t = now) sampleSignTls der certKey) :
    sampleHandshake verifier (sampleState der certKey transcript, now) =
      .ok (sampleState der certKey transcript) :=
  sampleHandshake_eq_ok.mpr ⟨rfl, der, [], rfl, ⟨now, rfl, h.cert now rfl⟩, now, rfl,
    h.signature now rfl transcript⟩

/-- A server with a pre-shared key completes its handshake with a client that has it too. -/
private theorem accept_sampleRustls {config : Config tlsPrimitives} {der : X509Certificate}
    {k certKey : Bytes} (hagrees : config.Agrees)
    (hder : generate tlsPrimitives k certKey config.preSharedKey = .ok der) (transcript : Bytes) :
    config.accept sampleValidity sampleRustls (sampleState der certKey transcript, 1700000000) =
      .ok (sampleState der certKey transcript) := by
  apply accepted_sampleState
  rw [hagrees.1]
  exact (Libp2pCertificateVerifier.ofClients_checks _).acceptsNode tlsPrimitives_ideal
    tlsPrimitives_signsTls rfl hder (fun _ _ => trivial)
    (inPeriod_sampleValidity _ (fun _ h => h) der)

/-! ### Handshakes -/

/-- **What a completed handshake has shown**, and how the upgrade ends then, on either side.
An upgrade fails with the handshake, or because the certificate has expired since it was
verified; it never panics, and otherwise reports the peer of the certificate. -/
theorem upgrade_outcome (P : Primitives) (validity : X509Certificate → Validity) (R : Rustls P)
    (asks : R.AsksVerifier) (config : Config P) (hagrees : config.Agrees) (conn : R.Connection)
    (now : ℤ) :
    ((∃ e, config.accept validity R conn = .error e ∧
        upgradeInbound validity R config conn now = .error (.error (.serverUpgrade e))) ∨
      ∃ state cert, config.accept validity R conn = .ok state ∧
        Authenticates config.preSharedKey state cert ∧
        (∃ t, R.asked conn t ∧ (validity cert.certificate).isValid t = true) ∧
        upgradeInbound validity R config conn now =
          if (validity cert.certificate).isValid now then .ok (cert.peerId, state)
          else .error (.error (.badCertificate .invalidCertValidity))) ∧
      ((∃ e, config.connect validity R conn = .error e ∧
        upgradeOutbound validity R config conn now = .error (.error (.clientUpgrade e))) ∨
      ∃ state cert, config.connect validity R conn = .ok state ∧
        Authenticates config.preSharedKey state cert ∧
        (∀ remotePeerId, config.client.remotePeerId = some remotePeerId →
          remotePeerId = cert.peerId) ∧
        (∃ t, R.asked conn t ∧ (validity cert.certificate).isValid t = true) ∧
        upgradeOutbound validity R config conn now =
          if (validity cert.certificate).isValid now then .ok (cert.peerId, state)
          else .error (.error (.badCertificate .invalidCertValidity))) := by
  constructor
  · rw [upgradeInbound]
    cases haccept : config.accept validity R conn with
    | error e => exact .inl ⟨e, rfl, rfl⟩
    | ok state =>
      obtain ⟨cert, hauthenticates, hvalid⟩ := config.authenticates_of_accept asks hagrees haccept
      exact .inr ⟨state, cert, rfl, hauthenticates, hvalid,
        upgrade_of_authenticates _ hauthenticates⟩
  · rw [upgradeOutbound]
    cases hconnect : config.connect validity R conn with
    | error e => exact .inl ⟨e, rfl, rfl⟩
    | ok state =>
      obtain ⟨cert, hauthenticates, hremote, hvalid⟩ :=
        config.authenticates_of_connect asks hagrees hconnect
      exact .inr ⟨state, cert, rfl, hauthenticates, hremote, hvalid,
        upgrade_of_authenticates _ hauthenticates⟩

/-- A server with a pre-shared key, and a client that has it too.  The client is reported if
its certificate has not expired when the handshake is over. -/
theorem upgrade_outcome_sample :
    ∃ config der, (newWithPsk tlsPrimitives [] (some "psk") [8] [11] [12]).1 = .ok config ∧
      generate tlsPrimitives [7] [10] (some "psk") = .ok der ∧
      upgradeInbound sampleValidity sampleRustls config (sampleState der [10] [42], 1700000000)
        1700000001 = .ok (⟨[7]⟩, sampleState der [10] [42]) ∧
      upgradeInbound sampleValidity sampleRustls config (sampleState der [10] [42], 1700000000)
        70000000000 = .error (.error (.badCertificate .invalidCertValidity)) := by
  obtain ⟨config, hconfig, hpsk⟩ := exists_newWithPsk_tlsPrimitives [8] [11] [12] (some "psk")
  obtain ⟨der, hder⟩ := exists_generate_tlsPrimitives [7] [10] (some "psk")
  obtain ⟨-, -, -, -, hagrees⟩ := newWithPsk_spec hconfig
  have haccept := accept_sampleRustls hagrees (hpsk.symm ▸ hder) [42]
  have houtcome := fun now => (upgrade_outcome tlsPrimitives sampleValidity sampleRustls
    sampleRustls_asksVerifier config hagrees (sampleState der [10] [42], 1700000000) now).1
  have hends : ∀ now : ℤ, upgradeInbound sampleValidity sampleRustls config
      (sampleState der [10] [42], 1700000000) now =
        if (sampleValidity der).isValid now then .ok (⟨[7]⟩, sampleState der [10] [42])
        else .error (.error (.badCertificate .invalidCertValidity)) := by
    intro now
    rcases houtcome now with ⟨e, herror, -⟩ | ⟨state, cert, hok, hauthenticates, -, hends⟩
    · rw [haccept] at herror
      cases herror
    · obtain rfl := Except.ok.inj (haccept.symm.trans hok)
      obtain ⟨-, hpeer, -⟩ := hauthenticates.of_generate tlsPrimitives_ideal hder rfl
      rw [hends, hpeer]
      rfl
  exact ⟨config, der, hconfig, hder, hends _, hends _⟩

/-- **Two nodes complete a handshake exactly when they have the same pre-shared key**, or
both have none; each end then has the peer of the other. -/
theorem handshake_completes_iff (P : Primitives) (ideal : P.Ideal)
    (signTls : P.CertificateKeypair → Bytes → Bytes) (signs : P.SignsTls signTls)
    (validity : X509Certificate → Validity) (R : Rustls P) (asks : R.AsksVerifier)
    (p q : Option String) (k k' : P.Keypair)
    (serverKey clientKey serverKey' clientKey' : P.CertificateKeypair)
    (log log' : List (Seal P.AeadKey)) (config config' : Config P)
    (hconfig : (newWithPsk P log p k serverKey clientKey).1 = .ok config)
    (hconfig' : (newWithPsk P log' q k' serverKey' clientKey').1 = .ok config')
    (conn conn' : R.Connection)
    (hjoins : R.Joins signTls config.client.certificate clientKey config'.server.certificate
      serverKey' conn conn')
    (now now' : ℤ)
    (hserver : InPeriod validity (fun t => R.asked conn t ∨ t = now) config'.server.certificate)
    (hclient : InPeriod validity (fun t => R.asked conn' t ∨ t = now') config.client.certificate)
    (peer peer' : PeerId) :
    ((∃ state, upgradeOutbound validity R config conn now = .ok (peer', state)) ↔
        p = q ∧ peer' = P.toPeerId (P.publicOf k')) ∧
      ((∃ state, upgradeInbound validity R config' conn' now' = .ok (peer, state)) ↔
        p = q ∧ peer = P.toPeerId (P.publicOf k)) := by
  obtain ⟨-, hgenerate, hany, rfl, hagrees⟩ := newWithPsk_spec hconfig
  obtain ⟨hgenerate', -, -, rfl, hagrees'⟩ := newWithPsk_spec hconfig'
  -- with one pre-shared key both ends accept what they are shown
  have hcomplete (heq : config.preSharedKey = config'.preSharedKey) :
      (∃ state, config.connect validity R conn = .ok state) ∧
        ∃ state, config'.accept validity R conn' = .ok state := by
    apply hjoins.completes
    · rw [hagrees.2, heq, hany]
      refine (Libp2pCertificateVerifier.ofServers_checks _).acceptsNode ideal signs rfl hgenerate'
        ?_ fun x509 hfrom t ht => hserver x509 hfrom t (.inl ht)
      intro cert _ remotePeerId hremote
      cases hremote
    · rw [hagrees'.1, ← heq]
      exact (Libp2pCertificateVerifier.ofClients_checks _).acceptsNode ideal signs rfl hgenerate
        (fun _ _ => trivial) fun x509 hfrom t ht => hclient x509 hfrom t (.inl ht)
  constructor
  · simp only [upgradeOutbound_eq_ok asks hagrees]
    constructor
    · rintro ⟨state, hconnect, cert, hauthenticates, -, rfl⟩
      obtain ⟨heq, hpeer, -⟩ := hauthenticates.of_generate ideal hgenerate'
        (hjoins.shownServer _ _ hconnect)
      exact ⟨heq.symm, hpeer⟩
    · rintro ⟨heq, rfl⟩
      obtain ⟨state, hconnect⟩ := (hcomplete heq).1
      obtain ⟨cert, hauthenticates, -⟩ := config.authenticates_of_connect asks hagrees hconnect
      obtain ⟨-, hpeer, hfrom⟩ := hauthenticates.of_generate ideal hgenerate'
        (hjoins.shownServer _ _ hconnect)
      exact ⟨state, hconnect, cert, hauthenticates, hserver _ hfrom now (.inr rfl), hpeer⟩
  · simp only [upgradeInbound_eq_ok asks hagrees']
    constructor
    · rintro ⟨state, haccept, cert, hauthenticates, -, rfl⟩
      obtain ⟨heq, hpeer, -⟩ := hauthenticates.of_generate ideal hgenerate
        (hjoins.shownClient _ _ haccept)
      exact ⟨heq, hpeer⟩
    · rintro ⟨heq, rfl⟩
      obtain ⟨state, haccept⟩ := (hcomplete heq).2
      obtain ⟨cert, hauthenticates, -⟩ := config'.authenticates_of_accept asks hagrees' haccept
      obtain ⟨-, hpeer, hfrom⟩ := hauthenticates.of_generate ideal hgenerate
        (hjoins.shownClient _ _ haccept)
      exact ⟨state, haccept, cert, hauthenticates, hclient _ hfrom now' (.inr rfl), hpeer⟩

private theorem sampleRustls_joins (client server : X509Certificate)
    (clientKey serverKey transcript transcript' : Bytes) (now : ℤ) :
    sampleRustls.Joins sampleSignTls client clientKey server serverKey
      (sampleState server serverKey transcript, now)
      (sampleState client clientKey transcript', now) where
  shownServer verifier state h := by
    have hends : sampleHandshake verifier (sampleState server serverKey transcript, now) =
        .ok state := h
    rw [(sampleHandshake_eq_ok.mp hends).1]
    rfl
  shownClient verifier state h := by
    have hends : sampleHandshake verifier (sampleState client clientKey transcript', now) =
        .ok state := h
    rw [(sampleHandshake_eq_ok.mp hends).1]
    rfl
  completes _ _ hclient hserver :=
    ⟨⟨_, accepted_sampleState transcript hclient⟩, _, accepted_sampleState transcript' hserver⟩

/-- Two nodes with one pre-shared key, as a server and a client. -/
theorem handshake_completes_sample :
    ∃ config config', (newWithPsk tlsPrimitives [] (some "psk") [7] [9] [10]).1 = .ok config ∧
      (newWithPsk tlsPrimitives [] (some "psk") [8] [11] [12]).1 = .ok config' ∧
      (∃ state, upgradeOutbound sampleValidity sampleRustls config
        (sampleState config'.server.certificate [11] [41], 1700000000) 1700000000 =
          .ok (⟨[8]⟩, state)) ∧
      ∃ state, upgradeInbound sampleValidity sampleRustls config'
        (sampleState config.client.certificate [10] [42], 1700000000) 1700000000 =
          .ok (⟨[7]⟩, state) := by
  obtain ⟨config, hconfig, -⟩ := exists_newWithPsk_tlsPrimitives [7] [9] [10] (some "psk")
  obtain ⟨config', hconfig', -⟩ := exists_newWithPsk_tlsPrimitives [8] [11] [12] (some "psk")
  have htimes : ∀ t : ℤ, t = 1700000000 ∨ t = 1700000000 → t = 1700000000 := fun _ h => h.elim id id
  have hiff := handshake_completes_iff tlsPrimitives tlsPrimitives_ideal sampleSignTls
    tlsPrimitives_signsTls sampleValidity sampleRustls sampleRustls_asksVerifier (some "psk")
    (some "psk") [7] [8] [9] [10] [11] [12] [] [] config config' hconfig hconfig'
    (sampleState config'.server.certificate [11] [41], 1700000000)
    (sampleState config.client.certificate [10] [42], 1700000000)
    (sampleRustls_joins _ _ _ _ _ _ _) 1700000000 1700000000
    (inPeriod_sampleValidity _ htimes _) (inPeriod_sampleValidity _ htimes _) ⟨[7]⟩ ⟨[8]⟩
  exact ⟨config, config', hconfig, hconfig', hiff.1.mpr ⟨rfl, rfl⟩, hiff.2.mpr ⟨rfl, rfl⟩⟩

/-! ### Any number of nodes, and anyone else

Nodes are started, sign handshakes, and take part in handshakes with whatever they are
sent.  A signature that is sent need not be one that a node made for this: it may be
recorded, or made up.  What it takes to make one up is the assumption `Unforged`. -/

section Net

variable (P : Primitives)

/-- A node that was started. -/
structure TlsNode where
  identity : P.Keypair
  serverKey : P.CertificateKeypair
  clientKey : P.CertificateKeypair
  config : Config P

/-- The public keys of the certificates of a node. -/
def TlsNode.certificateKeys (node : TlsNode P) : List Bytes :=
  [P.publicKeyDer node.serverKey, P.publicKeyDer node.clientKey]

/-- A handshake a node has completed. -/
structure Completed where
  /-- The peer that was reported. -/
  peer : PeerId
  /-- The handshake. -/
  transcript : Bytes

/-- The nodes, and what they did. -/
structure TlsNet where
  nodes : List (TlsNode P)
  /-- The handshakes that were signed, each with the public key of the certificate. -/
  signed : List (Bytes × Bytes)
  completed : List Completed

variable {P}

/-- A step. -/
inductive TlsAction (R : Rustls P)
  /-- A node is started. -/
  | start (psk : Option String) (identity : P.Keypair)
      (serverKey clientKey : P.CertificateKeypair)
  /-- A node signs a handshake as a server... -/
  | signInbound (node : ℕ) (transcript : Bytes)
  /-- ... or as a client. -/
  | signOutbound (node : ℕ) (transcript : Bytes)
  /-- A node is connected to, and reads the clock after the handshake... -/
  | inbound (node : ℕ) (conn : R.Connection) (now : ℤ)
  /-- ... or connects to somebody. -/
  | outbound (node : ℕ) (conn : R.Connection) (now : ℤ)

/-- What an upgrade leaves behind. -/
def TlsNet.record {E : Type} (net : TlsNet P) :
    Except (UpgradeFailure E) (PeerId × CommonState P) → TlsNet P
  | .error _ => net
  | .ok (peer, state) => { net with completed := ⟨peer, state.transcript⟩ :: net.completed }

variable (validity : X509Certificate → Validity) (R : Rustls P)

/-- One step; there is none of a node that was not started. -/
def TlsNet.step (net : TlsNet P) : TlsAction R → Option (TlsNet P)
  | .start psk identity serverKey clientKey =>
      match (newWithPsk P [] psk identity serverKey clientKey).1 with
      | .error _ => none
      | .ok config =>
          some { net with nodes := ⟨identity, serverKey, clientKey, config⟩ :: net.nodes }
  | .signInbound i transcript =>
      net.nodes[i]?.map fun node =>
        { net with signed := (P.publicKeyDer node.serverKey, transcript) :: net.signed }
  | .signOutbound i transcript =>
      net.nodes[i]?.map fun node =>
        { net with signed := (P.publicKeyDer node.clientKey, transcript) :: net.signed }
  | .inbound i conn now =>
      net.nodes[i]?.map fun node => net.record (upgradeInbound validity R node.config conn now)
  | .outbound i conn now =>
      net.nodes[i]?.map fun node => net.record (upgradeOutbound validity R node.config conn now)

/-- Before anything was started. -/
def TlsNet.empty : TlsNet P := ⟨[], [], []⟩

/-- What is assumed of what a node is shown: nobody else signs for an identity or with the key
of a node's certificate. -/
structure UnforgedState (keyBits : Bytes → Bytes) (honest : P.Keypair → Prop) (net : TlsNet P)
    (node : TlsNode P) (state : CommonState P) : Prop where
  /-- A signature by an honest identity over a certificate's key was made by a node of that
  identity, over the key of a certificate of its own. -/
  identity : ∀ der, state.peerCertificates = some [der] → ∀ cert : P2pCertificate P,
    WellFormed der node.config.preSharedKey cert →
      ∀ k, honest k → cert.extension.publicKey = P.publicOf k →
        P.verify (P.publicOf k) (signingPrefix ++ cert.certificate.subjectPkiRaw)
          cert.extension.signature = true →
        ∃ signer ∈ net.nodes, P.publicOf signer.identity = P.publicOf k ∧
          cert.certificate.subjectPkiRaw ∈ signer.certificateKeys
  /-- A signature over the handshake with the key of a node's certificate was made by it. -/
  handshake : ∀ signer ∈ net.nodes, ∀ key ∈ signer.certificateKeys,
    P.verifyWith state.scheme (keyBits key) state.transcript state.signature = true →
      (key, state.transcript) ∈ net.signed

/-- The same of a step. -/
def Unforged (keyBits : Bytes → Bytes) (honest : P.Keypair → Prop) (net : TlsNet P) :
    TlsAction R → Prop
  | .inbound i conn _ => ∀ node ∈ net.nodes[i]?, ∀ state,
      node.config.accept validity R conn = .ok state → UnforgedState keyBits honest net node state
  | .outbound i conn _ => ∀ node ∈ net.nodes[i]?, ∀ state,
      node.config.connect validity R conn = .ok state → UnforgedState keyBits honest net node state
  | _ => True

/-- A handshake was signed by a node of an identity. -/
def TlsNet.SignedBy (net : TlsNet P) (k : P.Keypair) (transcript : Bytes) : Prop :=
  ∃ node ∈ net.nodes, P.publicOf node.identity = P.publicOf k ∧
    ∃ key ∈ node.certificateKeys, (key, transcript) ∈ net.signed

/-- What holds after any run. -/
structure TlsNet.Sound (honest : P.Keypair → Prop) (net : TlsNet P) : Prop where
  /-- The copies of the pre-shared key are the same in every configuration. -/
  agrees : ∀ node ∈ net.nodes, node.config.Agrees
  /-- Whoever was reported took part. -/
  signed : ∀ c ∈ net.completed, ∀ k, honest k → c.peer = P.toPeerId (P.publicOf k) →
    net.SignedBy k c.transcript

variable {validity R} {keyBits : Bytes → Bytes} {honest : P.Keypair → Prop}
  {net net' : TlsNet P} {transcript : Bytes} {state : CommonState P} {node : TlsNode P}

/-- What a node has signed stays signed. -/
theorem TlsNet.SignedBy.mono {k : P.Keypair} (h : net.SignedBy k transcript)
    (hnodes : net.nodes ⊆ net'.nodes) (hsigned : net.signed ⊆ net'.signed) :
    net'.SignedBy k transcript := by
  obtain ⟨node, hnode, hidentity, key, hkey, hmem⟩ := h
  exact ⟨node, hnodes hnode, hidentity, key, hkey, hsigned hmem⟩

/-- **A handshake that authenticates an identity** was signed by a node of that identity: the
identity signs the key of the certificate, and this key the handshake. -/
theorem signedBy_of_authenticates (hkeys : P.ReadsKey keyBits)
    (hunforged : UnforgedState keyBits honest net node state) {cert : P2pCertificate P}
    (hauthenticates : Authenticates node.config.preSharedKey state cert)
    {k : P.Keypair} (hk : honest k) (hpublic : cert.extension.publicKey = P.publicOf k) :
    net.SignedBy k state.transcript := by
  obtain ⟨der, hshown, hwell⟩ := hauthenticates.certificate
  have hidentity := hwell.identity
  rw [hpublic] at hidentity
  obtain ⟨signer, hsigner, hsame, hkey⟩ :=
    hunforged.identity der hshown cert hwell k hk hpublic hidentity
  have hsignature := hauthenticates.signature
  rw [hkeys der cert.certificate hwell.fromDer] at hsignature
  exact ⟨signer, hsigner, hsame, _, hkey, hunforged.handshake signer hsigner _ hkey hsignature⟩

/-- What an upgrade leaves behind is sound if the upgrade ends with the peer of a handshake
that authenticates it. -/
theorem TlsNet.Sound.record {E : Type} (hpeer : Function.Injective P.toPeerId)
    (hkeys : P.ReadsKey keyBits) (h : net.Sound honest)
    {result : Except (UpgradeFailure E) (PeerId × CommonState P)}
    (hresult : ∀ peer state, result = .ok (peer, state) →
      UnforgedState keyBits honest net node state ∧
        ∃ cert, Authenticates node.config.preSharedKey state cert ∧ cert.peerId = peer) :
    (net.record result).Sound honest := by
  cases result with
  | error failure => exact h
  | ok completed =>
    obtain ⟨hunforged, cert, hauthenticates, hcert⟩ := hresult completed.1 completed.2 rfl
    refine ⟨h.agrees, ?_⟩
    intro c hc k hk hreported
    rcases List.mem_cons.mp hc with rfl | hc
    · have hpublic : cert.extension.publicKey = P.publicOf k := hpeer (hcert.trans hreported)
      exact (signedBy_of_authenticates hkeys hunforged hauthenticates hk hpublic).mono
        (List.Subset.refl _) (List.Subset.refl _)
    · exact (h.signed c hc k hk hreported).mono (List.Subset.refl _) (List.Subset.refl _)

/-- One step. -/
theorem TlsNet.Sound.step (hpeer : Function.Injective P.toPeerId) (hkeys : P.ReadsKey keyBits)
    (asks : R.AsksVerifier) {a : TlsAction R} (h : net.Sound honest)
    (hunforged : Unforged validity R keyBits honest net a)
    (hstep : net.step validity R a = some net') : net'.Sound honest := by
  cases a with
  | start psk identity serverKey clientKey =>
    rw [TlsNet.step] at hstep
    cases hconfig : (newWithPsk P [] psk identity serverKey clientKey).1 with
    | error e =>
      rw [hconfig] at hstep
      cases hstep
    | ok config =>
      rw [hconfig] at hstep
      obtain rfl := Option.some.inj hstep
      obtain ⟨-, -, -, -, hagrees⟩ := newWithPsk_spec hconfig
      constructor
      · intro node hnode
        rcases List.mem_cons.mp hnode with rfl | hnode
        · exact hagrees
        · exact h.agrees node hnode
      · intro c hc k hk hreported
        exact (h.signed c hc k hk hreported).mono (List.subset_cons_self _ _)
          (List.Subset.refl _)
  | signInbound i transcript =>
    obtain ⟨node, -, rfl⟩ := Option.map_eq_some_iff.mp hstep
    refine ⟨h.agrees, ?_⟩
    intro c hc k hk hreported
    exact (h.signed c hc k hk hreported).mono (List.Subset.refl _)
      (List.subset_cons_self _ _)
  | signOutbound i transcript =>
    obtain ⟨node, -, rfl⟩ := Option.map_eq_some_iff.mp hstep
    refine ⟨h.agrees, ?_⟩
    intro c hc k hk hreported
    exact (h.signed c hc k hk hreported).mono (List.Subset.refl _)
      (List.subset_cons_self _ _)
  | inbound i conn now =>
    obtain ⟨node, hnode, rfl⟩ := Option.map_eq_some_iff.mp hstep
    apply h.record hpeer hkeys
    intro peer state hok
    obtain ⟨haccept, cert, hauthenticates, -, hcert⟩ :=
      (upgradeInbound_eq_ok asks (h.agrees node (List.mem_of_getElem? hnode))).mp hok
    exact ⟨hunforged node hnode state haccept, cert, hauthenticates, hcert⟩
  | outbound i conn now =>
    obtain ⟨node, hnode, rfl⟩ := Option.map_eq_some_iff.mp hstep
    apply h.record hpeer hkeys
    intro peer state hok
    obtain ⟨hconnect, cert, hauthenticates, -, hcert⟩ :=
      (upgradeOutbound_eq_ok asks (h.agrees node (List.mem_of_getElem? hnode))).mp hok
    exact ⟨hunforged node hnode state hconnect, cert, hauthenticates, hcert⟩

/-- **No impersonation.**  Whatever nodes are sent, a completed handshake that reports the
peer of an honest identity was signed by a node of this identity, with the key of one of
its certificates. -/
theorem no_impersonation (P : Primitives) (keyBits : Bytes → Bytes) (hkeys : P.ReadsKey keyBits)
    (hpeer : Function.Injective P.toPeerId) (honest : P.Keypair → Prop)
    (validity : X509Certificate → Validity) (R : Rustls P) (asks : R.AsksVerifier)
    (actions : List (TlsAction R)) (net : TlsNet P)
    (hrun : Runs.run (TlsNet.step validity R) TlsNet.empty actions = some net)
    (hunforged : Runs.Along (TlsNet.step validity R) (Unforged validity R keyBits honest)
      TlsNet.empty actions) :
    ∀ c ∈ net.completed, ∀ k, honest k → c.peer = P.toPeerId (P.publicOf k) →
      net.SignedBy k c.transcript := by
  have hempty : (TlsNet.empty : TlsNet P).Sound honest :=
    ⟨fun _ hnode => absurd hnode List.not_mem_nil, fun _ hc => absurd hc List.not_mem_nil⟩
  have hsound : net.Sound honest :=
    Runs.run_invariant (I := fun net => net.Sound honest)
      (fun _ _ _ hnet hstep hnext => hnet.step hpeer hkeys asks hstep hnext) hempty hunforged hrun
  exact hsound.signed

/-- A client with the identity `[7]` and a server: what the client signed is completed. -/
theorem no_impersonation_sample :
    ∃ actions : List (TlsAction sampleRustls), ∃ net : TlsNet tlsPrimitives,
      Runs.run (TlsNet.step sampleValidity sampleRustls) TlsNet.empty actions = some net ∧
        Runs.Along (TlsNet.step sampleValidity sampleRustls)
          (Unforged sampleValidity sampleRustls id fun _ => True) TlsNet.empty actions ∧
        ⟨⟨[7]⟩, [42]⟩ ∈ net.completed ∧ net.SignedBy [7] [42] := by
  obtain ⟨config, hconfig, -⟩ := exists_newWithPsk_tlsPrimitives [7] [9] [10] (some "psk")
  obtain ⟨config', hconfig', hpsk⟩ := exists_newWithPsk_tlsPrimitives [8] [11] [12] (some "psk")
  obtain ⟨der, hder⟩ := exists_generate_tlsPrimitives [7] [10] (some "psk")
  obtain ⟨_, x509, raw, -, -, hpki, -, hwell⟩ := wellFormed_generate_iff tlsPrimitives_ideal hder
  obtain ⟨-, -, -, -, hagrees⟩ := newWithPsk_spec hconfig'
  let client : TlsNode tlsPrimitives := ⟨[7], [9], [10], config⟩
  let server : TlsNode tlsPrimitives := ⟨[8], [11], [12], config'⟩
  let conn : sampleRustls.Connection := (sampleState der [10] [42], 1700000000)
  have haccept : config'.accept sampleValidity sampleRustls conn =
      .ok (sampleState der [10] [42]) :=
    accept_sampleRustls hagrees (hpsk.symm ▸ hder) [42]
  have hupgrade : upgradeInbound sampleValidity sampleRustls config' conn 1700000001 =
      .ok (⟨[7]⟩, sampleState der [10] [42]) := by
    rw [upgradeInbound_eq_ok sampleRustls_asksVerifier hagrees]
    obtain ⟨cert, hauthenticates, -⟩ :=
      config'.authenticates_of_accept sampleRustls_asksVerifier hagrees haccept
    obtain ⟨-, hpeer, -⟩ := hauthenticates.of_generate tlsPrimitives_ideal hder rfl
    exact ⟨haccept, cert, hauthenticates, rfl, hpeer⟩
  have hfirst : TlsNet.empty.step sampleValidity sampleRustls (.start (some "psk") [7] [9] [10]) =
      some ⟨[client], [], []⟩ := by
    simp only [TlsNet.step, hconfig]
    rfl
  have hsecond : TlsNet.step sampleValidity sampleRustls ⟨[client], [], []⟩
      (.start (some "psk") [8] [11] [12]) = some ⟨[server, client], [], []⟩ := by
    simp only [TlsNet.step, hconfig']
    rfl
  have hthird : TlsNet.step sampleValidity sampleRustls ⟨[server, client], [], []⟩
      (.signOutbound 1 [42]) = some ⟨[server, client], [([10], [42])], []⟩ := rfl
  have hfourth : TlsNet.step sampleValidity sampleRustls ⟨[server, client], [([10], [42])], []⟩
      (.inbound 0 conn 1700000001) =
        some ⟨[server, client], [([10], [42])], [⟨⟨[7]⟩, [42]⟩]⟩ := by
    show some (TlsNet.record _ (upgradeInbound sampleValidity sampleRustls config' conn
      1700000001)) = _
    rw [hupgrade]
    rfl
  have hunforged : UnforgedState id (fun _ => True) ⟨[server, client], [([10], [42])], []⟩ server
      (sampleState der [10] [42]) := by
    constructor
    · intro der' hshown cert hcert k _ hpublic _
      obtain ⟨rfl, -⟩ := List.cons.inj (Option.some.inj hshown)
      obtain ⟨-, rfl⟩ := (hwell _ cert).mp hcert
      refine ⟨client, by simp, hpublic, ?_⟩
      rw [hpki]
      exact List.mem_cons_of_mem _ List.mem_cons_self
    · intro node hnode key hkey hverify
      have hother : ∀ certKey ∈ ([[11], [12], [9]] : List Bytes),
          ¬tlsPrimitives.verifyWith .ecdsaNistp256Sha256 certKey [42]
            (sampleSignTls [10] [42]) = true := by decide
      simp only [List.mem_cons, List.not_mem_nil, or_false] at hnode
      rcases hnode with rfl | rfl
      all_goals
        simp only [TlsNode.certificateKeys, List.mem_cons, List.not_mem_nil, or_false] at hkey
        rcases hkey with rfl | rfl
      · exact absurd hverify (hother [11] (by simp))
      · exact absurd hverify (hother [12] (by simp))
      · exact absurd hverify (hother [9] (by simp))
      · exact List.mem_cons_self
  have hrun : Runs.run (TlsNet.step sampleValidity sampleRustls) TlsNet.empty
      [.start (some "psk") [7] [9] [10], .start (some "psk") [8] [11] [12],
        .signOutbound 1 [42], .inbound 0 conn 1700000001] =
        some ⟨[server, client], [([10], [42])], [⟨⟨[7]⟩, [42]⟩]⟩ := by
    simp only [Runs.run, List.foldlM_cons, List.foldlM_nil, hfirst, hsecond, hthird, hfourth,
      Option.bind_eq_bind, Option.bind_some, Option.pure_def]
  have halong : Runs.Along (TlsNet.step sampleValidity sampleRustls)
      (Unforged sampleValidity sampleRustls id fun _ => True) TlsNet.empty
      [.start (some "psk") [7] [9] [10], .start (some "psk") [8] [11] [12],
        .signOutbound 1 [42], .inbound 0 conn 1700000001] := by
    refine ⟨trivial, ?_⟩
    intro net hnet
    obtain rfl := Option.some.inj (hfirst.symm.trans hnet)
    refine ⟨trivial, ?_⟩
    intro net hnet
    obtain rfl := Option.some.inj (hsecond.symm.trans hnet)
    refine ⟨trivial, ?_⟩
    intro net hnet
    obtain rfl := Option.some.inj (hthird.symm.trans hnet)
    -- only the last step is shown anything
    refine ⟨?_, fun _ _ => trivial⟩
    intro node hnode state hok
    obtain rfl := Option.some.inj hnode
    obtain rfl := Except.ok.inj (haccept.symm.trans hok)
    exact hunforged
  refine ⟨_, _, hrun, halong, List.mem_cons_self, ?_⟩
  exact no_impersonation tlsPrimitives id tlsPrimitives_readsKey (fun _ _ => PeerId.mk.inj)
    (fun _ => True) sampleValidity sampleRustls sampleRustls_asksVerifier _ _ hrun halong _
    List.mem_cons_self [7] trivial rfl

end Net

end Certificate

end P2pClipboard
