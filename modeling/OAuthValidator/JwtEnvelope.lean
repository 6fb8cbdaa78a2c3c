import OAuthValidator.Policy

/-! The structural parse of an untrusted compact JWS. It decides nothing about
trust: it cuts the token into its three segments and reads the algorithm and the
key id from the protected header. -/

namespace OAuthValidator

inductive JwtEnvelopeError
  | ok | invalidArgument | empty | tooLarge | invalidCompactJws | invalidBase64url | headerTooLarge
  | payloadTooLarge | invalidHeaderJson | invalidPayloadJson | unsupportedHeader | invalidAlgorithm
  | invalidTokenType | invalidKeyId
deriving DecidableEq, Repr

structure JwtEnvelopePolicy where
  maxTokenSize : Nat
  maxHeaderSize : Nat
  maxPayloadSize : Nat
  allowedAlgorithms : UInt32
  allowedTokenTypes : UInt8
  allowMissingTokenType : Bool
deriving DecidableEq

structure JwtEnvelope where
  untrustedHeader : Json
  untrustedPayload : Json
  algorithm : UInt32
  keyId : CString
deriving DecidableEq

def dot : UInt8 := 0x2e

def jwtMaxKeyIdSize : Nat := 1024

/-- The segments between the dots, of which there must be three, none empty. -/
def splitCompactJws (token : Bytes) : Option (Bytes × Bytes × Bytes) :=
  match token.splitOn dot with
  | [header, payload, signature] =>
    if header.isEmpty || payload.isEmpty || signature.isEmpty then none
    else some (header, payload, signature)
  | _ => none

def decodeBase64url (segment : Bytes) (maximum : Nat) : Option Bytes :=
  match base64urlDecodedSize segment.length maximum with
  | none => none
  | some length => base64urlDecode segment length

def decodeJsonObject (ext : Externals) (segment : Bytes) (maximum : Nat)
    (sizeError jsonError : JwtEnvelopeError) : Except JwtEnvelopeError Json := do
  let decoded ← given (decodeBase64url segment maximum) sizeError
  let object ← given (ext.jsonLoadb decoded) jsonError
  require object.isObject jsonError
  return object

/-- Headers that could redirect key selection or change the verification. -/
def forbiddenHeaders : List CString :=
  [.lit "jku", .lit "jwk", .lit "x5u", .lit "x5c", .lit "x5t", .lit "x5t#S256", .lit "crit",
    .lit "zip", .lit "b64", .lit "cty"]

def hasUnsupportedHeader (header : Json) : Bool :=
  forbiddenHeaders.any fun name => (header.get? name).isSome

def parseAlgorithm (header : Json) : UInt32 :=
  algorithmNamed (header.get? (.lit "alg"))

def tokenTypeAllowed (header : Json) (policy : JwtEnvelopePolicy) : Bool :=
  match header.get? (.lit "typ") with
  | none => policy.allowMissingTokenType
  | some value =>
    (jsonStringEquals (some value) (.lit "at+jwt") &&
      policy.allowedTokenTypes &&& tokenTypeAtJwt != 0) ||
    (jsonStringEquals (some value) (.lit "application/at+jwt") &&
      policy.allowedTokenTypes &&& tokenTypeApplicationAtJwt != 0)

def jwtEnvelopePolicyValid (policy : JwtEnvelopePolicy) : Bool :=
  policy.allowedTokenTypes != 0 &&
    policy.allowedTokenTypes &&& ~~~(tokenTypeAtJwt ||| tokenTypeApplicationAtJwt) == 0 &&
    policy.maxTokenSize != 0 && policy.maxHeaderSize != 0 && policy.maxPayloadSize != 0 &&
    policy.allowedAlgorithms != 0

def jwtEnvelopeParse (ext : Externals) (token : Bytes) (policy : JwtEnvelopePolicy) :
    Except JwtEnvelopeError JwtEnvelope := do
  require (jwtEnvelopePolicyValid policy) .invalidArgument
  require (!token.isEmpty) .empty
  require (token.length ≤ policy.maxTokenSize) .tooLarge
  require (!token.contains 0) .invalidCompactJws
  let (headerText, payloadText, signatureText) ← given (splitCompactJws token) .invalidCompactJws
  require ([headerText, payloadText, signatureText].all base64urlValid) .invalidBase64url
  let header ← decodeJsonObject ext headerText policy.maxHeaderSize .headerTooLarge .invalidHeaderJson
  let payload ← decodeJsonObject ext payloadText policy.maxPayloadSize .payloadTooLarge
    .invalidPayloadJson
  require (!hasUnsupportedHeader header) .unsupportedHeader
  let algorithm := parseAlgorithm header
  require (algorithm != 0 && algorithm &&& policy.allowedAlgorithms != 0) .invalidAlgorithm
  require (tokenTypeAllowed header policy) .invalidTokenType
  let keyId ← given (Json.str? (header.get? (.lit "kid"))) .invalidKeyId
  require (validKeyIdText keyId.bytes jwtMaxKeyIdSize) .invalidKeyId
  return ⟨header, payload, algorithm, keyId⟩

/-- The token is `header.payload.signature`, where each segment is the one
base64url text of the bytes it carries. -/
structure CompactJws (token header payload signature : Bytes) : Prop where
  segments : ∃ h p s, token = h ++ dot :: (p ++ dot :: s) ∧ CanonicalBase64url h header ∧
    CanonicalBase64url p payload ∧ CanonicalBase64url s signature
  dots : token.count dot = 2

theorem splitCompactJws_eq {token header payload signature : Bytes}
    (h : splitCompactJws token = some (header, payload, signature)) :
    token = header ++ dot :: (payload ++ dot :: signature) := by
  unfold splitCompactJws at h
  split at h
  · next h' p' s' hsplit =>
    split at h
    · simp at h
    · obtain ⟨rfl, rfl, rfl⟩ : h' = header ∧ p' = payload ∧ s' = signature := by simpa using h
      have hjoin : [dot].intercalate (token.splitOn dot) = token := List.intercalate_splitOn dot
      rw [hsplit] at hjoin
      simpa [List.intercalate] using hjoin.symm
  · simp at h

theorem count_dot_of_valid {text : Bytes} (h : base64urlValid text = true) : text.count dot = 0 := by
  refine List.count_eq_zero.mpr fun hdot => ?_
  simp only [base64urlValid, Bool.and_eq_true, List.all_eq_true] at h
  exact absurd (h.1.1.2 dot hdot) (by decide)

theorem compactJws_of_valid {token h p s : Bytes} (heq : token = h ++ dot :: (p ++ dot :: s))
    (hh : base64urlValid h = true) (hp : base64urlValid p = true) (hs : base64urlValid s = true) :
    CompactJws token (base64urlBlocks h) (base64urlBlocks p) (base64urlBlocks s) := by
  refine ⟨⟨h, p, s, heq, canonical_of_valid hh, canonical_of_valid hp, canonical_of_valid hs⟩, ?_⟩
  simp [heq, count_dot_of_valid hh, count_dot_of_valid hp, count_dot_of_valid hs]

theorem decodeJsonObject_ok {ext : Externals} {segment : Bytes} {maximum : Nat}
    {sizeError jsonError : JwtEnvelopeError} {object : Json}
    (h : decodeJsonObject ext segment maximum sizeError jsonError = .ok object) :
    ext.jsonLoadb (base64urlBlocks segment) = some object ∧ object.isObject = true := by
  simp only [decodeJsonObject, except_bind_eq_ok, given_eq_ok, require_eq_ok, except_pure_eq_ok] at h
  obtain ⟨decoded, hdecoded, _, hload, _, hobject, rfl⟩ := h
  refine ⟨?_, hobject⟩
  unfold decodeBase64url base64urlDecode at hdecoded
  split at hdecoded
  · simp at hdecoded
  · split at hdecoded
    · rw [Option.some.inj hdecoded, hload]
    · simp at hdecoded

/-- What the parse of a token says about it. -/
structure EnvelopeParsed (ext : Externals) (token : Bytes) (policy : JwtEnvelopePolicy)
    (envelope : JwtEnvelope) : Prop where
  compact : ∃ header payload signature, CompactJws token header payload signature ∧
    ext.jsonLoadb header = some envelope.untrustedHeader ∧
    ext.jsonLoadb payload = some envelope.untrustedPayload
  payload : envelope.untrustedPayload.isObject = true
  algorithm : envelope.algorithm = algorithmNamed (envelope.untrustedHeader.get? (.lit "alg"))
  algorithm_ne_zero : envelope.algorithm ≠ 0
  allowed : envelope.algorithm &&& policy.allowedAlgorithms ≠ 0
  keyId : envelope.untrustedHeader.get? (.lit "kid") = some (.str envelope.keyId)

theorem jwtEnvelopeParse_ok {ext : Externals} {token : Bytes} {policy : JwtEnvelopePolicy}
    {envelope : JwtEnvelope} (h : jwtEnvelopeParse ext token policy = .ok envelope) :
    EnvelopeParsed ext token policy envelope := by
  simp only [jwtEnvelopeParse, except_bind_eq_ok, given_eq_ok, require_eq_ok, except_pure_eq_ok,
    Bool.and_eq_true, bne_iff_ne, List.all_cons, List.all_nil, and_true] at h
  obtain ⟨_, _, _, _, _, _, _, _, ⟨ht, pt, st⟩, hsplit, _, ⟨hh, hp, hs⟩, header, hheader, payload,
    hpayload, _, _, _, ⟨hne, hallowed⟩, _, _, keyId, hkid, _, _, rfl⟩ := h
  have hheader := decodeJsonObject_ok hheader
  have hpayload := decodeJsonObject_ok hpayload
  exact ⟨⟨_, _, _, compactJws_of_valid (splitCompactJws_eq hsplit) hh hp hs, hheader.1, hpayload.1⟩,
    hpayload.2, rfl, hne, hallowed, Json.str?_eq_some hkid⟩

end OAuthValidator
