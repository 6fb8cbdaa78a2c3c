import OAuthValidator.Claims
import OAuthValidator.Identity
import OAuthValidator.IssuerKey
import OAuthValidator.JwtEnvelope
import OAuthValidator.Signature

/-! The validation pipeline and the callback that PostgreSQL calls. The stages
run in a fixed order and the first failure ends the validation. -/

namespace OAuthValidator

open Program

inductive ValidatorError
  | ok | invalidArgument | envelope | issuerKey | signature | claims | identity
deriving DecidableEq, Repr

structure ValidatorPolicy where
  envelope : JwtEnvelopePolicy
  issuerKey : IssuerKeyPolicy
  claims : ClaimsPolicy
  identity : IdentityPolicy
deriving DecidableEq

structure ValidatorResult where
  identity : Option Bytes
  expiresAt : Int
  envelopeError : JwtEnvelopeError
  issuerKeyError : IssuerKeyError
  httpError : HttpError
  metadataError : MetadataError
  jwksError : JwksError
  signatureError : SignatureError
  claimsError : ClaimsError
  identityError : IdentityError
deriving DecidableEq

def ValidatorResult.zero : ValidatorResult :=
  ⟨none, 0, .ok, .ok, .ok, .ok, .ok, .ok, .ok, .ok⟩

abbrev ValidatorReturn := ValidatorError × ValidatorResult

/-- The stages after the retrieval of the key, none of which acts on the world. -/
def verifyToken (ext : Externals) (token : Bytes) (policy : ValidatorPolicy) (envelope : JwtEnvelope)
    (fetched : FetchReturn) : ValidatorReturn :=
  let result := { ValidatorResult.zero with
    issuerKeyError := fetched.1
    httpError := fetched.2.httpError
    metadataError := fetched.2.metadataError
    jwksError := fetched.2.jwksError }
  if fetched.1 != .ok then (.issuerKey, result)
  else
    match signatureVerify ext token fetched.2.selected with
    | .error e => (.signature, { result with signatureError := e })
    | .ok () =>
      match claimsValidate envelope.untrustedPayload policy.claims with
      | .error e => (.claims, { result with claimsError := e })
      | .ok claims =>
        match identityBuild (some claims.identity.bytes) policy.identity with
        | .error e => (.identity, { result with identityError := e })
        | .ok identity => (.ok, { result with identity := some identity, expiresAt := claims.expiresAt })

def validateAccessTokenCached (ext : Externals) (token : Option Bytes) (metadataUrl : Option CString)
    (policy : Option ValidatorPolicy) (cachePolicy : Option IssuerKeyCachePolicy)
    (nowMs responseTimeSeconds : Int) : CallProg ValidatorReturn :=
  match token, metadataUrl, policy with
  | some token, some url, some policy =>
    if policy.claims.issuer.isNone then .ret (.invalidArgument, .zero)
    else
      match jwtEnvelopeParse ext token policy.envelope with
      | .error e => .ret (.envelope, { ValidatorResult.zero with envelopeError := e })
      | .ok envelope =>
        (issuerKeyFetchCached ext {
          metadataUrl := some url
          expectedIssuer := policy.claims.issuer
          keyId := some envelope.keyId
          tokenAlgorithm := envelope.algorithm
          policy := some policy.issuerKey
          cachePolicy := cachePolicy
          nowMs := nowMs
          responseTimeSeconds := responseTimeSeconds }).bind fun fetched =>
            .ret (verifyToken ext token policy envelope fetched)
  | _, _, _ => .ret (.invalidArgument, .zero)

def validateAccessToken (ext : Externals) (token : Option Bytes) (metadataUrl : Option CString)
    (policy : Option ValidatorPolicy) : CallProg ValidatorReturn :=
  validateAccessTokenCached ext token metadataUrl policy none 0 0

/-- One invocation of the callback: its arguments, and what it reads of its
backend. -/
structure Invocation where
  token : Option CString
  role : Option CString
  /-- PostgreSQL 19 or later, where a rejection carries a detail. -/
  hasErrorDetail : Bool
  /-- `MyProcPort->hba`. -/
  hba : Option HbaLine
  /-- `GetOAuthHBAOption(state, "policy")`, which is NULL before PostgreSQL 19. -/
  policyOption : Option CString
  config : PolicyConfig
  cacheMaxEntries : Int
  /-- The capacity of the segment this backend has attached. -/
  attachedCapacity : Option Int
  /-- The capacity of a segment of the right version that it would attach now. -/
  segmentCapacity : Option Int
  /-- The seconds and nanoseconds of `clock_gettime(CLOCK_MONOTONIC)`. -/
  monotonic : Option (Int × Int)
  wallTime : Int
  /-- `InterruptPending` once the token has been validated. -/
  interruptPending : Bool

structure ValidatorModuleResult where
  authorized : Bool
  authnId : Option CString
  errorDetail : Option CString
deriving DecidableEq

/-- What the callback returns, with the result it has filled in. False reports an
internal error. -/
abbrev ValidateReturn := Bool × ValidatorModuleResult

def maxUrlSize : Nat := 2048
def maxDocumentSize : Nat := 65536
def maxIdentitySize : Nat := 1024
def httpConnectTimeoutMs : Int := 2000
def httpTotalTimeoutMs : Int := 5000

/-- `NAMEDATALEN - 1`. -/
def maxNameSize : Nat := 63

def CString.append (s t : CString) : CString :=
  ⟨s.bytes ++ t.bytes, by simp [s.nul_free, t.nul_free]⟩

theorem CString.lit_append (s t : String) : lit (s ++ t) = (lit s).append (lit t) :=
  ext_bytes (by simp only [lit, append, ascii, String.toList_append, List.map_append, List.filter_append])

def metadataUrl (issuer : CString) : Option CString :=
  let length := issuer.length
  if length == 0 || maxUrlSize < length then none
  else
    let suffix : CString :=
      if issuer.bytes.getLast? == some 0x2f then .lit ".well-known/openid-configuration"
      else .lit "/.well-known/openid-configuration"
    if maxUrlSize - length < suffix.length then none else some (issuer.append suffix)

/-- `pg_oauth_shared_cache_configure_capacity`, for the capacity that is attached. -/
def configureCapacity (capacity : Int) (attached : Option Int) : Bool :=
  8 ≤ capacity && capacity ≤ 256 && (attached.isNone || attached == some capacity)

/-- `pg_oauth_shared_cache_attach` once the capacity is configured. -/
def sharedCacheAttach (capacity : Int) (attached segment : Option Int) : Bool :=
  if attached.isSome then attached == some capacity else segment == some capacity

def monotonicMs (now : Option (Int × Int)) : Option Int :=
  match now with
  | none => none
  | some (seconds, nanoseconds) =>
    if seconds < 0 || int64Max / 1000 < seconds then none
    else some (seconds * 1000 + nanoseconds / 1000000)

/-- What the callback has put together before it looks at the token. -/
structure Prepared where
  policy : ValidationPolicy
  metadataUrl : CString
  metadataHost : CString
  monotonicMs : Int
deriving DecidableEq

/-- The steps that end in an internal error when they fail. -/
def prepare (ext : Externals) (inv : Invocation) : Except Unit Prepared := do
  let hba ← given (hbaPolicyRead inv.hba inv.policyOption) ()
  let policy ← (policyBuild inv.config hba).mapError fun _ => ()
  require (configureCapacity inv.cacheMaxEntries inv.attachedCapacity) ()
  require (sharedCacheAttach inv.cacheMaxEntries inv.attachedCapacity inv.segmentCapacity) ()
  let nowMs ← given (monotonicMs inv.monotonic) ()
  let url ← given (metadataUrl policy.issuer) ()
  let host ← (httpUrlHost ext url maxUrlSize policy.allowInsecureHttp).mapError fun _ => ()
  require (0 ≤ inv.wallTime) ()
  return ⟨policy, url, host, nowMs⟩

/-- The metadata and the JWKS request differ in the additional hosts alone. -/
def requestPolicy (p : Prepared) (additionalHosts : Option CString) : HttpPolicy where
  maxUrlSize := maxUrlSize
  maxResponseSize := maxDocumentSize
  connectTimeoutMs := httpConnectTimeoutMs
  totalTimeoutMs := httpTotalTimeoutMs
  allowedHost := some p.metadataHost
  additionalAllowedHosts := additionalHosts
  caFile := if p.policy.caFile.isEmpty then none else some p.policy.caFile
  allowInsecureHttp := p.policy.allowInsecureHttp
  cancellable := true

def validatorPolicy (p : Prepared) (inv : Invocation) : ValidatorPolicy where
  envelope := {
    maxTokenSize := p.policy.maxTokenSize.toNat
    maxHeaderSize := 4096
    maxPayloadSize := p.policy.maxTokenSize.toNat
    allowedAlgorithms := p.policy.allowedAlgorithms
    allowedTokenTypes := p.policy.allowedTokenTypes
    allowMissingTokenType := p.policy.allowMissingTokenType }
  issuerKey := {
    metadataHttp := requestPolicy p none
    metadata := ⟨maxDocumentSize, maxUrlSize, p.policy.allowInsecureHttp⟩
    jwksHttp := requestPolicy p p.policy.allowedJwksHosts
    jwks := ⟨maxDocumentSize, 16, 1024, p.policy.allowedAlgorithms, 2048, 8192⟩ }
  claims := {
    issuer := some p.policy.issuer
    audiences := some p.policy.audiences
    requiredScopes := some p.policy.requiredScopes
    identityClaim := some p.policy.identityClaim
    roleClaim := some p.policy.roleClaim
    requestedRole := inv.role
    currentTime := inv.wallTime
    clockSkewSeconds := (p.policy.clockSkewMs / 1000).toNat
    maxIdentitySize := maxNameSize
    maxSubjectSize := maxIdentitySize
    maxAudiences := 16
    maxScopes := 64
    maxRoles := 64
    maxRoleSize := maxNameSize }
  identity := ⟨maxNameSize, maxNameSize⟩

/-- The fields that differ between documents are filled in when a key is built. -/
def cacheKeyPolicy (policy : ValidationPolicy) : CacheKeyPolicy where
  resource := .metadata
  issuer := none
  metadataUrl := none
  jwksUrl := none
  policyName := some policy.name
  requiredScopes := some policy.requiredScopes
  audiences := some policy.audiences
  allowedTokenTypes := policy.allowedTokenTypes
  allowMissingTokenType := policy.allowMissingTokenType
  identityClaim := some policy.identityClaim
  roleClaim := some policy.roleClaim
  allowedJwksHosts := policy.allowedJwksHosts
  caFile := some policy.caFile
  allowedAlgorithms := policy.allowedAlgorithms
  clockSkewMs := policy.clockSkewMs.toNat.toUInt32
  maxTokenSize := policy.maxTokenSize.toNat.toUInt32
  maxMetadataSize := maxDocumentSize.toUInt32
  maxJwksSize := maxDocumentSize.toUInt32
  maxJwksKeys := 16
  minimumRsaBits := 2048
  maximumRsaBits := 8192
  jwksStaleGraceMs := policy.jwksStaleGraceMs.toNat.toUInt64
  metadataDefaultTtlMs := policy.metadataDefaultTtlMs.toNat.toUInt64
  jwksDefaultTtlMs := policy.jwksDefaultTtlMs.toNat.toUInt64
  cacheMaxTtlMs := policy.cacheMaxTtlMs.toNat.toUInt64
  unknownKidRefreshCooldownMs := policy.unknownKidRefreshCooldownMs.toNat.toUInt64
  allowInsecureHttp := policy.allowInsecureHttp

def cachePolicy (policy : ValidationPolicy) : IssuerKeyCachePolicy where
  io := some ⟨true, true, true, true⟩
  keyPolicy := cacheKeyPolicy policy
  metadataFreshness := ⟨policy.metadataDefaultTtlMs, policy.cacheMaxTtlMs⟩
  jwksFreshness := ⟨policy.jwksDefaultTtlMs, policy.cacheMaxTtlMs⟩
  jwksStaleGraceMs := policy.jwksStaleGraceMs
  unknownKidRefreshCooldownMs := policy.unknownKidRefreshCooldownMs
  refreshWaitTimeoutMs := policy.refreshWaitTimeoutMs

def denied : ValidatorModuleResult :=
  ⟨false, none, none⟩

def internalFailure : ValidateReturn :=
  (false, denied)

def rejected (inv : Invocation) : ValidateReturn :=
  (true, { denied with
    errorDetail := if inv.hasErrorDetail then some (.lit "OAuth access token validation failed")
      else none })

/-- The decision once the token has been validated. -/
def decideToken (inv : Invocation) (validation : ValidatorReturn) : ValidateReturn :=
  if inv.interruptPending then internalFailure
  else
    match validation.1, validation.2.identity with
    | .ok, some identity => (true, ⟨true, some (.ofBuffer identity), none⟩)
    | _, _ => rejected inv

/-- `pg_oauth_validator_validate`. The length of the token is counted up to one
byte more than its limit. -/
def validatorValidate (ext : Externals) (inv : Invocation) : CallProg ValidateReturn :=
  match prepare ext inv with
  | .error _ => .ret internalFailure
  | .ok p =>
    match inv.token with
    | none => .ret (rejected inv)
    | some token =>
      let maximum := p.policy.maxTokenSize.toNat
      let length := min token.length (maximum + 1)
      if length == 0 || maximum < length then .ret (rejected inv)
      else
        (validateAccessTokenCached ext (some (token.bytes.take length)) (some p.metadataUrl)
          (some (validatorPolicy p inv)) (some (cachePolicy p.policy)) p.monotonicMs
          inv.wallTime).bind fun validation => .ret (decideToken inv validation)

end OAuthValidator
