import OAuthValidator.Jwks

/-! The validation policy of one connection, built from the administrator's
settings and the matched HBA rule. A policy exists only when every setting has
been accepted. -/

namespace OAuthValidator

/-- The fields of the matched HBA rule that PostgreSQL fills in. -/
structure HbaLine where
  oauthIssuer : Option CString
  oauthScope : Option CString
  oauthSkipUsermap : Bool
deriving DecidableEq

structure HbaPolicy where
  issuer : Option CString
  requiredScopes : Option CString
  policyName : Option CString
  delegateIdentMapping : Bool
deriving DecidableEq

/-- `pg_oauth_hba_policy_read`. The rule is absent when the backend has no port
or no matched line, and `policyOption` is NULL before PostgreSQL 19. -/
def hbaPolicyRead (hba : Option HbaLine) (policyOption : Option CString) : Option HbaPolicy :=
  match hba with
  | none => none
  | some line =>
    if (nonempty? line.oauthIssuer).isNone || line.oauthScope.isNone then none
    else some ⟨line.oauthIssuer, line.oauthScope, policyOption, line.oauthSkipUsermap⟩

/-- The snapshot of the settings. A string setting may be NULL. -/
structure PolicyConfig where
  audiences : Option CString
  allowedAlgorithms : Option CString
  allowedTokenTypes : Option CString
  identityClaim : Option CString
  roleClaim : Option CString
  allowedJwksHosts : Option CString
  caFile : Option CString
  clockSkewMs : Int
  maxTokenSize : Int
  metadataDefaultTtlMs : Int
  jwksDefaultTtlMs : Int
  cacheMaxTtlMs : Int
  jwksStaleGraceMs : Int
  unknownKidRefreshCooldownMs : Int
  refreshWaitTimeoutMs : Int
  allowInsecureHttp : Bool
  allowMissingTokenType : Bool
deriving DecidableEq

/-- The strings of a policy that was built, apart from the host list, were found
not to be NULL. -/
structure ValidationPolicy where
  name : CString
  issuer : CString
  requiredScopes : CString
  audiences : CString
  allowedTokenTypes : UInt8
  identityClaim : CString
  roleClaim : CString
  allowedJwksHosts : Option CString
  caFile : CString
  allowedAlgorithms : UInt32
  clockSkewMs : Int
  maxTokenSize : Int
  metadataDefaultTtlMs : Int
  jwksDefaultTtlMs : Int
  cacheMaxTtlMs : Int
  jwksStaleGraceMs : Int
  unknownKidRefreshCooldownMs : Int
  refreshWaitTimeoutMs : Int
  allowInsecureHttp : Bool
  allowMissingTokenType : Bool
deriving DecidableEq

inductive PolicyError
  | invalidArgument | missingIssuer | missingScopes | missingAudience | invalidAudiences
  | invalidAlgorithms | invalidTokenType | invalidAuthnClaim | invalidRoleClaim | delegationMismatch
  | invalidJwksHosts | invalidCaFile | invalidClockSkew | invalidTokenSize | invalidCachePolicy
  | unknownPolicy
deriving DecidableEq, Repr

def tokenTypeAtJwt : UInt8 := 1
def tokenTypeApplicationAtJwt : UInt8 := 2

def maxAudiences : Nat := 16
def maxAuthnClaimLength : Nat := 128
def maxJwksHosts : Nat := 16
def maxHostLength : Nat := 253
def maxClockSkewMs : Int := 300000
def minTokenSizeSetting : Int := 1024
def maxTokenSizeSetting : Int := 65536

/-- The loop of `parse_token_types` and `parse_algorithms`: every entry names a
bit of the mask, and none names a bit twice. -/
def parseNames {μ : Type} [DecidableEq μ] [AndOp μ] [OrOp μ] [OfNat μ 0]
    (named : Bytes → Option μ) (value : Bytes) : Option μ :=
  let visit (result : μ) (entry : Bytes) : Except Unit μ :=
    match named (trimBy isspace entry) with
    | none => .error ()
    | some bit => if result &&& bit != 0 then .error () else .ok (result ||| bit)
  match scanList visit (some ()) 0 value with
  | .error _ => none
  | .ok result => if result != 0 then some result else none

def tokenTypeBit (name : Bytes) : Option UInt8 :=
  if name == ascii "at+jwt" then some tokenTypeAtJwt
  else if name == ascii "application/at+jwt" then some tokenTypeApplicationAtJwt
  else none

def parseTokenTypes (value : Option CString) : Option UInt8 :=
  match nonempty? value with
  | none => none
  | some text => if 64 < text.length then none else parseNames tokenTypeBit text.bytes

def algorithmBit (name : Bytes) : Option UInt32 :=
  if name == ascii "RS256" then some algorithmRs256
  else if name == ascii "ES256" then some algorithmEs256
  else if name == ascii "EdDSA" then some algorithmEddsa
  else none

def parseAlgorithms (value : Option CString) : Option UInt32 :=
  match nonempty? value with
  | none => none
  | some text => parseNames algorithmBit text.bytes

/-- A check of every entry of a list, which counts the entries. -/
def countEntries (maximum : Nat) (valid : Bytes → Bool) (count : Nat) (entry : Bytes) :
    Except Unit Nat :=
  let text := trimBy isspace entry
  if text.isEmpty || maximum < count + 1 || !valid text then .error () else .ok (count + 1)

def validateAudiences (value : CString) : Bool :=
  match scanList (countEntries maxAudiences fun text => !text.any iscntrl) (some ()) 0 value.bytes with
  | .error _ => false
  | .ok count => 0 < count

def validateClaimName (claim : CString) : Bool :=
  !claim.isEmpty && claim.length ≤ maxAuthnClaimLength &&
    !claim.bytes.any fun b => iscntrl b || isspace b

/-- A host name that neither starts nor ends with a dot or a dash. -/
def validHostText (text : Bytes) : Bool :=
  let edge (b : Option UInt8) : Bool := b == some 0x2e || b == some 0x2d
  text.length ≤ maxHostLength && !edge text.head? && !edge text.getLast? &&
    text.all fun b => isalnum b || b == 0x2e || b == 0x2d

def validateJwksHosts (value : Option CString) : Bool :=
  match nonempty? value with
  | none => true
  | some text =>
    match scanList (countEntries maxJwksHosts validHostText) (some ()) 0 text.bytes with
    | .error _ => false
    | .ok _ => true

def cacheSettingsValid (config : PolicyConfig) : Bool :=
  1000 ≤ config.metadataDefaultTtlMs && config.metadataDefaultTtlMs ≤ 3600000 &&
    1000 ≤ config.jwksDefaultTtlMs && config.jwksDefaultTtlMs ≤ 3600000 &&
    config.metadataDefaultTtlMs ≤ config.cacheMaxTtlMs &&
    config.jwksDefaultTtlMs ≤ config.cacheMaxTtlMs && config.cacheMaxTtlMs ≤ 86400000 &&
    0 ≤ config.jwksStaleGraceMs && config.jwksStaleGraceMs ≤ 3600000 &&
    1000 ≤ config.unknownKidRefreshCooldownMs && config.unknownKidRefreshCooldownMs ≤ 300000 &&
    0 ≤ config.refreshWaitTimeoutMs && config.refreshWaitTimeoutMs ≤ 5000

def policyBuild (config : PolicyConfig) (hba : HbaPolicy) : Except PolicyError ValidationPolicy := do
  let issuer ← given (nonempty? hba.issuer) .missingIssuer
  let requiredScopes ← given (nonempty? hba.requiredScopes) .missingScopes
  let named := nonempty? hba.policyName
  require (named.isNone || named == some (.lit "default")) .unknownPolicy
  let audiences ← given (nonempty? config.audiences) .missingAudience
  require (validateAudiences audiences) .invalidAudiences
  let algorithms ← given (parseAlgorithms config.allowedAlgorithms) .invalidAlgorithms
  let tokenTypes ← given (parseTokenTypes config.allowedTokenTypes) .invalidTokenType
  let identityClaim ← given config.identityClaim .invalidAuthnClaim
  require (validateClaimName identityClaim) .invalidAuthnClaim
  let roleClaim ← given config.roleClaim .invalidRoleClaim
  require (roleClaim.isEmpty || validateClaimName roleClaim) .invalidRoleClaim
  -- delegated mapping and the validator's role check must agree
  require (hba.delegateIdentMapping == !roleClaim.isEmpty) .delegationMismatch
  require (validateJwksHosts config.allowedJwksHosts) .invalidJwksHosts
  let caFile ← given config.caFile .invalidCaFile
  require (caFile.length ≤ 2048 && !caFile.bytes.any iscntrl) .invalidCaFile
  require (0 ≤ config.clockSkewMs && config.clockSkewMs ≤ maxClockSkewMs) .invalidClockSkew
  require (minTokenSizeSetting ≤ config.maxTokenSize && config.maxTokenSize ≤ maxTokenSizeSetting)
    .invalidTokenSize
  require (cacheSettingsValid config) .invalidCachePolicy
  return {
    name := .lit "default"
    issuer := issuer
    requiredScopes := requiredScopes
    audiences := audiences
    allowedTokenTypes := tokenTypes
    identityClaim := identityClaim
    roleClaim := roleClaim
    allowedJwksHosts := config.allowedJwksHosts
    caFile := caFile
    allowedAlgorithms := algorithms
    clockSkewMs := config.clockSkewMs
    maxTokenSize := config.maxTokenSize
    metadataDefaultTtlMs := config.metadataDefaultTtlMs
    jwksDefaultTtlMs := config.jwksDefaultTtlMs
    cacheMaxTtlMs := config.cacheMaxTtlMs
    jwksStaleGraceMs := config.jwksStaleGraceMs
    unknownKidRefreshCooldownMs := config.unknownKidRefreshCooldownMs
    refreshWaitTimeoutMs := config.refreshWaitTimeoutMs
    allowInsecureHttp := config.allowInsecureHttp
    allowMissingTokenType := config.allowMissingTokenType }

theorem nonempty?_eq_some {value : Option CString} {text : CString} (h : nonempty? value = some text) :
    value = some text ∧ text.isEmpty = false := by
  simpa [nonempty?, Option.filter_eq_some_iff] using h

/-- What a policy that was built says about the settings it was built from. -/
structure PolicyBuilt (config : PolicyConfig) (hba : HbaPolicy) (policy : ValidationPolicy) : Prop where
  issuer : hba.issuer = some policy.issuer
  requiredScopes : hba.requiredScopes = some policy.requiredScopes
  audiences : config.audiences = some policy.audiences
  algorithms : parseAlgorithms config.allowedAlgorithms = some policy.allowedAlgorithms
  identityClaim : config.identityClaim = some policy.identityClaim
  roleClaim : config.roleClaim = some policy.roleClaim
  delegation : hba.delegateIdentMapping = !policy.roleClaim.isEmpty
  clockSkewMs : policy.clockSkewMs = config.clockSkewMs
  clockSkew_nonneg : 0 ≤ policy.clockSkewMs

/-- What was checked of the settings when a policy was built. -/
structure PolicyAccepted (config : PolicyConfig) (hba : HbaPolicy) (policy : ValidationPolicy) : Prop where
  issuer : nonempty? hba.issuer = some policy.issuer
  requiredScopes : nonempty? hba.requiredScopes = some policy.requiredScopes
  audiences : nonempty? config.audiences = some policy.audiences
  audienceList : validateAudiences policy.audiences = true
  algorithms : parseAlgorithms config.allowedAlgorithms = some policy.allowedAlgorithms
  tokenTypes : parseTokenTypes config.allowedTokenTypes = some policy.allowedTokenTypes
  identityClaim : config.identityClaim = some policy.identityClaim
  identityName : validateClaimName policy.identityClaim = true
  roleClaim : config.roleClaim = some policy.roleClaim
  delegation : hba.delegateIdentMapping = !policy.roleClaim.isEmpty
  jwksHosts : policy.allowedJwksHosts = config.allowedJwksHosts
  clockSkewMs : policy.clockSkewMs = config.clockSkewMs
  clockSkew : 0 ≤ policy.clockSkewMs ∧ policy.clockSkewMs ≤ maxClockSkewMs
  tokenSize : minTokenSizeSetting ≤ policy.maxTokenSize ∧ policy.maxTokenSize ≤ maxTokenSizeSetting
  metadataTtl : 1000 ≤ policy.metadataDefaultTtlMs ∧ policy.metadataDefaultTtlMs ≤ policy.cacheMaxTtlMs
  jwksTtl : 1000 ≤ policy.jwksDefaultTtlMs ∧ policy.jwksDefaultTtlMs ≤ policy.cacheMaxTtlMs
  maximumTtl : policy.cacheMaxTtlMs ≤ 86400000
  staleGrace : 0 ≤ policy.jwksStaleGraceMs ∧ policy.jwksStaleGraceMs ≤ 3600000
  cooldown : 1000 ≤ policy.unknownKidRefreshCooldownMs ∧ policy.unknownKidRefreshCooldownMs ≤ 300000
  refreshWait : 0 ≤ policy.refreshWaitTimeoutMs ∧ policy.refreshWaitTimeoutMs ≤ 5000

theorem policyBuild_ok {config : PolicyConfig} {hba : HbaPolicy} {policy : ValidationPolicy}
    (h : policyBuild config hba = .ok policy) : PolicyAccepted config hba policy := by
  simp only [policyBuild, except_bind_eq_ok, given_eq_ok, require_eq_ok, except_pure_eq_ok, cacheSettingsValid,
    Bool.and_eq_true, decide_eq_true_eq, beq_iff_eq] at h
  obtain ⟨issuer, hissuer, scopes, hscopes, _, _, audiences, haudiences, _, hlist, algorithms, halgorithms,
    tokenTypes, htypes, identityClaim, hidentity, _, hname, roleClaim, hrole, _, _, _, hdelegation, _, _, caFile,
    _, _, _, _, hskew, _, hsize, _, hcache, rfl⟩ := h
  obtain ⟨⟨⟨⟨⟨⟨⟨⟨⟨⟨⟨⟨hmetadata, -⟩, hjwks⟩, -⟩, hmetadataMax⟩, hjwksMax⟩, hmax⟩, hgrace⟩, hgraceMax⟩, hcooldown⟩,
    hcooldownMax⟩, hwait⟩, hwaitMax⟩ := hcache
  exact {
    issuer := hissuer
    requiredScopes := hscopes
    audiences := haudiences
    audienceList := hlist
    algorithms := halgorithms
    tokenTypes := htypes
    identityClaim := hidentity
    identityName := hname
    roleClaim := hrole
    delegation := hdelegation
    jwksHosts := rfl
    clockSkewMs := rfl
    clockSkew := hskew
    tokenSize := hsize
    metadataTtl := ⟨hmetadata, hmetadataMax⟩
    jwksTtl := ⟨hjwks, hjwksMax⟩
    maximumTtl := hmax
    staleGrace := ⟨hgrace, hgraceMax⟩
    cooldown := ⟨hcooldown, hcooldownMax⟩
    refreshWait := ⟨hwait, hwaitMax⟩ }

theorem PolicyAccepted.built {config : PolicyConfig} {hba : HbaPolicy} {policy : ValidationPolicy}
    (h : PolicyAccepted config hba policy) : PolicyBuilt config hba policy where
  issuer := (nonempty?_eq_some h.issuer).1
  requiredScopes := (nonempty?_eq_some h.requiredScopes).1
  audiences := (nonempty?_eq_some h.audiences).1
  algorithms := h.algorithms
  identityClaim := h.identityClaim
  roleClaim := h.roleClaim
  delegation := h.delegation
  clockSkewMs := h.clockSkewMs
  clockSkew_nonneg := h.clockSkew.1

/-- The algorithms a mask can hold. -/
def algorithmBits : List UInt32 :=
  [algorithmRs256, algorithmEs256, algorithmEddsa]

theorem algorithmBit_cases {name : Bytes} {bit : UInt32} (h : algorithmBit name = some bit) :
    (name = ascii "RS256" ∧ bit = algorithmRs256) ∨ (name = ascii "ES256" ∧ bit = algorithmEs256) ∨
      (name = ascii "EdDSA" ∧ bit = algorithmEddsa) := by
  unfold algorithmBit at h
  split at h
  · next hname => exact Or.inl ⟨eq_of_beq hname, (Option.some.inj h).symm⟩
  · split at h
    · next hname => exact Or.inr (Or.inl ⟨eq_of_beq hname, (Option.some.inj h).symm⟩)
    · split at h
      · next hname => exact Or.inr (Or.inr ⟨eq_of_beq hname, (Option.some.inj h).symm⟩)
      · simp at h

theorem algorithmBit_mem {name : Bytes} {bit : UInt32} (h : algorithmBit name = some bit) :
    bit ∈ algorithmBits := by
  rcases algorithmBit_cases h with ⟨-, rfl⟩ | ⟨-, rfl⟩ | ⟨-, rfl⟩ <;> simp [algorithmBits]

theorem algorithmBit_injective {name name' : Bytes} {bit : UInt32} (h : algorithmBit name = some bit)
    (h' : algorithmBit name' = some bit) : name = name' := by
  rcases algorithmBit_cases h with ⟨rfl, rfl⟩ | ⟨rfl, rfl⟩ | ⟨rfl, rfl⟩ <;>
    rcases algorithmBit_cases h' with ⟨rfl, hbit⟩ | ⟨rfl, hbit⟩ | ⟨rfl, hbit⟩ <;>
    first | exact absurd hbit (by decide) | rfl

/-- A value that names an algorithm is the string of its name. -/
theorem algorithmNamed_bit {value : Option Json} (h : algorithmNamed value ≠ 0) :
    ∃ name, value = some (.str name) ∧ algorithmBit name.bytes = some (algorithmNamed value) := by
  have hname {text : String} (he : jsonStringEquals value (.lit text) = true) :
      value = some (.str (.lit text)) := jsonStringEquals_eq_true.mp he
  by_cases hrs : jsonStringEquals value (.lit "RS256") = true
  · exact ⟨_, hname hrs, by rw [hname hrs]; decide⟩
  · by_cases hes : jsonStringEquals value (.lit "ES256") = true
    · exact ⟨_, hname hes, by rw [hname hes]; decide⟩
    · by_cases hed : jsonStringEquals value (.lit "EdDSA") = true
      · exact ⟨_, hname hed, by rw [hname hed]; decide⟩
      · simp [algorithmNamed, hrs, hes, hed] at h

end OAuthValidator
