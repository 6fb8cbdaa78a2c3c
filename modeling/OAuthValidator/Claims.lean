import OAuthValidator.Externals

/-! The claims stage. It reads the payload of a token whose signature has been
verified and decides against the local policy alone. -/

namespace OAuthValidator

inductive ClaimsError
  | ok | invalidArgument | invalidIssuer | invalidAudience | missingExpiry | invalidExpiry | expired
  | invalidNotBefore | notYetValid | invalidIssuedAt | issuedInFuture | invalidSubject
  | invalidIdentity | invalidScope | insufficientScope | invalidRoles | unauthorizedRole
deriving DecidableEq, Repr

structure ClaimsPolicy where
  issuer : Option CString
  audiences : Option CString
  requiredScopes : Option CString
  identityClaim : Option CString
  roleClaim : Option CString
  requestedRole : Option CString
  currentTime : Int
  clockSkewSeconds : Nat
  maxIdentitySize : Nat
  maxSubjectSize : Nat
  maxAudiences : Nat
  maxScopes : Nat
  maxRoles : Nat
  maxRoleSize : Nat
deriving DecidableEq

structure ValidatedClaims where
  identity : CString
  expiresAt : Int
deriving DecidableEq

/-- A Unicode C1 control, which takes two bytes. -/
def containsC1Control : Bytes → Bool
  | a :: b :: rest => (a == 0xc2 && 0x80 ≤ b && b ≤ 0x9f) || containsC1Control (b :: rest)
  | _ => false

def validIdentityText (maximum : Nat) (text : Bytes) : Bool :=
  !text.isEmpty && text.length ≤ maximum && !text.any iscntrl && !containsC1Control text

/-- `valid_identity_string`, with the string that was found valid. -/
def validIdentityString (value : Option Json) (maximum : Nat) : Option CString :=
  (Json.str? value).filter fun text => validIdentityText maximum text.bytes

def validPolicy (policy : ClaimsPolicy) : Bool :=
  (nonempty? policy.issuer).isSome && (nonempty? policy.audiences).isSome &&
    (nonempty? policy.requiredScopes).isSome && (nonempty? policy.identityClaim).isSome &&
    policy.roleClaim.isSome && 0 ≤ policy.currentTime && policy.clockSkewSeconds ≤ 300 &&
    0 < policy.maxIdentitySize && 0 < policy.maxSubjectSize && policy.maxSubjectSize ≤ 1024 &&
    0 < policy.maxAudiences && policy.maxAudiences ≤ 64 && 0 < policy.maxScopes &&
    policy.maxScopes ≤ 256 &&
    ((nonempty? policy.roleClaim).isNone ||
      ((nonempty? policy.requestedRole).isSome && 0 < policy.maxRoles && policy.maxRoles ≤ 256 &&
        0 < policy.maxRoleSize))

/-- The bytes of an item that is a string. -/
def Json.text? (item : Json) : Option Bytes :=
  (Json.str? (some item)).map CString.bytes

/-- The loops over the entries of a claim. Every entry is a string that passes
the check, and none repeats an earlier one. -/
def distinctEntries (valid : Bytes → Bool) : List Bytes → List (Option Bytes) → Option (List Bytes)
  | seen, [] => some seen
  | _, none :: _ => none
  | seen, some entry :: rest =>
    if !valid entry || seen.contains entry then none
    else distinctEntries valid (seen ++ [entry]) rest

/-- The strings of an array that is not empty and within its bound. -/
def arrayEntries (valid : Bytes → Bool) (maximum : Nat) (items : List Json) : Option (List Bytes) :=
  if items.isEmpty || maximum < items.length then none
  else distinctEntries valid [] (items.map Json.text?)

def validRoleText (maximum : Nat) (text : Bytes) : Bool :=
  !text.isEmpty && text.length ≤ maximum && !text.any iscntrl

def validateRequestedRole (payload : Json) (policy : ClaimsPolicy) (roleClaim : CString) :
    Except ClaimsError Unit :=
  if roleClaim.isEmpty then .ok ()
  else do
    let requested ← given policy.requestedRole .invalidArgument
    require (!requested.isEmpty && requested.length ≤ policy.maxRoleSize) .invalidArgument
    match payload.get? roleClaim with
    | some (.str role) =>
      require (validRoleText policy.maxRoleSize role.bytes) .invalidRoles
      require (role == requested) .unauthorizedRole
    | some (.arr items) =>
      let roles ← given (arrayEntries (validRoleText policy.maxRoleSize) policy.maxRoles items)
        .invalidRoles
      require (roles.contains requested.bytes) .unauthorizedRole
    | _ => .error .invalidRoles

def configuredAudienceMatches (configured : CString) (audience : Bytes) (maximum : Nat) : Bool :=
  let visit (count : Nat) (entry : Bytes) : Except Bool Nat :=
    let text := trimBy isspace entry
    if text.isEmpty || maximum < count + 1 then .error false
    else if text == audience then .error true
    else .ok (count + 1)
  match scanList visit none 0 configured.bytes with
  | .error found => found
  | .ok _ => false

def audienceMatches (audience : Option Json) (policy : ClaimsPolicy) (audiences : CString) : Bool :=
  match audience with
  | some (.str text) =>
    !text.isEmpty && configuredAudienceMatches audiences text.bytes policy.maxAudiences
  | some (.arr items) =>
    match arrayEntries (fun text => !text.isEmpty) policy.maxAudiences items with
    | none => false
    | some texts => texts.any fun text => configuredAudienceMatches audiences text policy.maxAudiences
  | _ => false

def space : UInt8 := 0x20

def validScopeToken (scope : Bytes) : Bool :=
  !scope.isEmpty && scope.all fun b =>
    b == 0x21 || (0x23 ≤ b && b ≤ 0x5b) || (0x5d ≤ b && b ≤ 0x7e)

/-- `scope_string_contains`, where `none` stands for a list that is not valid. -/
def scopeStringContains (scopes required : Bytes) (maximum : Nat) : Option Bool :=
  let tokens := scopes.splitOn space
  if scopes.isEmpty || maximum < tokens.length then none
  else (distinctEntries validScopeToken [] (tokens.map some)).map fun seen => seen.contains required

def scopeArrayContains (scopes : List Json) (required : Bytes) (maximum : Nat) : Option Bool :=
  (arrayEntries validScopeToken maximum scopes).map fun seen => seen.contains required

/-- The loop over the required scopes. -/
def requireScopes (contains : Bytes → Option Bool) (maximum : Nat) :
    Nat → List Bytes → Except ClaimsError Unit
  | _, [] => .ok ()
  | count, required :: rest => do
    require (count + 1 ≤ maximum && validScopeToken required) .invalidArgument
    let found ← given (contains required) .invalidScope
    require found .insufficientScope
    requireScopes contains maximum (count + 1) rest

def validateScopes (payload : Json) (policy : ClaimsPolicy) (requiredScopes : CString) :
    Except ClaimsError Unit :=
  let required := requiredScopes.bytes.splitOn space
  match payload.get? (.lit "scope") with
  | some (.str scopes) =>
    requireScopes (fun r => scopeStringContains scopes.bytes r policy.maxScopes) policy.maxScopes 0
      required
  | some (.arr scopes) =>
    requireScopes (fun r => scopeArrayContains scopes r policy.maxScopes) policy.maxScopes 0 required
  | _ => .error .invalidScope

/-- The checks of `nbf` and `iat`, which a token may omit. -/
def checkNotAfter (value : Option Json) (policy : ClaimsPolicy) (invalid late : ClaimsError) :
    Except ClaimsError Unit :=
  match value with
  | none => .ok ()
  | some value => do
    let date ← given (Json.int? (some value)) invalid
    require (0 ≤ date) invalid
    require (!(policy.currentTime < date && policy.clockSkewSeconds < date - policy.currentTime)) late

def claimsValidate (payload : Json) (policy : ClaimsPolicy) : Except ClaimsError ValidatedClaims := do
  require (payload.isObject && validPolicy policy) .invalidArgument
  -- `valid_policy` has found these five strings
  let issuer ← given policy.issuer .invalidArgument
  let audiences ← given policy.audiences .invalidArgument
  let requiredScopes ← given policy.requiredScopes .invalidArgument
  let identityClaim ← given policy.identityClaim .invalidArgument
  let roleClaim ← given policy.roleClaim .invalidArgument
  require (jsonStringEquals (payload.get? (.lit "iss")) issuer) .invalidIssuer
  require (audienceMatches (payload.get? (.lit "aud")) policy audiences) .invalidAudience
  let value ← given (payload.get? (.lit "exp")) .missingExpiry
  let expiry ← given (Json.int? (some value)) .invalidExpiry
  require (0 < expiry) .invalidExpiry
  require (!(expiry ≤ policy.currentTime && policy.clockSkewSeconds ≤ policy.currentTime - expiry))
    .expired
  checkNotAfter (payload.get? (.lit "nbf")) policy .invalidNotBefore .notYetValid
  checkNotAfter (payload.get? (.lit "iat")) policy .invalidIssuedAt .issuedInFuture
  let _ ← given (validIdentityString (payload.get? (.lit "sub")) policy.maxSubjectSize) .invalidSubject
  let identity ← given (validIdentityString (payload.get? identityClaim) policy.maxIdentitySize)
    .invalidIdentity
  validateScopes payload policy requiredScopes
  validateRequestedRole payload policy roleClaim
  return ⟨identity, expiry⟩

/-! What an accepted payload says, in terms of the claims themselves. -/

/-- A string without controls, neither of ASCII nor of the C1 range. -/
structure PrintableText (maximum : Nat) (text : Bytes) : Prop where
  nonempty : text ≠ []
  length_le : text.length ≤ maximum
  no_ascii_control : ∀ b ∈ text, iscntrl b = false
  no_c1_control : ∀ c : UInt8, 0x80 ≤ c → c ≤ 0x9f → ¬ [0xc2, c] <:+: text

/-- A claim that is the text, or an array with the text among its items. -/
def Json.Names (value : Option Json) (text : Bytes) : Prop :=
  ∃ s : CString, s.bytes = text ∧
    (value = some (.str s) ∨ ∃ items, value = some (.arr items) ∧ .str s ∈ items)

/-- A scope claim grants the scopes between the spaces of a string, or the items
of an array. -/
def GrantsScope (value : Option Json) (scope : Bytes) : Prop :=
  (∃ s, value = some (.str s) ∧ scope ∈ s.bytes.splitOn space) ∨
    ∃ items s, value = some (.arr items) ∧ .str s ∈ items ∧ s.bytes = scope

/-- A date that is absent, or a number not past the limit. -/
def AbsentOrAtMost (value : Option Json) (limit : Int) : Prop :=
  value = none ∨ ∃ date, value = some (.int date) ∧ 0 ≤ date ∧ date ≤ limit

/-- The payload permits the connection at a time and with a tolerance for
clocks, both in seconds. -/
structure TokenGrants (payload : Json) (issuer audiences requiredScopes identityClaim roleClaim : CString)
    (requestedRole : Option CString) (now skew : Int) (identity : CString) : Prop where
  issuer : payload.get? (.lit "iss") = some (.str issuer)
  audience : ∃ audience ∈ listEntries audiences.bytes, Json.Names (payload.get? (.lit "aud")) audience
  expiry : ∃ expiry, payload.get? (.lit "exp") = some (.int expiry) ∧ 0 < expiry ∧ now < expiry + skew
  notBefore : AbsentOrAtMost (payload.get? (.lit "nbf")) (now + skew)
  issuedAt : AbsentOrAtMost (payload.get? (.lit "iat")) (now + skew)
  subject : ∃ subject, payload.get? (.lit "sub") = some (.str subject) ∧
    PrintableText 1024 subject.bytes
  identity : payload.get? identityClaim = some (.str identity)
  scopes : ∀ scope ∈ requiredScopes.bytes.splitOn space, GrantsScope (payload.get? (.lit "scope")) scope
  role : roleClaim.isEmpty = false → ∃ role, requestedRole = some role ∧ role.isEmpty = false ∧
    Json.Names (payload.get? roleClaim) role.bytes

end OAuthValidator
