import OAuthValidator.EnvelopeGrammar
import OAuthValidator.IdentityAgreement
import OAuthValidator.KeptKey
import OAuthValidator.UrlAgreement

/-! Settings that were accepted, at the stages that use them. Every stage checks its
arguments again, with bounds of its own. The bounds of the settings imply all of them
but one: nothing checks the required scopes before the claims stage does. -/

namespace OAuthValidator

open Program

/-! The claims stage. -/

/-- The required scopes begin with some that the claim grants, and then comes one that
cannot be required: it is no scope token, or one too many. -/
def UnusableScope (contains : Bytes → Prop) (maximum : Nat) (required : List Bytes) : Prop :=
  ∃ before scope after, required = before ++ scope :: after ∧
    (∀ granted ∈ before, ScopeToken granted ∧ contains granted) ∧
    before.length ≤ maximum ∧ (before.length = maximum ∨ ¬ ScopeToken scope)

theorem unusableScope_cons {contains : Bytes → Prop} {maximum : Nat} {scope : Bytes} {rest : List Bytes} :
    UnusableScope contains maximum (scope :: rest) ↔
      (maximum = 0 ∨ ¬ ScopeToken scope) ∨
        (0 < maximum ∧ ScopeToken scope ∧ contains scope ∧ UnusableScope contains (maximum - 1) rest) := by
  constructor
  · rintro ⟨before, unusable, after, heq, hgranted, hlength, hstop⟩
    cases before with
    | nil =>
      obtain ⟨rfl, rfl⟩ := List.cons.inj heq
      exact Or.inl (hstop.imp_left Eq.symm)
    | cons first before =>
      obtain ⟨rfl, rfl⟩ := List.cons.inj heq
      obtain ⟨hfirst, hbefore⟩ := List.forall_mem_cons.mp hgranted
      rw [List.length_cons] at hlength hstop
      refine Or.inr ⟨by omega, hfirst.1, hfirst.2, before, unusable, after, rfl, hbefore, by omega, ?_⟩
      exact hstop.imp_left fun h => by omega
  · rintro (hstop | ⟨hpos, htoken, hscope, before, unusable, after, rfl, hbefore, hlength, hstop⟩)
    · exact ⟨[], scope, rest, rfl, by simp, Nat.zero_le _, hstop.imp_left Eq.symm⟩
    · refine ⟨scope :: before, unusable, after, rfl, List.forall_mem_cons.mpr ⟨⟨htoken, hscope⟩, hbefore⟩, ?_, ?_⟩
      · rw [List.length_cons]
        omega
      · rw [List.length_cons]
        exact hstop.imp_left fun h => by omega

theorem requireScopes_eq_invalidArgument {contains : Bytes → Option Bool} {maximum count : Nat}
    {required : List Bytes} (hcount : count ≤ maximum) :
    requireScopes contains maximum count required = .error .invalidArgument ↔
      UnusableScope (fun scope => contains scope = some true) (maximum - count) required := by
  induction required generalizing count with
  | nil => simp [requireScopes, UnusableScope]
  | cons scope rest ih =>
    have hinvalid : validScopeToken scope = false ↔ ¬ ScopeToken scope := by
      rw [← validScopeToken_iff, Bool.not_eq_true]
    rw [unusableScope_cons]
    simp only [requireScopes, except_bind_eq_error, require_eq_error, given_eq_error, require_eq_ok,
      given_eq_ok, reduceCtorEq, and_false, and_true, false_or, exists_const, Bool.and_eq_false_iff,
      Bool.and_eq_true, decide_eq_true_eq, decide_eq_false_iff_not, validScopeToken_iff,
      hinvalid]
    constructor
    · rintro (hstop | ⟨⟨hroom, htoken⟩, _, hcontains, rfl, hrest⟩)
      · exact Or.inl (hstop.imp_left fun h => by omega)
      · exact Or.inr ⟨by omega, htoken, hcontains, (ih hroom).mp hrest⟩
    · rintro (hstop | ⟨hroom, htoken, hcontains, hrest⟩)
      · exact Or.inl (hstop.imp_left fun h => by omega)
      · have hnext : count + 1 ≤ maximum := by omega
        exact Or.inr ⟨⟨hnext, htoken⟩, true, hcontains, rfl, (ih hnext).mpr hrest⟩

/-- The claim is a string or an array. -/
def ScopeClaim (value : Option Json) : Prop :=
  (∃ s, value = some (.str s)) ∨ ∃ items, value = some (.arr items)

theorem validateScopes_eq_invalidArgument {payload : Json} {policy : ClaimsPolicy} {required : CString} :
    validateScopes payload policy required = .error .invalidArgument ↔
      ScopeClaim (payload.get? (.lit "scope")) ∧
        UnusableScope (ScopeGranted (payload.get? (.lit "scope")) policy.maxScopes) policy.maxScopes
          (required.bytes.splitOn space) := by
  unfold validateScopes
  simp only
  split
  · next s hs =>
    rw [requireScopes_eq_invalidArgument (Nat.zero_le _), hs]
    simp only [scopeStringContains_iff, Nat.sub_zero]
    exact ⟨fun h => ⟨Or.inl ⟨s, rfl⟩, h⟩, fun h => h.2⟩
  · next items hitems =>
    rw [requireScopes_eq_invalidArgument (Nat.zero_le _), hitems]
    simp only [scopeArrayContains_iff, Nat.sub_zero]
    exact ⟨fun h => ⟨Or.inr ⟨items, rfl⟩, h⟩, fun h => h.2⟩
  · next hstr harr =>
    constructor
    · simp
    · rintro ⟨⟨s, hs⟩ | ⟨items, hitems⟩, _⟩
      · exact absurd hs (hstr s)
      · exact absurd hitems (harr items)

theorem checkNotAfter_ne_error {value : Option Json} {policy : ClaimsPolicy}
    {invalid late error : ClaimsError} (hinvalid : invalid ≠ error) (hlate : late ≠ error) :
    checkNotAfter value policy invalid late ≠ .error error := by
  unfold checkNotAfter
  split
  · simp
  · exact bind_ne_error (given_ne_error hinvalid) fun _ =>
      bind_ne_error (require_ne_error hinvalid) fun _ => require_ne_error hlate

/-- A role that the callback was asked for has a length that the stage accepts. -/
theorem validateRequestedRole_ne_invalidArgument {payload : Json} {policy : ClaimsPolicy}
    {roleClaim role : CString} (hrole : policy.requestedRole = some role)
    (hnonempty : role.isEmpty = false) (hlength : role.length ≤ policy.maxRoleSize) :
    validateRequestedRole payload policy roleClaim ≠ .error .invalidArgument := by
  unfold validateRequestedRole
  split
  · simp
  · rw [hrole, given_some_bind]
    refine bind_ne_error (by simp [hnonempty, hlength, require]) fun _ => ?_
    split
    · exact bind_ne_error (require_ne_error (by decide)) fun _ => require_ne_error (by decide)
    · exact bind_ne_error (given_ne_error (by decide)) fun _ => require_ne_error (by decide)
    · simp

/-- The strings that a policy of the stage points to. -/
structure ClaimsTexts (policy : ClaimsPolicy)
    (issuer audiences required identityClaim roleClaim role : CString) : Prop where
  issuer : policy.issuer = some issuer
  audiences : policy.audiences = some audiences
  requiredScopes : policy.requiredScopes = some required
  identityClaim : policy.identityClaim = some identityClaim
  roleClaim : policy.roleClaim = some roleClaim
  requestedRole : policy.requestedRole = some role

/-- The conditions that a payload has met when its scopes are looked at. -/
structure GrantedBeforeScopes (payload : Json) (policy : ClaimsPolicy)
    (issuer audiences identityClaim : CString) : Prop where
  issuer : payload.get? (.lit "iss") = some (.str issuer)
  audience : ∃ texts, ClaimTexts (payload.get? (.lit "aud")) texts ∧
    WellFormedTexts (· ≠ []) policy.maxAudiences texts ∧
      ∃ text ∈ texts, configuredAudienceMatches audiences text policy.maxAudiences = true
  expiry : ∃ expiresAt, payload.get? (.lit "exp") = some (.int expiresAt) ∧ 0 < expiresAt ∧
    policy.currentTime < expiresAt + policy.clockSkewSeconds
  notBefore : AbsentOrAtMost (payload.get? (.lit "nbf")) (policy.currentTime + policy.clockSkewSeconds)
  issuedAt : AbsentOrAtMost (payload.get? (.lit "iat")) (policy.currentTime + policy.clockSkewSeconds)
  subject : ∃ subject, payload.get? (.lit "sub") = some (.str subject) ∧
    PrintableText policy.maxSubjectSize subject.bytes
  identity : ∃ identity, payload.get? identityClaim = some (.str identity) ∧
    PrintableText policy.maxIdentitySize identity.bytes

/-- The scope claim of a payload stops at a required scope that cannot be required. -/
def ScopesUnusable (payload : Json) (maximum : Nat) (required : CString) : Prop :=
  ScopeClaim (payload.get? (.lit "scope")) ∧
    UnusableScope (ScopeGranted (payload.get? (.lit "scope")) maximum) maximum
      (required.bytes.splitOn space)

/-- Of all the arguments of the stage, only the required scopes can be wrong. -/
theorem claimsValidate_eq_invalidArgument {payload : Json} {policy : ClaimsPolicy}
    {issuer audiences required identityClaim roleClaim role : CString}
    (texts : ClaimsTexts policy issuer audiences required identityClaim roleClaim role)
    (hobject : payload.isObject = true) (hpolicy : validPolicy policy = true)
    (hnonempty : role.isEmpty = false) (hlength : role.length ≤ policy.maxRoleSize) :
    claimsValidate payload policy = .error .invalidArgument ↔
      GrantedBeforeScopes payload policy issuer audiences identityClaim ∧
        ScopesUnusable payload policy.maxScopes required := by
  obtain ⟨_, hmax, _⟩ := validPolicy_bounds hpolicy
  have hnbf : checkNotAfter (payload.get? (.lit "nbf")) policy .invalidNotBefore .notYetValid ≠
      .error .invalidArgument := checkNotAfter_ne_error (by decide) (by decide)
  have hiat : checkNotAfter (payload.get? (.lit "iat")) policy .invalidIssuedAt .issuedInFuture ≠
      .error .invalidArgument := checkNotAfter_ne_error (by decide) (by decide)
  have hrole : validateRequestedRole payload policy roleClaim ≠ .error .invalidArgument :=
    validateRequestedRole_ne_invalidArgument texts.requestedRole hnonempty hlength
  simp only [claimsValidate, except_bind_eq_error, require_eq_error, given_eq_error, given_eq_ok, require_eq_ok,
    decide_eq_true_eq, Bool.not_eq_true', Bool.and_eq_false_iff, decide_eq_false_iff_not, texts.issuer,
    texts.audiences, texts.requiredScopes, texts.identityClaim, texts.roleClaim, hobject, hpolicy,
    Bool.and_self, Option.some.injEq, exists_eq_left', exists_const, true_and, jsonStringEquals_eq_true,
    audienceMatches_iff hmax, checkNotAfter_eq_ok, validIdentityString_eq_some,
    validateScopes_eq_invalidArgument, reduceCtorEq, and_false, false_or, Bool.true_eq_false, false_and,
    or_false, hnbf, hiat, hrole, pure, Except.pure]
  constructor
  · rintro ⟨hiss, haud, value, hvalue, expiry, hexpiry, hpositive, hfresh, hnbf, hiat, subject, hsub, identity,
      hid, hscopes⟩
    refine ⟨⟨hiss, haud, ⟨expiry, hvalue.trans (Json.int?_eq_some hexpiry), hpositive, by omega⟩, hnbf, hiat,
      ⟨subject, hsub⟩, ⟨identity, hid⟩⟩, hscopes⟩
  · rintro ⟨⟨hiss, haud, ⟨expiry, hexpiry, hpositive, hfresh⟩, hnbf, hiat, ⟨subject, hsub⟩, ⟨identity, hid⟩⟩,
      hscopes⟩
    exact ⟨hiss, haud, _, hexpiry, expiry, rfl, hpositive, by omega, hnbf, hiat, subject, hsub, identity, hid,
      hscopes⟩

/-! The settings. -/

/-- What is known of settings that were accepted, as far as a stage checks it again. -/
structure SettingsWithin (policy : ValidationPolicy) : Prop where
  issuer : policy.issuer.isEmpty = false
  requiredScopes : policy.requiredScopes.isEmpty = false
  audiences : policy.audiences.isEmpty = false
  identityClaim : policy.identityClaim.isEmpty = false
  tokenTypes : policy.allowedTokenTypes ≠ 0 ∧ policy.allowedTokenTypes &&& ~~~tokenTypesAll = 0
  algorithms : policy.allowedAlgorithms ≠ 0
  clockSkew : 0 ≤ policy.clockSkewMs ∧ policy.clockSkewMs ≤ 300000
  tokenSize : 1024 ≤ policy.maxTokenSize ∧ policy.maxTokenSize ≤ 65536
  metadataTtl : 1000 ≤ policy.metadataDefaultTtlMs ∧ policy.metadataDefaultTtlMs ≤ policy.cacheMaxTtlMs
  jwksTtl : 1000 ≤ policy.jwksDefaultTtlMs ∧ policy.jwksDefaultTtlMs ≤ policy.cacheMaxTtlMs
  waits : 0 ≤ policy.jwksStaleGraceMs ∧ 0 ≤ policy.unknownKidRefreshCooldownMs ∧
    0 ≤ policy.refreshWaitTimeoutMs

theorem parseTokenTypes_within {value : Option CString} {types : UInt8}
    (h : parseTokenTypes value = some types) : types ≠ 0 ∧ types &&& ~~~tokenTypesAll = 0 := by
  obtain ⟨text, _, _, hexact⟩ := parseTokenTypes_eq_some.mp h
  have hne := ((exactlyNames_iff nameTable_tokenTypes word_uint8 hexact.nonempty).mp hexact).2
  exact ⟨hne, hexact.and_eq_zero word_uint8 (by decide)⟩

theorem PolicyAccepted.within {config : PolicyConfig} {hba : HbaPolicy} {policy : ValidationPolicy}
    (h : PolicyAccepted config hba policy) : SettingsWithin policy where
  issuer := (nonempty?_eq_some h.issuer).2
  requiredScopes := (nonempty?_eq_some h.requiredScopes).2
  audiences := (nonempty?_eq_some h.audiences).2
  identityClaim := by
    have hname := h.identityName
    simp only [validateClaimName, Bool.and_eq_true, Bool.not_eq_true'] at hname
    exact hname.1.1
  tokenTypes := parseTokenTypes_within h.tokenTypes
  algorithms := by
    obtain ⟨text, _, hexact⟩ := parseAlgorithms_eq_some.mp h.algorithms
    exact ((exactlyNames_iff nameTable_algorithms word_uint32 hexact.nonempty).mp hexact).2
  clockSkew := h.clockSkew
  tokenSize := h.tokenSize
  metadataTtl := h.metadataTtl
  jwksTtl := h.jwksTtl
  waits := ⟨h.staleGrace.1, Int.le_trans (by decide) h.cooldown.1, h.refreshWait.1⟩

/-! The other stages. -/

theorem httpFreshnessCalculate_ne_invalidArgument {ext : Externals}
    {cacheControl date expires age : Option CString} {responseTimeSeconds : Int}
    {policy : HttpFreshnessPolicy} (htime : 0 ≤ responseTimeSeconds) (hdefault : 0 ≤ policy.defaultTtlMs)
    (hmaximum : policy.defaultTtlMs ≤ policy.maximumTtlMs) :
    httpFreshnessCalculate ext cacheControl date expires age responseTimeSeconds policy ≠
      .error .invalidArgument := by
  have hlifetime (control : CacheControlValues) :
      explicitLifetime ext control date expires responseTimeSeconds ≠ .error .invalidArgument := by
    unfold explicitLifetime
    grind
  have httl (lifetime : Option Int) (ageSeconds : Int) :
      unboundedTtl ext lifetime ageSeconds date responseTimeSeconds policy.defaultTtlMs ≠
        .error .invalidArgument := by
    unfold unboundedTtl apparentAge
    grind
  have harguments : (decide (responseTimeSeconds < 0) || decide (policy.defaultTtlMs < 0) ||
      decide (policy.maximumTtlMs < 0) || decide (policy.maximumTtlMs < policy.defaultTtlMs)) = false := by
    simp only [Bool.or_eq_false_iff, decide_eq_false_iff_not]
    omega
  unfold httpFreshnessCalculate
  rw [harguments]
  simp only [Bool.false_eq_true, if_false]
  grind

theorem findCandidate_ne_invalidArgument {keyId : CString} {maximum : Nat} {candidate : Option Json}
    {keys : List Json} : findCandidate keyId maximum candidate keys ≠ .error .invalidArgument := by
  induction keys generalizing candidate with
  | nil => simp [findCandidate]
  | cons key rest ih =>
    unfold findCandidate
    grind

theorem jwksSelect_ne_invalidArgument {ext : Externals} {document : Bytes} {keyId : CString}
    {tokenAlgorithm : UInt32} {policy : JwksPolicy}
    (hvalid : jwksArgumentsValid keyId tokenAlgorithm policy = true) :
    jwksSelect ext document keyId tokenAlgorithm policy ≠ .error .invalidArgument := by
  have hkeys : jwksKeys ext document policy ≠ .error .invalidArgument := by
    unfold jwksKeys
    grind
  have hcandidate (key : Json) : candidateError ext key tokenAlgorithm policy ≠ some .invalidArgument := by
    unfold candidateError
    grind
  have hfind (keys : List Json) : findCandidate keyId policy.maxKeyIdSize none keys ≠ .error .invalidArgument :=
    findCandidate_ne_invalidArgument
  unfold jwksSelect
  rw [hvalid]
  simp only [Bool.not_true, Bool.false_eq_true, if_false]
  grind

theorem identityBuild_ne_invalidArgument {subject : Bytes} {policy : IdentityPolicy}
    (hsubject : policy.maxSubjectSize ≠ 0) (hauthn : policy.maxAuthnIdSize ≠ 0) :
    identityBuild (some subject) policy ≠ .error .invalidArgument := by
  unfold identityBuild
  rw [given_some_bind]
  refine bind_ne_error (by simp [require, hsubject, hauthn]) fun _ => ?_
  refine bind_ne_error (require_ne_error (by decide)) fun _ => ?_
  exact bind_ne_error (require_ne_error (by decide)) fun _ => by simp [pure, Except.pure]

/-! The arguments that the callback derives from the settings. -/

section Derived

variable {ext : Externals} {p : Prepared} {inv : Invocation} {envelope : JwtEnvelope} {token : Bytes}

theorem SettingsWithin.envelopePolicy (h : SettingsWithin p.policy) :
    jwtEnvelopePolicyValid (validatorPolicy p inv).envelope = true := by
  have hsize := h.tokenSize
  have htypes := h.tokenTypes
  have hmask : ~~~tokenTypesAll = ~~~(tokenTypeAtJwt ||| tokenTypeApplicationAtJwt) := rfl
  rw [hmask] at htypes
  have htokenSize : p.policy.maxTokenSize.toNat ≠ 0 := by omega
  simp [jwtEnvelopePolicyValid, validatorPolicy, htypes, h.algorithms, htokenSize]

theorem SettingsWithin.cacheKey (h : SettingsWithin p.policy) (hhosts : p.policy.allowedJwksHosts.isSome = true)
    {resource : CacheResource} {issuer url : CString} {jwksUrl : Option CString}
    (hissuer : issuer.isEmpty = false) (hurl : url.isEmpty = false)
    (hjwks : resource = .jwks → missing jwksUrl = false) :
    cacheKeyArgumentsValid { cacheKeyPolicy p.policy with
      resource := resource
      issuer := some issuer
      metadataUrl := some url
      jwksUrl := jwksUrl } = true := by
  have hsize := h.tokenSize
  have htokenSize : p.policy.maxTokenSize.toNat.toUInt32 ≠ 0 := by
    intro hzero
    have hmod := congrArg UInt32.toNat hzero
    simp at hmod
    omega
  have hgiven (text : CString) : missing (some text) = text.isEmpty := rfl
  have hdocumentSize : maxDocumentSize.toUInt32 ≠ 0 := by decide
  simp [cacheKeyArgumentsValid, cacheKeyPolicy, hgiven, hissuer, hurl, not_or_of_imp hjwks, h.tokenTypes,
    hhosts, h.algorithms, htokenSize, hdocumentSize]

theorem SettingsWithin.claims (h : SettingsWithin p.policy) {role : CString} (hrole : inv.role = some role)
    (hnonempty : role.isEmpty = false) (hclock : 0 ≤ inv.wallTime) :
    validPolicy (validatorPolicy p inv).claims = true := by
  have hskew := h.clockSkew
  have hseconds : (p.policy.clockSkewMs / 1000).toNat ≤ 300 := by omega
  simp [validPolicy, validatorPolicy, nonempty?, h.issuer, h.audiences, h.requiredScopes, h.identityClaim, hrole,
    hnonempty, hclock, hseconds, maxNameSize, maxIdentitySize]

theorem parsed_jwksArguments (h : SettingsWithin p.policy)
    (hparse : jwtEnvelopeParse ext token (validatorPolicy p inv).envelope = .ok envelope) :
    jwksArgumentsValid envelope.keyId envelope.algorithm (validatorPolicy p inv).issuerKey.jwks = true := by
  have hsize := h.tokenSize
  have hbound : (validatorPolicy p inv).envelope.maxTokenSize ≤ sizeMax := by
    show p.policy.maxTokenSize.toNat ≤ 18446744073709551615
    omega
  have hgrammar := (jwtEnvelopeParse_eq_ok h.envelopePolicy hbound).mp hparse
  obtain ⟨name, hname, _, hallowed⟩ := hgrammar.algorithm
  have hkeyId : validKeyIdText envelope.keyId.bytes 1024 = true :=
    (validKeyIdText_iff ..).mpr ⟨hgrammar.keyId_length, hgrammar.keyId_printable⟩
  have hbit : envelope.algorithm ≠ 0 ∧ envelope.algorithm &&& (envelope.algorithm - 1) = 0 := by
    simp only [algorithmTable, List.mem_cons, Prod.mk.injEq, List.not_mem_nil, or_false] at hname
    rcases hname with ⟨_, heq⟩ | ⟨_, heq⟩ | ⟨_, heq⟩ <;> rw [heq] <;> decide
  have hallowed' : envelope.algorithm &&& p.policy.allowedAlgorithms ≠ 0 := hallowed
  simp [jwksArgumentsValid, validatorPolicy, maxDocumentSize, h.algorithms, hbit, hallowed', hkeyId]

/-- The retrieval of the callback, once it is known to go through the cache. -/
def Prepared.cachedCall (p : Prepared) (inv : Invocation) (envelope : JwtEnvelope) : CachedCall :=
  ⟨⟨p.metadataUrl, p.policy.issuer, envelope.keyId, envelope.algorithm, (validatorPolicy p inv).issuerKey,
    p.monotonicMs, inv.wallTime⟩, cachePolicy p.policy⟩

theorem fetchArgs_cached_eq {x : CachedCall} (h : (p.fetchArgs inv envelope).cached = some x) :
    x = p.cachedCall inv envelope := by
  simp only [FetchArgs.cached, FetchArgs.call, Prepared.fetchArgs] at h
  by_cases halgorithm : (envelope.algorithm == 0) = true
  · simp [halgorithm] at h
  · simp only [halgorithm, Bool.false_eq_true, if_false] at h
    split_ifs at h
    exact (Option.some.inj h).symm

theorem cachePolicyValid_of_bounds {policy : IssuerKeyCachePolicy} (hio : policy.io = some ⟨true, true, true, true⟩)
    (hmetadata : 0 ≤ policy.metadataFreshness.defaultTtlMs ∧ 0 < policy.metadataFreshness.maximumTtlMs)
    (hjwks : 0 ≤ policy.jwksFreshness.defaultTtlMs ∧ 0 < policy.jwksFreshness.maximumTtlMs)
    (hwaits : 0 ≤ policy.jwksStaleGraceMs ∧ 0 ≤ policy.unknownKidRefreshCooldownMs ∧
      0 ≤ policy.refreshWaitTimeoutMs) : cachePolicyValid policy = true := by
  simp [cachePolicyValid, hio, hmetadata, hjwks, hwaits]

theorem SettingsWithin.cached (h : SettingsWithin p.policy) (halgorithm : envelope.algorithm ≠ 0) :
    (p.fetchArgs inv envelope).cached = some (p.cachedCall inv envelope) := by
  have hmetadata := h.metadataTtl
  have hjwks := h.jwksTtl
  have hvalid : cachePolicyValid (cachePolicy p.policy) = true := by
    refine cachePolicyValid_of_bounds rfl ?_ ?_ h.waits <;> simp only [cachePolicy] <;> omega
  simp [FetchArgs.cached, FetchArgs.call, Prepared.fetchArgs, Prepared.cachedCall, halgorithm, hvalid]

theorem metadataUrl_nonempty {issuer url : CString} (hissuer : issuer.isEmpty = false)
    (h : metadataUrl issuer = some url) : url.isEmpty = false := by
  have hbytes : issuer.bytes ≠ [] := by simpa [CString.isEmpty] using hissuer
  have happend (suffix : CString) : (issuer.append suffix).isEmpty = false := by
    simp [CString.isEmpty, CString.append, hbytes]
  unfold metadataUrl at h
  simp only at h
  split_ifs at h
  all_goals
    obtain rfl := Option.some.inj h
    exact happend _

/-- No stage of a validation reports that an argument was not valid. The errors of the
cache keys and of the freshness calculation do not reach the result, so of these stages
it is said for every retrieval and every response. -/
structure NoArgumentError (ext : Externals) (p : Prepared) (inv : Invocation) (r : ValidatorReturn) : Prop where
  envelope : r.2.envelopeError ≠ .invalidArgument
  metadataKey : ∀ envelope x, (p.fetchArgs inv envelope).cached = some x →
    cacheKeyBuild x.metadataKeyPolicy ≠ .error .invalidArgument
  jwksKey : ∀ envelope x document uri, (p.fetchArgs inv envelope).cached = some x →
    metadataParse ext document x.call.expectedIssuer x.call.policy.metadata = .ok uri →
      cacheKeyBuild (x.jwksKeyPolicy uri) ≠ .error .invalidArgument
  metadataFreshness : ∀ response : HttpResponse,
    response.freshness ext inv.wallTime (cachePolicy p.policy).metadataFreshness ≠ .error .invalidArgument
  jwksFreshness : ∀ response : HttpResponse,
    response.freshness ext inv.wallTime (cachePolicy p.policy).jwksFreshness ≠ .error .invalidArgument
  jwks : r.2.jwksError ≠ .invalidArgument
  claims : r.2.claimsError ≠ .invalidArgument
  identity : r.2.identityError ≠ .invalidArgument

/-- The validation comes to a required scope that cannot be required. The token has been
found genuine, its payload meets every condition that is checked before the scopes, and
its scope claim grants the required scopes up to that one. -/
structure ReachesUnusableScope (ext : Externals) (p : Prepared) (inv : Invocation) (token : Bytes)
    (tr : CallTrace) (envelope : JwtEnvelope) (result : IssuerKeyResult) : Prop where
  parsed : jwtEnvelopeParse ext token (validatorPolicy p inv).envelope = .ok envelope
  retrieved : Exec [] (issuerKeyFetchCached ext (p.fetchArgs inv envelope)) tr (.ok, result)
  signature : signatureVerify ext token result.selected = .ok ()
  granted : GrantedBeforeScopes envelope.untrustedPayload (validatorPolicy p inv).claims p.policy.issuer
    p.policy.audiences p.policy.identityClaim
  unusable : ScopesUnusable envelope.untrustedPayload (validatorPolicy p inv).claims.maxScopes
    p.policy.requiredScopes

theorem cacheKeyBuild_ne_invalidArgument {policy : CacheKeyPolicy}
    (h : cacheKeyArgumentsValid policy = true) : cacheKeyBuild policy ≠ .error .invalidArgument := by
  unfold cacheKeyBuild
  rw [h]
  simp only [Bool.not_true, Bool.false_eq_true, if_false]
  split <;> simp

/-- The stages whose errors do not depend on the run, and those that do. -/
theorem SettingsWithin.noArgumentError_iff (h : SettingsWithin p.policy)
    (hhosts : p.policy.allowedJwksHosts.isSome = true)
    (hurl : metadataUrl p.policy.issuer = some p.metadataUrl) (hclock : 0 ≤ inv.wallTime)
    {r : ValidatorReturn} (henvelope : r.2.envelopeError ≠ .invalidArgument)
    (hjwks : r.2.jwksError ≠ .invalidArgument) (hidentity : r.2.identityError ≠ .invalidArgument) :
    NoArgumentError ext p inv r ↔ r.2.claimsError ≠ .invalidArgument := by
  have hmetadataUrl := metadataUrl_nonempty h.issuer hurl
  have hmetadataTtl := h.metadataTtl
  have hjwksTtl := h.jwksTtl
  refine ⟨fun hn => hn.claims, fun hclaims => ?_⟩
  refine ⟨henvelope, fun envelope x hx => ?_, fun envelope x document uri hx hparse => ?_,
    fun response => ?_, fun response => ?_, hjwks, hclaims, hidentity⟩
  · obtain rfl := fetchArgs_cached_eq hx
    exact cacheKeyBuild_ne_invalidArgument (h.cacheKey hhosts h.issuer hmetadataUrl (by simp))
  · obtain rfl := fetchArgs_cached_eq hx
    have huri := (validateUrl_eq_ok.mp (metadataParse_uri hparse)).nonempty
    refine cacheKeyBuild_ne_invalidArgument (h.cacheKey hhosts h.issuer hmetadataUrl fun _ => ?_)
    simpa [missing, CString.isEmpty] using huri
  · refine httpFreshnessCalculate_ne_invalidArgument hclock ?_ hmetadataTtl.2
    exact Int.le_trans (by decide) hmetadataTtl.1
  · refine httpFreshnessCalculate_ne_invalidArgument hclock ?_ hjwksTtl.2
    exact Int.le_trans (by decide) hjwksTtl.1

/-- With the envelope and the retrieval of the run, the condition says that the claims
stage is reached and refuses an argument. -/
theorem reachesUnusableScope_iff (h : SettingsWithin p.policy) {role : CString} (hrole : inv.role = some role)
    (hnonempty : role.isEmpty = false) (hlength : role.length ≤ maxNameSize) (hclock : 0 ≤ inv.wallTime)
    {tr : CallTrace} {fetched : FetchReturn}
    (hparse : jwtEnvelopeParse ext token (validatorPolicy p inv).envelope = .ok envelope)
    (hrun : Exec [] (issuerKeyFetchCached ext (p.fetchArgs inv envelope)) tr fetched) :
    (∃ envelope result, ReachesUnusableScope ext p inv token tr envelope result) ↔
      fetched.1 = .ok ∧ signatureVerify ext token fetched.2.selected = .ok () ∧
        claimsValidate envelope.untrustedPayload (validatorPolicy p inv).claims = .error .invalidArgument := by
  have htexts : ClaimsTexts (validatorPolicy p inv).claims p.policy.issuer p.policy.audiences
      p.policy.requiredScopes p.policy.identityClaim p.policy.roleClaim role := ⟨rfl, rfl, rfl, rfl, rfl, hrole⟩
  have hclaims := claimsValidate_eq_invalidArgument htexts (jwtEnvelopeParse_ok hparse).payload
    (h.claims hrole hnonempty hclock) hnonempty hlength
  rw [hclaims]
  constructor
  · rintro ⟨envelope', result, hreach⟩
    obtain rfl := Except.ok.inj (hparse.symm.trans hreach.parsed)
    obtain rfl := hrun.unique hreach.retrieved
    exact ⟨rfl, hreach.signature, hreach.granted, hreach.unusable⟩
  · obtain ⟨verdict, result⟩ := fetched
    rintro ⟨rfl, hsignature, hgranted, hunusable⟩
    exact ⟨envelope, result, hparse, hrun, hsignature, hgranted, hunusable⟩

theorem fetched_jwksError (h : SettingsWithin p.policy) {tr : CallTrace} {fetched : FetchReturn}
    (hparse : jwtEnvelopeParse ext token (validatorPolicy p inv).envelope = .ok envelope)
    (hrun : Exec [] (issuerKeyFetchCached ext (p.fetchArgs inv envelope)) tr fetched) :
    fetched.2.jwksError ≠ .invalidArgument := by
  have hcached : (p.fetchArgs inv envelope).cached = some (p.cachedCall inv envelope) :=
    h.cached (jwtEnvelopeParse_ok hparse).algorithm_ne_zero
  rw [issuerKeyFetchCached_of_cached hcached] at hrun
  rcases ((fetchThroughCache_returned ext _).of_exec hrun).reported with hok | ⟨document, hselect⟩
  · simp [hok]
  · intro he
    rw [he] at hselect
    exact jwksSelect_ne_invalidArgument (parsed_jwksArguments h hparse) hselect

end Derived

/-- Every required scope is a scope token, and there are not too many. -/
def ScopesRequirable (scopes : CString) : Prop :=
  (scopes.bytes.splitOn space).length ≤ 64 ∧ ∀ scope ∈ scopes.bytes.splitOn space, ScopeToken scope

theorem ScopesRequirable.usable {payload : Json} {scopes : CString} (h : ScopesRequirable scopes) :
    ¬ ScopesUnusable payload 64 scopes := by
  rintro ⟨_, before, scope, after, heq, _, hlength, hstop⟩
  have hmem : scope ∈ scopes.bytes.splitOn space := by simp [heq]
  have hcount := h.1
  rw [heq, List.length_append, List.length_cons] at hcount
  rcases hstop with hfull | htoken
  · omega
  · exact htoken (h.2 scope hmem)

/-- Under settings that were accepted, no stage of the validation of any token reports an
invalid argument, unless it comes to a required scope that cannot be required. If the
required scopes are scope tokens it never does. -/
theorem accepted_settings_argument_errors {ext : Externals} {inv : Invocation} {p : Prepared} {role : CString}
    {token : Bytes} {tr : CallTrace} {r : ValidatorReturn} (accepted : prepare ext inv = .ok p)
    (hosts : inv.config.allowedJwksHosts.isSome = true) (requested : inv.role = some role)
    (length : 1 ≤ role.length ∧ role.length ≤ 63)
    (run : Exec [] (validateAccessTokenCached ext (some token) (some p.metadataUrl)
      (some (validatorPolicy p inv)) (some (cachePolicy p.policy)) p.monotonicMs inv.wallTime) tr r) :
    (NoArgumentError ext p inv r ↔
      ¬ ∃ envelope result, ReachesUnusableScope ext p inv token tr envelope result) ∧
      (ScopesRequirable p.policy.requiredScopes → NoArgumentError ext p inv r) := by
  obtain ⟨hba, hprepared⟩ := prepare_ok accepted
  have hbuilt := policyBuild_ok hprepared.built
  have hwithin := hbuilt.within
  have hurl := hprepared.url
  have hclock := hprepared.wallTime
  rw [← hbuilt.jwksHosts] at hosts
  have hnonempty : role.isEmpty = false := by
    have hbytes := List.length_pos_iff.mp length.1
    simp [CString.isEmpty, hbytes]
  have hexact : NoArgumentError ext p inv r ↔
      ¬ ∃ envelope result, ReachesUnusableScope ext p inv token tr envelope result := by
    cases validateAccessTokenCached_cases run with
    | missing hmissing => simp [validatorPolicy] at hmissing
    | envelope text e htoken henvelope =>
      obtain rfl := Option.some.inj htoken
      have he : e ≠ .invalidArgument := by
        rintro rfl
        exact jwtEnvelopeParse_ne_error ext token (Or.inr ⟨rfl, hwithin.envelopePolicy⟩) henvelope
      rw [hwithin.noArgumentError_iff hosts hurl hclock he (by simp [ValidatorResult.zero])
        (by simp [ValidatorResult.zero])]
      refine ⟨fun _ => ?_, fun _ => by simp [ValidatorResult.zero]⟩
      rintro ⟨envelope, result, hreach⟩
      exact absurd (henvelope.symm.trans hreach.parsed) (by simp)
    | verified text envelope fetched r htoken henvelope hfetched hverified =>
      obtain rfl := Option.some.inj htoken
      obtain ⟨hparsed, hjwks, hidentity⟩ := hverified.other_errors
      have hjwks : r.2.jwksError ≠ .invalidArgument := hjwks ▸ fetched_jwksError hwithin henvelope hfetched
      have hidentity : r.2.identityError ≠ .invalidArgument := by
        rcases hidentity with hok | ⟨subject, hsubject⟩
        · simp [hok]
        · intro he
          exact identityBuild_ne_invalidArgument (by simp [validatorPolicy, maxNameSize])
            (by simp [validatorPolicy, maxNameSize]) (he ▸ hsubject)
      rw [hwithin.noArgumentError_iff hosts hurl hclock (by simp [hparsed]) hjwks hidentity,
        reachesUnusableScope_iff hwithin requested hnonempty length.2 hclock henvelope hfetched,
        ← hverified.claims_invalidArgument]
  refine ⟨hexact, fun hscopes => hexact.mpr ?_⟩
  rintro ⟨envelope, result, hreach⟩
  exact hscopes.usable hreach.unusable

namespace Sample

/-- The pipeline as the callback runs it, on an empty cache and with the issuer's two
answers. -/
def served (inv : Invocation) (p : Prepared) : Option (ValidatorReturn × Shared) :=
  serve (validateAccessTokenCached tokenExternals (some token.bytes) (some p.metadataUrl)
    (some (validatorPolicy p inv)) (some (OAuthValidator.cachePolicy p.policy)) p.monotonicMs inv.wallTime)
    (script "Cache-Control: max-age=60") emptyShared

theorem exec_of_served (inv : Invocation) (test : ValidatorReturn → Bool)
    (h : (prepare tokenExternals inv).toOption.any
      (fun p => (served inv p).any fun r => test r.1) = true) :
    ∃ p tr r, prepare tokenExternals inv = .ok p ∧
      Exec [] (validateAccessTokenCached tokenExternals (some token.bytes) (some p.metadataUrl)
        (some (validatorPolicy p inv)) (some (OAuthValidator.cachePolicy p.policy)) p.monotonicMs
        inv.wallTime) tr r ∧
      test r = true := by
  obtain ⟨p, hp, hserved⟩ := exists_of_any h
  obtain ⟨⟨r, s'⟩, hrun, htest⟩ := exists_of_any hserved
  obtain ⟨tr, hexec⟩ := serve_exec hrun
  exact ⟨p, tr, r, ok_of_toOption hp, hexec, htest⟩

end Sample

theorem accepted_settings_argument_errors_delegated :
    ∃ p tr r, prepare Sample.tokenExternals Sample.invocation = .ok p ∧ r.1 = .ok ∧
      (NoArgumentError Sample.tokenExternals p Sample.invocation r ↔ ¬ ∃ envelope result,
        ReachesUnusableScope Sample.tokenExternals p Sample.invocation Sample.token.bytes tr envelope result) ∧
      (ScopesRequirable p.policy.requiredScopes →
        NoArgumentError Sample.tokenExternals p Sample.invocation r) := by
  have hserved : (prepare Sample.tokenExternals Sample.invocation).toOption.any
      (fun p => (Sample.served Sample.invocation p).any fun r => decide (r.1.1 = .ok)) = true := by
    simp only [Sample.served, Sample.invocation, Sample.tokenExternals, Sample.token, Sample.keyObjectText,
      CString.lit_append]
    decide +kernel
  obtain ⟨p, tr, r, hp, hexec, htest⟩ := Sample.exec_of_served _ (fun r => decide (r.1 = .ok)) hserved
  exact ⟨p, tr, r, hp, of_decide_eq_true htest,
    accepted_settings_argument_errors hp rfl rfl (by decide) hexec⟩

namespace Sample

/-- The same connection under a rule with a second space between its two scopes. -/
def spacedInvocation : Invocation :=
  { invocation with hba := some ⟨some (.lit "https://i"), some (.lit "read  write"), true⟩ }

end Sample

/-- The settings are accepted, and the claims stage reports an argument error. -/
theorem spaced_scopes_argument_error :
    ∃ p tr r, prepare Sample.tokenExternals Sample.spacedInvocation = .ok p ∧
      Exec [] (validateAccessTokenCached Sample.tokenExternals (some Sample.token.bytes) (some p.metadataUrl)
        (some (validatorPolicy p Sample.spacedInvocation)) (some (cachePolicy p.policy)) p.monotonicMs
        Sample.spacedInvocation.wallTime) tr r ∧
      r.1 = .claims ∧ r.2.claimsError = .invalidArgument := by
  have hserved : (prepare Sample.tokenExternals Sample.spacedInvocation).toOption.any
      (fun p => (Sample.served Sample.spacedInvocation p).any fun r =>
        decide (r.1.1 = .claims) && decide (r.1.2.claimsError = .invalidArgument)) = true := by
    simp only [Sample.served, Sample.spacedInvocation, Sample.invocation, Sample.tokenExternals, Sample.token,
      Sample.keyObjectText, CString.lit_append]
    decide +kernel
  obtain ⟨p, tr, r, hp, hexec, htest⟩ := Sample.exec_of_served _
    (fun r => decide (r.1 = .claims) && decide (r.2.claimsError = .invalidArgument)) hserved
  rw [Bool.and_eq_true, decide_eq_true_eq, decide_eq_true_eq] at htest
  exact ⟨p, tr, r, hp, hexec, htest⟩

end OAuthValidator
