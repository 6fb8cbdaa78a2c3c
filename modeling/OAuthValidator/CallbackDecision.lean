import OAuthValidator.CacheTransparency
import OAuthValidator.Deployed

/-! What decides about a connection. Callbacks that follow one another, under one
set of settings and against an issuer that always serves the same documents,
authorize exactly the tokens that the settings and the documents entitle. What
the cache holds at the time does not enter. -/

namespace OAuthValidator

open Program

section Stages

variable {ext : Externals} {token : Bytes} {selected : SelectedJwk}

theorem signatureVerify_eq_ok (hne : token ≠ []) (hnul : 0 ∉ token) (hlength : token.length < sizeMax)
    (halgorithm : libjwtAlgorithm selected.algorithm ≠ .inval) :
    signatureVerify ext token (some selected) = .ok () ↔
      SignatureAccepted ext (libjwtAlgorithm selected.algorithm) selected.jwk token := by
  have hsize : token.length ≠ sizeMax := Nat.ne_of_lt hlength
  simp only [signatureVerify, except_bind_eq_ok, given_eq_ok, require_eq_ok, Option.some.injEq,
    exists_eq_left', SignatureAccepted]
  simp [hne, hnul, hsize, halgorithm]

theorem libjwtAlgorithm_ne_inval {name : CString} {bit : UInt32} (h : (name, bit) ∈ algorithmTable) :
    libjwtAlgorithm bit ≠ .inval := by
  simp only [algorithmTable, List.mem_cons, Prod.mk.injEq, List.not_mem_nil, or_false] at h
  rcases h with ⟨_, rfl⟩ | ⟨_, rfl⟩ | ⟨_, rfl⟩ <;> decide

/-- After the claims stage the identity stage succeeds. -/
theorem identityBuild_of_accepted {identity : CString} (hutf8 : WellFormedUtf8 identity.bytes)
    (h : PrintableText maxNameSize identity.bytes) :
    identityBuild (some identity.bytes) ⟨maxNameSize, maxNameSize⟩ = .ok identity.bytes := by
  have hlength : identity.length < sizeMax := Nat.lt_of_le_of_lt h.length_le (by decide)
  exact (identityBuild_eq_ok (by decide) hlength hutf8).mpr (validIdentityText_iff.mpr h)

end Stages

variable {ext : Externals} {d : Deployment ext} {p : Prepared} {inv : Invocation}

/-- The deployment is the one that the settings of the callback make. -/
structure Deployment.Runs (d : Deployment ext) (p : Prepared) : Prop where
  metadataUrl : d.metadataUrl = p.metadataUrl
  issuer : d.expectedIssuer = p.policy.issuer
  policy : ∀ inv, d.policy = (validatorPolicy p inv).issuerKey
  cache : d.cache = cachePolicy p.policy

/-- The settings and the issuer's documents entitle the token of the connection
to the identity. -/
structure Deployment.Entitles (d : Deployment ext) (p : Prepared) (inv : Invocation) (token : CString)
    (envelope : JwtEnvelope) (key : SelectedJwk) (claims : ValidatedClaims) : Prop where
  presented : inv.token = some token
  form : EnvelopeGrammar ext (validatorPolicy p inv).envelope token.bytes envelope
  offered : d.Offers (d.call envelope.keyId envelope.algorithm 0 0).call key
  signed : SignatureAccepted ext (libjwtAlgorithm envelope.algorithm) key.jwk token.bytes
  claims : ClaimsAccepted (fun text => configuredAudienceMatches p.policy.audiences text 16 = true)
    envelope.untrustedPayload (validatorPolicy p inv).claims claims

/-- Everything that is settled before the issuer is asked. -/
structure SettingsRead (ext : Externals) (inv : Invocation) (p : Prepared) : Prop where
  prepared : prepare ext inv = .ok p
  within : SettingsWithin p.policy
  claims : validPolicy (validatorPolicy p inv).claims = true

theorem SettingsRead.of_prepare {role : CString} (hp : prepare ext inv = .ok p) (hrole : inv.role = some role)
    (hnonempty : role.isEmpty = false) : SettingsRead ext inv p := by
  obtain ⟨hba, haccepted⟩ := prepare_ok hp
  have hwithin := (policyBuild_ok haccepted.built).within
  exact ⟨hp, hwithin, hwithin.claims hrole hnonempty haccepted.wallTime⟩

theorem SettingsRead.tokenSize (h : SettingsRead ext inv p) : p.policy.maxTokenSize.toNat < sizeMax := by
  have hsize := h.within.tokenSize
  have hlimit : (65536 : Nat) < sizeMax := by decide
  omega

theorem SettingsRead.parse_iff (h : SettingsRead ext inv p) {token : Bytes} {envelope : JwtEnvelope} :
    jwtEnvelopeParse ext token (validatorPolicy p inv).envelope = .ok envelope ↔
      EnvelopeGrammar ext (validatorPolicy p inv).envelope token envelope :=
  jwtEnvelopeParse_eq_ok h.within.envelopePolicy (Nat.le_of_lt h.tokenSize)

/-- A token with the form of an envelope is one that the callback asks the key
for. -/
theorem SettingsRead.demand_iff (h : SettingsRead ext inv p) {token : CString} {envelope : JwtEnvelope} :
    demand ext inv = some ⟨p, token, envelope⟩ ↔
      inv.token = some token ∧ EnvelopeGrammar ext (validatorPolicy p inv).envelope token.bytes envelope := by
  constructor
  · intro hd
    obtain ⟨_, ht, _, he⟩ := demand_eq_some hd
    exact ⟨ht, h.parse_iff.mp he⟩
  · rintro ⟨ht, hg⟩
    have hlength : ¬ token.length = 0 ∧ token.length ≤ p.policy.maxTokenSize.toNat :=
      ⟨Nat.ne_of_gt hg.nonempty, hg.length_le⟩
    simp [demand, h.prepared, ht, hlength, h.parse_iff.mpr hg, Except.toOption]

/-- What the stages after the retrieval accept. -/
theorem SettingsRead.verify_iff (h : SettingsRead ext inv p) (hutf8 : ReadsUtf8 ext) {token : CString}
    {envelope : JwtEnvelope} (hg : EnvelopeGrammar ext (validatorPolicy p inv).envelope token.bytes envelope)
    {fetched : FetchReturn} {identity : CString} :
    (verifyToken ext token.bytes (validatorPolicy p inv) envelope fetched).1 = .ok ∧
      (verifyToken ext token.bytes (validatorPolicy p inv) envelope fetched).2.identity =
        some identity.bytes ↔
    ∃ claims, fetched.1 = .ok ∧ signatureVerify ext token.bytes fetched.2.selected = .ok () ∧
      ClaimsAccepted (fun text => configuredAudienceMatches p.policy.audiences text 16 = true)
        envelope.untrustedPayload (validatorPolicy p inv).claims claims ∧ claims.identity = identity := by
  have hclaims {claims : ValidatedClaims} :
      claimsValidate envelope.untrustedPayload (validatorPolicy p inv).claims = .ok claims ↔
        ClaimsAccepted (fun text => configuredAudienceMatches p.policy.audiences text 16 = true)
          envelope.untrustedPayload (validatorPolicy p inv).claims claims :=
    claimsValidate_eq_ok hg.payload h.claims rfl
  constructor
  · rintro ⟨hok, hid⟩
    obtain ⟨hfetched, ⟨_, hsignature⟩, claims, hvalid, hbytes⟩ := verifyToken_ok hok hid
    exact ⟨claims, hfetched, hsignature, hclaims.mp hvalid, CString.ext_bytes hbytes⟩
  · rintro ⟨claims, hfetched, hsignature, haccepted, rfl⟩
    obtain ⟨_, _, _, _, _, _, _, _, _, _, _, _, _, hload⟩ := hg.segments
    obtain ⟨name, _, hvalue⟩ := haccepted.identity
    have hbuilt := identityBuild_of_accepted (hutf8 _ _ _ _ hload hvalue) haccepted.printable
    have hvalid := hclaims.mpr haccepted
    have hpolicy : (validatorPolicy p inv).identity = ⟨maxNameSize, maxNameSize⟩ := rfl
    simp [verifyToken, hfetched, hsignature, hvalid, hpolicy, hbuilt]

/-- The three answers of the callback to a validation. -/
theorem decideToken_cases (inv : Invocation) (validation : ValidatorReturn) :
    (inv.interruptPending = true ∧ decideToken inv validation = internalFailure) ∨
    (inv.interruptPending = false ∧ ∃ identity, validation.1 = .ok ∧ validation.2.identity = some identity ∧
      decideToken inv validation = (true, ⟨true, some (.ofBuffer identity), none⟩)) ∨
    (inv.interruptPending = false ∧ ¬ (validation.1 = .ok ∧ validation.2.identity.isSome = true) ∧
      decideToken inv validation = rejected inv) := by
  unfold decideToken
  cases inv.interruptPending with
  | true => exact Or.inl ⟨rfl, rfl⟩
  | false =>
    simp only [Bool.false_eq_true, if_false]
    split
    · next identity hok hid => exact Or.inr (Or.inl ⟨trivial, identity, hok, hid, rfl⟩)
    · next hnot =>
      refine Or.inr (Or.inr ⟨trivial, fun hboth => ?_, rfl⟩)
      obtain ⟨hok, hsome⟩ := hboth
      obtain ⟨identity, hid⟩ := Option.isSome_iff_exists.mp hsome
      exact hnot identity hok hid

theorem Deployment.Runs.fetchArgs (h : d.Runs p) (envelope : JwtEnvelope) :
    p.fetchArgs inv envelope =
      d.args (some envelope.keyId) envelope.algorithm p.monotonicMs inv.wallTime := by
  simp [Prepared.fetchArgs, Deployment.args, h.metadataUrl, h.issuer, h.policy inv, h.cache]

/-- A key that the documents offer carries the algorithm of the token. -/
theorem Deployment.Offers.algorithm {call : FetchCall} {selected : SelectedJwk}
    (h : d.Offers call selected) : selected.algorithm = call.tokenAlgorithm := by
  obtain ⟨_, _, _, _, _, hselect⟩ := h
  exact (jwksSelect_ok hselect).2.1

/-- What the callback makes of a retrieval that agrees with the documents. -/
theorem SettingsRead.decides (h : SettingsRead ext inv p) (hutf8 : ReadsUtf8 ext) {token : CString}
    {envelope : JwtEnvelope} (ht : inv.token = some token)
    (hg : EnvelopeGrammar ext (validatorPolicy p inv).envelope token.bytes envelope) {fetched : FetchReturn}
    (hagrees : d.Agrees (d.call envelope.keyId envelope.algorithm 0 0).call fetched) (identity : CString) :
    (verifyToken ext token.bytes (validatorPolicy p inv) envelope fetched).1 = .ok ∧
      (verifyToken ext token.bytes (validatorPolicy p inv) envelope fetched).2.identity =
        some identity.bytes ↔
    ∃ key claims, d.Entitles p inv token envelope key claims ∧ claims.identity = identity := by
  have hne : token.bytes ≠ [] := List.length_pos_iff.mp hg.nonempty
  have hlength : token.bytes.length < sizeMax := Nat.lt_of_le_of_lt hg.length_le h.tokenSize
  have hsigned {key : SelectedJwk} (hkey : d.Offers (d.call envelope.keyId envelope.algorithm 0 0).call key) :
      signatureVerify ext token.bytes (some key) = .ok () ↔
        SignatureAccepted ext (libjwtAlgorithm envelope.algorithm) key.jwk token.bytes := by
    have halgorithm : key.algorithm = envelope.algorithm := hkey.algorithm
    obtain ⟨name, hname, _⟩ := hg.algorithm
    rw [← halgorithm] at hname ⊢
    exact signatureVerify_eq_ok hne hg.nul_free hlength (libjwtAlgorithm_ne_inval hname)
  rw [h.verify_iff hutf8 hg]
  constructor
  · rintro ⟨claims, hok, hsignature, haccepted, hid⟩
    obtain ⟨key, hkey, hoffers⟩ := hagrees.sound hok
    rw [hkey] at hsignature
    exact ⟨key, claims, ⟨ht, hg, hoffers, (hsigned hoffers).mp hsignature, haccepted⟩, hid⟩
  · rintro ⟨key, claims, hentitled, hid⟩
    have hok := hagrees.complete key hentitled.offered
    obtain ⟨key', hkey', hoffers⟩ := hagrees.sound hok
    obtain rfl := hoffers.unique hentitled.offered
    refine ⟨claims, hok, ?_, hentitled.claims, hid⟩
    rw [hkey']
    exact (hsigned hoffers).mpr hentitled.signed

/-- Without a retrieval the token is rejected. -/
theorem validatorValidate_rejects (hp : prepare ext inv = .ok p) (hd : demand ext inv = none) :
    ∃ r, validatorValidate ext inv = .ret r ∧
      (r = rejected inv ∨ (inv.interruptPending = true ∧ r = internalFailure)) := by
  unfold validatorValidate
  rw [hp]
  cases ht : inv.token with
  | none => exact ⟨_, rfl, Or.inl rfl⟩
  | some token =>
    by_cases hlength : token.length ≠ 0 ∧ token.length ≤ p.policy.maxTokenSize.toNat
    · obtain ⟨hshort, hwhole⟩ := token_counted hlength
      have hissuer : (validatorPolicy p inv).claims.issuer.isNone = false := rfl
      cases he : jwtEnvelopeParse ext token.bytes (validatorPolicy p inv).envelope with
      | ok envelope =>
        have hsome : demand ext inv = some ⟨p, token, envelope⟩ := by
          simp [demand, hp, ht, hlength, he, Except.toOption]
        simp [hd] at hsome
      | error e =>
        simp only [hshort, Bool.false_eq_true, if_false, hwhole, validateAccessTokenCached, hissuer, he,
          Prog.bind]
        refine ⟨_, rfl, ?_⟩
        rcases decideToken_cases inv (.envelope, { ValidatorResult.zero with envelopeError := e }) with
          ⟨hpending, heq⟩ | ⟨_, _, hok, _⟩ | ⟨_, _, heq⟩
        · exact Or.inr ⟨hpending, heq⟩
        · simp at hok
        · exact Or.inl heq
    · have hlong : (min token.length (p.policy.maxTokenSize.toNat + 1) == 0 ||
          decide (p.policy.maxTokenSize.toNat < min token.length (p.policy.maxTokenSize.toNat + 1))) = true := by
        simp only [Bool.or_eq_true, beq_iff_eq, decide_eq_true_eq]
        omega
      simp only [hlong, if_true]
      exact ⟨_, rfl, Or.inl rfl⟩

/-- A return of the callback that the settings and the documents determine. -/
structure Deployment.Decides (d : Deployment ext) (p : Prepared) (inv : Invocation) (r : ValidateReturn) :
    Prop where
  authorized : ∀ identity, r = (true, ⟨true, some identity, none⟩) ↔ inv.interruptPending = false ∧
    ∃ token envelope key claims, d.Entitles p inv token envelope key claims ∧ claims.identity = identity
  denied : r.2.authorized = false → r = rejected inv ∨ (inv.interruptPending = true ∧ r = internalFailure)

theorem Deployment.Decides.of_rejects (hread : SettingsRead ext inv p) (hdemand : demand ext inv = none)
    {r : ValidateReturn} (hanswer : r = rejected inv ∨ (inv.interruptPending = true ∧ r = internalFailure)) :
    d.Decides p inv r := by
  have hdenied : r.2.authorized = false := by
    rcases hanswer with rfl | ⟨_, rfl⟩ <;> rfl
  refine ⟨fun identity => ⟨fun hr => ?_, ?_⟩, fun _ => hanswer⟩
  · simp [hr] at hdenied
  · rintro ⟨_, token, envelope, key, claims, hentitled, _⟩
    have hsome := hread.demand_iff.mpr ⟨hentitled.presented, hentitled.form⟩
    simp [hdemand] at hsome

/-- The token and its parts are determined by the connection. -/
theorem SettingsRead.entitles_iff (hread : SettingsRead ext inv p) {token : CString} {envelope : JwtEnvelope}
    (hdemand : demand ext inv = some ⟨p, token, envelope⟩) (identity : CString) :
    (∃ token envelope key claims, d.Entitles p inv token envelope key claims ∧
      claims.identity = identity) ↔
    ∃ key claims, d.Entitles p inv token envelope key claims ∧ claims.identity = identity := by
  constructor
  · rintro ⟨token', envelope', key, claims, hentitled, hid⟩
    have hsome := hread.demand_iff.mpr ⟨hentitled.presented, hentitled.form⟩
    rw [hdemand] at hsome
    obtain ⟨-, rfl, rfl⟩ := Demand.mk.inj (Option.some.inj hsome)
    exact ⟨key, claims, hentitled, hid⟩
  · exact fun h => ⟨token, envelope, h⟩

theorem Deployment.Decides.of_verified {validation : ValidatorReturn}
    (hiff : ∀ identity : CString, validation.1 = .ok ∧ validation.2.identity = some identity.bytes ↔
      ∃ token envelope key claims, d.Entitles p inv token envelope key claims ∧ claims.identity = identity)
    (htext : ∀ bytes, validation.1 = .ok → validation.2.identity = some bytes →
      ∃ identity : CString, identity.bytes = bytes) :
    d.Decides p inv (decideToken inv validation) := by
  rcases decideToken_cases inv validation with
    ⟨hpending, heq⟩ | ⟨hquiet, bytes, hok, hid, heq⟩ | ⟨hquiet, hnot, heq⟩
  · rw [heq]
    exact ⟨fun identity => by simp [internalFailure, hpending], fun _ => Or.inr ⟨hpending, rfl⟩⟩
  · obtain ⟨found, rfl⟩ := htext bytes hok hid
    rw [heq, ofBuffer_bytes]
    refine ⟨fun identity => ?_, by simp⟩
    simp only [← hiff, Prod.mk.injEq, true_and, ValidatorModuleResult.mk.injEq, and_true, Option.some.injEq,
      hquiet, hok, hid]
    exact ⟨fun h => by rw [h], CString.ext_bytes⟩
  · rw [heq]
    refine ⟨fun identity => ⟨fun h => by simp [rejected, OAuthValidator.denied] at h, fun hauthorized => ?_⟩,
      fun _ => Or.inl rfl⟩
    obtain ⟨hok, hid⟩ := (hiff identity).mpr hauthorized.2
    exact absurd ⟨hok, by simp [hid]⟩ hnot

theorem validatorValidate_decides (hutf8 : ReadsUtf8 ext) {s s' : Shared} {r : ValidateReturn}
    (hread : SettingsRead ext inv p) (hclock : 0 ≤ p.monotonicMs) (hd : d.Runs p) (hs : d.Reached s)
    (run : Solo (d.perform inv.wallTime) s (validatorValidate ext inv) s' r) :
    d.Reached s' ∧ d.Decides p inv r := by
  cases hdemand : demand ext inv with
  | none =>
    obtain ⟨r', heq, hanswer⟩ := validatorValidate_rejects hread.prepared hdemand
    rw [heq] at run
    cases run
    exact ⟨hs, .of_rejects hread hdemand hanswer⟩
  | some demanded =>
    obtain ⟨p', token, envelope⟩ := demanded
    obtain ⟨hp', _⟩ := demand_eq_some hdemand
    obtain rfl : p = p' := Except.ok.inj (hread.prepared.symm.trans hp')
    obtain ⟨ht, hg⟩ := hread.demand_iff.mp hdemand
    have hargs : retrieval ext inv = some (p.fetchArgs inv envelope) := by
      simp [retrieval, hdemand]
    rw [(validatorValidate_wraps ext).calls inv _ hargs, hd.fetchArgs] at run
    obtain ⟨fetched, hfetched, hr⟩ := run.of_bind_ret
    have hnamed : (envelope.algorithm == 0) = false := by
      simpa using (jwtEnvelopeParse_ok (hread.parse_iff.mpr hg)).algorithm_ne_zero
    have hagrees := ((Deployment.fetch_ends hnamed hs.idle hclock).of_solo hfetched).2
    have hdecides := hread.decides hutf8 ht hg
      (⟨hagrees.sound, hagrees.complete⟩ : d.Agrees (d.call envelope.keyId envelope.algorithm 0 0).call fetched)
    have hr : decideToken inv (verifyToken ext token.bytes (validatorPolicy p inv) envelope fetched) = r := by
      rw [← hr]
      simp [conclude, hdemand, Demand.decide]
    rw [← hr]
    refine ⟨.call hs hclock hfetched, .of_verified (fun identity => ?_) fun bytes hok hid => ?_⟩
    · rw [hdecides, hread.entitles_iff hdemand]
    · obtain ⟨_, _, claims, _, rfl⟩ := verifyToken_ok hok hid
      exact ⟨claims.identity, rfl⟩

/-- The callback authorizes exactly the tokens that the settings and the
documents entitle, whatever state of the cache it finds, unless an interrupt is
pending. It leaves a state of the same kind. -/
theorem callback_decision_exact {ext : Externals} (hutf8 : ReadsUtf8 ext) {d : Deployment ext}
    {inv : Invocation} {p : Prepared} {role : CString} {s s' : Shared} {r : ValidateReturn}
    (hp : prepare ext inv = .ok p) (hrole : inv.role = some role) (hnonempty : role.isEmpty = false)
    (hclock : 0 ≤ p.monotonicMs) (hd : d.Runs p) (hs : d.Reached s)
    (run : Solo (d.perform inv.wallTime) s (validatorValidate ext inv) s' r) :
    d.Reached s' ∧
    (∀ identity, r = (true, ⟨true, some identity, none⟩) ↔ inv.interruptPending = false ∧
      ∃ token envelope key claims, d.Entitles p inv token envelope key claims ∧
        claims.identity = identity) ∧
    (r.2.authorized = false → r = rejected inv ∨ (inv.interruptPending = true ∧ r = internalFailure)) := by
  obtain ⟨hs', hdecides⟩ := validatorValidate_decides hutf8 (.of_prepare hp hrole hnonempty) hclock hd hs run
  exact ⟨hs', hdecides.authorized, hdecides.denied⟩

namespace Sample

/-- What the callback makes of the sample settings. -/
def prepared : Prepared where
  policy := {
    name := .lit "default"
    issuer := .lit "https://i"
    requiredScopes := .lit "read"
    audiences := .lit "web, db"
    allowedTokenTypes := tokenTypeAtJwt
    identityClaim := .lit "sub"
    roleClaim := .lit "roles"
    allowedJwksHosts := some (.lit "")
    caFile := .lit ""
    allowedAlgorithms := algorithmEddsa
    clockSkewMs := 60000
    maxTokenSize := 16384
    metadataDefaultTtlMs := 300000
    jwksDefaultTtlMs := 300000
    cacheMaxTtlMs := 3600000
    jwksStaleGraceMs := 0
    unknownKidRefreshCooldownMs := 30000
    refreshWaitTimeoutMs := 5000
    allowInsecureHttp := false
    allowMissingTokenType := false }
  metadataUrl := .lit "https://i/.well-known/openid-configuration"
  metadataHost := .lit "i"
  monotonicMs := 1000

theorem prepare_invocation : prepare tokenExternals invocation = .ok prepared := by
  decide +kernel

def jwksUri : CString :=
  .lit "https://i/k"

def siteDocument (url : CString) : Bytes :=
  if url = jwksUri then keyText "a" pointA else metadata

def siteKey (p : Prepared) (resource : CacheResource) (jwksUrl : Option CString) : Bytes :=
  ((cacheKeyBuild (documentKeyPolicy p resource jwksUrl)).toOption).getD []

/-- The issuer of the sample token, under given settings. -/
def siteOf (p : Prepared) (hvalid : cachePolicyValid (OAuthValidator.cachePolicy p.policy) = true)
    (hmetadata : cacheKeyBuild (documentKeyPolicy p .metadata none) = .ok (siteKey p .metadata none))
    (hjwks : cacheKeyBuild (documentKeyPolicy p .jwks (some jwksUri)) = .ok (siteKey p .jwks (some jwksUri)))
    (hparse : metadataParse tokenExternals (siteDocument p.metadataUrl) p.policy.issuer
      ⟨maxDocumentSize, maxUrlSize, p.policy.allowInsecureHttp⟩ = .ok jwksUri) :
    Deployment tokenExternals where
  metadataUrl := p.metadataUrl
  expectedIssuer := p.policy.issuer
  policy := (validatorPolicy p invocation).issuerKey
  cache := OAuthValidator.cachePolicy p.policy
  document := siteDocument
  metadataKey := siteKey p .metadata none
  valid := hvalid
  capacity_pos := by simp [validatorPolicy, requestPolicy, maxDocumentSize]
  capacity_le := by simp [validatorPolicy, requestPolicy, maxDocumentSize, cacheMaxPayloadSize]
  metadataKey_eq := hmetadata
  jwksKey_fits := by
    intro uri hfound
    obtain rfl := Except.ok.inj (hparse.symm.trans hfound)
    exact ⟨siteKey p .jwks (some jwksUri), hjwks⟩

def site : Deployment tokenExternals :=
  siteOf prepared (by decide) (by decide +kernel) (by decide +kernel) (by decide +kernel)

theorem site_runs : site.Runs prepared :=
  ⟨rfl, rfl, fun _ => rfl, rfl⟩

def siteReply (url : CString) : Transfer :=
  respond (siteDocument url)

/-- A first connection, on an empty cache. -/
def firstConnection (d : Deployment tokenExternals) (inv : Invocation) :
    Option (Shared × (Shared × ValidateReturn)) :=
  (cacheInit 8).bind fun cache =>
    (d.run inv.wallTime siteReply ⟨cache, 0⟩ (validatorValidate tokenExternals inv)).map
      fun ended => (⟨cache, 0⟩, ended)

theorem firstConnection_eq_some {d : Deployment tokenExternals} {inv : Invocation} {s : Shared}
    {ended : Shared × ValidateReturn} (h : firstConnection d inv = some (s, ended)) : d.Reached s ∧
      Solo (d.perform inv.wallTime) s (validatorValidate tokenExternals inv) ended.1 ended.2 := by
  unfold firstConnection at h
  obtain ⟨cache, hinit, h⟩ := Option.bind_eq_some_iff.mp h
  obtain ⟨ended', hrun, heq⟩ := Option.map_eq_some_iff.mp h
  obtain ⟨rfl, rfl⟩ := Prod.mk.inj heq
  exact ⟨.init (by decide) hinit, Deployment.run_solo hrun⟩

/-- The connection with the sample token is authorized. -/
theorem site_authorizes : ∃ s s', site.Reached s ∧
    Solo (site.perform invocation.wallTime) s (validatorValidate tokenExternals invocation) s'
      (true, ⟨true, some (.lit "u"), none⟩) := by
  have hrun : (firstConnection site invocation).any
      (fun run => decide (run.2.2 = (true, ⟨true, some (.lit "u"), none⟩))) = true := by
    simp only [firstConnection, invocation, tokenExternals, token, keyObjectText, CString.lit_append]
    decide +kernel
  obtain ⟨⟨s, s', r⟩, hsome, hr⟩ := exists_of_any hrun
  have hr : r = (true, ⟨true, some (.lit "u"), none⟩) := of_decide_eq_true hr
  subst hr
  exact ⟨s, s', firstConnection_eq_some hsome⟩

end Sample

/-- The sample token is entitled, as its connection shows. -/
theorem callback_decision_exact_cold :
    ∃ s s' r, Sample.site.Reached s ∧
      Solo (Sample.site.perform Sample.invocation.wallTime) s
        (validatorValidate Sample.tokenExternals Sample.invocation) s' r ∧
      r.2.authorized = true ∧ Sample.site.Reached s' ∧
      ∃ token envelope key claims,
        Sample.site.Entitles Sample.prepared Sample.invocation token envelope key claims ∧
          claims.identity = .lit "u" := by
  obtain ⟨s, s', hs, hsolo⟩ := Sample.site_authorizes
  obtain ⟨hs', hiff, _⟩ := callback_decision_exact Sample.tokenExternals_readsUtf8 Sample.prepare_invocation rfl
    (by decide) (by decide) Sample.site_runs hs hsolo
  exact ⟨s, s', _, hs, hsolo, rfl, hs', ((hiff _).mp rfl).2⟩

end OAuthValidator
