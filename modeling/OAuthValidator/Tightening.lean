import Mathlib.Data.List.Perm.Subperm
import OAuthValidator.CallbackDecision
import OAuthValidator.Confinement

/-! Settings that are tightened admit no one new. The checks lie in different
stages: on the form of the token, on the URLs, on the key, on the claims. Each of
them is monotone in its setting, and so is the decision of the callback, whatever
the caches hold. -/

namespace OAuthValidator

open Program

section Masks

theorem uint32_and_ne_zero_of_within {bit strict lax : UInt32} (hwithin : strict &&& lax = strict)
    (h : bit &&& strict ≠ 0) : bit &&& lax ≠ 0 := by
  intro hzero
  apply h
  rw [← hwithin, UInt32.and_comm strict, ← UInt32.and_assoc, hzero, UInt32.zero_and]

theorem uint8_and_ne_zero_of_within {bit strict lax : UInt8} (hwithin : strict &&& lax = strict)
    (h : strict &&& bit ≠ 0) : lax &&& bit ≠ 0 := by
  intro hzero
  apply h
  rw [← hwithin, UInt8.and_assoc, hzero, UInt8.and_zero]

end Masks

section Urls

variable {ext : Externals} {url : CString} {maximum : Nat} {insecure insecure' : Bool}

theorem AcceptableUrl.mono (himp : insecure = true → insecure' = true)
    (h : AcceptableUrl ext url maximum insecure) : AcceptableUrl ext url maximum insecure' :=
  { h with scheme := h.scheme.imp_right fun hs => ⟨hs.1, himp hs.2⟩ }

theorem httpUrlHost_mono {host : CString} (himp : insecure = true → insecure' = true)
    (h : httpUrlHost ext url maximum insecure = .ok host) : httpUrlHost ext url maximum insecure' = .ok host := by
  have hurl : AcceptableUrl ext url maximum insecure := parseUrl_eq_ok.mp ⟨host, h⟩
  obtain ⟨host', h'⟩ := parseUrl_eq_ok.mpr (hurl.mono himp)
  have hsame : some host = some host' := (parseUrl_curlHost h).symm.trans (parseUrl_curlHost h')
  rw [Option.some.inj hsame]
  exact h'

/-- The URL of an issuer also has no query. -/
theorem validateUrl_issuer_eq_ok :
    validateUrl ext url maximum insecure true = .ok ↔
      AcceptableUrl ext url maximum insecure ∧ 0x3f ∉ url.bytes := by
  rw [← validateUrl_eq_ok]
  by_cases hquery : 0x3f ∈ url.bytes
  · simp only [validateUrl, List.contains_eq_mem, hquery, decide_true, Bool.and_self, if_true, not_true,
      and_false, iff_false]
    split_ifs <;> simp
  · simp [validateUrl, hquery]

/-- A discovery document that is accepted, and where it points. -/
structure DiscoveryDocument (ext : Externals) (policy : MetadataPolicy) (expectedIssuer : CString)
    (document : Bytes) (uri : CString) : Prop where
  nonempty : document ≠ []
  length_le : document.length ≤ policy.maxDocumentSize
  issuerUrl : AcceptableUrl ext expectedIssuer policy.maxUrlSize policy.allowInsecureHttp ∧
    0x3f ∉ expectedIssuer.bytes
  root : ∃ root, ext.jsonLoadb document = some root ∧ root.isObject = true ∧
    root.get? (.lit "issuer") = some (.str expectedIssuer) ∧ root.get? (.lit "jwks_uri") = some (.str uri)
  url : AcceptableUrl ext uri policy.maxUrlSize policy.allowInsecureHttp

theorem metadataParse_eq_ok {policy : MetadataPolicy} {expectedIssuer uri : CString} {document : Bytes}
    (hlimits : (policy.maxDocumentSize == 0 || policy.maxUrlSize == 0) = false) :
    metadataParse ext document expectedIssuer policy = .ok uri ↔
      DiscoveryDocument ext policy expectedIssuer document uri := by
  constructor
  · intro h
    have huri := metadataParse_uri h
    rw [metadataParse] at h
    split_ifs at h with _ hempty hsize hissuer
    cases hload : ext.jsonLoadb document with
    | none => simp [hload] at h
    | some root =>
      simp only [hload] at h
      split_ifs at h with hobject
      cases hname : Json.str? (root.get? (.lit "issuer")) with
      | none => simp [hname] at h
      | some issuer =>
        simp only [hname] at h
        split_ifs at h with hmismatch
        cases hfound : Json.str? (root.get? (.lit "jwks_uri")) with
        | none => simp [hfound] at h
        | some found =>
          simp only [hfound] at h
          have hsame : found = uri := by
            split at h
            · exact Except.ok.inj h
            · simp at h
          subst hsame
          have hmatches : issuer = expectedIssuer := by simpa using hmismatch
          subst hmatches
          exact {
            nonempty := by simpa using hempty
            length_le := by omega
            issuerUrl := validateUrl_issuer_eq_ok.mp (by simpa using hissuer)
            root := ⟨root, hload, by simpa using hobject, Json.str?_eq_some hname, Json.str?_eq_some hfound⟩
            url := validateUrl_eq_ok.mp huri }
  · intro h
    obtain ⟨root, hload, hobject, hissuer, hfound⟩ := h.root
    have hempty : document.isEmpty = false := by simpa using h.nonempty
    have hsize : ¬ policy.maxDocumentSize < document.length := Nat.not_lt.mpr h.length_le
    have hurl := validateUrl_issuer_eq_ok.mpr h.issuerUrl
    simp only [metadataParse, hlimits, hempty, hsize, hurl, hload, hobject, hissuer, hfound, Json.str?,
      validateUrl_eq_ok.mpr h.url, bne_self_eq_false, Bool.not_true, Bool.false_eq_true, if_false, ne_eq,
      not_true_eq_false]

theorem DiscoveryDocument.mono {policy policy' : MetadataPolicy} {expectedIssuer uri : CString}
    {document : Bytes} (hsize : policy.maxDocumentSize = policy'.maxDocumentSize)
    (hurl : policy.maxUrlSize = policy'.maxUrlSize)
    (himp : policy.allowInsecureHttp = true → policy'.allowInsecureHttp = true)
    (h : DiscoveryDocument ext policy expectedIssuer document uri) :
    DiscoveryDocument ext policy' expectedIssuer document uri := by
  refine ⟨h.nonempty, hsize ▸ h.length_le, ⟨?_, h.issuerUrl.2⟩, h.root, ?_⟩
  · exact hurl ▸ h.issuerUrl.1.mono himp
  · exact hurl ▸ h.url.mono himp

/-- Which URLs the requests of the callback may go to. -/
theorem requestError_requestPolicy {p : Prepared} {additional : Option CString} :
    requestError ext url (requestPolicy p additional) = none ↔ p.metadataHost.isEmpty = false ∧
      ∃ host, httpUrlHost ext url maxUrlSize p.policy.allowInsecureHttp = .ok host ∧
        hostAllowed host p.metadataHost additional = true := by
  have hlimits : ((requestPolicy p additional).maxUrlSize == 0 ||
      (requestPolicy p additional).maxResponseSize == 0 || p.metadataHost.isEmpty ||
      decide ((requestPolicy p additional).connectTimeoutMs ≤ 0) ||
      decide ((requestPolicy p additional).totalTimeoutMs ≤ 0) ||
      decide ((requestPolicy p additional).totalTimeoutMs < (requestPolicy p additional).connectTimeoutMs)) =
        p.metadataHost.isEmpty := by
    simp [requestPolicy, maxUrlSize, maxDocumentSize, httpConnectTimeoutMs, httpTotalTimeoutMs]
  have hhost : (requestPolicy p additional).allowedHost = some p.metadataHost := rfl
  unfold requestError
  simp only [hhost, hlimits]
  cases p.metadataHost.isEmpty with
  | true => simp
  | false =>
    simp only [validateRequestUrl, httpUrlHost, requestPolicy, Bool.false_eq_true, if_false, true_and]
    cases parseUrl ext url maxUrlSize p.policy.allowInsecureHttp with
    | error e => simp
    | ok host => by_cases hallowed : hostAllowed host p.metadataHost additional = true <;> simp [hallowed]

end Urls

/-- The second settings permit whatever the first do. Nothing is said about the
lifetimes of cached documents, and the trust anchors are those of the issuer's
connection. -/
structure Tightens (strict lax : ValidationPolicy) : Prop where
  issuer : strict.issuer = lax.issuer
  identityClaim : strict.identityClaim = lax.identityClaim
  roleClaim : lax.roleClaim = strict.roleClaim ∨ lax.roleClaim.isEmpty = true
  requiredScopes : (lax.requiredScopes.bytes.splitOn space).Subperm (strict.requiredScopes.bytes.splitOn space)
  audiences : listEntries strict.audiences.bytes ⊆ listEntries lax.audiences.bytes
  tokenTypes : strict.allowedTokenTypes &&& lax.allowedTokenTypes = strict.allowedTokenTypes
  missingTokenType : strict.allowMissingTokenType = true → lax.allowMissingTokenType = true
  algorithms : strict.allowedAlgorithms &&& lax.allowedAlgorithms = strict.allowedAlgorithms
  jwksHosts : ∀ host, hostInList host strict.allowedJwksHosts = true → hostInList host lax.allowedJwksHosts = true
  insecureHttp : strict.allowInsecureHttp = true → lax.allowInsecureHttp = true
  clockSkew : strict.clockSkewMs ≤ lax.clockSkewMs
  tokenSize : strict.maxTokenSize ≤ lax.maxTokenSize

section Stages

variable {ext : Externals} {p q : Prepared} {inv inv' : Invocation}

theorem Tightens.form (h : Tightens p.policy q.policy) {token : Bytes} {envelope : JwtEnvelope}
    (hg : EnvelopeGrammar ext (validatorPolicy p inv).envelope token envelope) :
    EnvelopeGrammar ext (validatorPolicy q inv').envelope token envelope := by
  have hsize : p.policy.maxTokenSize.toNat ≤ q.policy.maxTokenSize.toNat := Int.toNat_le_toNat h.tokenSize
  obtain ⟨headerText, payloadText, signatureText, header, payload, signature, hsplit, hheader, hpayload,
    hsignature, hheaderSize, hpayloadSize, hloads⟩ := hg.segments
  obtain ⟨name, hname, halg, hallowed⟩ := hg.algorithm
  exact {
    nonempty := hg.nonempty
    length_le := Nat.le_trans hg.length_le hsize
    nul_free := hg.nul_free
    segments := ⟨headerText, payloadText, signatureText, header, payload, signature, hsplit, hheader, hpayload,
      hsignature, hheaderSize, Nat.le_trans hpayloadSize hsize, hloads⟩
    header := hg.header
    payload := hg.payload
    supported := hg.supported
    algorithm := ⟨name, hname, halg, uint32_and_ne_zero_of_within h.algorithms hallowed⟩
    tokenType := by
      rcases hg.tokenType with ⟨hnone, hmissing⟩ | ⟨name, bit, hbit, htyp, hpermitted⟩
      · exact Or.inl ⟨hnone, h.missingTokenType hmissing⟩
      · exact Or.inr ⟨name, bit, hbit, htyp, uint8_and_ne_zero_of_within h.tokenTypes hpermitted⟩
    keyId := hg.keyId
    keyId_length := hg.keyId_length
    keyId_printable := hg.keyId_printable }

/-- The key set of the issuer offers the same key. -/
theorem Tightens.key (h : Tightens p.policy q.policy) (hstrict : SettingsWithin p.policy)
    (hlax : SettingsWithin q.policy) {document : Bytes} {keyId : CString} {algorithm : UInt32} {key : SelectedJwk}
    (hselect : jwksSelect ext document keyId algorithm (validatorPolicy p inv).issuerKey.jwks = .ok key) :
    jwksSelect ext document keyId algorithm (validatorPolicy q inv').issuerKey.jwks = .ok key := by
  have hvalid {r : Prepared} {inv : Invocation} (hne : r.policy.allowedAlgorithms ≠ 0) :
      jwksPolicyValid (validatorPolicy r inv).issuerKey.jwks = true := by
    simp [jwksPolicyValid, validatorPolicy, hne, maxDocumentSize]
  obtain ⟨keys, hdocument, hselected, halgorithm⟩ := (jwksSelect_eq_ok (hvalid hstrict.algorithms)).mp hselect
  obtain ⟨name, hname, halg, hallowed⟩ := hselected.algorithm
  refine (jwksSelect_eq_ok (hvalid hlax.algorithms)).mpr ⟨keys, ?_, ?_, halgorithm⟩
  · exact { hdocument with }
  · exact { hselected with
      algorithm := ⟨name, hname, halg, uint32_and_ne_zero_of_within h.algorithms hallowed⟩ }

/-- Under both settings the metadata are looked for in the same place. -/
theorem Tightens.discovery (h : Tightens p.policy q.policy) (hp : prepare ext inv = .ok p)
    (hq : prepare ext inv' = .ok q) : p.metadataUrl = q.metadataUrl ∧ p.metadataHost = q.metadataHost := by
  obtain ⟨_, hstrict⟩ := prepare_ok hp
  obtain ⟨_, hloose⟩ := prepare_ok hq
  have hurl := hstrict.url
  rw [h.issuer] at hurl
  have hsame : p.metadataUrl = q.metadataUrl := Option.some.inj (hurl.symm.trans hloose.url)
  have hlax := httpUrlHost_mono h.insecureHttp hstrict.host
  rw [hsame, hloose.host] at hlax
  exact ⟨hsame, (Except.ok.inj hlax).symm⟩

theorem Tightens.allows (h : Tightens p.policy q.policy) (hhost : p.metadataHost = q.metadataHost)
    {url : CString} {hosts hosts' : Option CString}
    (himp : ∀ host, hostInList host hosts = true → hostInList host hosts' = true)
    (hallowed : requestError ext url (requestPolicy p hosts) = none) :
    requestError ext url (requestPolicy q hosts') = none := by
  obtain ⟨hne, host, hparse, hpermitted⟩ := requestError_requestPolicy.mp hallowed
  refine requestError_requestPolicy.mpr ⟨hhost ▸ hne, host, httpUrlHost_mono h.insecureHttp hparse, ?_⟩
  rw [← hhost]
  simp only [hostAllowed, Bool.or_eq_true] at hpermitted ⊢
  exact hpermitted.imp_right (himp host)

/-- The issuer's documents offer the same key. -/
theorem Tightens.offered (h : Tightens p.policy q.policy) (hp : SettingsRead ext inv p)
    (hq : SettingsRead ext inv' q) {d d' : Deployment ext} (hd : d.Runs p) (hd' : d'.Runs q)
    (hdocuments : d'.document = d.document) {keyId : CString} {algorithm : UInt32} {key : SelectedJwk}
    (hoffers : d.Offers (d.call keyId algorithm 0 0).call key) :
    d'.Offers (d'.call keyId algorithm 0 0).call key := by
  obtain ⟨hmetadata, uri, host, hdiscovers, hjwks, hselect⟩ := hoffers
  obtain ⟨hurl, hhost⟩ := h.discovery hp.prepared hq.prepared
  have hparsed := hdiscovers.parse
  have hfound := hdiscovers.host
  rw [Deployment.metadata, hd.metadataUrl, hd.issuer, hd.policy inv] at hparsed
  rw [hd.metadataUrl, hd.policy inv] at hfound
  rw [hd.metadataUrl, hd.policy inv] at hmetadata
  obtain ⟨_, hpaccepted⟩ := prepare_ok hp.prepared
  obtain ⟨_, hqaccepted⟩ := prepare_ok hq.prepared
  have hself : host = p.metadataHost := Except.ok.inj (hfound.symm.trans hpaccepted.host)
  rw [Deployment.jwksHttp, hd.policy inv, hself] at hjwks
  have hselect : jwksSelect ext (d.document uri) keyId algorithm (validatorPolicy p inv).issuerKey.jwks =
      .ok key := by
    rw [← hd.policy inv]
    exact hselect
  have hstrict := (metadataParse_eq_ok (by rfl)).mp hparsed
  have hlax : DiscoveryDocument ext (validatorPolicy q inv').issuerKey.metadata p.policy.issuer
      (d.document p.metadataUrl) uri := by
    refine DiscoveryDocument.mono ?_ ?_ ?_ hstrict
    · rfl
    · rfl
    · exact h.insecureHttp
  refine ⟨?_, uri, q.metadataHost, ⟨?_, ?_⟩, ?_, ?_⟩
  · rw [hd'.metadataUrl, hd'.policy inv', ← hurl]
    exact h.allows hhost (fun _ hin => hin) hmetadata
  · rw [Deployment.metadata, hd'.metadataUrl, hd'.issuer, hd'.policy inv', hdocuments, ← hurl, ← h.issuer]
    exact (metadataParse_eq_ok (by rfl)).mpr hlax
  · rw [hd'.metadataUrl, hd'.policy inv']
    exact hqaccepted.host
  · rw [Deployment.jwksHttp, hd'.policy inv']
    exact h.allows hhost h.jwksHosts hjwks
  · rw [hdocuments]
    show jwksSelect ext (d.document uri) keyId algorithm d'.policy.jwks = .ok key
    rw [hd'.policy inv']
    exact h.key hp.within hq.within hselect

/-- A list of audiences that was accepted stands for its entries. -/
theorem configuredAudienceMatches_of_built {config : PolicyConfig} {hba : HbaPolicy}
    {policy : ValidationPolicy} (hbuild : policyBuild config hba = .ok policy) {audience : Bytes}
    (hlisted : audience ∈ listEntries policy.audiences.bytes) :
    configuredAudienceMatches policy.audiences audience 16 = true := by
  obtain ⟨count, hcounted⟩ := validateAudiences_counted (policyBuild_ok hbuild).audienceList
  have hcount : (listEntries policy.audiences.bytes).length ≤ 16 := by
    have hle := hcounted.count_le (List.splitOn_ne_nil _ _)
    rw [hcounted.count_eq, Nat.zero_add] at hle
    rwa [listEntries, List.length_map]
  exact (configuredAudienceMatches_iff hcounted.noBlank hcount).mpr hlisted

theorem Tightens.claims (h : Tightens p.policy q.policy) (hq : prepare ext inv' = .ok q)
    (hrole : inv'.role = inv.role) (htime : inv'.wallTime = inv.wallTime) {payload : Json}
    {claims : ValidatedClaims}
    (hclaims : ClaimsAccepted (fun text => configuredAudienceMatches p.policy.audiences text 16 = true)
      payload (validatorPolicy p inv).claims claims) :
    ClaimsAccepted (fun text => configuredAudienceMatches q.policy.audiences text 16 = true)
      payload (validatorPolicy q inv').claims claims := by
  obtain ⟨_, haccepted⟩ := prepare_ok hq
  have hskew : (p.policy.clockSkewMs / 1000).toNat ≤ (q.policy.clockSkewMs / 1000).toNat := by
    have hle := h.clockSkew
    omega
  have hdate {value : Option Json}
      (hv : AbsentOrAtMost value (inv.wallTime + (p.policy.clockSkewMs / 1000).toNat)) :
      AbsentOrAtMost value (inv'.wallTime + (q.policy.clockSkewMs / 1000).toNat) := by
    rcases hv with hnone | ⟨date, hvalue, hpos, hle⟩
    · exact Or.inl hnone
    · exact Or.inr ⟨date, hvalue, hpos, by omega⟩
  exact {
    issuer := by
      obtain ⟨issuer, hissuer, hiss⟩ := hclaims.issuer
      exact ⟨issuer, by rw [← hissuer]; simp [validatorPolicy, h.issuer], hiss⟩
    audience := by
      obtain ⟨texts, htexts, hwell, text, hmem, hmatch⟩ := hclaims.audience
      have hlisted := h.audiences (configuredAudienceMatches_listed hmatch)
      exact ⟨texts, htexts, hwell, text, hmem, configuredAudienceMatches_of_built haccepted.built hlisted⟩
    expiry := hclaims.expiry
    positive := hclaims.positive
    unexpired := by
      have hlt : inv.wallTime < claims.expiresAt + (p.policy.clockSkewMs / 1000).toNat := hclaims.unexpired
      show inv'.wallTime < claims.expiresAt + (q.policy.clockSkewMs / 1000).toNat
      omega
    notBefore := hdate hclaims.notBefore
    issuedAt := hdate hclaims.issuedAt
    subject := hclaims.subject
    identity := by
      obtain ⟨name, hname, hvalue⟩ := hclaims.identity
      exact ⟨name, by rw [← hname]; simp [validatorPolicy, h.identityClaim], hvalue⟩
    printable := hclaims.printable
    scopes := by
      obtain ⟨required, granted, hrequired, htexts, hwell, hcount, hall⟩ := hclaims.scopes
      obtain rfl : p.policy.requiredScopes = required := Option.some.inj hrequired
      have hfewer := h.requiredScopes.length_le
      refine ⟨q.policy.requiredScopes, granted, rfl, htexts, hwell, ?_, fun scope hscope => ?_⟩
      · exact Nat.le_trans hfewer hcount
      · exact hall scope (h.requiredScopes.subset hscope)
    role := by
      obtain ⟨name, hname, hnamed⟩ := hclaims.role
      obtain rfl : p.policy.roleClaim = name := Option.some.inj hname
      refine ⟨q.policy.roleClaim, rfl, fun hne => ?_⟩
      rcases h.roleClaim with hsame | hempty
      · rw [hsame] at hne ⊢
        obtain ⟨requested, hrequested, hrest⟩ := hnamed hne
        exact ⟨requested, hrole.trans hrequested, hrest⟩
      · simp [hempty] at hne }

end Stages

theorem Tightens.entitles {ext : Externals} {d d' : Deployment ext} {p q : Prepared} {inv inv' : Invocation}
    (h : Tightens p.policy q.policy) (hp : SettingsRead ext inv p) (hq : SettingsRead ext inv' q)
    (hd : d.Runs p) (hd' : d'.Runs q) (hdocuments : d'.document = d.document) (htoken : inv'.token = inv.token)
    (hrole : inv'.role = inv.role) (htime : inv'.wallTime = inv.wallTime) {token : CString}
    {envelope : JwtEnvelope} {key : SelectedJwk} {claims : ValidatedClaims}
    (hentitled : d.Entitles p inv token envelope key claims) :
    d'.Entitles q inv' token envelope key claims where
  presented := htoken.trans hentitled.presented
  form := h.form hentitled.form
  offered := h.offered hp hq hd hd' hdocuments hentitled.offered
  signed := hentitled.signed
  claims := h.claims hq.prepared hrole htime hentitled.claims

/-- A connection that is authorized under some settings is authorized, with the
same identity, under all looser ones, whatever the two caches hold and however
long they keep documents. -/
theorem tightening_admits_no_one {ext : Externals} (hutf8 : ReadsUtf8 ext) {d d' : Deployment ext}
    {inv inv' : Invocation} {p q : Prepared} {role : CString} {s s' t t' : Shared} {r r' : ValidateReturn}
    (hp : prepare ext inv = .ok p) (hq : prepare ext inv' = .ok q) (htightens : Tightens p.policy q.policy)
    (htoken : inv'.token = inv.token) (hrole : inv.role = some role) (hnonempty : role.isEmpty = false)
    (hrole' : inv'.role = inv.role) (htime : inv'.wallTime = inv.wallTime)
    (hquiet : inv'.interruptPending = false) (hclock : 0 ≤ p.monotonicMs) (hclock' : 0 ≤ q.monotonicMs)
    (hd : d.Runs p) (hd' : d'.Runs q) (hdocuments : d'.document = d.document)
    (hs : d.Reached s) (run : Solo (d.perform inv.wallTime) s (validatorValidate ext inv) s' r)
    (ht : d'.Reached t) (run' : Solo (d'.perform inv'.wallTime) t (validatorValidate ext inv') t' r')
    {identity : CString} (hauthorized : r = (true, ⟨true, some identity, none⟩)) : r' = r := by
  have hread : SettingsRead ext inv p := .of_prepare hp hrole hnonempty
  have hread' : SettingsRead ext inv' q := .of_prepare hq (hrole'.trans hrole) hnonempty
  obtain ⟨_, hdecides⟩ := validatorValidate_decides hutf8 hread hclock hd hs run
  obtain ⟨_, hdecides'⟩ := validatorValidate_decides hutf8 hread' hclock' hd' ht run'
  obtain ⟨_, token, envelope, key, claims, hentitled, hid⟩ := (hdecides.authorized identity).mp hauthorized
  have hlax := htightens.entitles hread hread' hd hd' hdocuments htoken hrole' htime hentitled
  rw [hauthorized]
  exact (hdecides'.authorized identity).mpr ⟨hquiet, token, envelope, key, claims, hlax, hid⟩

namespace Sample

/-- The sample connection under looser settings, with other lifetimes. -/
def looseInvocation : Invocation :=
  { invocation with config := { config with
      audiences := some (.lit "api,web,db")
      allowedAlgorithms := some (.lit "EdDSA,ES256")
      clockSkewMs := 90000
      cacheMaxTtlMs := 7200000
      jwksStaleGraceMs := 60000 } }

def loosePrepared : Prepared :=
  { prepared with policy := { prepared.policy with
      audiences := .lit "api,web,db"
      allowedAlgorithms := algorithmEddsa ||| algorithmEs256
      clockSkewMs := 90000
      cacheMaxTtlMs := 7200000
      jwksStaleGraceMs := 60000 } }

theorem prepare_looseInvocation : prepare tokenExternals looseInvocation = .ok loosePrepared := by
  decide +kernel

theorem tightens_loose : Tightens prepared.policy loosePrepared.policy where
  issuer := rfl
  identityClaim := rfl
  roleClaim := Or.inl rfl
  requiredScopes := List.Subperm.refl _
  audiences := by decide +kernel
  tokenTypes := by decide
  missingTokenType := id
  algorithms := by decide
  jwksHosts := fun _ h => h
  insecureHttp := id
  clockSkew := by decide
  tokenSize := by decide

def looseSite : Deployment tokenExternals :=
  siteOf loosePrepared (by decide) (by decide +kernel) (by decide +kernel) (by decide +kernel)

theorem looseSite_runs : looseSite.Runs loosePrepared :=
  ⟨rfl, rfl, fun _ => rfl, rfl⟩

theorem looseSite_connects : ∃ s s' r, looseSite.Reached s ∧
    Solo (looseSite.perform looseInvocation.wallTime) s (validatorValidate tokenExternals looseInvocation)
      s' r := by
  have hrun : (firstConnection looseSite looseInvocation).isSome = true := by
    simp only [firstConnection, looseInvocation, invocation, tokenExternals, token, keyObjectText,
      CString.lit_append]
    decide +kernel
  obtain ⟨⟨s, s', r⟩, hsome⟩ := Option.isSome_iff_exists.mp hrun
  exact ⟨s, s', r, firstConnection_eq_some hsome⟩

end Sample

/-- More audiences, more algorithms, more tolerance and longer lifetimes. -/
theorem tightening_admits_no_one_loose :
    ∃ t t', Sample.looseSite.Reached t ∧
      Solo (Sample.looseSite.perform Sample.looseInvocation.wallTime) t
        (validatorValidate Sample.tokenExternals Sample.looseInvocation) t'
        (true, ⟨true, some (.lit "u"), none⟩) := by
  obtain ⟨s, s', hs, hsolo⟩ := Sample.site_authorizes
  obtain ⟨t, t', r, ht, hsolo'⟩ := Sample.looseSite_connects
  have hr := tightening_admits_no_one Sample.tokenExternals_readsUtf8 Sample.prepare_invocation
    Sample.prepare_looseInvocation Sample.tightens_loose rfl rfl (by decide) rfl rfl rfl (by decide) (by decide)
    Sample.site_runs Sample.looseSite_runs rfl hs hsolo ht hsolo' rfl
  exact ⟨t, t', ht, hr ▸ hsolo'⟩

end OAuthValidator
