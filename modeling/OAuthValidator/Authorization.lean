import OAuthValidator.Allowlist
import OAuthValidator.ClaimsExact
import OAuthValidator.PipelineStages
import OAuthValidator.Replay

/-! What an authorized connection stands on. Every condition is about the token
that was presented, the settings, and the documents the validator has read;
none is about the code that checks it. -/

namespace OAuthValidator

open Interleaving Program

/-- Concurrent invocations of the callback, by any number of backends. -/
abbrev ValidatorRun (ext : Externals)
    (h : History CallOp CallOp.Ans Invocation Shared)
    (c : Config CallOp CallOp.Ans Invocation ValidateReturn Shared) : Prop :=
  Run (cacheSystem (validatorValidate ext) fun _ _ => True) initialShared h c

/-- The JWKS document that a call took its key from: copied from the cache entry
of the `jwks_uri`, or received from there. -/
inductive JwksUsed (x : CachedCall) (uri : CString) (tr : CallTrace) : Bytes → Prop
  | copied {key : Bytes} {nowMs : Int} {allowStale : Bool} {outputSize : Nat} {l : IoLookup}
      (keyed : cacheKeyBuild (x.jwksKeyPolicy uri) = .ok key)
      (asked : ⟨.lookup key nowMs allowStale outputSize, l⟩ ∈ tr) (usable : l.usable = true) :
      JwksUsed x uri tr l.payload
  | received {policy : HttpPolicy} {response : HttpResponse}
      (asked : ⟨.transfer uri policy, .ok response⟩ ∈ tr) : JwksUsed x uri tr response.body

/-- The names of the algorithms, with the checker that each one stands for. -/
def algorithmNames : List (CString × JwtAlg) :=
  [(.lit "RS256", .rs256), (.lit "ES256", .es256), (.lit "EdDSA", .eddsa)]

/-- What the validator found when it authorized a connection. -/
structure Finding where
  hba : HbaPolicy
  policy : ValidationPolicy
  token : CString
  header : Json
  payload : Json
  algorithm : CString
  keyId : CString
  jwksUri : CString
  document : Bytes
  key : Json
  identity : CString

/-- The conditions of an authorized connection. -/
structure Authorized (ext : Externals) (inv : Invocation) (tr : CallTrace)
    (result : ValidatorModuleResult) (f : Finding) : Prop where
  matched : hbaPolicyRead inv.hba inv.policyOption = some f.hba
  accepted : policyBuild inv.config f.hba = .ok f.policy
  settings : PolicyBuilt inv.config f.hba f.policy
  presented : inv.token = some f.token
  /-- The header and the payload are what the token's own segments decode to. -/
  compact : ∃ header payload signature, CompactJws f.token.bytes header payload signature ∧
    ext.jsonLoadb header = some f.header ∧ ext.jsonLoadb payload = some f.payload
  payloadObject : f.payload.isObject = true
  headerAlgorithm : f.header.get? (.lit "alg") = some (.str f.algorithm)
  allowedAlgorithm : ∃ setting, inv.config.allowedAlgorithms = some setting ∧
    f.algorithm.bytes ∈ listEntries setting.bytes
  headerKeyId : f.header.get? (.lit "kid") = some (.str f.keyId)
  used : ∃ x : CachedCall, x.call.expectedIssuer = f.policy.issuer ∧ JwksUsed x f.jwksUri tr f.document
  onlyKey : OnlyKey ext f.document f.keyId f.key
  keyAlgorithm : f.key.get? (.lit "alg") = some (.str f.algorithm)
  signature : ∃ checker, (f.algorithm, checker) ∈ algorithmNames ∧
    SignatureAccepted ext checker f.key f.token.bytes
  claims : TokenGrants f.payload f.policy.issuer f.policy.audiences f.policy.requiredScopes
    f.policy.identityClaim f.policy.roleClaim inv.role inv.wallTime (inv.config.clockSkewMs / 1000)
    f.identity
  identity : result.authnId = some f.identity

section Retrieval

variable {ext : Externals} {x : CachedCall} {tr : CallTrace} {selected : SelectedJwk}

theorem Stage.lookup_mem_lookedUp {s : Stage} {l : IoLookup} :
    ⟨.lookup s.key s.nowMs s.allowStale s.outputSize, l⟩ ∈ s.lookedUp l :=
  List.mem_cons_self

/-- The key that a retrieval returns comes from a document that it used. -/
theorem Accepted.used (h : Accepted ext x tr selected) :
    ∃ uri document, JwksUsed x uri tr document ∧ selectKey ext x.call document = .ok selected := by
  cases h with
  | fresh o usable _ select => exact ⟨_, _, .copied o.key Stage.lookup_mem_lookedUp usable, select⟩
  | waited o _ _ usable select => exact ⟨_, _, .copied o.key List.mem_cons_self usable, select⟩
  | unowned o usable _ select _ =>
    exact ⟨_, _, .copied o.key (Stage.lookedUp_suffix_begun.mem Stage.lookup_mem_lookedUp) usable,
      select⟩
  | refused o usable _ select _ =>
    exact ⟨_, _, .copied o.key (List.mem_cons_of_mem _
      (Stage.lookedUp_suffix_begun.mem Stage.lookup_mem_lookedUp)) usable, select⟩
  | unreachable o usable _ select =>
    exact ⟨_, _, .copied o.key (List.mem_cons_of_mem _
      (Stage.lookedUp_suffix_transferred.mem Stage.lookup_mem_lookedUp)) usable, select⟩
  | fetched o _ _ select =>
    exact ⟨_, _, .received (List.mem_cons_of_mem _ List.mem_cons_self), select⟩

end Retrieval

section Callback

variable {ext : Externals} {inv : Invocation} {p : Prepared} {envelope : JwtEnvelope}

/-- The retrieval that the callback asks for. -/
def Prepared.fetchArgs (p : Prepared) (inv : Invocation) (envelope : JwtEnvelope) : FetchArgs where
  metadataUrl := some p.metadataUrl
  expectedIssuer := some p.policy.issuer
  keyId := some envelope.keyId
  tokenAlgorithm := envelope.algorithm
  policy := some (validatorPolicy p inv).issuerKey
  cachePolicy := some (cachePolicy p.policy)
  nowMs := p.monotonicMs
  responseTimeSeconds := inv.wallTime

/-- The callback either decides on its own, and never in favour of the token, or
performs one retrieval and decides on what it returned. -/
theorem validatorValidate_cases (ext : Externals) (inv : Invocation) :
    (∃ r, validatorValidate ext inv = .ret r ∧ r.2.authorized = false) ∨
      ∃ p token envelope, prepare ext inv = .ok p ∧ inv.token = some token ∧
        jwtEnvelopeParse ext token.bytes (validatorPolicy p inv).envelope = .ok envelope ∧
        validatorValidate ext inv = (issuerKeyFetchCached ext (p.fetchArgs inv envelope)).bind fun fetched =>
          .ret (decideToken inv (verifyToken ext token.bytes (validatorPolicy p inv) envelope fetched)) := by
  unfold validatorValidate
  cases hp : prepare ext inv with
  | error e => exact Or.inl ⟨_, rfl, rfl⟩
  | ok p =>
    cases ht : inv.token with
    | none => exact Or.inl ⟨_, rfl, rfl⟩
    | some token =>
      simp only
      split
      · exact Or.inl ⟨_, rfl, rfl⟩
      · next hlength =>
        have hwhole : token.bytes.take (min token.length (p.policy.maxTokenSize.toNat + 1)) =
            token.bytes := by
          simp only [Bool.or_eq_true, beq_iff_eq, decide_eq_true_eq, not_or] at hlength
          exact List.take_of_length_le (by simp only [CString.length] at hlength ⊢; omega)
        rw [hwhole]
        have hissuer : (validatorPolicy p inv).claims.issuer.isNone = false := rfl
        simp only [validateAccessTokenCached, hissuer, Bool.false_eq_true, if_false]
        cases he : jwtEnvelopeParse ext token.bytes (validatorPolicy p inv).envelope with
        | error e =>
          refine Or.inl ⟨_, rfl, ?_⟩
          unfold decideToken
          split <;> rfl
        | ok envelope =>
          refine Or.inr ⟨p, token, envelope, rfl, rfl, he, ?_⟩
          simp only [Prog.bind_assoc, Prog.bind]
          rfl

/-- What was checked when an invocation was prepared. -/
structure PrepareAccepted (ext : Externals) (inv : Invocation) (hba : HbaPolicy) (p : Prepared) : Prop where
  matched : hbaPolicyRead inv.hba inv.policyOption = some hba
  built : policyBuild inv.config hba = .ok p.policy
  configured : configureCapacity inv.cacheMaxEntries inv.attachedCapacity = true
  attached : sharedCacheAttach inv.cacheMaxEntries inv.attachedCapacity inv.segmentCapacity = true
  clock : monotonicMs inv.monotonic = some p.monotonicMs
  url : metadataUrl p.policy.issuer = some p.metadataUrl
  host : httpUrlHost ext p.metadataUrl maxUrlSize p.policy.allowInsecureHttp = .ok p.metadataHost
  wallTime : 0 ≤ inv.wallTime

theorem prepare_ok (h : prepare ext inv = .ok p) : ∃ hba, PrepareAccepted ext inv hba p := by
  have hmap {ε α : Type} {e : Except ε α} {a : α} (he : (e.mapError fun _ => ()) = .ok a) : e = .ok a := by
    cases e <;> simp_all [Except.mapError]
  simp only [prepare, except_bind_eq_ok, given_eq_ok, require_eq_ok, except_pure_eq_ok,
    decide_eq_true_eq] at h
  obtain ⟨hba, hread, policy, hbuild, _, hconfigure, _, hattach, _, hclock, url, hurl, _, hhost, _, hwall,
    rfl⟩ := h
  exact ⟨hba, hread, hmap hbuild, hconfigure, hattach, hclock, hurl, hmap hhost, hwall⟩

theorem decideToken_authorized {validation : ValidatorReturn}
    (h : (decideToken inv validation).2.authorized = true) : ∃ identity, validation.1 = .ok ∧
      validation.2.identity = some identity ∧
      (decideToken inv validation).2.authnId = some (.ofBuffer identity) := by
  unfold decideToken at h ⊢
  split at h
  · simp [internalFailure, denied] at h
  · next hp =>
    split at h
    · next identity hok hid => exact ⟨identity, hok, hid, by rw [if_neg hp]⟩
    · simp [rejected, denied] at h

/-- What the stages have found when the last of them has succeeded. -/
theorem verifyToken_ok {token identity : Bytes} {policy : ValidatorPolicy} {fetched : FetchReturn}
    (h : (verifyToken ext token policy envelope fetched).1 = .ok)
    (hid : (verifyToken ext token policy envelope fetched).2.identity = some identity) :
    fetched.1 = .ok ∧ (∃ u, signatureVerify ext token fetched.2.selected = .ok u) ∧
      ∃ claims, claimsValidate envelope.untrustedPayload policy.claims = .ok claims ∧
        claims.identity.bytes = identity := by
  have hcases := verifyToken_cases ext token policy envelope fetched
  generalize verifyToken ext token policy envelope fetched = r at h hid hcases
  cases hcases with
  | ok claims built hkey hsignature hclaims hbuild =>
    obtain rfl : built = identity := Option.some.inj hid
    obtain ⟨hsubject, _⟩ := identityBuild_ok hbuild
    exact ⟨hkey, ⟨_, hsignature⟩, claims, hclaims, Option.some.inj hsubject⟩
  | _ => simp at h

theorem ofBuffer_bytes (s : CString) : CString.ofBuffer s.bytes = s :=
  CString.ext_bytes (CString.bytes_ofBuffer s.nul_free)

theorem libjwtAlgorithm_named {name : CString} {bit : UInt32} (h : algorithmBit name.bytes = some bit) :
    (name, libjwtAlgorithm bit) ∈ algorithmNames := by
  have hlit {text : String} (hb : name.bytes = ascii text) (hnul : 0 ∉ ascii text) : name = .lit text := by
    refine CString.ext_bytes (hb.trans ?_)
    refine (List.filter_eq_self.mpr fun b hb => ?_).symm
    simp only [bne_iff_ne]
    rintro rfl
    exact hnul hb
  rcases algorithmBit_cases h with ⟨hb, rfl⟩ | ⟨hb, rfl⟩ | ⟨hb, rfl⟩
  · rw [hlit hb (by decide)]
    exact List.mem_cons_self
  · rw [hlit hb (by decide)]
    exact List.mem_cons_of_mem _ List.mem_cons_self
  · rw [hlit hb (by decide)]
    exact List.mem_cons_of_mem _ (List.mem_cons_of_mem _ List.mem_cons_self)

/-- A cached retrieval selects a key of a document that it used. -/
theorem CallFinished.selected {args : FetchArgs} {cache : IssuerKeyCachePolicy} {tr : CallTrace}
    {fetched : FetchReturn} (hf : CallFinished ext args tr fetched) (hcache : args.cachePolicy = some cache)
    (hok : fetched.1 = .ok) : ∃ x uri document selected, args.call = some x.call ∧
      fetched.2.selected = some selected ∧ JwksUsed x uri tr document ∧
      selectKey ext x.call document = .ok selected := by
  obtain ⟨selected, hselected, ⟨x, hx, ha⟩ | ⟨_, _, hnone, _⟩⟩ := hf.accepted hok
  · obtain ⟨uri, document, hused, hselect⟩ := ha.used
    exact ⟨x, uri, document, selected, FetchArgs.cached_call hx, hselected, hused, hselect⟩
  · simp [hcache] at hnone

/-- The header of the token and the key both name one algorithm, which the
administrator has allowed and which the checker is fixed to. -/
theorem algorithm_agrees {config : PolicyConfig} {hba : HbaPolicy} {policy : ValidationPolicy}
    {token : Bytes} {envelopePolicy : JwtEnvelopePolicy} {key : Json}
    (hb : PolicyBuilt config hba policy) (he : EnvelopeParsed ext token envelopePolicy envelope)
    (hallowed : envelopePolicy.allowedAlgorithms = policy.allowedAlgorithms)
    (hkey : keyAlgorithm key = envelope.algorithm) :
    ∃ algorithm, envelope.untrustedHeader.get? (.lit "alg") = some (.str algorithm) ∧
      key.get? (.lit "alg") = some (.str algorithm) ∧
      (∃ setting, config.allowedAlgorithms = some setting ∧
        algorithm.bytes ∈ listEntries setting.bytes) ∧
      (algorithm, libjwtAlgorithm envelope.algorithm) ∈ algorithmNames := by
  have hne := he.algorithm_ne_zero
  obtain ⟨name, hheader, hbit⟩ := algorithmNamed_bit (he.algorithm ▸ hne)
  have hkey : algorithmNamed (key.get? (.lit "alg")) = envelope.algorithm := hkey
  obtain ⟨name', hkeyName, hbit'⟩ := algorithmNamed_bit (hkey ▸ hne)
  rw [← he.algorithm] at hbit
  rw [hkey] at hbit'
  obtain rfl : name = name' := CString.ext_bytes (algorithmBit_injective hbit hbit')
  have hin : policy.allowedAlgorithms &&& envelope.algorithm ≠ 0 := by
    rw [UInt32.and_comm, ← hallowed]
    exact he.allowed
  obtain ⟨setting, hsetting, entry, hentry, hentryBit⟩ :=
    parseAlgorithms_listed hb.algorithms (algorithmBit_mem hbit) hin
  exact ⟨name, hheader, hkeyName, ⟨setting, hsetting, algorithmBit_injective hentryBit hbit ▸ hentry⟩,
    libjwtAlgorithm_named hbit⟩

/-- The stages in their order, from a retrieval that has finished to the finding. -/
theorem authorized_of_retrieval {token : CString} {tr : CallTrace} {fetched : FetchReturn}
    (hp : prepare ext inv = .ok p) (ht : inv.token = some token)
    (he : jwtEnvelopeParse ext token.bytes (validatorPolicy p inv).envelope = .ok envelope)
    (hf : CallFinished ext (p.fetchArgs inv envelope) tr fetched)
    (ha : (decideToken inv (verifyToken ext token.bytes (validatorPolicy p inv) envelope
      fetched)).2.authorized = true) :
    ∃ f, Authorized ext inv tr (decideToken inv (verifyToken ext token.bytes (validatorPolicy p inv)
      envelope fetched)).2 f := by
  obtain ⟨hba, haccepted⟩ := prepare_ok hp
  have hb := (policyBuild_ok haccepted.built).built
  have henvelope := jwtEnvelopeParse_ok he
  obtain ⟨identity, hok, hid, hauthn⟩ := decideToken_authorized ha
  obtain ⟨hfetched, ⟨_, hsignature⟩, claims, hclaims, rfl⟩ := verifyToken_ok hok hid
  obtain ⟨x, uri, document, selected, hcall, hselected, hused, hselect⟩ := hf.selected rfl hfetched
  obtain ⟨hissuer, hkeyId, hrequested⟩ := FetchArgs.call_request hcall
  obtain ⟨honly, halgorithm, hkey⟩ := jwksSelect_ok hselect
  rw [← hrequested] at halgorithm hkey
  obtain ⟨algorithm, hheaderAlg, hkeyAlg, hallowed, hchecker⟩ := algorithm_agrees hb henvelope rfl hkey
  have hgrants := claimsValidate_ok hclaims rfl rfl rfl rfl rfl
  have hskew : ((validatorPolicy p inv).claims.clockSkewSeconds : Int) = inv.config.clockSkewMs / 1000 := by
    show (((p.policy.clockSkewMs / 1000).toNat : Nat) : Int) = _
    have hnonneg := hb.clockSkew_nonneg
    rw [Int.toNat_of_nonneg (by omega), hb.clockSkewMs]
  rw [hselected] at hsignature
  have hverified := signatureVerify_ok hsignature
  rw [halgorithm] at hverified
  refine ⟨⟨hba, p.policy, token, envelope.untrustedHeader, envelope.untrustedPayload, algorithm,
    envelope.keyId, uri, document, selected.jwk, claims.identity⟩, ?_⟩
  exact {
    matched := haccepted.matched
    accepted := haccepted.built
    settings := hb
    presented := ht
    compact := henvelope.compact
    payloadObject := henvelope.payload
    headerAlgorithm := hheaderAlg
    allowedAlgorithm := hallowed
    headerKeyId := henvelope.keyId
    used := ⟨x, (Option.some.inj hissuer).symm, hused⟩
    onlyKey := Option.some.inj hkeyId ▸ honly
    keyAlgorithm := hkeyAlg
    signature := ⟨_, hchecker, hverified⟩
    claims := hskew ▸ hgrants
    identity := by rw [hauthn, ofBuffer_bytes] }

end Callback

theorem validatorValidate_sat (ext : Externals) (inv : Invocation) :
    Sat (fun _ _ => True) (fun tr r => r.2.authorized = true → ∃ f, Authorized ext inv tr r.2 f) []
      (validatorValidate ext inv) := by
  rcases validatorValidate_cases ext inv with ⟨r, heq, hr⟩ | ⟨p, token, envelope, hp, ht, he, heq⟩
  · rw [heq]
    intro ha
    simp [hr] at ha
  · rw [heq]
    have hfetch := issuerKeyFetchCached_sat ext (p.fetchArgs inv envelope)
    refine (hfetch.mono (fun _ _ _ => trivial) fun _ _ hf => hf).bind fun tr fetched hf ha => ?_
    exact authorized_of_retrieval hp ht he hf ha

/-- In every run of any number of backends over one cache, a connection that was
authorized meets every condition. -/
theorem authorization_sound {ext : Externals} {h : History CallOp CallOp.Ans Invocation Shared}
    {c : Config CallOp CallOp.Ans Invocation ValidateReturn Shared} (hr : ValidatorRun ext h c) {i : Nat}
    {call : Call CallOp CallOp.Ans Invocation ValidateReturn} (hc : c.calls i = some call)
    {r : ValidateReturn} (hret : call.rest = .ret r) (ha : r.2.authorized = true) :
    ∃ f, Authorized ext call.arg call.trace r.2 f := by
  have hsat := hr.sat (validatorValidate_sat ext) hc
  rw [hret] at hsat
  exact hsat ha

namespace Sample

def headerText : Bytes :=
  ascii "\x7b\"alg\":\"EdDSA\",\"kid\":\"a\",\"typ\":\"at+jwt\"\x7d"

def payloadText : Bytes :=
  ascii "\x7b\"iss\":\"https://i\",\"aud\":\"db\",\"exp\":1700000060,\"sub\":\"u\",\"scope\":\"read\",\"roles\":[\"app\"]\x7d"

/-- A token signed with the private key of `pointA`. -/
def token : CString :=
  .lit ("eyJhbGciOiJFZERTQSIsImtpZCI6ImEiLCJ0eXAiOiJhdCtqd3QifQ." ++
    "eyJpc3MiOiJodHRwczovL2kiLCJhdWQiOiJkYiIsImV4cCI6MTcwMDAwMDA2MCwic3ViIjoidSIs" ++
    "InNjb3BlIjoicmVhZCIsInJvbGVzIjpbImFwcCJdfQ." ++
    "EXTV2aNhWzQuyDlTSZDNrF8QdjRud8sE8xBFfwbMlK8Qfra_iSYolttH1XSkcBf0M_qWiX2ndJn13xEw3flICQ")

def keyObject : Json :=
  .obj [(.lit "kid", .str (.lit "a")), (.lit "alg", .str (.lit "EdDSA")), (.lit "use", .str (.lit "sig")),
    (.lit "kty", .str (.lit "OKP")), (.lit "crv", .str (.lit "Ed25519")), (.lit "x", .str (.lit pointA))]

def keyObjectText : CString :=
  .lit ("\x7b\"alg\":\"EdDSA\",\"crv\":\"Ed25519\",\"kid\":\"a\",\"kty\":\"OKP\",\"use\":\"sig\",\"x\":\"" ++
    pointA ++ "\"\x7d")

/-- The libraries on this token and this key as well. -/
def tokenExternals : Externals :=
  { externals with
    jsonLoadb := fun text =>
      if text == headerText then
        some (.obj [(.lit "alg", .str (.lit "EdDSA")), (.lit "kid", .str (.lit "a")),
          (.lit "typ", .str (.lit "at+jwt"))])
      else if text == payloadText then
        some (.obj [(.lit "iss", .str (.lit "https://i")), (.lit "aud", .str (.lit "db")),
          (.lit "exp", .int 1700000060), (.lit "sub", .str (.lit "u")),
          (.lit "scope", .str (.lit "read")), (.lit "roles", .arr [.str (.lit "app")])])
      else externals.jsonLoadb text
    jsonDumps := fun key => if key == keyObject then some keyObjectText else none
    jwksCreate := fun text => text == keyObjectText
    jwtChecker := fun alg text => alg == .eddsa && text == keyObjectText
    jwtVerify := fun alg text signed => alg == .eddsa && text == keyObjectText && signed == token.bytes }

def config : PolicyConfig where
  audiences := some (.lit "web, db")
  allowedAlgorithms := some (.lit "EdDSA")
  allowedTokenTypes := some (.lit "at+jwt")
  identityClaim := some (.lit "sub")
  roleClaim := some (.lit "roles")
  allowedJwksHosts := some (.lit "")
  caFile := some (.lit "")
  clockSkewMs := 60000
  maxTokenSize := 16384
  metadataDefaultTtlMs := 300000
  jwksDefaultTtlMs := 300000
  cacheMaxTtlMs := 3600000
  jwksStaleGraceMs := 0
  unknownKidRefreshCooldownMs := 30000
  refreshWaitTimeoutMs := 5000
  allowInsecureHttp := false
  allowMissingTokenType := false

/-- The token a minute after it has expired, less one second. -/
def invocation : Invocation where
  token := some token
  role := some (.lit "app")
  hasErrorDetail := true
  hba := some ⟨some (.lit "https://i"), some (.lit "read"), true⟩
  policyOption := none
  config := config
  cacheMaxEntries := 8
  attachedCapacity := none
  segmentCapacity := some 8
  monotonic := some (1, 0)
  wallTime := 1700000119
  interruptPending := false

/-- The callback on an empty cache, with the issuer's two answers. -/
def coldConnection : List (Choice Invocation) :=
  let quiet (n : Nat) : List (Choice Invocation) := List.replicate n (.step 0 unreachable)
  [.start 0 invocation] ++ quiet 2 ++ [.step 0 (respond metadata)] ++ quiet 3 ++
    [.step 0 (respond (keyText "a" pointA))] ++ quiet 1

def authorizedCall (call : Call CallOp CallOp.Ans Invocation ValidateReturn) : Bool :=
  match call.rest with
  | .ret r => r.2.authorized
  | _ => false

theorem authorizedCall_returned {call : Call CallOp CallOp.Ans Invocation ValidateReturn}
    (h : authorizedCall call = true) : ∃ r, call.rest = .ret r ∧ r.2.authorized = true := by
  unfold authorizedCall at h
  split at h
  · next r hret => exact ⟨r, hret, h⟩
  · simp at h

end Sample

/-- A token within its tolerance, for a role that it names. -/
theorem authorization_sound_delegated :
    ∃ h c call r, ValidatorRun Sample.tokenExternals h c ∧ c.calls 0 = some call ∧
      call.rest = .ret r ∧ r.2.authorized = true ∧
      ∃ f, Authorized Sample.tokenExternals call.arg call.trace r.2 f := by
  have hrun : (replay (validatorValidate Sample.tokenExternals) (fun _ _ => true) 8 0
      Sample.coldConnection).any (fun p => (p.2.calls 0).any Sample.authorizedCall) = true := by
    -- evaluation reads a literal in quadratic time, so the token stays in its parts
    simp only [Sample.coldConnection, Sample.invocation, Sample.tokenExternals, Sample.token,
      Sample.keyObjectText, CString.lit_append]
    decide +kernel
  obtain ⟨h, c, hr, htest⟩ := replay_any hrun
  have hr : ValidatorRun Sample.tokenExternals h c := by simpa using hr
  obtain ⟨call, hc, hcall⟩ := exists_of_any htest
  obtain ⟨r, hret, ha⟩ := Sample.authorizedCall_returned hcall
  exact ⟨h, c, call, r, hr, hc, hret, ha, authorization_sound hr hc hret ha⟩

end OAuthValidator
