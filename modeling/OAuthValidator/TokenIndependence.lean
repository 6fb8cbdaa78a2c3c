import OAuthValidator.Authorization
import OAuthValidator.FreshnessHeaders

/-! What a token claims has no influence on the retrieval of the key that is to
verify it. Only its key identifier and its algorithm do, and only on the choice of
the key and the refreshes this causes, never on the cache keys. -/

namespace OAuthValidator

open Program

/-- The cache key of the metadata. -/
def metadataCacheKey (cache : IssuerKeyCachePolicy) (issuer url : CString) : Option Bytes :=
  (cacheKeyBuild { cache.keyPolicy with
    resource := .metadata
    issuer := some issuer
    metadataUrl := some url
    jwksUrl := none }).toOption

/-- The cache key of the JWKS that a metadata document points to. -/
def jwksCacheKey (ext : Externals) (cache : IssuerKeyCachePolicy) (issuer url : CString)
    (policy : MetadataPolicy) (document : Bytes) : Option Bytes :=
  match metadataParse ext document issuer policy with
  | .error _ => none
  | .ok uri =>
    (cacheKeyBuild { cache.keyPolicy with
      resource := .jwks
      issuer := some issuer
      metadataUrl := some url
      jwksUrl := some uri }).toOption

/-- The key that a lookup or a begin is called with. -/
def CallOp.key? : CallOp → Option Bytes
  | .lookup key _ _ _ => some key
  | .begin key _ _ _ => some key
  | _ => none

/-- The metadata documents that a call has read, from the cache or from the
network. -/
inductive MetadataSeen (key : Bytes) (url : CString) (tr : CallTrace) : Bytes → Prop
  | copied {nowMs : Int} {allowStale : Bool} {outputSize : Nat} {l : IoLookup}
      (asked : ⟨.lookup key nowMs allowStale outputSize, l⟩ ∈ tr) (hit : l.hit = true) :
      MetadataSeen key url tr l.payload
  | received {policy : HttpPolicy} {response : HttpResponse}
      (asked : ⟨.transfer url policy, .ok response⟩ ∈ tr) : MetadataSeen key url tr response.body

theorem MetadataSeen.mono {key : Bytes} {url : CString} {tr tr' : CallTrace} {document : Bytes}
    (h : MetadataSeen key url tr document) (hle : tr <:+ tr') : MetadataSeen key url tr' document := by
  cases h with
  | copied asked hit => exact .copied (hle.mem asked) hit
  | received asked => exact .received (hle.mem asked)

section Keys

variable {ext : Externals} {x : CachedCall} {tr : CallTrace} {nowMs : Int} {key document : Bytes}

theorem MetadataRead.seen (h : MetadataRead ext x key tr nowMs document) :
    MetadataSeen key x.call.metadataUrl tr document := by
  cases h with
  | hit l hit => exact .copied List.mem_cons_self hit
  | waited l ticket tr elapsedMs l' _ _ _ hit => exact .copied List.mem_cons_self hit
  | fetched l ticket response f _ _ => exact .received (List.mem_cons_of_mem _ List.mem_cons_self)

/-- What the keys of a call are built from. -/
def KeyOrigin (ext : Externals) (x : CachedCall) (tr : CallTrace) (key : Bytes) : Prop :=
  metadataCacheKey x.cache x.call.expectedIssuer x.call.metadataUrl = some key ∨
    ∃ metadataKey document,
      metadataCacheKey x.cache x.call.expectedIssuer x.call.metadataUrl = some metadataKey ∧
      MetadataSeen metadataKey x.call.metadataUrl tr document ∧
      jwksCacheKey ext x.cache x.call.expectedIssuer x.call.metadataUrl x.call.policy.metadata document =
        some key

theorem StageOpen.keyOrigin {s : Stage} (o : StageOpen ext x s) (hle : s.base <:+ tr) :
    KeyOrigin ext x tr s.key := by
  cases o with
  | metadata h =>
    have hkey : cacheKeyBuild x.metadataKeyPolicy = .ok _ := h
    exact Or.inl (congrArg Except.toOption hkey)
  | jwks h =>
    obtain ⟨metadataKey, document, hkey, hread, hparse⟩ := h.metadata
    refine Or.inr ⟨metadataKey, document, congrArg Except.toOption hkey, hread.seen.mono hle, ?_⟩
    unfold jwksCacheKey
    rw [hparse]
    exact congrArg Except.toOption h.key

theorem Issues.keyOrigin {op : CallOp} (h : Issues ext x tr op) (hop : op.key? = some key) :
    KeyOrigin ext x tr key := by
  cases h with
  | lookup o =>
    obtain rfl := Option.some.inj hop
    exact o.keyOrigin (List.suffix_refl _)
  | begin o _ =>
    obtain rfl := Option.some.inj hop
    exact o.keyOrigin Stage.base_suffix_lookedUp
  | wait _ _ w => cases w <;> simp [CallOp.key?] at hop
  | relookup o _ w _ =>
    obtain rfl := Option.some.inj hop
    exact o.keyOrigin (Stage.base_suffix_lookedUp.trans (Stage.lookedUp_suffix_begun.trans w.suffix))
  | transfer => simp [CallOp.key?] at hop
  | refused => simp [CallOp.key?] at hop
  | failed => simp [CallOp.key?] at hop
  | publish => simp [CallOp.key?] at hop

theorem CallIssues.keyOrigin {args : FetchArgs} {op : CallOp} (h : CallIssues ext args tr op)
    (hop : op.key? = some key) : ∃ x, args.cached = some x ∧ KeyOrigin ext x tr key := by
  rcases h with ⟨x, hx, h⟩ | ⟨call, _, _, h⟩
  · exact ⟨x, hx, h.keyOrigin hop⟩
  · cases h <;> simp [CallOp.key?] at hop

end Keys

section Pipeline

variable {ext : Externals} {url : CString} {policy : ValidatorPolicy}
  {cachePolicy : Option IssuerKeyCachePolicy} {nowMs responseTimeSeconds : Int} {token : Bytes}
  {envelope : JwtEnvelope} {issuer : CString}

/-- The retrieval for a token, which is all that the pipeline does to the world. -/
def tokenFetch (url : CString) (policy : ValidatorPolicy) (cachePolicy : Option IssuerKeyCachePolicy)
    (nowMs responseTimeSeconds : Int) (issuer keyId : CString) (algorithm : UInt32) : FetchArgs where
  metadataUrl := some url
  expectedIssuer := some issuer
  keyId := some keyId
  tokenAlgorithm := algorithm
  policy := some policy.issuerKey
  cachePolicy := cachePolicy
  nowMs := nowMs
  responseTimeSeconds := responseTimeSeconds

theorem validate_of_envelope (hissuer : policy.claims.issuer = some issuer)
    (henvelope : jwtEnvelopeParse ext token policy.envelope = .ok envelope) :
    validateAccessTokenCached ext (some token) (some url) (some policy) cachePolicy nowMs
        responseTimeSeconds =
      (issuerKeyFetchCached ext (tokenFetch url policy cachePolicy nowMs responseTimeSeconds issuer
        envelope.keyId envelope.algorithm)).bind fun fetched =>
          .ret (verifyToken ext token policy envelope fetched) := by
  simp [validateAccessTokenCached, hissuer, henvelope, tokenFetch]

theorem validate_without_issuer (hissuer : policy.claims.issuer = none) :
    validateAccessTokenCached ext (some token) (some url) (some policy) cachePolicy nowMs
      responseTimeSeconds = .ret (.invalidArgument, .zero) := by
  simp [validateAccessTokenCached, hissuer]

theorem validate_of_rejected {e : JwtEnvelopeError}
    (henvelope : jwtEnvelopeParse ext token policy.envelope = .error e) :
    ∃ r, validateAccessTokenCached ext (some token) (some url) (some policy) cachePolicy nowMs
      responseTimeSeconds = .ret r := by
  cases hissuer : policy.claims.issuer with
  | none => exact ⟨_, validate_without_issuer hissuer⟩
  | some issuer =>
    exact ⟨(.envelope, { ValidatorResult.zero with envelopeError := e }), by
      simp [validateAccessTokenCached, hissuer, henvelope]⟩

theorem tokenFetch_cached {keyId : CString} {algorithm : UInt32} {x : CachedCall}
    (h : (tokenFetch url policy cachePolicy nowMs responseTimeSeconds issuer keyId algorithm).cached =
      some x) :
    cachePolicy = some x.cache ∧ x.call.expectedIssuer = issuer ∧ x.call.metadataUrl = url ∧
      x.call.policy = policy.issuerKey := by
  simp only [FetchArgs.cached, FetchArgs.call, tokenFetch] at h
  grind

end Pipeline

/-- The operations of the validation of a token, whatever answers the cache and
the network give and whoever else uses them in between. Two tokens with the same
key identifier and algorithm perform the same operations and leave the same state,
a token whose envelope is rejected performs none, and the cache keys are built from
the policy and from a metadata document that was read. -/
theorem retrieval_independent_of_claims (ext : Externals) (url : CString) (policy : ValidatorPolicy)
    (cachePolicy : Option IssuerKeyCachePolicy) (nowMs responseTimeSeconds : Int) {σ : Type}
    (perform : σ → (op : CallOp) → op.Ans → σ → Prop) :
    let validate := fun token : Bytes => validateAccessTokenCached ext (some token) (some url)
      (some policy) cachePolicy nowMs responseTimeSeconds
    (∀ (token token' : Bytes) (envelope envelope' : JwtEnvelope) (s s' : σ) (tr : CallTrace)
      (r : ValidatorReturn), jwtEnvelopeParse ext token policy.envelope = .ok envelope →
      jwtEnvelopeParse ext token' policy.envelope = .ok envelope' →
      envelope.keyId = envelope'.keyId → envelope.algorithm = envelope'.algorithm →
      Traced perform s [] (validate token) s' tr r →
      ∃ r', Traced perform s [] (validate token') s' tr r') ∧
    (∀ (token : Bytes) (e : JwtEnvelopeError) (s s' : σ) (tr : CallTrace) (r : ValidatorReturn),
      jwtEnvelopeParse ext token policy.envelope = .error e →
      Traced perform s [] (validate token) s' tr r → tr = [] ∧ s' = s) ∧
    ∀ (token : Bytes) (s s' : σ) (tr older : CallTrace) (r : ValidatorReturn) (op : CallOp)
      (answer : op.Ans) (key : Bytes), Traced perform s [] (validate token) s' tr r →
      ⟨op, answer⟩ :: older <:+ tr → op.key? = some key →
      ∃ cache issuer, cachePolicy = some cache ∧ policy.claims.issuer = some issuer ∧
        (metadataCacheKey cache issuer url = some key ∨
          ∃ metadataKey document, metadataCacheKey cache issuer url = some metadataKey ∧
            MetadataSeen metadataKey url older document ∧
            jwksCacheKey ext cache issuer url policy.issuerKey.metadata document = some key) := by
  intro validate
  refine ⟨fun token token' envelope envelope' s s' tr r he he' hkeyId halgorithm ht => ?_,
    fun token e s s' tr r he ht => ?_, fun token s s' tr older r op answer key ht hop hkey => ?_⟩
  · cases hissuer : policy.claims.issuer with
    | none =>
      simp only [validate, validate_without_issuer hissuer] at ht ⊢
      exact ⟨r, ht⟩
    | some issuer =>
      simp only [validate, validate_of_envelope hissuer he, validate_of_envelope hissuer he'] at ht ⊢
      rw [← hkeyId, ← halgorithm]
      obtain ⟨fetched, hf, _⟩ := Traced.bind_ret_iff.mp ht
      exact ⟨_, Traced.bind_ret_iff.mpr ⟨fetched, hf, rfl⟩⟩
  · obtain ⟨r', hr⟩ : ∃ r', validate token = .ret r' := validate_of_rejected he
    rw [hr] at ht
    cases ht
    exact ⟨rfl, rfl⟩
  · -- a program that returns at once performs nothing
    have hnone : ∀ r', validate token ≠ .ret r' := by
      intro r' hr
      rw [hr] at ht
      cases ht
      simp at hop
    cases hissuer : policy.claims.issuer with
    | none => exact absurd (validate_without_issuer hissuer) (hnone _)
    | some issuer =>
      cases he : jwtEnvelopeParse ext token policy.envelope with
      | error e =>
        obtain ⟨r', hr⟩ : ∃ r', validate token = .ret r' := validate_of_rejected he
        exact absurd hr (hnone r')
      | ok envelope =>
        simp only [validate, validate_of_envelope hissuer he] at ht
        obtain ⟨fetched, hf, _⟩ := Traced.bind_ret_iff.mp ht
        rcases (issuerKeyFetchCached_sat ext _).of_suffix hf.exec hop with hnil | hissues
        · simp at hnil
        · obtain ⟨x, hx, horigin⟩ := hissues.keyOrigin hkey
          obtain ⟨hcache, rfl, rfl, hpolicy⟩ := tokenFetch_cached hx
          exact ⟨x.cache, _, hcache, rfl, hpolicy ▸ horigin⟩

namespace Sample

def tokenPolicy : ValidatorPolicy where
  envelope := ⟨16384, 4096, 16384, algorithmEddsa, 3, false⟩
  issuerKey := policy
  claims := ⟨some (.lit "https://i"), some (.lit "db"), some (.lit "read"), some (.lit "sub"),
    some (.lit ""), none, 1700000000, 60, 63, 1024, 16, 64, 64, 63⟩
  identity := ⟨63, 63⟩

/-- The header of `token` with another payload and no proper signature. -/
def forgedToken : Bytes :=
  ascii ("eyJhbGciOiJFZERTQSIsImtpZCI6ImEiLCJ0eXAiOiJhdCtqd3QifQ." ++
    "eyJpc3N1ZXIiOiJodHRwczovL2kiLCJqd2tzX3VyaSI6Imh0dHBzOi8vaS9rIn0.AAAA")

def validate (token : Bytes) : CallProg ValidatorReturn :=
  validateAccessTokenCached tokenExternals (some token) (some (.lit "https://i/m")) (some tokenPolicy)
    (some cachePolicy) 0 1700000000

end Sample

/-- A forged token retrieves the key just as the one it imitates. -/
theorem retrieval_independent_of_claims_forged :
    ∃ s' tr r r', Traced perform Sample.emptyShared [] (Sample.validate Sample.token.bytes) s' tr r ∧
      r.1 = .ok ∧ s'.cache.control.stats.refreshes = 2 ∧
      Traced perform Sample.emptyShared [] (Sample.validate Sample.forgedToken) s' tr r' := by
  -- one evaluation for both, which reads the token only once
  obtain ⟨hparse, hrun⟩ :
      ((jwtEnvelopeParse Sample.tokenExternals Sample.token.bytes
        Sample.tokenPolicy.envelope).toOption.any fun e =>
          decide (e.keyId = .lit "a" ∧ e.algorithm = algorithmEddsa)) = true ∧
      (serve (Sample.validate Sample.token.bytes) (Sample.script "Cache-Control: max-age=60")
        Sample.emptyShared).any
          (fun p => decide (p.1.1 = .ok ∧ p.2.cache.control.stats.refreshes = 2)) = true := by
    simp only [Sample.validate, Sample.tokenExternals, Sample.token, Sample.keyObjectText, CString.lit_append]
    decide +kernel
  have hforged : ((jwtEnvelopeParse Sample.tokenExternals Sample.forgedToken
      Sample.tokenPolicy.envelope).toOption.any fun e =>
        decide (e.keyId = .lit "a" ∧ e.algorithm = algorithmEddsa)) = true := by
    decide +kernel
  obtain ⟨⟨r, s'⟩, hserve, htest⟩ := exists_of_any hrun
  obtain ⟨hok, hrefreshes⟩ := of_decide_eq_true htest
  obtain ⟨tr, ht⟩ := (serve_solo hserve).traced []
  obtain ⟨envelope, he, hsame⟩ := exists_of_any hparse
  obtain ⟨envelope', he', hsame'⟩ := exists_of_any hforged
  obtain ⟨hkey, halg⟩ := of_decide_eq_true hsame
  obtain ⟨hkey', halg'⟩ := of_decide_eq_true hsame'
  obtain ⟨r', ht'⟩ := (retrieval_independent_of_claims Sample.tokenExternals (.lit "https://i/m")
    Sample.tokenPolicy (some Sample.cachePolicy) 0 1700000000 perform).1 _ _ envelope envelope' _ _ _ _
    (ok_of_toOption he) (ok_of_toOption he') (hkey.trans hkey'.symm) (halg.trans halg'.symm) ht
  exact ⟨s', tr, r, r', ht, hok, hrefreshes, ht'⟩

end OAuthValidator
