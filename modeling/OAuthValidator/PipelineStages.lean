import OAuthValidator.Validator

/-! How the validation of a token can end, stage by stage, in any execution. -/

namespace OAuthValidator

open Program

/-- The result of a validation in which the key has been retrieved. -/
def fetchedResult (fetched : FetchReturn) : ValidatorResult :=
  { ValidatorResult.zero with
    issuerKeyError := fetched.1
    httpError := fetched.2.httpError
    metadataError := fetched.2.metadataError
    jwksError := fetched.2.jwksError }

/-- The stage at which a validation ends, once the key has been asked for. -/
inductive Verified (ext : Externals) (token : Bytes) (policy : ValidatorPolicy) (envelope : JwtEnvelope)
    (fetched : FetchReturn) : ValidatorReturn → Prop
  | issuerKey (hkey : fetched.1 ≠ .ok) :
      Verified ext token policy envelope fetched (.issuerKey, fetchedResult fetched)
  | signature (e : SignatureError) (hsignature : signatureVerify ext token fetched.2.selected = .error e) :
      Verified ext token policy envelope fetched
        (.signature, { fetchedResult fetched with signatureError := e })
  | claims (e : ClaimsError) (hkey : fetched.1 = .ok)
      (hsignature : signatureVerify ext token fetched.2.selected = .ok ())
      (hclaims : claimsValidate envelope.untrustedPayload policy.claims = .error e) :
      Verified ext token policy envelope fetched (.claims, { fetchedResult fetched with claimsError := e })
  | identity (claims : ValidatedClaims) (e : IdentityError)
      (hclaims : claimsValidate envelope.untrustedPayload policy.claims = .ok claims)
      (hidentity : identityBuild (some claims.identity.bytes) policy.identity = .error e) :
      Verified ext token policy envelope fetched (.identity, { fetchedResult fetched with identityError := e })
  | ok (claims : ValidatedClaims) (identity : Bytes) (hkey : fetched.1 = .ok)
      (hsignature : signatureVerify ext token fetched.2.selected = .ok ())
      (hclaims : claimsValidate envelope.untrustedPayload policy.claims = .ok claims)
      (hidentity : identityBuild (some claims.identity.bytes) policy.identity = .ok identity) :
      Verified ext token policy envelope fetched
        (.ok, { fetchedResult fetched with identity := some identity, expiresAt := claims.expiresAt })

theorem verifyToken_cases (ext : Externals) (token : Bytes) (policy : ValidatorPolicy) (envelope : JwtEnvelope)
    (fetched : FetchReturn) :
    Verified ext token policy envelope fetched (verifyToken ext token policy envelope fetched) := by
  fun_cases verifyToken ext token policy envelope fetched with
  | case1 result hkey => exact .issuerKey (by simpa using hkey)
  | case2 result hkey e hsignature => exact .signature e hsignature
  | case3 result hkey hsignature e hclaims => exact .claims e (by simpa using hkey) hsignature hclaims
  | case4 result hkey hsignature claims hclaims e hidentity => exact .identity claims e hclaims hidentity
  | case5 result hkey hsignature claims hclaims identity hidentity =>
    exact .ok claims identity (by simpa using hkey) hsignature hclaims hidentity

section Verified

variable {ext : Externals} {token : Bytes} {policy : ValidatorPolicy} {envelope : JwtEnvelope}
  {fetched : FetchReturn} {r : ValidatorReturn}

/-- An argument error of the claims stage in the result is one that the stage has reported. -/
theorem Verified.claims_invalidArgument (h : Verified ext token policy envelope fetched r) :
    r.2.claimsError = .invalidArgument ↔
      fetched.1 = .ok ∧ signatureVerify ext token fetched.2.selected = .ok () ∧
        claimsValidate envelope.untrustedPayload policy.claims = .error .invalidArgument := by
  cases h with
  | issuerKey hkey => simp [fetchedResult, ValidatorResult.zero, hkey]
  | signature e hsignature => simp [fetchedResult, ValidatorResult.zero, hsignature]
  | claims e hkey hsignature hclaims => simp [hkey, hsignature, hclaims]
  | identity claims e hclaims hidentity => simp [fetchedResult, ValidatorResult.zero, hclaims]
  | ok claims identity hkey hsignature hclaims hidentity =>
    simp [fetchedResult, ValidatorResult.zero, hclaims]

theorem Verified.other_errors (h : Verified ext token policy envelope fetched r) :
    r.2.envelopeError = .ok ∧ r.2.jwksError = fetched.2.jwksError ∧
      (r.2.identityError = .ok ∨
        ∃ subject, identityBuild (some subject) policy.identity = .error r.2.identityError) := by
  cases h with
  | identity claims e hclaims hidentity => exact ⟨rfl, rfl, Or.inr ⟨_, hidentity⟩⟩
  | _ => exact ⟨rfl, rfl, Or.inl rfl⟩

end Verified

/-- How a validation can end. -/
inductive ValidationEnd (ext : Externals) (token : Option Bytes) (metadataUrl : Option CString)
    (policy : ValidatorPolicy) (cachePolicy : Option IssuerKeyCachePolicy) (nowMs responseTimeSeconds : Int)
    (tr : CallTrace) : ValidatorReturn → Prop
  | missing (hmissing : token = none ∨ metadataUrl = none ∨ policy.claims.issuer = none) :
      ValidationEnd ext token metadataUrl policy cachePolicy nowMs responseTimeSeconds tr (.invalidArgument, .zero)
  | envelope (text : Bytes) (e : JwtEnvelopeError) (htoken : token = some text)
      (henvelope : jwtEnvelopeParse ext text policy.envelope = .error e) :
      ValidationEnd ext token metadataUrl policy cachePolicy nowMs responseTimeSeconds tr
        (.envelope, { ValidatorResult.zero with envelopeError := e })
  | verified (text : Bytes) (envelope : JwtEnvelope) (fetched : FetchReturn) (r : ValidatorReturn)
      (htoken : token = some text) (henvelope : jwtEnvelopeParse ext text policy.envelope = .ok envelope)
      (hfetched : Exec [] (issuerKeyFetchCached ext ⟨metadataUrl, policy.claims.issuer, some envelope.keyId,
        envelope.algorithm, some policy.issuerKey, cachePolicy, nowMs, responseTimeSeconds⟩) tr fetched)
      (hverified : Verified ext text policy envelope fetched r) :
      ValidationEnd ext token metadataUrl policy cachePolicy nowMs responseTimeSeconds tr r

theorem validateAccessTokenCached_cases {ext : Externals} {token : Option Bytes} {metadataUrl : Option CString}
    {policy : ValidatorPolicy} {cachePolicy : Option IssuerKeyCachePolicy} {nowMs responseTimeSeconds : Int}
    {tr : CallTrace} {r : ValidatorReturn}
    (h : Exec [] (validateAccessTokenCached ext token metadataUrl (some policy) cachePolicy nowMs
      responseTimeSeconds) tr r) :
    ValidationEnd ext token metadataUrl policy cachePolicy nowMs responseTimeSeconds tr r := by
  cases token with
  | none =>
    obtain ⟨⟩ := h
    exact .missing (Or.inl rfl)
  | some text =>
  cases metadataUrl with
  | none =>
    obtain ⟨⟩ := h
    exact .missing (Or.inr (Or.inl rfl))
  | some url =>
  rw [validateAccessTokenCached] at h
  split at h
  · next hissuer =>
    obtain ⟨⟩ := h
    exact .missing (Or.inr (Or.inr (by simpa using hissuer)))
  · split at h
    · next e henvelope =>
      obtain ⟨⟩ := h
      exact .envelope text e rfl henvelope
    · next envelope henvelope =>
      obtain ⟨fetched, hfetched, rfl⟩ := h.of_bind_ret
      exact .verified text envelope fetched _ rfl henvelope hfetched (verifyToken_cases ..)

end OAuthValidator
