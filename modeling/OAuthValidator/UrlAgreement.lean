import OAuthValidator.Replay

/-! The metadata parser and the transport check URLs separately. Both accept the
same ones, so a `jwks_uri` that was accepted with the metadata can later be refused
only for its host. -/

namespace OAuthValidator

/-- The authority of a URL that starts with one of the two schemes. -/
def authorityOf (text : Bytes) : Bytes :=
  urlAuthority text (if hasScheme text httpsScheme then httpsScheme else httpScheme).length

/-- The URLs that both checks let through. -/
structure AcceptableUrl (ext : Externals) (value : CString) (maximum : Nat) (allowHttp : Bool) : Prop where
  nonempty : value.bytes ≠ []
  length_le : value.bytes.length ≤ maximum
  octets : validUrlOctets value.bytes = true
  no_fragment : 0x23 ∉ value.bytes
  scheme : hasScheme value.bytes httpsScheme = true ∨
    (hasScheme value.bytes httpScheme = true ∧ allowHttp = true)
  authority : authorityOf value.bytes ≠ []
  no_userinfo : 0x40 ∉ authorityOf value.bytes
  host : ∃ host, curlHost ext value = some host

section Agreement

variable {ext : Externals} {value : CString} {maximum : Nat} {allowHttp : Bool}

theorem AcceptableUrl.not_unknown_scheme (h : AcceptableUrl ext value maximum allowHttp) :
    (!hasScheme value.bytes httpsScheme && !hasScheme value.bytes httpScheme) = false := by
  rcases h.scheme with hs | ⟨hs, _⟩ <;> simp [hs]

theorem AcceptableUrl.not_insecure (h : AcceptableUrl ext value maximum allowHttp) :
    (!hasScheme value.bytes httpsScheme && !allowHttp) = false := by
  rcases h.scheme with hs | ⟨_, hs⟩ <;> simp [hs]

theorem scheme_of_checks (hknown : ¬ (!hasScheme value.bytes httpsScheme &&
      !hasScheme value.bytes httpScheme) = true)
    (hsecure : ¬ (!hasScheme value.bytes httpsScheme && !allowHttp) = true) :
    hasScheme value.bytes httpsScheme = true ∨
      (hasScheme value.bytes httpScheme = true ∧ allowHttp = true) := by
  by_cases hs : hasScheme value.bytes httpsScheme = true
  · exact Or.inl hs
  · simp only [hs, Bool.not_false, Bool.true_and, Bool.not_eq_true', Bool.not_eq_false] at hknown hsecure
    exact Or.inr ⟨hknown, hsecure⟩

theorem validateUrl_checks :
    validateUrl ext value maximum allowHttp false =
      if value.bytes.isEmpty || maximum < value.bytes.length || !validUrlOctets value.bytes ||
        value.bytes.contains 0x23 then .invalidJwksUri
      else if !hasScheme value.bytes httpsScheme && !hasScheme value.bytes httpScheme then .invalidJwksUri
      else if !hasScheme value.bytes httpsScheme && !allowHttp then .insecureUri
      else if (authorityOf value.bytes).isEmpty || (authorityOf value.bytes).contains 0x40 then .invalidJwksUri
      else if (curlHost ext value).isNone then .invalidJwksUri
      else .ok := rfl

theorem parseUrl_checks :
    parseUrl ext value maximum allowHttp =
      if value.bytes.isEmpty || maximum < value.bytes.length then .error .invalidUrl
      else if !validUrlOctets value.bytes then .error .invalidUrl
      else if !hasScheme value.bytes httpsScheme && !hasScheme value.bytes httpScheme then .error .invalidUrl
      else if !hasScheme value.bytes httpsScheme && !allowHttp then .error .insecureUrl
      else if (authorityOf value.bytes).isEmpty || value.bytes.contains 0x23 ||
        (authorityOf value.bytes).contains 0x40 then .error .invalidUrl
      else match curlHost ext value with
        | none => .error .invalidUrl
        | some host => .ok host := rfl

theorem validateUrl_eq_ok :
    validateUrl ext value maximum allowHttp false = .ok ↔ AcceptableUrl ext value maximum allowHttp := by
  rw [validateUrl_checks]
  constructor
  · intro h
    split_ifs at h with hfirst hknown hsecure hauthority hcurl
    simp only [Bool.or_eq_true, List.isEmpty_iff, decide_eq_true_eq, Bool.not_eq_eq_eq_not, Bool.not_true,
      List.contains_eq_mem, not_or, Nat.not_lt, Bool.not_eq_false] at hfirst hauthority
    obtain ⟨⟨⟨hne, hle⟩, hoctets⟩, hfragment⟩ := hfirst
    have hhost := Option.ne_none_iff_exists'.mp (by simpa using hcurl)
    exact ⟨hne, hle, hoctets, hfragment, scheme_of_checks hknown hsecure, hauthority.1, hauthority.2, hhost⟩
  · intro h
    obtain ⟨host, hhost⟩ := h.host
    have hfirst : (value.bytes.isEmpty || decide (maximum < value.bytes.length) ||
        !validUrlOctets value.bytes || value.bytes.contains 0x23) = false := by
      simp [h.nonempty, h.length_le, h.octets, h.no_fragment]
    have hauthority : ((authorityOf value.bytes).isEmpty || (authorityOf value.bytes).contains 0x40) = false := by
      simp [h.authority, h.no_userinfo]
    simp only [hfirst, h.not_unknown_scheme, h.not_insecure, hauthority, hhost, Option.isNone_some,
      Bool.false_eq_true, if_false]

-- Here the fragment is looked for only after the scheme.
theorem parseUrl_eq_ok :
    (∃ host, parseUrl ext value maximum allowHttp = .ok host) ↔
      AcceptableUrl ext value maximum allowHttp := by
  rw [parseUrl_checks]
  constructor
  · rintro ⟨host, h⟩
    split_ifs at h with hlength hoctets hknown hsecure hauthority
    cases hcurl : curlHost ext value with
    | none => simp [hcurl] at h
    | some found =>
      simp only [Bool.or_eq_true, List.isEmpty_iff, decide_eq_true_eq, Bool.not_eq_eq_eq_not, Bool.not_true,
        List.contains_eq_mem, not_or, Nat.not_lt, Bool.not_eq_false] at hlength hoctets hauthority
      obtain ⟨⟨hne, hfragment⟩, huserinfo⟩ := hauthority
      exact ⟨hlength.1, hlength.2, hoctets, hfragment, scheme_of_checks hknown hsecure, hne, huserinfo,
        found, hcurl⟩
  · intro h
    obtain ⟨host, hhost⟩ := h.host
    have hlength : (value.bytes.isEmpty || decide (maximum < value.bytes.length)) = false := by
      simp [h.nonempty, h.length_le]
    have hoctets : (!validUrlOctets value.bytes) = false := by simp [h.octets]
    have hauthority : ((authorityOf value.bytes).isEmpty || value.bytes.contains 0x23 ||
        (authorityOf value.bytes).contains 0x40) = false := by
      simp [h.authority, h.no_fragment, h.no_userinfo]
    refine ⟨host, ?_⟩
    simp only [hlength, hoctets, h.not_unknown_scheme, h.not_insecure, hauthority, hhost,
      Bool.false_eq_true, if_false]

end Agreement

theorem metadataParse_uri {ext : Externals} {document : Bytes} {expectedIssuer uri : CString}
    {policy : MetadataPolicy} (h : metadataParse ext document expectedIssuer policy = .ok uri) :
    validateUrl ext uri policy.maxUrlSize policy.allowInsecureHttp false = .ok := by
  rw [metadataParse] at h
  split_ifs at h with hlimits hempty hsize hissuer
  cases hjson : ext.jsonLoadb document with
  | none => simp [hjson] at h
  | some root =>
    simp only [hjson] at h
    split_ifs at h with hobject
    cases hname : Json.str? (root.get? (.lit "issuer")) with
    | none => simp [hname] at h
    | some issuer =>
      simp only [hname] at h
      split_ifs at h with hmismatch
      cases huri : Json.str? (root.get? (.lit "jwks_uri")) with
      | none => simp [huri] at h
      | some found =>
        simp only [huri] at h
        cases hvalid : validateUrl ext found policy.maxUrlSize policy.allowInsecureHttp false with
        | ok =>
          simp only [hvalid] at h
          obtain rfl := Except.ok.inj h
          exact hvalid
        | _ => simp [hvalid] at h

/-- Every URL is refused under the policy. -/
def RefusesEveryUrl (ext : Externals) (policy : HttpPolicy) : Prop :=
  ∀ url, requestError ext url policy = some .invalidArgument

theorem requestError_acceptable {ext : Externals} {uri : CString} {policy : HttpPolicy} {e : HttpError}
    (hurl : AcceptableUrl ext uri policy.maxUrlSize policy.allowInsecureHttp)
    (h : requestError ext uri policy = some e) :
    e = .hostNotAllowed ∨ (e = .invalidArgument ∧ RefusesEveryUrl ext policy) := by
  obtain ⟨host, hparse⟩ := parseUrl_eq_ok.mpr hurl
  unfold requestError at h
  split at h
  · next hnone => exact Or.inr ⟨(Option.some.inj h).symm, fun url => by simp [requestError, hnone]⟩
  · next allowedHost hsome =>
    split at h
    · next hargs =>
      exact Or.inr ⟨(Option.some.inj h).symm, fun url => by simp only [requestError, hsome, hargs, if_true]⟩
    · simp only [validateRequestUrl, hparse] at h
      split at h
      · next e' hrefused =>
        split at hrefused
        · simp at hrefused
        · rw [Except.error.inj hrefused]
          exact Or.inl (Option.some.inj h).symm
      · simp at h

/-- The two validators accept the same URLs. -/
theorem url_validators_agree (ext : Externals) :
    (∀ (value : CString) (maximum : Nat) (allowHttp : Bool),
      validateUrl ext value maximum allowHttp false = .ok ↔
        ∃ host, parseUrl ext value maximum allowHttp = .ok host) ∧
    (∀ (document : Bytes) (expectedIssuer uri : CString) (metadata : MetadataPolicy) (policy : HttpPolicy),
      metadataParse ext document expectedIssuer metadata = .ok uri →
      policy.maxUrlSize = metadata.maxUrlSize → policy.allowInsecureHttp = metadata.allowInsecureHttp →
      (∀ allowedHost e, validateRequestUrl ext uri policy allowedHost = .error e → e = .hostNotAllowed) ∧
      ∀ e, requestError ext uri policy = some e →
        e = .hostNotAllowed ∨ (e = .invalidArgument ∧ RefusesEveryUrl ext policy)) := by
  refine ⟨fun value maximum allowHttp => validateUrl_eq_ok.trans parseUrl_eq_ok.symm, ?_⟩
  intro document expectedIssuer uri metadata policy hparse hsize hinsecure
  have hurl := validateUrl_eq_ok.mp (metadataParse_uri hparse)
  rw [← hsize, ← hinsecure] at hurl
  refine ⟨fun allowedHost e hrefused => ?_, fun e hrefused => requestError_acceptable hurl hrefused⟩
  obtain ⟨host, hhost⟩ := parseUrl_eq_ok.mpr hurl
  simp only [validateRequestUrl, hhost] at hrefused
  split at hrefused
  · simp at hrefused
  · exact (Except.error.inj hrefused).symm

theorem url_validators_agree_refused_host :
    metadataParse Sample.externals Sample.metadata (.lit "https://i") ⟨65536, 2048, false⟩ = .ok (.lit "https://i/k") ∧
    requestError Sample.externals (.lit "https://i/k") { Sample.http with allowedHost := some (.lit "j") } =
      some .hostNotAllowed := by
  have hparse : metadataParse Sample.externals Sample.metadata (.lit "https://i") ⟨65536, 2048, false⟩ =
      .ok (.lit "https://i/k") := by decide
  refine ⟨hparse, ?_⟩
  have hagree := (url_validators_agree Sample.externals).2 Sample.metadata (.lit "https://i") (.lit "https://i/k")
    ⟨65536, 2048, false⟩ { Sample.http with allowedHost := some (.lit "j") } hparse rfl rfl
  cases hrefused : requestError Sample.externals (.lit "https://i/k")
      { Sample.http with allowedHost := some (.lit "j") } with
  | none => exact absurd hrefused (by decide)
  | some e =>
    rcases hagree.2 e hrefused with rfl | ⟨rfl, hall⟩
    · rfl
    · exact absurd hrefused (by decide)

end OAuthValidator
