import OAuthValidator.FreshnessHeaders

/-! The selected key of a retrieval that fails. A retrieval writes its selection
up to three times and has many exits after that. Exactly one of them leaves a
key behind a failure: the JWKS was fetched and a key selected from it, and then
the document could not be published. The error of the JWKS stage is always the
verdict on one document. -/

namespace OAuthValidator

open Program

/-- A failure comes without a key and a success with one. -/
def Settled (r : FetchReturn) : Prop :=
  (r.1 ≠ .ok → r.2.selected = none) ∧ (r.1 = .ok → r.2.selected.isSome = true)

/-- The exchanges end with a JWKS that has the key of the call and that was not
published: the call owned the refresh of the JWKS entry, and either the headers
of the response were unreadable or the cache refused the document. -/
def Unpublished (ext : Externals) (x : CachedCall) : CallTrace → Prop
  | ⟨.complete ticket _, accepted⟩ :: ⟨.transfer uri _, answer⟩ :: ⟨.begin key _ _ _, begun⟩ :: _ =>
    (begun : CacheRefreshResult × CacheRefresh) = (.started, ticket) ∧
      cacheKeyBuild (x.jwksKeyPolicy uri) = .ok key ∧
        ∃ response selected, (answer : Except HttpError HttpResponse) = .ok response ∧
          selectKey ext x.call response.body = .ok selected ∧
            (¬ JwksCalculable ext x response ∨ (accepted : Bool) = false)
  | _ => False

/-- The error of the JWKS stage in a result is the verdict on some document. -/
def JwksReported (ext : Externals) (call : FetchCall) (result : IssuerKeyResult) : Prop :=
  result.jwksError = .ok ∨ ∃ document, selectKey ext call document = .error result.jwksError

/-- What every return of a call through the cache satisfies. -/
structure Returned (ext : Externals) (x : CachedCall) (tr : CallTrace) (r : FetchReturn) : Prop where
  settled : Settled r ↔ ¬ Unpublished ext x tr
  reported : JwksReported ext x.call r.2

/-- Any operation may be asked for: only what is returned matters here. -/
abbrev anyOp : CallTrace → CallOp → Prop :=
  fun _ _ => True

theorem settled_failure {e : IssuerKeyError} {result : IssuerKeyResult} (he : e ≠ .ok)
    (hs : result.selected = none) : Settled (e, result) :=
  ⟨fun _ => hs, fun hok => absurd hok he⟩

theorem settled_success {result : IssuerKeyResult} (hs : result.selected.isSome = true) :
    Settled (.ok, result) :=
  ⟨fun h => absurd rfl h, fun _ => hs⟩

theorem afterSelect_isSome (result : IssuerKeyResult) (verdict : Except JwksError SelectedJwk) :
    (result.afterSelect verdict).selected.isSome = verdict.isOk := by
  cases verdict <;> rfl

theorem settled_afterSelect (result : IssuerKeyResult) (verdict : Except JwksError SelectedJwk)
    {e : IssuerKeyError} (he : e ≠ .ok) :
    Settled (if verdict.isOk then .ok else e, result.afterSelect verdict) := by
  cases verdict with
  | error _ => exact settled_failure he rfl
  | ok _ => exact settled_success rfl

theorem reported_afterSelect (ext : Externals) (call : FetchCall) (result : IssuerKeyResult)
    (document : Bytes) : JwksReported ext call (result.afterSelect (selectKey ext call document)) := by
  cases hv : selectKey ext call document with
  | error e => exact Or.inr ⟨document, hv⟩
  | ok _ => exact Or.inl rfl

section Walk

variable {ext : Externals} {x : CachedCall} {tr : CallTrace} {r : FetchReturn} {key : Bytes}

theorem returned_of_quiet (hs : Settled r) (hreported : JwksReported ext x.call r.2)
    (hquiet : ¬ Unpublished ext x tr) : Returned ext x tr r :=
  ⟨⟨fun _ => hquiet, fun _ => hs⟩, hreported⟩

/-- A call that fails before it has read a JWKS. -/
theorem returned_early {e : IssuerKeyError} {result : IssuerKeyResult} (he : e ≠ .ok)
    (hresult : result.selected = none ∧ result.jwksError = .ok) (hquiet : ¬ Unpublished ext x tr) :
    Returned ext x tr (e, result) :=
  returned_of_quiet (settled_failure he hresult.1) (Or.inl hresult.2) hquiet

/-- A call that waited has not just completed a refresh. -/
theorem Waited.quiet {timeoutMs : Int} {tr' : CallTrace} {w : Bool × Int}
    (h : Waited key timeoutMs tr tr' w) (hquiet : ¬ Unpublished ext x tr) :
    ¬ Unpublished ext x tr' := by
  cases h with
  | refused => exact hquiet
  | idle => exact id
  | slept => exact id

/-- The metadata entry has another key, so completing its refresh is no failed
publication of a JWKS. -/
theorem quiet_metadata (hkey : cacheKeyBuild x.metadataKeyPolicy = .ok key) {url : CString}
    {http : HttpPolicy} {answer : Except HttpError HttpResponse} {ticket ticket' : CacheRefresh}
    {c : Completion} {accepted unknownKid : Bool} {nowMs cooldownMs : Int}
    {began : CacheRefreshResult} :
    ¬ Unpublished ext x (⟨.complete ticket c, accepted⟩ :: ⟨.transfer url http, answer⟩ ::
      ⟨.begin key nowMs unknownKid cooldownMs, (began, ticket')⟩ :: tr) := by
  intro h
  have hkeys : CallKeys x url key key := ⟨hkey, h.2.1⟩
  exact hkeys.ne rfl

/-- Without an answer of its own, a call falls back on the key it has from a stale
document, if it has one. -/
theorem settled_fallback {fromStale : Bool} {result : IssuerKeyResult}
    (hkept : result.selected.isSome = fromStale) {e : IssuerKeyError} (he : e ≠ .ok) :
    Settled (if fromStale then .ok else e, result) := by
  cases fromStale with
  | false => exact settled_failure he (by simpa using hkept)
  | true => exact settled_success hkept

theorem fetchJwks_returned {uri host : CString} {fromStale unknownKid : Bool}
    {result : IssuerKeyResult} {ticket : CacheRefresh} {nowMs cooldownMs : Int}
    (hkey : cacheKeyBuild (x.jwksKeyPolicy uri) = .ok key)
    (hkept : result.selected.isSome = fromStale) (hreported : JwksReported ext x.call result) :
    Sat anyOp (Returned ext x)
      (⟨.begin key nowMs unknownKid cooldownMs, (.started, ticket)⟩ :: tr)
      (fetchJwks ext x ticket nowMs uri host fromStale result) := by
  unfold fetchJwks
  refine sat_getJson (fun e _ => ⟨trivial, fun _ => ?_⟩) fun _ => ⟨trivial, fun answer => ?_⟩
  · exact returned_of_quiet (settled_fallback hkept (by decide)) hreported id
  cases answer with
  | error e =>
    refine ⟨trivial, fun _ => returned_of_quiet (settled_fallback hkept (by decide)) hreported ?_⟩
    rintro ⟨_, _, response, _, hanswer, _⟩
    cases hanswer
  | ok response =>
    cases hv : selectKey ext x.call response.body with
    | error e =>
      simp only [hv, Except.isOk, Except.toBool, Bool.not_false, if_true]
      refine ⟨trivial, fun _ =>
        returned_of_quiet (settled_failure (by decide) rfl) (Or.inr ⟨response.body, hv⟩) ?_⟩
      rintro ⟨_, _, response', selected, hanswer, hselect, _⟩
      obtain rfl := Except.ok.inj hanswer
      exact absurd (hv.symm.trans hselect) (by simp)
    | ok selected =>
      simp only [hv, Except.isOk, Except.toBool, Bool.not_true, Bool.false_eq_true, if_false]
      -- the selection stands, whatever becomes of the publication
      have hunsettled : ¬ Settled (.cache, result.afterSelect (.ok selected)) := by
        intro h
        exact absurd (h.1 (by simp)) (by simp [IssuerKeyResult.afterSelect])
      refine sat_completeResponse (fun e he => ⟨trivial, fun accepted => ?_⟩)
        fun fresh hf => ⟨trivial, fun accepted => ?_⟩
      · have hcalc : ¬ JwksCalculable ext x response := by
          rintro ⟨fresh, hfresh⟩
          exact absurd (he.symm.trans hfresh) (by simp)
        exact ⟨⟨fun h => absurd h hunsettled, fun hquiet =>
          absurd ⟨rfl, hkey, response, selected, rfl, hv, Or.inl hcalc⟩ hquiet⟩, Or.inl rfl⟩
      · cases accepted with
        | false =>
          exact ⟨⟨fun h => absurd h hunsettled, fun hquiet =>
            absurd ⟨rfl, hkey, response, selected, rfl, hv, Or.inr rfl⟩ hquiet⟩, Or.inl rfl⟩
        | true =>
          refine returned_of_quiet (settled_success rfl) (Or.inl rfl) ?_
          rintro ⟨_, _, response', _, hanswer, _, hfailed⟩
          obtain rfl := Except.ok.inj hanswer
          rcases hfailed with hcalc | hrefused
          · exact hcalc ⟨fresh, hf⟩
          · cases hrefused

theorem jwksAfterWait_returned {nowMs elapsedMs : Int} {result : IssuerKeyResult}
    (hnone : result.selected = none) (hreported : JwksReported ext x.call result)
    (hquiet : ¬ Unpublished ext x tr) :
    Sat anyOp (Returned ext x) tr (jwksAfterWait ext x key nowMs elapsedMs result) := by
  have hfailed := settled_failure (e := .cache) (by decide) hnone
  unfold jwksAfterWait
  split
  · exact returned_of_quiet hfailed hreported hquiet
  · refine ⟨trivial, fun l => ?_⟩
    cases hu : IoLookup.usable l with
    | false =>
      simp only [hu, Bool.false_eq_true, if_false]
      exact returned_of_quiet hfailed hreported id
    | true =>
      simp only [hu, if_true]
      exact returned_of_quiet (settled_afterSelect result _ (by decide)) (reported_afterSelect ..) id

theorem refreshJwks_returned {uri host : CString} {fromStale : Bool} {result : IssuerKeyResult}
    {nowMs : Int} (hkey : cacheKeyBuild (x.jwksKeyPolicy uri) = .ok key)
    (hkept : result.selected.isSome = fromStale) (hreported : JwksReported ext x.call result) :
    Sat anyOp (Returned ext x) tr
      (refreshJwks ext x key nowMs uri host fromStale result) := by
  have hunowned := settled_fallback (e := .cache) hkept (by decide)
  unfold refreshJwks
  refine ⟨trivial, fun answer => ?_⟩
  obtain ⟨began, ticket⟩ := answer
  simp only
  split
  · next hstarted =>
    obtain rfl : began = .started := by simpa using hstarted
    exact fetchJwks_returned hkey hkept hreported
  split
  · next hwait =>
    have hnone : result.selected = none := by
      simp only [Bool.and_eq_true, Bool.not_eq_true'] at hwait
      simpa [hwait.1.1] using hkept
    refine sat_waitRefresh (fun _ _ _ => trivial) fun tr' w hw => ?_
    have hquiet : ¬ Unpublished ext x tr' := hw.quiet id
    split
    · exact jwksAfterWait_returned hnone hreported hquiet
    · exact returned_of_quiet hunowned hreported hquiet
  · exact returned_of_quiet hunowned hreported id

theorem obtainJwks_returned {nowMs : Int} {uri host : CString} (hquiet : ¬ Unpublished ext x tr) :
    Sat anyOp (Returned ext x) tr (obtainJwks ext x nowMs uri host) := by
  unfold obtainJwks
  cases hkey : cacheKeyBuild (x.jwksKeyPolicy uri) with
  | error e => exact returned_early (by simp) ⟨rfl, rfl⟩ hquiet
  | ok key =>
    refine ⟨trivial, fun l => ?_⟩
    cases hu : IoLookup.usable l with
    | false =>
      simp only [hu, Bool.false_eq_true, if_false]
      exact refreshJwks_returned hkey rfl (Or.inl rfl)
    | true =>
      simp only [hu, if_true]
      split_ifs with hfresh hrejected
      · rw [Bool.and_eq_true] at hfresh
        exact returned_of_quiet (settled_success ((afterSelect_isSome _ _).trans hfresh.1))
          (reported_afterSelect ..) id
      · rw [Bool.and_eq_true, Bool.not_eq_true'] at hrejected
        have hnone := (afterSelect_isSome .zero _).trans hrejected.1
        exact returned_of_quiet (settled_failure (by decide) (by simpa using hnone))
          (reported_afterSelect ..) id
      · exact refreshJwks_returned hkey (afterSelect_isSome _ _) (reported_afterSelect ..)

theorem afterMetadata_returned {nowMs : Int} {uri : CString} (hquiet : ¬ Unpublished ext x tr) :
    Sat anyOp (Returned ext x) tr (afterMetadata ext x nowMs uri) := by
  unfold afterMetadata
  split
  · exact returned_early (by simp) ⟨rfl, rfl⟩ hquiet
  · exact obtainJwks_returned hquiet

theorem useCachedMetadata_returned {nowMs : Int} {body : Bytes} (hquiet : ¬ Unpublished ext x tr) :
    Sat anyOp (Returned ext x) tr (useCachedMetadata ext x nowMs body) := by
  unfold useCachedMetadata
  split
  · exact returned_early (by simp) ⟨rfl, rfl⟩ hquiet
  · exact afterMetadata_returned hquiet

theorem fetchMetadata_returned {ticket : CacheRefresh} {unknownKid : Bool} {nowMs cooldownMs : Int}
    (hkey : cacheKeyBuild x.metadataKeyPolicy = .ok key) :
    Sat anyOp (Returned ext x)
      (⟨.begin key nowMs unknownKid cooldownMs, (.started, ticket)⟩ :: tr)
      (fetchMetadata ext x ticket) := by
  unfold fetchMetadata
  refine sat_getJson (fun e _ => ⟨trivial, fun _ => ?_⟩) fun _ => ⟨trivial, fun answer => ?_⟩
  · exact returned_early (by simp) ⟨rfl, rfl⟩ id
  cases answer with
  | error e =>
    exact ⟨trivial, fun _ => returned_early (by simp) ⟨rfl, rfl⟩ (quiet_metadata hkey)⟩
  | ok response =>
    show Sat _ _ _ (useFetchedMetadata ext x ticket response)
    unfold useFetchedMetadata
    split
    · exact ⟨trivial, fun _ =>
        returned_early (by simp) ⟨rfl, rfl⟩ (quiet_metadata hkey)⟩
    · refine sat_completeResponse (fun e _ => ⟨trivial, fun accepted => ?_⟩)
        fun fresh _ => ⟨trivial, fun accepted => ?_⟩
      · exact returned_early (by simp) ⟨rfl, rfl⟩ (quiet_metadata hkey)
      · split
        · exact afterMetadata_returned (quiet_metadata hkey)
        · exact returned_early (by simp) ⟨rfl, rfl⟩ (quiet_metadata hkey)

theorem metadataAfterWait_returned {elapsedMs : Int} (hquiet : ¬ Unpublished ext x tr) :
    Sat anyOp (Returned ext x) tr (metadataAfterWait ext x key elapsedMs) := by
  unfold metadataAfterWait
  split
  · exact returned_early (by simp) ⟨rfl, rfl⟩ hquiet
  · refine ⟨trivial, fun l => ?_⟩
    beta_reduce
    split
    · exact useCachedMetadata_returned id
    · exact returned_early (by simp) ⟨rfl, rfl⟩ id

theorem refreshMetadata_returned (hkey : cacheKeyBuild x.metadataKeyPolicy = .ok key) :
    Sat anyOp (Returned ext x) tr (refreshMetadata ext x key) := by
  unfold refreshMetadata
  refine ⟨trivial, fun answer => ?_⟩
  obtain ⟨began, ticket⟩ := answer
  simp only
  split
  · next hstarted =>
    obtain rfl : began = .started := by simpa using hstarted
    exact fetchMetadata_returned hkey
  split
  · refine sat_waitRefresh (fun _ _ _ => trivial) fun tr' w hw => ?_
    have hquiet : ¬ Unpublished ext x tr' := hw.quiet id
    split
    · exact metadataAfterWait_returned hquiet
    · exact returned_early (by simp) ⟨rfl, rfl⟩ hquiet
  · exact returned_early (by simp) ⟨rfl, rfl⟩ id

theorem fetchThroughCache_returned (ext : Externals) (x : CachedCall) :
    Sat anyOp (Returned ext x) [] (fetchThroughCache ext x) := by
  unfold fetchThroughCache
  split
  · exact returned_early (by simp) ⟨rfl, rfl⟩ id
  cases hkey : cacheKeyBuild x.metadataKeyPolicy with
  | error e => exact returned_early (by simp) ⟨rfl, rfl⟩ id
  | ok key =>
    refine ⟨trivial, fun l => ?_⟩
    beta_reduce
    split
    · exact useCachedMetadata_returned id
    · exact refreshMetadata_returned hkey

end Walk

theorem fetchUncached_settled (ext : Externals) (call : FetchCall) (tr : CallTrace) :
    Sat anyOp (fun _ r => Settled r) tr (fetchUncached ext call) := by
  unfold fetchUncached
  refine sat_getJson (fun e _ => settled_failure (by simp) rfl) fun _ => ⟨trivial, fun answer => ?_⟩
  cases answer with
  | error e => exact settled_failure (by simp) rfl
  | ok metadata =>
    simp only
    split
    · exact settled_failure (by simp) rfl
    split
    · exact settled_failure (by simp) rfl
    refine sat_getJson (fun e _ => settled_failure (by simp) rfl) fun _ => ⟨trivial, fun answer => ?_⟩
    cases answer with
    | error e => exact settled_failure (by simp) rfl
    | ok response => exact settled_afterSelect _ _ (by simp)

/-- A retrieval that fails leaves no key in its result, and one that succeeds
leaves one, unless it fetched a JWKS with the key and could not publish it. -/
theorem failed_retrieval_keeps_no_key_iff {ext : Externals} {args : FetchArgs} {tr : CallTrace}
    {r : FetchReturn} (run : Exec [] (issuerKeyFetchCached ext args) tr r) :
    Settled r ↔ ¬ ∃ x, args.cached = some x ∧ Unpublished ext x tr := by
  cases hx : args.cached with
  | some x =>
    rw [issuerKeyFetchCached_of_cached hx] at run
    simpa using ((fetchThroughCache_returned ext x).of_exec run).settled
  | none =>
    suffices hs : Settled r from ⟨fun _ => by simp, fun _ => hs⟩
    unfold FetchArgs.cached at hx
    unfold issuerKeyFetchCached at run
    split at run
    · obtain ⟨⟩ := run
      exact settled_failure (by simp) rfl
    · next call hcall =>
      split at run
      · exact (fetchUncached_settled ext call []).of_exec run
      · next cache hcache =>
        split_ifs at run with hvalid
        · obtain ⟨⟩ := run
          exact settled_failure (by simp) rfl
        · have hvalid : cachePolicyValid cache = true := by simpa using hvalid
          simp [hcall, hcache, hvalid] at hx

theorem failed_retrieval_keeps_no_key_iff_cached :
    ∃ tr r, Exec [] (issuerKeyFetchCached Sample.externals (Sample.args "a" 0)) tr r ∧ r.1 = .ok ∧
      (Settled r ↔ ¬ ∃ x, (Sample.args "a" 0).cached = some x ∧ Unpublished Sample.externals x tr) := by
  have hserve : (serve (issuerKeyFetchCached Sample.externals (Sample.args "a" 0))
      (Sample.script "Cache-Control: max-age=60") Sample.emptyShared).any
        (fun r => decide (r.1.1 = .ok)) = true := by
    decide +kernel
  obtain ⟨⟨r, s'⟩, hrun, hok⟩ := exists_of_any hserve
  obtain ⟨tr, hexec⟩ := serve_exec hrun
  exact ⟨tr, r, hexec, by simpa using hok, failed_retrieval_keeps_no_key_iff hexec⟩

namespace Sample

/-- The metadata and the JWKS of the issuer, the JWKS with the given header. -/
def jwksScript (header : String) : List Transfer :=
  [respond metadata, { respond (keyText "a" pointA) with headerLines := [ascii header] }]

end Sample

/-- A JWKS that arrives with `Expires: 0` fails the call and leaves its key. -/
theorem malformed_expires_keeps_key :
    ∃ tr r, Exec [] (issuerKeyFetchCached Sample.externals (Sample.args "a" 0)) tr r ∧ r.1 = .cache ∧
      r.2.selected.isSome = true := by
  have hserve : (serve (issuerKeyFetchCached Sample.externals (Sample.args "a" 0))
      (Sample.jwksScript "Expires: 0") Sample.emptyShared).any
        (fun r => decide (r.1.1 = .cache) && r.1.2.selected.isSome) = true := by
    decide +kernel
  obtain ⟨⟨r, s'⟩, hrun, hkept⟩ := exists_of_any hserve
  obtain ⟨tr, hexec⟩ := serve_exec hrun
  rw [Bool.and_eq_true, decide_eq_true_eq] at hkept
  exact ⟨tr, r, hexec, hkept⟩

end OAuthValidator
