import OAuthValidator.Deployment
import OAuthValidator.Replay

/-! The cache is transparent. Calls that follow one another, against an issuer
that always serves the same documents, succeed with the cache exactly when they
do without it, and select the same key. Both are compared with what the
documents offer. -/

namespace OAuthValidator

open Program

namespace Deployment

variable {ext : Externals} {d : Deployment ext}

/-- The documents of the issuer, if they may be requested, offer a key. -/
def Offers (d : Deployment ext) (call : FetchCall) (selected : SelectedJwk) : Prop :=
  requestError ext d.metadataUrl d.policy.metadataHttp = none ∧ ∃ uri host, d.Discovers uri host ∧
    requestError ext uri (d.jwksHttp host) = none ∧
    selectKey ext call (d.document uri) = .ok selected

/-- A call returns the key that is on offer, and fails if there is none. -/
structure Agrees (d : Deployment ext) (call : FetchCall) (r : FetchReturn) : Prop where
  sound : r.1 = .ok → ∃ selected, r.2.selected = some selected ∧ d.Offers call selected
  complete : ∀ selected, d.Offers call selected → r.1 = .ok

theorem Discovers.unique {uri uri' host host' : CString} (h : d.Discovers uri host)
    (h' : d.Discovers uri' host') : uri = uri' ∧ host = host' :=
  ⟨Except.ok.inj (h.parse.symm.trans h'.parse), Except.ok.inj (h.host.symm.trans h'.host)⟩

theorem Offers.unique {call : FetchCall} {selected selected' : SelectedJwk}
    (h : d.Offers call selected) (h' : d.Offers call selected') : selected = selected' := by
  obtain ⟨_, uri, host, hd, _, hs⟩ := h
  obtain ⟨_, uri', host', hd', _, hs'⟩ := h'
  obtain ⟨rfl, rfl⟩ := hd.unique hd'
  exact Except.ok.inj (hs.symm.trans hs')

theorem Agrees.of_offer {call : FetchCall} {result : IssuerKeyResult} {selected : SelectedJwk}
    (h : d.Offers call selected) (hr : result.selected = some selected) : d.Agrees call (.ok, result) :=
  ⟨fun _ => ⟨selected, hr, h⟩, fun _ _ => rfl⟩

theorem Agrees.of_none {call : FetchCall} {r : FetchReturn} (h : ∀ selected, ¬ d.Offers call selected)
    (hr : r.1 ≠ .ok) : d.Agrees call r :=
  ⟨fun hok => absurd hok hr, fun selected ho => absurd ho (h selected)⟩

section Rules

variable {α : Type} {Q : α → Shared → Prop} {s : Shared} {timeSeconds nowMs : Int} {key : Bytes}
  {ticket : CacheRefresh}

/-- Whatever a lookup copies is one of the documents. -/
theorem ensures_lookup {allowStale : Bool} {outputSize : Nat} {next : IoLookup → CallProg α}
    (h : d.Idle s) (hnext : ∀ l s', d.Idle s' → (l.usable = true → d.Source key l.payload) →
      Ensures (d.perform timeSeconds) Q s' (next l)) :
    Ensures (d.perform timeSeconds) Q s (.ask (.lookup key nowMs allowStale outputSize) next) := by
  intro l s' hp
  have hp : OAuthValidator.perform s (.lookup key nowMs allowStale outputSize) l s' := hp
  refine hnext l s' (h.quiet hp (perform_effect h.inv hp) (by simp)) fun hu => ?_
  obtain ⟨stored, hm, hpay, _⟩ := sharedLookup_usable hp.1 hu
  exact hpay ▸ h.stored key stored hm

theorem ensures_begin {unknownKid : Bool} {cooldownMs : Int}
    {next : CacheRefreshResult × CacheRefresh → CallProg α} (h : d.Idle s) (hk : d.Key key)
    (hn : 0 ≤ nowMs) (hc : 0 ≤ cooldownMs)
    (started : ∀ ticket s', d.Refreshing ticket key s' →
      Ensures (d.perform timeSeconds) Q s' (next (.started, ticket)))
    (suppressed : unknownKid = true → ∀ ticket s', d.Idle s' →
      Ensures (d.perform timeSeconds) Q s' (next (.suppressed, ticket))) :
    Ensures (d.perform timeSeconds) Q s (.ask (.begin key nowMs unknownKid cooldownMs) next) := by
  rintro ⟨r, ticket⟩ s' hp
  have hp : OAuthValidator.perform s (.begin key nowMs unknownKid cooldownMs) (r, ticket) s' := hp
  rcases h.begin hk hn hc hp with ⟨rfl, hs⟩ | ⟨rfl, hu, hs⟩
  · exact started ticket s' hs
  · exact suppressed hu ticket s' hs

theorem ensures_getJson {url : CString} {policy : HttpPolicy}
    {f : Except HttpError HttpResponse → CallProg α}
    (refused : ∀ e, requestError ext url policy = some e → Ensures (d.perform timeSeconds) Q s (f (.error e)))
    (served : requestError ext url policy = none → ∀ response, d.Serves timeSeconds url response →
      response.body.length ≤ policy.maxResponseSize →
      Ensures (d.perform timeSeconds) Q s (f (.ok response))) :
    Ensures (d.perform timeSeconds) Q s ((getJson ext url policy).bind f) := by
  unfold getJson
  cases he : requestError ext url policy with
  | some e => exact refused e he
  | none =>
    rintro answer s' ⟨⟨⟨transfer, ht⟩, rfl⟩, response, rfl, hserves⟩
    exact served he response hserves (finishTransfer_length ht.symm)

theorem ensures_failed {next : Bool → CallProg α} (h : d.Refreshing ticket key s)
    (hnext : ∀ accepted s', d.Idle s' → Ensures (d.perform timeSeconds) Q s' (next accepted)) :
    Ensures (d.perform timeSeconds) Q s (.ask (.complete ticket (failedCompletion nowMs)) next) := by
  intro accepted s' hp
  have hp : OAuthValidator.perform s (.complete ticket (failedCompletion nowMs)) accepted s' := hp
  exact hnext accepted s' (h.complete hp (by simp [Completion.outcome, failedCompletion])).2

/-- A document that was received is published, if it may be stored at all. -/
theorem ensures_completeResponse {graceMs : Int} {policy : HttpFreshnessPolicy} {response : HttpResponse}
    {f : Bool → CallProg α} (h : d.Refreshing ticket key s) (hn : 0 ≤ nowMs) (hg : 0 ≤ graceMs)
    (hfresh : ∃ fresh, response.freshness ext timeSeconds policy = .ok fresh)
    (hpos : response.body ≠ []) (hsource : d.Source key response.body)
    (hlen : response.body.length ≤ cacheMaxPayloadSize)
    (hnext : ∀ s', d.Idle s' → Ensures (d.perform timeSeconds) Q s' (f true)) :
    Ensures (d.perform timeSeconds) Q s
      ((completeResponse ext ticket nowMs timeSeconds policy graceMs response).bind f) := by
  obtain ⟨fresh, hf⟩ := hfresh
  have httl : 0 ≤ fresh.ttlMs := (httpFreshnessCalculate_ttl hf).1
  unfold completeResponse
  rw [hf]
  intro accepted s' hp
  have hp : OAuthValidator.perform s
    (.complete ticket (publishCompletion nowMs fresh graceMs response.body)) accepted s' := hp
  have hvalid : (publishCompletion nowMs fresh graceMs response.body).rejected = false :=
    Completion.rejected_eq_false hn httl hg hpos hlen
  obtain ⟨rfl, hs⟩ := h.complete hp fun stored ho => by
    rw [Completion.outcome_put ho]
    exact hsource
  rw [hvalid]
  exact hnext s' hs

end Rules

section Walk

variable {s : Shared} {keyId : CString} {algorithm : UInt32} {nowMs timeSeconds : Int} {uri host : CString}
  {key : Bytes} {ticket : CacheRefresh}

/-- How a cached call ends. -/
def Ends (d : Deployment ext) (x : CachedCall) (r : FetchReturn) (s : Shared) : Prop :=
  d.Idle s ∧ d.Agrees x.call r

/-- What is on offer once the metadata have been read. -/
theorem offers_iff {call : FetchCall} {selected : SelectedJwk}
    (hallowed : requestError ext d.metadataUrl d.policy.metadataHttp = none) (found : d.Discovers uri host) :
    d.Offers call selected ↔ requestError ext uri (d.jwksHttp host) = none ∧
      selectKey ext call (d.document uri) = .ok selected := by
  constructor
  · rintro ⟨_, uri', host', found', ha, hs⟩
    obtain ⟨rfl, rfl⟩ := found.unique found'
    exact ⟨ha, hs⟩
  · rintro ⟨ha, hs⟩
    exact ⟨hallowed, uri, host, found, ha, hs⟩

theorem fetchJwks_ends {fromStale : Bool} {result : IssuerKeyResult} (h : d.Refreshing ticket key s)
    (hn : 0 ≤ nowMs) (hallowed : requestError ext d.metadataUrl d.policy.metadataHttp = none)
    (found : d.Discovers uri host) (built : cacheKeyBuild (d.jwksKeyPolicy uri) = .ok key)
    (fallback : fromStale = true → requestError ext uri (d.jwksHttp host) = none) :
    Ensures (d.perform timeSeconds) (d.Ends (d.call keyId algorithm nowMs timeSeconds)) s
      (fetchJwks ext (d.call keyId algorithm nowMs timeSeconds) ticket nowMs uri host fromStale result) := by
  have hoffer : ∀ selected, d.Offers (d.call keyId algorithm nowMs timeSeconds).call selected ↔ _ :=
    fun _ => offers_iff hallowed found
  unfold fetchJwks
  refine ensures_getJson (fun e he => ?_) fun ha response hserves hlen => ?_
  · have he : requestError ext uri (d.jwksHttp host) = some e := he
    have hstale : fromStale = false := by
      cases fromStale with
      | false => rfl
      | true => simp [fallback rfl] at he
    refine ensures_failed h fun accepted s' hs => ⟨hs, .of_none (fun selected ho => ?_) ?_⟩
    · simp [((hoffer selected).mp ho).1] at he
    · simp [hstale]
  · have ha : requestError ext uri (d.jwksHttp host) = none := ha
    have hbody : response.body = d.document uri := hserves.body
    have hcapacity : response.body.length ≤ d.capacity := hlen.trans (Nat.le_max_right _ _)
    simp only [hbody]
    cases hv : selectKey ext (d.call keyId algorithm nowMs timeSeconds).call (d.document uri) with
    | error e =>
      refine ensures_failed h fun accepted s' hs => ⟨hs, .of_none (fun selected ho => ?_) (by simp)⟩
      simp [((hoffer selected).mp ho).2] at hv
    | ok selected =>
      have hsource : d.Source key response.body :=
        hbody ▸ .jwks found built ha (hbody ▸ hcapacity)
      refine ensures_completeResponse h hn (cachePolicyValid_bounds d.valid).grace hserves.jwks
        (hbody ▸ jwksSelect_ne_nil hv) hsource (hcapacity.trans d.capacity_le) fun s' hs => ?_
      exact ⟨hs, .of_offer ((hoffer selected).mpr ⟨ha, hv⟩) rfl⟩

/-- A begin is held back only for an unknown key id, and then nothing is on
offer. -/
theorem refreshJwks_ends {fromStale : Bool} {result : IssuerKeyResult} (h : d.Idle s) (hn : 0 ≤ nowMs)
    (hallowed : requestError ext d.metadataUrl d.policy.metadataHttp = none)
    (found : d.Discovers uri host) (built : cacheKeyBuild (d.jwksKeyPolicy uri) = .ok key)
    (fallback : fromStale = true → requestError ext uri (d.jwksHttp host) = none)
    (unknown : result.jwksError = .keyNotFound → fromStale = false ∧
      ∀ selected, ¬ d.Offers (d.call keyId algorithm nowMs timeSeconds).call selected) :
    Ensures (d.perform timeSeconds) (d.Ends (d.call keyId algorithm nowMs timeSeconds)) s
      (refreshJwks ext (d.call keyId algorithm nowMs timeSeconds) key nowMs uri host fromStale result) := by
  unfold refreshJwks
  refine ensures_begin h (Or.inr ⟨uri, found.parse, built⟩) hn (cachePolicyValid_bounds d.valid).cooldown (fun ticket s' hs => ?_)
    fun hu ticket s' hs => ?_
  · exact fetchJwks_ends hs hn hallowed found built fallback
  · obtain ⟨rfl, hnone⟩ := unknown (beq_iff_eq.mp hu)
    exact ⟨hs, .of_none hnone (by simp)⟩

theorem obtainJwks_ends (h : d.Idle s) (hn : 0 ≤ nowMs)
    (hallowed : requestError ext d.metadataUrl d.policy.metadataHttp = none)
    (found : d.Discovers uri host) :
    Ensures (d.perform timeSeconds) (d.Ends (d.call keyId algorithm nowMs timeSeconds)) s
      (obtainJwks ext (d.call keyId algorithm nowMs timeSeconds) nowMs uri host) := by
  obtain ⟨key, built⟩ := d.jwksKey_fits uri found.parse
  have hbuilt : cacheKeyBuild ((d.call keyId algorithm nowMs timeSeconds).jwksKeyPolicy uri) = .ok key :=
    built
  have hoffer : ∀ selected, d.Offers (d.call keyId algorithm nowMs timeSeconds).call selected ↔ _ :=
    fun _ => offers_iff hallowed found
  unfold obtainJwks
  rw [hbuilt]
  refine ensures_lookup h fun l s' hs hl => ?_
  cases hu : l.usable with
  | false =>
    simp only [Bool.false_eq_true, if_false]
    exact refreshJwks_ends hs hn hallowed found built (by simp) (by simp [IssuerKeyResult.zero])
  | true =>
    obtain ⟨hpay, ha, _⟩ := (hl hu).of_jwksKey found built
    simp only [if_true, hpay]
    cases hv : selectKey ext (d.call keyId algorithm nowMs timeSeconds).call (d.document uri) with
    | ok selected =>
      simp only [Except.isOk, Except.toBool, Bool.true_and, Bool.not_true, Bool.false_and,
        Bool.false_eq_true, if_false]
      split
      · exact ⟨hs, .of_offer ((hoffer selected).mpr ⟨ha, hv⟩) rfl⟩
      · exact refreshJwks_ends hs hn hallowed found built (fun _ => ha)
          (by simp [IssuerKeyResult.afterSelect])
    | error e =>
      have hnone : ∀ selected, ¬ d.Offers (d.call keyId algorithm nowMs timeSeconds).call selected := by
        intro selected ho
        simp [((hoffer selected).mp ho).2] at hv
      simp only [Except.isOk, Except.toBool, Bool.false_and, Bool.not_false, Bool.true_and,
        Bool.false_eq_true, if_false]
      split
      · exact ⟨hs, .of_none hnone (by simp)⟩
      · exact refreshJwks_ends hs hn hallowed found built (by simp) fun _ => ⟨rfl, hnone⟩

theorem afterMetadata_ends (h : d.Idle s) (hn : 0 ≤ nowMs)
    (hallowed : requestError ext d.metadataUrl d.policy.metadataHttp = none)
    (hparse : metadataParse ext d.metadata d.expectedIssuer d.policy.metadata = .ok uri) :
    Ensures (d.perform timeSeconds) (d.Ends (d.call keyId algorithm nowMs timeSeconds)) s
      (afterMetadata ext (d.call keyId algorithm nowMs timeSeconds) nowMs uri) := by
  unfold afterMetadata
  split
  · next e he =>
    have he : httpUrlHost ext d.metadataUrl d.policy.metadataHttp.maxUrlSize
      d.policy.metadataHttp.allowInsecureHttp = .error e := he
    refine ⟨h, .of_none (fun selected ho => ?_) (by simp)⟩
    obtain ⟨_, _, _, found, _⟩ := ho
    simp [found.host] at he
  · next host hhost => exact obtainJwks_ends h hn hallowed ⟨hparse, hhost⟩

theorem no_offer_of_parse {call : FetchCall} {e : MetadataError}
    (h : metadataParse ext d.metadata d.expectedIssuer d.policy.metadata = .error e)
    (selected : SelectedJwk) : ¬ d.Offers call selected := by
  rintro ⟨_, _, _, found, _⟩
  simp [found.parse] at h

theorem fetchMetadata_ends (h : d.Refreshing ticket d.metadataKey s) (hn : 0 ≤ nowMs) :
    Ensures (d.perform timeSeconds) (d.Ends (d.call keyId algorithm nowMs timeSeconds)) s
      (fetchMetadata ext (d.call keyId algorithm nowMs timeSeconds) ticket) := by
  unfold fetchMetadata
  refine ensures_getJson (fun e he => ?_) fun ha response hserves hlen => ?_
  · refine ensures_failed h fun accepted s' hs => ⟨hs, .of_none (fun selected ho => ?_) (by simp)⟩
    have he : requestError ext d.metadataUrl d.policy.metadataHttp = some e := he
    simp [ho.1] at he
  · have hbody : response.body = d.metadata := hserves.body
    have hcapacity : response.body.length ≤ d.capacity := hlen.trans (Nat.le_max_left _ _)
    have hsource : d.Source d.metadataKey response.body := hbody ▸ .metadata ha (hbody ▸ hcapacity)
    show Ensures _ _ _ (useFetchedMetadata ext (d.call keyId algorithm nowMs timeSeconds) ticket response)
    unfold useFetchedMetadata
    split
    · next e hp =>
      have hp : metadataParse ext d.metadata d.expectedIssuer d.policy.metadata = .error e := hbody ▸ hp
      exact ensures_failed h fun accepted s' hs => ⟨hs, .of_none (no_offer_of_parse hp) (by simp)⟩
    · next uri hp =>
      have hp' : metadataParse ext d.metadata d.expectedIssuer d.policy.metadata = .ok uri := hbody ▸ hp
      exact ensures_completeResponse h hn (Int.le_refl 0) hserves.metadata (metadataParse_ne_nil hp) hsource
        (hcapacity.trans d.capacity_le) fun s' hs => afterMetadata_ends hs hn ha hp'

theorem fetchThroughCache_ends (h : d.Idle s) (hn : 0 ≤ nowMs) :
    Ensures (d.perform timeSeconds) (d.Ends (d.call keyId algorithm nowMs timeSeconds)) s
      (fetchThroughCache ext (d.call keyId algorithm nowMs timeSeconds)) := by
  have hcapacity : ((d.call keyId algorithm nowMs timeSeconds).capacity == 0 ||
      decide (cacheMaxPayloadSize < (d.call keyId algorithm nowMs timeSeconds).capacity)) = false := by
    have hpos : (d.call keyId algorithm nowMs timeSeconds).capacity ≠ 0 := Nat.ne_of_gt d.capacity_pos
    have hle : (d.call keyId algorithm nowMs timeSeconds).capacity ≤ cacheMaxPayloadSize := d.capacity_le
    simp [hpos, hle]
  have hkey : cacheKeyBuild (d.call keyId algorithm nowMs timeSeconds).metadataKeyPolicy =
    .ok d.metadataKey := d.metadataKey_eq
  unfold fetchThroughCache
  rw [hcapacity, hkey]
  refine ensures_lookup h fun l s' hs hl => ?_
  split
  · next hit =>
    have hu : l.usable = true := by
      simp only [IoLookup.hit, Bool.and_eq_true, beq_iff_eq] at hit
      simp [IoLookup.usable, hit]
    obtain ⟨hpay, ha, _⟩ := (hl hu).of_metadataKey
    unfold useCachedMetadata
    split
    · next e hp =>
      have hp : metadataParse ext d.metadata d.expectedIssuer d.policy.metadata = .error e := hpay ▸ hp
      exact ⟨hs, .of_none (no_offer_of_parse hp) (by simp)⟩
    · next uri hp => exact afterMetadata_ends hs hn ha (hpay ▸ hp)
  · refine ensures_begin hs (Or.inl rfl) hn (Int.le_refl 0) (fun ticket s'' hs' => ?_) (by simp)
    exact fetchMetadata_ends hs' hn

/-- Without the cache the documents are requested as they are on offer. -/
theorem fetchUncached_agrees {nowMs' timeSeconds' : Int} :
    Ensures (d.perform timeSeconds)
      (fun r _ => d.Agrees (d.call keyId algorithm nowMs' timeSeconds').call r) s
      (fetchUncached ext (d.call keyId algorithm nowMs' timeSeconds').call) := by
  unfold fetchUncached
  refine ensures_getJson (fun e he => ?_) fun ha metadata hserves _ => ?_
  · have he : requestError ext d.metadataUrl d.policy.metadataHttp = some e := he
    exact .of_none (fun selected ho => by simp [ho.1] at he) (by simp)
  · have hbody : metadata.body = d.metadata := hserves.body
    simp only [hbody]
    split
    · next e hp => exact .of_none (no_offer_of_parse hp) (by simp)
    · next uri hparse =>
      split
      · next e he =>
        have he : httpUrlHost ext d.metadataUrl d.policy.metadataHttp.maxUrlSize
          d.policy.metadataHttp.allowInsecureHttp = .error e := he
        refine .of_none (fun selected ho => ?_) (by simp)
        obtain ⟨_, _, _, found, _⟩ := ho
        simp [found.host] at he
      · next host hhost =>
        have found : d.Discovers uri host := ⟨hparse, hhost⟩
        refine ensures_getJson (fun e he => ?_) fun hallowed response hserves _ => ?_
        · have he : requestError ext uri (d.jwksHttp host) = some e := he
          refine .of_none (fun selected ho => ?_) (by simp)
          simp [((offers_iff ha found).mp ho).1] at he
        · have hbody : response.body = d.document uri := hserves.body
          simp only [hbody]
          cases hv : selectKey ext (d.call keyId algorithm nowMs' timeSeconds').call (d.document uri) with
          | error e =>
            refine .of_none (fun selected ho => ?_) (by simp [Except.isOk, Except.toBool])
            simp [((offers_iff ha found).mp ho).2] at hv
          | ok selected => exact .of_offer ((offers_iff ha found).mpr ⟨hallowed, hv⟩) rfl

end Walk

/-- A call without a key id or an algorithm is refused. -/
theorem call_eq_none {args : FetchArgs} (h : args.keyId = none ∨ (args.tokenAlgorithm == 0) = true) :
    args.call = none := by
  unfold FetchArgs.call
  rcases h with hk | ha
  · rw [hk]
    split <;> simp_all
  · split
    · rw [if_pos ha]
    · rfl

theorem named_or_refused (keyId : Option CString) (algorithm : UInt32) :
    (keyId = none ∨ (algorithm == 0) = true) ∨ ∃ id, keyId = some id ∧ (algorithm == 0) = false := by
  cases keyId with
  | none => exact Or.inl (Or.inl rfl)
  | some id =>
    cases ha : algorithm == 0 with
    | true => exact Or.inl (Or.inr rfl)
    | false => exact Or.inr ⟨id, rfl, rfl⟩

/-- A call that is refused returns an error at once. -/
theorem solo_refused {args : FetchArgs} {s s' : Shared} {timeSeconds : Int} {r : FetchReturn}
    (h : args.keyId = none ∨ (args.tokenAlgorithm == 0) = true)
    (run : Solo (d.perform timeSeconds) s (issuerKeyFetchCached ext args) s' r) :
    s' = s ∧ r.1 ≠ .ok := by
  rw [issuerKeyFetchCached, call_eq_none h] at run
  cases run
  exact ⟨rfl, by simp⟩

theorem fetch_ends {s : Shared} {id : CString} {algorithm : UInt32} {nowMs timeSeconds : Int}
    (ha : (algorithm == 0) = false) (h : d.Idle s) (hn : 0 ≤ nowMs) :
    Ensures (d.perform timeSeconds) (d.Ends (d.call id algorithm nowMs timeSeconds)) s
      (issuerKeyFetchCached ext (d.args (some id) algorithm nowMs timeSeconds)) := by
  have hcall : (d.args (some id) algorithm nowMs timeSeconds).call =
      some (d.call id algorithm nowMs timeSeconds).call := by
    simp [args, FetchArgs.call, ha, call]
  have hcache : (d.args (some id) algorithm nowMs timeSeconds).cachePolicy = some d.cache := rfl
  unfold issuerKeyFetchCached
  rw [hcall, hcache]
  simp only [d.valid, Bool.not_true, Bool.false_eq_true, if_false]
  exact fetchThroughCache_ends h hn

theorem fetch_agrees {s : Shared} {id : CString} {algorithm : UInt32} {nowMs timeSeconds : Int}
    (ha : (algorithm == 0) = false) :
    Ensures (d.perform timeSeconds)
      (fun r _ => d.Agrees (d.call id algorithm nowMs timeSeconds).call r) s
      (issuerKeyFetch ext (d.args (some id) algorithm nowMs timeSeconds)) := by
  have hplain : issuerKeyFetch ext (d.args (some id) algorithm nowMs timeSeconds) =
      fetchUncached ext (d.call id algorithm 0 0).call := by
    simp [issuerKeyFetch, issuerKeyFetchCached, FetchArgs.call, args, ha, call]
  rw [hplain]
  exact fetchUncached_agrees

/-- Between the calls of a sequential run no refresh is under way. -/
theorem Reached.idle {s : Shared} (h : d.Reached s) : d.Idle s := by
  induction h with
  | init room empty => exact .init room empty
  | @call s s' keyId algorithm nowMs timeSeconds r _ hn run ih =>
    rcases named_or_refused keyId algorithm with hrefused | ⟨id, rfl, ha⟩
    · obtain ⟨rfl, _⟩ := solo_refused hrefused run
      exact ih
    · exact ((fetch_ends ha ih hn).of_solo run).1
  | pause _ clockMs ih => exact ⟨ih.inv, ih.room, ih.pending, ih.keys, ih.stored⟩

end Deployment

/-- A call succeeds with the cache exactly when it does without, and with the
same key. -/
theorem cache_transparent {ext : Externals} {d : Deployment ext} {s s' t t' : Shared}
    {keyId : Option CString} {algorithm : UInt32} {nowMs timeSeconds : Int} {r r' : FetchReturn}
    (hs : d.Reached s) (hn : 0 ≤ nowMs)
    (cached : Solo (d.perform timeSeconds) s
      (issuerKeyFetchCached ext (d.args keyId algorithm nowMs timeSeconds)) s' r)
    (plain : Solo (d.perform timeSeconds) t
      (issuerKeyFetch ext (d.args keyId algorithm nowMs timeSeconds)) t' r') :
    (r.1 = .ok ↔ r'.1 = .ok) ∧
      (r.1 = .ok → ∃ selected, r.2.selected = some selected ∧ r'.2.selected = some selected) := by
  rcases Deployment.named_or_refused keyId algorithm with hrefused | ⟨id, rfl, ha⟩
  · obtain ⟨_, hr⟩ := Deployment.solo_refused hrefused cached
    obtain ⟨_, hr'⟩ := Deployment.solo_refused hrefused plain
    exact ⟨⟨fun hok => absurd hok hr, fun hok => absurd hok hr'⟩, fun hok => absurd hok hr⟩
  · have hcached := ((Deployment.fetch_ends ha hs.idle hn).of_solo cached).2
    have hplain : d.Agrees (d.call id algorithm nowMs timeSeconds).call r' :=
      (Deployment.fetch_agrees ha).of_solo plain
    refine ⟨⟨fun hok => ?_, fun hok => ?_⟩, fun hok => ?_⟩
    · obtain ⟨selected, _, ho⟩ := hcached.sound hok
      exact hplain.complete selected ho
    · obtain ⟨selected, _, ho⟩ := hplain.sound hok
      exact hcached.complete selected ho
    · obtain ⟨selected, hsel, ho⟩ := hcached.sound hok
      obtain ⟨selected', hsel', ho'⟩ := hplain.sound (hplain.complete selected ho)
      obtain rfl := ho.unique ho'
      exact ⟨selected, hsel, hsel'⟩

/-! Sequential calls that are evaluated. -/

namespace Deployment

variable {ext : Externals}

/-- The answer to an operation when the issuer's transfers are given. -/
def answer (d : Deployment ext) (timeSeconds : Int) (reply : CString → Transfer) (s : Shared) :
    (op : CallOp) → Option (op.Ans × Shared)
  | .transfer url policy =>
    match finishTransfer policy (reply url) with
    | .ok response =>
      if response.body = d.document url ∧
          (response.freshness ext timeSeconds d.cache.metadataFreshness).isOk = true ∧
          (response.freshness ext timeSeconds d.cache.jwksFreshness).isOk = true then
        some (.ok response, s)
      else none
    | .error _ => none
  | op => OAuthValidator.answer s (reply (.lit "")) op

def run {α : Type} (d : Deployment ext) (timeSeconds : Int) (reply : CString → Transfer) :
    Shared → CallProg α → Option (Shared × α)
  | s, .ret a => some (s, a)
  | s, .ask op next =>
    match d.answer timeSeconds reply s op with
    | some (a, s') => run d timeSeconds reply s' (next a)
    | none => none

variable {d : Deployment ext} {timeSeconds : Int} {reply : CString → Transfer}

theorem answer_perform {s s' : Shared} {op : CallOp} {a : op.Ans}
    (h : d.answer timeSeconds reply s op = some (a, s')) : d.perform timeSeconds s op a s' := by
  cases op with
  | transfer url policy =>
    simp only [answer] at h
    split at h
    · next response hr =>
      split at h
      · next hs =>
        obtain ⟨rfl, rfl⟩ := Prod.mk.inj (Option.some.inj h)
        exact ⟨⟨⟨_, hr.symm⟩, rfl⟩, response, rfl, hs.1, isOk_eq_true_iff.mp hs.2.1,
          isOk_eq_true_iff.mp hs.2.2⟩
      · simp at h
    · simp at h
  | _ =>
    have h : OAuthValidator.answer s (reply (.lit "")) _ = some (a, s') := h
    exact OAuthValidator.answer_perform h

theorem run_solo {α : Type} {s s' : Shared} {p : CallProg α} {a : α}
    (h : d.run timeSeconds reply s p = some (s', a)) : Solo (d.perform timeSeconds) s p s' a := by
  induction p generalizing s with
  | ret a' =>
    obtain ⟨rfl, rfl⟩ := Prod.mk.inj (Option.some.inj h)
    exact .ret
  | ask op next ih =>
    simp only [run] at h
    split at h
    · next b s₁ hb => exact .ask b (answer_perform hb) (ih b h)
    · simp at h

end Deployment

namespace Sample

def documents (url : CString) : Bytes :=
  if url = .lit "https://i/m" then metadata else keyText "a" pointA

def metadataKey : Bytes :=
  ((cacheKeyBuild (call "a" 0).metadataKeyPolicy).toOption).getD []

/-- The sample issuer with the key `a`. -/
def deployment : Deployment externals where
  metadataUrl := .lit "https://i/m"
  expectedIssuer := .lit "https://i"
  policy := policy
  cache := cachePolicy
  document := documents
  metadataKey := metadataKey
  valid := by decide
  capacity_pos := by decide
  capacity_le := by decide
  metadataKey_eq := by
    show cacheKeyBuild (call "a" 0).metadataKeyPolicy = .ok metadataKey
    decide +kernel
  jwksKey_fits := by
    intro uri hparse
    have hmetadata : metadataParse externals (documents (.lit "https://i/m")) (.lit "https://i")
        policy.metadata = .ok (.lit "https://i/k") := by
      decide +kernel
    obtain rfl := Except.ok.inj (hmetadata.symm.trans hparse)
    exact ⟨jwksKey, jwksKey_eq "a" 0⟩

def reply (url : CString) : Transfer :=
  respond (documents url)

def callA (nowMs : Int) : FetchArgs :=
  deployment.args (some (.lit "a")) algorithmEddsa nowMs 1700000000

/-- A call fills the cache. A second one is made with it and without. -/
def secondCall : Option (Shared × (Shared × FetchReturn) × (Shared × FetchReturn)) :=
  (cacheInit 2).bind fun cache =>
  (deployment.run 1700000000 reply ⟨cache, 0⟩ (issuerKeyFetchCached externals (callA 0))).bind fun first =>
  (deployment.run 1700000000 reply first.1 (issuerKeyFetchCached externals (callA 10))).bind fun cached =>
  (deployment.run 1700000000 reply first.1 (issuerKeyFetch externals (callA 10))).map fun plain =>
    (first.1, cached, plain)

theorem secondCall_eq_some {s : Shared} {cached plain : Shared × FetchReturn}
    (h : secondCall = some (s, cached, plain)) :
    deployment.Reached s ∧
      Solo (deployment.perform 1700000000) s (issuerKeyFetchCached externals (callA 10)) cached.1 cached.2 ∧
      Solo (deployment.perform 1700000000) s (issuerKeyFetch externals (callA 10)) plain.1 plain.2 := by
  unfold secondCall at h
  obtain ⟨cache, hinit, h⟩ := Option.bind_eq_some_iff.mp h
  obtain ⟨first, hfirst, h⟩ := Option.bind_eq_some_iff.mp h
  obtain ⟨cached', hcached, h⟩ := Option.bind_eq_some_iff.mp h
  obtain ⟨plain', hplain, h⟩ := Option.map_eq_some_iff.mp h
  obtain ⟨rfl, rfl, rfl⟩ : first.1 = s ∧ cached' = cached ∧ plain' = plain := by simpa using h
  have hstart : deployment.Reached ⟨cache, 0⟩ := .init (Nat.le_refl 2) hinit
  have hcall : Solo (deployment.perform 1700000000) ⟨cache, 0⟩
      (issuerKeyFetchCached externals (deployment.args (some (.lit "a")) algorithmEddsa 0 1700000000))
      first.1 first.2 := Deployment.run_solo hfirst
  exact ⟨.call hstart (Int.le_refl 0) hcall, Deployment.run_solo hcached, Deployment.run_solo hplain⟩

end Sample

/-- The second call succeeds on the documents that the first one stored. -/
theorem cache_transparent_hit :
    ∃ (s s' t' : Shared) (r r' : FetchReturn), Sample.deployment.Reached s ∧
      Solo (Sample.deployment.perform 1700000000) s
        (issuerKeyFetchCached Sample.externals (Sample.callA 10)) s' r ∧
      Solo (Sample.deployment.perform 1700000000) s
        (issuerKeyFetch Sample.externals (Sample.callA 10)) t' r' ∧
      r.1 = .ok ∧ s'.cache.control.stats.freshHits = 2 ∧ (r.1 = .ok ↔ r'.1 = .ok) ∧
      (r.1 = .ok → ∃ selected, r.2.selected = some selected ∧ r'.2.selected = some selected) := by
  have hrun : Sample.secondCall.any (fun p => decide (p.2.1.2.1 = .ok ∧
      p.2.1.1.cache.control.stats.freshHits = 2)) = true := by
    decide +kernel
  obtain ⟨⟨s, cached, plain⟩, hsome, htest⟩ := exists_of_any hrun
  obtain ⟨hok, hhits⟩ := of_decide_eq_true htest
  obtain ⟨hs, hcached, hplain⟩ := Sample.secondCall_eq_some hsome
  obtain ⟨hiff, hsame⟩ := cache_transparent hs (by decide) hcached hplain
  exact ⟨s, _, _, _, _, hs, hcached, hplain, hok, hhits, hiff, hsame⟩

end OAuthValidator
