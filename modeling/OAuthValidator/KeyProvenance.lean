import OAuthValidator.Publication
import OAuthValidator.Replay

/-! Where a returned key comes from. Over any run of concurrent calls under any
policies, the key a call returns was selected from a document that the issuer
served for the URL its metadata names, in this call or in a call with the same
complete key policy. -/

namespace OAuthValidator

open ExpiringMap Interleaving Program

theorem parseUrl_curlHost {ext : Externals} {url host : CString} {maxUrlSize : Nat} {insecure : Bool}
    (h : parseUrl ext url maxUrlSize insecure = .ok host) : curlHost ext url = some host := by
  unfold parseUrl at h
  cases hc : curlHost ext url with
  | none => grind
  | some found => grind

/-- The host of a URL is the discovery host or an additional one. -/
def HostPermitted (ext : Externals) (url discoveryHost : CString) (policy : HttpPolicy) : Prop :=
  ∃ host, httpUrlHost ext url policy.maxUrlSize policy.allowInsecureHttp = .ok host ∧
    hostAllowed host discoveryHost policy.additionalAllowedHosts = true

theorem hostPermitted_of_requestError {ext : Externals} {url discoveryHost : CString}
    {policy : HttpPolicy} (hp : policy.allowedHost = some discoveryHost)
    (h : requestError ext url policy = none) : HostPermitted ext url discoveryHost policy := by
  unfold requestError at h
  rw [hp] at h
  simp only at h
  split at h
  · simp at h
  · cases hv : validateRequestUrl ext url policy discoveryHost with
    | error e => simp [hv] at h
    | ok host =>
      unfold validateRequestUrl at hv
      cases hu : parseUrl ext url policy.maxUrlSize policy.allowInsecureHttp with
      | error e => simp [hu] at hv
      | ok host' =>
        simp only [hu] at hv
        split at hv
        · next ha => exact ⟨host', hu, ha⟩
        · simp at hv

theorem hostPermitted_of_jwksRequest {ext : Externals} {call : FetchCall} {uri discoveryHost : CString}
    (h : requestError ext uri (jwksHttpPolicy call discoveryHost) = none) :
    HostPermitted ext uri discoveryHost call.policy.jwksHttp := by
  have hp : HostPermitted ext uri discoveryHost (jwksHttpPolicy call discoveryHost) :=
    hostPermitted_of_requestError rfl h
  exact hp

/-- A call received a response to a JWKS request that it was allowed to make. -/
structure JwksReceived (ext : Externals) (h : CallHistory) (i : Nat) (call : FetchCall)
    (uri discoveryHost : CString) (response : HttpResponse) : Prop where
  received : ∃ s, (.act i (.transfer uri (jwksHttpPolicy call discoveryHost)) (.ok response), s) ∈ h
  permitted : HostPermitted ext uri discoveryHost call.policy.jwksHttp

/-- A call copied a document from the cache, after the events of `past`. -/
def CopiedAt (h past : CallHistory) (i : Nat) (key : Bytes) (nowMs : Int) (stored : Stored Bytes Int) :
    Prop :=
  ∃ allowStale outputSize l s, (.act i (.lookup key nowMs allowStale outputSize) l, s) :: past <:+ h ∧
    IoLookup.usable l = true ∧ IoLookup.payload l = stored.value ∧ cacheMap s.cache key = some stored

theorem CopiedAt.past_subset {h past : CallHistory} {i : Nat} {key : Bytes} {nowMs : Int}
    {stored : Stored Bytes Int} (hc : CopiedAt h past i key nowMs stored) : past ⊆ h := by
  obtain ⟨_, _, _, _, hle, _⟩ := hc
  exact fun _ he => hle.mem (List.mem_cons_of_mem _ he)

/-- A call that was started with `args` published a value under a key: it began a
refresh of that key, and its completion of that refresh left the value there. -/
inductive PublishedIn (h : CallHistory) (j : Nat) (args : FetchArgs) (key : Bytes)
    (stored : Stored Bytes Int) : Prop
  | intro {ticket : CacheRefresh} {comp : Completion} {nowMs cooldownMs : Int} {unknownKid : Bool}
      {s₀ s₁ s₂ after : Shared} (started : (.start j args, s₀) ∈ h)
      (begun : (.act j (.begin key nowMs unknownKid cooldownMs) (.started, ticket), s₁) ∈ h)
      (completed : (.act j (.complete ticket comp) true, s₂) ∈ h) (outcome : comp.outcome = .put stored)
      (performed : perform s₂ (.complete ticket comp) true after)
      (left : cacheMap after.cache key = some stored)

/-- The metadata document of a call: fetched by it, or fresh in the cache. -/
def MetadataSource (h : CallHistory) (i : Nat) (args : FetchArgs) (call : FetchCall)
    (document : Bytes) : Prop :=
  (∃ response s, (.act i (.transfer call.metadataUrl call.policy.metadataHttp) (.ok response), s) ∈ h ∧
    response.body = document) ∨
  ∃ x past key nowMs stored, args.cached = some x ∧ cacheKeyBuild x.metadataKeyPolicy = .ok key ∧
    CopiedAt h past i key nowMs stored ∧ stored.value = document ∧ nowMs < stored.freshUntil

/-- An attempt to refresh an entry brought no response. -/
def RefreshFailed (ext : Externals) (tr : CallTrace) (key : Bytes) (url : CString)
    (policy : HttpPolicy) : Prop :=
  (∃ nowMs unknownKid cooldownMs, ∃ answer : CacheRefreshResult × CacheRefresh,
    ⟨.begin key nowMs unknownKid cooldownMs, answer⟩ ∈ tr ∧ answer.1 ≠ .started) ∨
  requestError ext url policy ≠ none ∨ ∃ e, ⟨.transfer url policy, .error e⟩ ∈ tr

/-- A JWKS document that a call took from the cache. Before that, a call with the
same complete key policy had received it and published it under the key of both,
and it was fresh, or stale while staleness was allowed and no newer document could
be had. -/
inductive JwksFromCache (ext : Externals) (h : CallHistory) (i : Nat) (tr : CallTrace) (x : CachedCall)
    (uri discoveryHost : CString) (document : Bytes) : Prop
  | intro {past : CallHistory} {j : Nat} {args : FetchArgs} {y : CachedCall} {response : HttpResponse}
      {f : HttpFreshness} {key : Bytes} {nowMs : Int} {stored : Stored Bytes Int}
      (storing : args.cached = some y)
      (received : JwksReceived ext past j y.call uri discoveryHost response)
      (published : PublishedIn past j args key stored) (body : response.body = document)
      (samePolicy : y.jwksKeyPolicy uri = x.jwksKeyPolicy uri)
      (sameHosts : y.call.policy.jwksHttp.additionalAllowedHosts = y.cache.keyPolicy.allowedJwksHosts →
        x.call.policy.jwksHttp.additionalAllowedHosts = x.cache.keyPolicy.allowedJwksHosts →
        y.call.policy.jwksHttp.additionalAllowedHosts = x.call.policy.jwksHttp.additionalAllowedHosts)
      (keyed : cacheKeyBuild (x.jwksKeyPolicy uri) = .ok key)
      (copied : CopiedAt h past i key nowMs stored) (value : stored.value = document)
      (freshness : response.freshness ext y.call.responseTimeSeconds y.cache.jwksFreshness = .ok f)
      (usable : nowMs < stored.freshUntil ∨
        (0 < x.cache.jwksStaleGraceMs ∧ f.revalidationRequired = false ∧ stored.freshUntil ≤ nowMs ∧
          nowMs < stored.staleUntil ∧
          RefreshFailed ext tr key uri (jwksHttpPolicy x.call discoveryHost)))

/-- The JWKS document of a call: received by it, or taken from the cache. -/
def JwksSource (ext : Externals) (h : CallHistory) (i : Nat) (tr : CallTrace) (args : FetchArgs)
    (call : FetchCall) (uri discoveryHost : CString) (document : Bytes) : Prop :=
  (∃ response, JwksReceived ext h i call uri discoveryHost response ∧ response.body = document) ∨
  ∃ x, args.cached = some x ∧ JwksFromCache ext h i tr x uri discoveryHost document

/-- Where the key of a call comes from. -/
def Provenance (ext : Externals) (h : CallHistory) (i : Nat) (args : FetchArgs) (tr : CallTrace)
    (call : FetchCall) (selected : SelectedJwk) : Prop :=
  ∃ metadata document uri host,
    metadataParse ext metadata call.expectedIssuer call.policy.metadata = .ok uri ∧
    httpUrlHost ext call.metadataUrl call.policy.metadataHttp.maxUrlSize
      call.policy.metadataHttp.allowInsecureHttp = .ok host ∧
    jwksSelect ext document call.keyId call.tokenAlgorithm call.policy.jwks = .ok selected ∧
    MetadataSource h i args call metadata ∧ JwksSource ext h i tr args call uri host document

section Runs

variable {ext : Externals} {admits : Shared → FetchArgs → Prop} {h : CallHistory} {c : CallConfig}

/-- A request in the trace of a call was made in the run and was allowed. -/
theorem CallRun.transferred (hr : CallRun ext admits h c) {i : Nat}
    {call : Call CallOp CallOp.Ans FetchArgs FetchReturn} (hc : c.calls i = some call)
    {tr : CallTrace} {url : CString} {policy : HttpPolicy} {answer : Except HttpError HttpResponse}
    (htr : ⟨.transfer url policy, answer⟩ :: tr <:+ call.trace) :
    (∃ s, (.act i (.transfer url policy) answer, s) ∈ h) ∧ requestError ext url policy = none := by
  obtain ⟨recent, htr⟩ := htr
  obtain ⟨_, _, _, x⟩ := Run.exchange hr hc htr.symm
  exact ⟨⟨_, x.mem⟩, (x.permitted (issuerKeyFetchCached_sat ext)).transfer_allowed⟩

/-- A document in the trace of a call was in the cache, where it had been
published before. -/
theorem CallRun.copied (hr : CallRun ext admits h c) {i : Nat}
    {call : Call CallOp CallOp.Ans FetchArgs FetchReturn} (hc : c.calls i = some call)
    {tr : CallTrace} {key : Bytes} {nowMs : Int} {allowStale : Bool} {outputSize : Nat}
    {l : IoLookup} (htr : ⟨.lookup key nowMs allowStale outputSize, l⟩ :: tr <:+ call.trace)
    (hu : l.usable = true) :
    ∃ stored past, l.payload = stored.value ∧ l.freshness = freshnessAt stored nowMs allowStale ∧
      CopiedAt h past i key nowMs stored ∧ ∃ point, Published ext admits past point key stored := by
  obtain ⟨recent, htr⟩ := htr
  obtain ⟨past, _, _, x⟩ := Run.exchange hr hc htr.symm
  obtain ⟨stored, hm, hpay, hfresh⟩ := sharedLookup_usable x.perform.1 hu
  obtain ⟨later, hh⟩ := x.history
  exact ⟨stored, past, hpay, hfresh, ⟨allowStale, outputSize, l, _, ⟨later, hh.symm⟩, hu, hpay, hm⟩,
    CallRun.published x.run hm⟩

/-- A completion that puts a value publishes it under the key of its stage. -/
theorem publishedIn_of_exchange {h' : CallHistory} {c' : CallConfig} {j : Nat} {args : FetchArgs}
    {s : Stage} {l : IoLookup} {unknownKid : Bool} {ticket : CacheRefresh} {response : HttpResponse}
    {comp : Completion} {after : Shared} {stored : Stored Bytes Int}
    (e : ExchangeAt (callSystem ext admits) initialShared h j args
      (s.transferred l unknownKid ticket (.ok response)) (.complete ticket comp) true h' c' after)
    (hput : comp.outcome = .put stored) : PublishedIn h j args s.key stored := by
  obtain ⟨next, hc⟩ := e.call
  obtain ⟨_, hstart⟩ := e.run.start_mem hc
  have htr : s.transferred l unknownKid ticket (.ok response) = [⟨.transfer s.url s.http, .ok response⟩] ++
      ⟨.begin s.key s.nowMs unknownKid s.cooldownMs, (.started, ticket)⟩ :: s.lookedUp l := rfl
  obtain ⟨_, _, _, begun⟩ := Run.exchange e.run hc htr
  have hperform : perform c'.shared (.complete ticket comp) true after := e.perform
  refine .intro (e.past_subset hstart) (e.past_subset begun.mem) e.mem hput hperform ?_
  rcases MapStep.complete_cases (perform_effect (CallRun.inv e.run) hperform) with
    ⟨key, _, completes⟩ | ⟨hfalse, _⟩
  · have hkey : key = s.key :=
      completes.key_eq (CallRun.held e.run).1 (holder_eq_some_iff.mpr ⟨_, hc, rfl⟩)
    have hmap : (abstractCache after.cache).map s.key = some stored := by
      rw [completes.map, hput, hkey]
      exact Function.update_self ..
    exact hmap
  · simp at hfalse

/-- A document stored under a JWKS key had been received from the URL of that
key, by a call with the same complete key policy. -/
theorem Published.jwks {point : CallHistory} {key : Bytes} {stored : Stored Bytes Int}
    (p : Published ext admits h point key stored) {x : CachedCall} {uri discoveryHost : CString}
    (hk : cacheKeyBuild (x.jwksKeyPolicy uri) = .ok key) {maxUrlSize : Nat} {insecure : Bool}
    (hhost : httpUrlHost ext x.call.metadataUrl maxUrlSize insecure = .ok discoveryHost) :
    ∃ (j : Nat) (args : FetchArgs) (y : CachedCall) (response : HttpResponse) (f : HttpFreshness),
      args.cached = some y ∧ JwksReceived ext h j y.call uri discoveryHost response ∧
      PublishedIn h j args key stored ∧ response.body = stored.value ∧
      y.jwksKeyPolicy uri = x.jwksKeyPolicy uri ∧
      response.freshness ext y.call.responseTimeSeconds y.cache.jwksFreshness = .ok f ∧
      (f.revalidationRequired = true → stored.staleUntil = stored.freshUntil) := by
  obtain @⟨j, args, y, s, l, unknownKid, ticket, response, f, c', after, e, hy, o, _, hfresh, rfl,
    hput⟩ := p
  obtain ⟨tr, nowMs, host, hj, hs, hpolicy⟩ := o.of_jwksKey hk
  obtain ⟨_, _, _, _, hvalue, _, hstale⟩ := Stage.outcome_published hput
  obtain ⟨next, hc⟩ := e.call
  obtain ⟨⟨s', hmem⟩, hallowed⟩ := CallRun.transferred e.run hc List.suffix_rfl
  -- both calls read the discovery host off the same metadata URL
  have hurl : y.call.metadataUrl = x.call.metadataUrl :=
    Option.some.inj (congrArg CacheKeyPolicy.metadataUrl hpolicy)
  have hsame : host = discoveryHost := by
    have hread := parseUrl_curlHost hj.host
    rw [hurl, parseUrl_curlHost hhost] at hread
    exact (Option.some.inj hread).symm
  subst hsame
  have hpublished := publishedIn_of_exchange e hput
  rw [hs] at hmem hallowed hfresh
  refine ⟨j, args, y, response, f, hy,
    ⟨⟨s', e.past_subset hmem⟩, hostPermitted_of_jwksRequest hallowed⟩, hpublished, hvalue.symm, hpolicy,
    hfresh, fun hrev => ?_⟩
  rw [hstale, if_pos hrev]

/-- A usable JWKS document that a call found in the cache. -/
theorem CallRun.jwksFromCache (hr : CallRun ext admits h c) {i : Nat}
    {call : Call CallOp CallOp.Ans FetchArgs FetchReturn} (hc : c.calls i = some call)
    {x : CachedCall} {tr rest : CallTrace} {nowMs time : Int} {uri host : CString} {key : Bytes}
    (ready : JwksReady ext x tr nowMs uri host key) {outputSize : Nat} {l : IoLookup}
    (htr : ⟨.lookup key time (decide (0 < x.cache.jwksStaleGraceMs)) outputSize, l⟩ :: rest <:+
      call.trace)
    (hu : l.usable = true)
    (hfailed : l.freshness ≠ .fresh →
      RefreshFailed ext call.trace key uri (jwksHttpPolicy x.call host)) :
    JwksFromCache ext h i call.trace x uri host l.payload := by
  obtain ⟨stored, past, hpay, hfreshness, hcopied, point, hp⟩ := CallRun.copied hr hc htr hu
  obtain ⟨j, args, y, response, f, hy, hreceived, hpublished, hbody, hpolicy, hf, hrev⟩ :=
    hp.jwks ready.key ready.host
  refine ⟨hy, hreceived, hpublished, hbody.trans hpay.symm, hpolicy, ?_, ready.key, hcopied, hpay.symm,
    hf, ?_⟩
  · intro hstoring husing
    rw [hstoring, husing]
    exact (congrArg CacheKeyPolicy.allowedJwksHosts hpolicy :)
  cases hfr : l.freshness with
  | fresh => exact Or.inl (freshnessAt_eq_fresh_iff.mp (hfreshness.symm.trans hfr))
  | stale =>
    obtain ⟨hallow, hle, hlt⟩ := freshnessAt_eq_stale_iff.mp (hfreshness.symm.trans hfr)
    have hnot : f.revalidationRequired = false := by
      by_contra hne
      rw [hrev (by simpa using hne)] at hlt
      omega
    exact Or.inr ⟨by simpa using hallow, hnot, hle, hlt, hfailed (by simp [hfr])⟩
  | miss => simp [IoLookup.usable, hfr] at hu

/-- The metadata document that a call has read. -/
theorem CallRun.metadataSource (hr : CallRun ext admits h c) {i : Nat}
    {call : Call CallOp CallOp.Ans FetchArgs FetchReturn} (hc : c.calls i = some call)
    {x : CachedCall} (hx : call.arg.cached = some x) {tr : CallTrace} {nowMs : Int}
    {key document : Bytes} (hkey : cacheKeyBuild x.metadataKeyPolicy = .ok key)
    (hread : MetadataRead ext x key tr nowMs document) (htr : tr <:+ call.trace) :
    MetadataSource h i call.arg x.call document := by
  have found {rest : CallTrace} {time : Int} {outputSize : Nat} {l : IoLookup}
      (hl : ⟨.lookup key time false outputSize, l⟩ :: rest <:+ call.trace)
      (hhit : l.hit = true) : MetadataSource h i call.arg x.call l.payload := by
    obtain ⟨hfr, hok⟩ : l.freshness = .fresh ∧ l.copyResult = .ok := by
      simpa [IoLookup.hit] using hhit
    obtain ⟨stored, past, hpay, hfreshness, hcopied, _⟩ :=
      CallRun.copied hr hc hl (by simp [IoLookup.usable, hfr, hok])
    exact Or.inr ⟨x, past, key, time, stored, hx, hkey, hcopied, hpay.symm,
      freshnessAt_eq_fresh_iff.mp (hfreshness.symm.trans hfr)⟩
  cases hread with
  | hit l hhit => exact found htr hhit
  | waited l ticket tr' elapsedMs l' _ _ _ hhit => exact found htr hhit
  | fetched l ticket response f _ _ =>
    obtain ⟨⟨s, hmem⟩, _⟩ := CallRun.transferred hr hc ((List.suffix_cons _ _).trans htr)
    exact Or.inl ⟨response, s, hmem, rfl⟩

theorem CallRun.provenance_of_ready (hr : CallRun ext admits h c) {i : Nat}
    {call : Call CallOp CallOp.Ans FetchArgs FetchReturn} (hc : c.calls i = some call)
    {x : CachedCall} (hx : call.arg.cached = some x) {tr : CallTrace} {nowMs : Int}
    {uri host : CString} {key document : Bytes} {selected : SelectedJwk}
    (ready : JwksReady ext x tr nowMs uri host key) (htr : tr <:+ call.trace)
    (hselect : selectKey ext x.call document = .ok selected)
    (hsource : JwksSource ext h i call.trace call.arg x.call uri host document) :
    Provenance ext h i call.arg call.trace x.call selected := by
  obtain ⟨metadataKey, metadata, hkey, hread, hparse⟩ := ready.metadata
  exact ⟨metadata, document, uri, host, hparse, ready.host, hselect,
    CallRun.metadataSource hr hc hx hkey hread htr, hsource⟩

/-- A key selected from what a lookup of the call has found. -/
theorem CallRun.provenance_of_lookup (hr : CallRun ext admits h c) {i : Nat}
    {call : Call CallOp CallOp.Ans FetchArgs FetchReturn} (hc : c.calls i = some call)
    {x : CachedCall} (hx : call.arg.cached = some x) {tr rest : CallTrace} {nowMs time : Int}
    {uri host : CString} {key : Bytes} {selected : SelectedJwk}
    (ready : JwksReady ext x tr nowMs uri host key) (htr : tr <:+ call.trace) {outputSize : Nat} {l : IoLookup}
    (hl : ⟨.lookup key time (decide (0 < x.cache.jwksStaleGraceMs)) outputSize, l⟩ :: rest <:+ call.trace)
    (hu : l.usable = true) (hselect : selectKey ext x.call l.payload = .ok selected)
    (hfailed : l.freshness ≠ .fresh →
      RefreshFailed ext call.trace key uri (jwksHttpPolicy x.call host)) :
    Provenance ext h i call.arg call.trace x.call selected :=
  CallRun.provenance_of_ready hr hc hx ready htr hselect
    (Or.inr ⟨x, hx, CallRun.jwksFromCache hr hc ready hl hu hfailed⟩)

/-- The key that a cached call accepts, by the way in which it came by it. -/
theorem CallRun.accepted_provenance (hr : CallRun ext admits h c) {i : Nat} {args : FetchArgs}
    {tr : CallTrace} {rest : CallProg FetchReturn} (hc : c.calls i = some ⟨args, tr, rest⟩)
    {x : CachedCall} (hx : args.cached = some x) {selected : SelectedJwk}
    (ha : Accepted ext x tr selected) : Provenance ext h i args tr x.call selected := by
  cases ha with
  | @fresh base nowMs uri host key l _ ready hu hfresh hselect =>
    exact CallRun.provenance_of_lookup hr hc hx ready (List.suffix_cons _ _) List.suffix_rfl hu hselect
      fun hne => absurd hfresh hne
  | @waited base nowMs uri host key l l' unknownKid ticket tr' elapsedMs _ ready _ wait hu hselect =>
    have hbegun : (jwksStage ext x base nowMs uri host key).begun l unknownKid .inProgress ticket <:+
        (jwksStage ext x base nowMs uri host key).relookedUp tr' elapsedMs l' :=
      wait.suffix.trans (List.suffix_cons _ _)
    exact CallRun.provenance_of_lookup hr hc hx ready
      (Stage.base_suffix_lookedUp.trans (Stage.lookedUp_suffix_begun.trans hbegun)) List.suffix_rfl hu hselect
      fun _ => Or.inl ⟨nowMs, unknownKid, _, (.inProgress, ticket), hbegun.mem List.mem_cons_self, by simp⟩
  | @unowned base nowMs uri host key l r ticket _ ready hu hstale hselect hother =>
    have hlooked : (jwksStage ext x base nowMs uri host key).lookedUp l <:+
        (jwksStage ext x base nowMs uri host key).begun l false r ticket :=
      Stage.lookedUp_suffix_begun
    exact CallRun.provenance_of_lookup hr hc hx ready (Stage.base_suffix_lookedUp.trans hlooked) hlooked hu
      hselect fun _ => Or.inl ⟨nowMs, false, _, (r, ticket), List.mem_cons_self, hother⟩
  | @refused base nowMs uri host key l ticket e accepted _ ready hu hstale hselect hrefused =>
    have hlooked : (jwksStage ext x base nowMs uri host key).lookedUp l <:+
        ⟨.complete ticket (failedCompletion nowMs), accepted⟩ ::
          (jwksStage ext x base nowMs uri host key).begun l false .started ticket :=
      Stage.lookedUp_suffix_begun.trans (List.suffix_cons _ _)
    exact CallRun.provenance_of_lookup hr hc hx ready (Stage.base_suffix_lookedUp.trans hlooked) hlooked hu
      hselect fun _ => Or.inr (Or.inl (by simp [hrefused]))
  | @unreachable base nowMs uri host key l ticket e accepted _ ready hu hstale hselect =>
    have hlooked : (jwksStage ext x base nowMs uri host key).lookedUp l <:+
        ⟨.complete ticket (failedCompletion nowMs), accepted⟩ ::
          (jwksStage ext x base nowMs uri host key).transferred l false ticket (.error e) :=
      Stage.lookedUp_suffix_transferred.trans (List.suffix_cons _ _)
    exact CallRun.provenance_of_lookup hr hc hx ready (Stage.base_suffix_lookedUp.trans hlooked) hlooked hu
      hselect fun _ => Or.inr (Or.inr ⟨e, List.mem_cons_of_mem _ List.mem_cons_self⟩)
  | @fetched base nowMs uri host key l unknownKid ticket response f _ ready _ hfresh hselect =>
    obtain ⟨hmem, hallowed⟩ := CallRun.transferred hr hc (List.suffix_cons _ _)
    have hlooked : (jwksStage ext x base nowMs uri host key).lookedUp l <:+
        (jwksStage ext x base nowMs uri host key).transferred l unknownKid ticket (.ok response) :=
      Stage.lookedUp_suffix_transferred
    exact CallRun.provenance_of_ready hr hc hx ready
      (Stage.base_suffix_lookedUp.trans (hlooked.trans (List.suffix_cons _ _))) hselect
      (Or.inl ⟨response, ⟨hmem, hostPermitted_of_jwksRequest hallowed⟩, rfl⟩)

theorem key_provenance (hr : CallRun ext admits h c) {i : Nat}
    {call : Call CallOp CallOp.Ans FetchArgs FetchReturn} (hc : c.calls i = some call)
    {r : FetchReturn} (hret : call.rest = .ret r) (hok : r.1 = .ok) :
    ∃ fetch selected, call.arg.call = some fetch ∧ r.2.selected = some selected ∧
      Provenance ext h i call.arg call.trace fetch selected := by
  have hsat := Run.sat (issuerKeyFetchCached_sat ext) hr hc
  rw [hret] at hsat
  obtain ⟨selected, hs, ⟨x, hx, ha⟩ | ⟨fetch, hcall, _, ha⟩⟩ := hsat.accepted hok
  · exact ⟨x.call, selected, FetchArgs.cached_call hx, hs, CallRun.accepted_provenance hr hc hx ha⟩
  · obtain ⟨args, tr, rest⟩ := call
    cases ha with
    | @fetched metadata response uri host _ hparse hhost hallowed hselect =>
      obtain ⟨⟨s, hmem⟩, _⟩ := CallRun.transferred hr hc (List.suffix_cons _ _)
      obtain ⟨hmem', hallowed⟩ := CallRun.transferred hr hc List.suffix_rfl
      exact ⟨fetch, selected, hcall, hs, metadata.body, response.body, uri, host, hparse, hhost, hselect,
        Or.inl ⟨metadata, s, hmem, rfl⟩,
        Or.inl ⟨response, ⟨hmem', hostPermitted_of_jwksRequest hallowed⟩, rfl⟩⟩

/-- A call that falls back to an expired document while the issuer is down. -/
theorem key_provenance_stale :
    ∃ h c, CallRun Sample.externals (fun _ _ => true = true) h c ∧ ∃ call r, c.calls 1 = some call ∧
      call.rest = .ret r ∧ r.1 = .ok ∧ ∃ fetch selected, call.arg.call = some fetch ∧
        r.2.selected = some selected ∧
        Provenance Sample.externals h 1 call.arg call.trace fetch selected := by
  have hrun : (replay (issuerKeyFetchCached Sample.externals) (fun _ _ => true) 2 0
      ([.start 0 (Sample.args "a" 0)] ++
        Sample.refreshBoth 0 (Sample.respond (Sample.keyText "a" Sample.pointA)) ++
        [.start 1 (Sample.args "a" 61000)] ++ Sample.refreshBoth 1 Sample.unreachable)).any
      (fun p => (returned p.2 1).any fun r => r.1 == .ok) = true := by
    decide +kernel
  obtain ⟨h, c, hr, ht⟩ := replay_any hrun
  obtain ⟨call, r, hc, hrest, hok⟩ := returned_any ht
  have hok : r.1 = .ok := by simpa using hok
  exact ⟨h, c, hr, call, r, hc, hrest, hok, key_provenance hr hc hrest hok⟩

end Runs

end OAuthValidator
