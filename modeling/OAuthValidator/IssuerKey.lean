import OAuthValidator.CacheKey
import OAuthValidator.HttpFreshness
import OAuthValidator.Jwks
import OAuthValidator.Metadata
import OAuthValidator.Program

/-! Retrieval of the issuer's key through the shared cache. A call is a program
over the operations it performs on the world: the operations of the shared
cache, each atomic under its lock, the sleep between two of them, and the
network transfer. Memory allocation succeeds and the shared cache stays
attached. -/

namespace OAuthValidator

open Program

/-- The answer of `pg_oauth_shared_cache_lookup`, with the bytes it copied. -/
structure IoLookup where
  freshness : CacheLookup
  copyResult : CacheCopyResult
  payload : Bytes
deriving DecidableEq

/-- A fresh document was copied. -/
def IoLookup.hit (lookup : IoLookup) : Bool :=
  lookup.freshness == .fresh && lookup.copyResult == .ok

/-- A fresh or stale document was copied. -/
def IoLookup.usable (lookup : IoLookup) : Bool :=
  lookup.freshness != .miss && lookup.copyResult == .ok

inductive CallOp
  | lookup (key : Bytes) (nowMs : Int) (allowStale : Bool) (outputSize : Nat)
  | begin (key : Bytes) (nowMs : Int) (unknownKid : Bool) (cooldownMs : Int)
  | complete (ticket : CacheRefresh) (c : Completion)
  | isRefreshing (key : Bytes)
  /-- Falling asleep on the condition variable; the answer is the real time. -/
  | sleepBegin
  /-- Waking up from a sleep that began at the given real time. -/
  | sleepEnd (since timeoutMs : Int)
  /-- The network part of `pg_oauth_http_get_json`. -/
  | transfer (url : CString) (policy : HttpPolicy)

def CallOp.Ans : CallOp → Type
  | .lookup _ _ _ _ => IoLookup
  | .begin _ _ _ _ => CacheRefreshResult × CacheRefresh
  | .complete _ _ => Bool
  | .isRefreshing _ => Bool
  | .sleepBegin => Int
  | .sleepEnd _ _ => Unit
  | .transfer _ _ => Except HttpError HttpResponse

abbrev CallProg := Prog CallOp CallOp.Ans

abbrev CallTrace := Trace CallOp CallOp.Ans

inductive IssuerKeyError
  | ok | invalidArgument | metadataHttp | metadataInvalid | jwksHttp | jwksInvalid | cache
deriving DecidableEq, Repr

structure IssuerKeyPolicy where
  metadataHttp : HttpPolicy
  metadata : MetadataPolicy
  jwksHttp : HttpPolicy
  jwks : JwksPolicy
deriving DecidableEq

structure IssuerKeyResult where
  selected : Option SelectedJwk
  httpError : HttpError
  metadataError : MetadataError
  jwksError : JwksError
deriving DecidableEq

def IssuerKeyResult.zero : IssuerKeyResult :=
  ⟨none, .ok, .ok, .ok⟩

/-- Which functions of a cache interface are not NULL. -/
structure CacheIo where
  hasLookup : Bool
  hasBeginRefresh : Bool
  hasWaitRefresh : Bool
  hasCompleteRefresh : Bool
deriving DecidableEq

structure IssuerKeyCachePolicy where
  io : Option CacheIo
  keyPolicy : CacheKeyPolicy
  metadataFreshness : HttpFreshnessPolicy
  jwksFreshness : HttpFreshnessPolicy
  jwksStaleGraceMs : Int
  unknownKidRefreshCooldownMs : Int
  refreshWaitTimeoutMs : Int
deriving DecidableEq

def cachePolicyValid (policy : IssuerKeyCachePolicy) : Bool :=
  match policy.io with
  | none => false
  | some io =>
    io.hasLookup && io.hasBeginRefresh && io.hasCompleteRefresh &&
      (policy.refreshWaitTimeoutMs == 0 || io.hasWaitRefresh) &&
      0 ≤ policy.metadataFreshness.defaultTtlMs && 0 < policy.metadataFreshness.maximumTtlMs &&
      0 ≤ policy.jwksFreshness.defaultTtlMs && 0 < policy.jwksFreshness.maximumTtlMs &&
      0 ≤ policy.jwksStaleGraceMs && 0 ≤ policy.unknownKidRefreshCooldownMs &&
      0 ≤ policy.refreshWaitTimeoutMs

/-- The bounds of a valid cache policy. -/
structure PolicyBounds (cache : IssuerKeyCachePolicy) : Prop where
  metadataDefault : 0 ≤ cache.metadataFreshness.defaultTtlMs
  metadataMaximum : 0 < cache.metadataFreshness.maximumTtlMs
  jwksDefault : 0 ≤ cache.jwksFreshness.defaultTtlMs
  jwksMaximum : 0 < cache.jwksFreshness.maximumTtlMs
  grace : 0 ≤ cache.jwksStaleGraceMs
  cooldown : 0 ≤ cache.unknownKidRefreshCooldownMs

theorem cachePolicyValid_bounds {policy : IssuerKeyCachePolicy} (h : cachePolicyValid policy = true) :
    PolicyBounds policy := by
  unfold cachePolicyValid at h
  split at h
  · simp at h
  · simp only [Bool.and_eq_true, decide_eq_true_eq] at h
    obtain ⟨⟨⟨⟨⟨⟨⟨_, hmd⟩, hmm⟩, hjd⟩, hjm⟩, hgrace⟩, hcooldown⟩, _⟩ := h
    exact ⟨hmd, hmm, hjd, hjm, hgrace, hcooldown⟩

/-- The arguments of a call once the NULL checks have passed. -/
structure FetchCall where
  metadataUrl : CString
  expectedIssuer : CString
  keyId : CString
  tokenAlgorithm : UInt32
  policy : IssuerKeyPolicy
  nowMs : Int
  responseTimeSeconds : Int
deriving DecidableEq

/-- What `pg_oauth_issuer_key_fetch_cached` returns and leaves in its result. -/
abbrev FetchReturn := IssuerKeyError × IssuerKeyResult

def getJson (ext : Externals) (url : CString) (policy : HttpPolicy) :
    CallProg (Except HttpError HttpResponse) :=
  match requestError ext url policy with
  | some e => .ret (.error e)
  | none => .ask (.transfer url policy) fun answer => .ret answer

def waitRefresh (key : Bytes) (timeoutMs : Int) : CallProg (Bool × Int) :=
  if !validKey key || timeoutMs ≤ 0 || 5000 < timeoutMs then .ret (false, 0)
  else
    .ask (.isRefreshing key) fun refreshing : Bool =>
      if !refreshing then .ret (true, 0)
      else
        .ask .sleepBegin fun since : Int =>
          .ask (.sleepEnd since timeoutMs) fun _ =>
            .ask (.isRefreshing key) fun refreshing : Bool => .ret (!refreshing, timeoutMs)

/-- The completion of a refresh that failed. -/
def failedCompletion (nowMs : Int) : Completion :=
  ⟨nowMs, false, false, false, 0, 0, []⟩

def publishCompletion (nowMs : Int) (f : HttpFreshness) (graceMs : Int) (body : Bytes) : Completion :=
  ⟨nowMs, true, f.cacheable, f.revalidationRequired, f.ttlMs, graceMs, body⟩

def HttpResponse.freshness (ext : Externals) (response : HttpResponse) (responseTimeSeconds : Int)
    (policy : HttpFreshnessPolicy) : Except HttpFreshnessError HttpFreshness :=
  httpFreshnessCalculate ext response.cacheControl response.date response.expires response.age
    responseTimeSeconds policy

def completeResponse (ext : Externals) (ticket : CacheRefresh) (nowMs responseTimeSeconds : Int)
    (policy : HttpFreshnessPolicy) (graceMs : Int) (response : HttpResponse) : CallProg Bool :=
  match response.freshness ext responseTimeSeconds policy with
  | .error _ => .ask (.complete ticket (failedCompletion nowMs)) fun _ => .ret false
  | .ok f =>
    .ask (.complete ticket (publishCompletion nowMs f graceMs response.body)) fun accepted : Bool =>
      .ret accepted

/-- A call that goes through the cache, with the policy it does so under. -/
structure CachedCall where
  call : FetchCall
  cache : IssuerKeyCachePolicy
deriving DecidableEq

namespace CachedCall

def capacity (x : CachedCall) : Nat :=
  max x.call.policy.metadataHttp.maxResponseSize x.call.policy.jwksHttp.maxResponseSize

def metadataKeyPolicy (x : CachedCall) : CacheKeyPolicy :=
  { x.cache.keyPolicy with
    resource := .metadata
    issuer := some x.call.expectedIssuer
    metadataUrl := some x.call.metadataUrl
    jwksUrl := none }

def jwksKeyPolicy (x : CachedCall) (uri : CString) : CacheKeyPolicy :=
  { x.cache.keyPolicy with
    resource := .jwks
    issuer := some x.call.expectedIssuer
    metadataUrl := some x.call.metadataUrl
    jwksUrl := some uri }

end CachedCall

/-- The JWKS request goes to the discovery host or an additional one. -/
def jwksHttpPolicy (call : FetchCall) (discoveryHost : CString) : HttpPolicy :=
  { call.policy.jwksHttp with allowedHost := some discoveryHost }

def selectKey (ext : Externals) (call : FetchCall) (document : Bytes) :
    Except JwksError SelectedJwk :=
  jwksSelect ext document call.keyId call.tokenAlgorithm call.policy.jwks

/-- The result after `pg_oauth_jwks_select` has run on a document. -/
def IssuerKeyResult.afterSelect (result : IssuerKeyResult) :
    Except JwksError SelectedJwk → IssuerKeyResult
  | .ok key => { result with selected := some key, jwksError := .ok }
  | .error e => { result with selected := none, jwksError := e }

/-- The retrieval without a cache. -/
def fetchUncached (ext : Externals) (call : FetchCall) : CallProg FetchReturn :=
  (getJson ext call.metadataUrl call.policy.metadataHttp).bind fun
    | .error e => .ret (.metadataHttp, { IssuerKeyResult.zero with httpError := e })
    | .ok metadata =>
      match metadataParse ext metadata.body call.expectedIssuer call.policy.metadata with
      | .error e => .ret (.metadataInvalid, { IssuerKeyResult.zero with metadataError := e })
      | .ok uri =>
        match httpUrlHost ext call.metadataUrl call.policy.metadataHttp.maxUrlSize
            call.policy.metadataHttp.allowInsecureHttp with
        | .error e => .ret (.metadataHttp, { IssuerKeyResult.zero with httpError := e })
        | .ok host =>
          (getJson ext uri (jwksHttpPolicy call host)).bind fun
            | .error e => .ret (.jwksHttp, { IssuerKeyResult.zero with httpError := e })
            | .ok response =>
              let verdict := selectKey ext call response.body
              .ret (if verdict.isOk then .ok else .jwksInvalid,
                IssuerKeyResult.zero.afterSelect verdict)

/-- The JWKS request of a call that owns the refresh of the JWKS entry. -/
def fetchJwks (ext : Externals) (x : CachedCall) (ticket : CacheRefresh) (cacheNowMs : Int)
    (uri host : CString) (selectedFromStale : Bool) (result : IssuerKeyResult) :
    CallProg FetchReturn :=
  (getJson ext uri (jwksHttpPolicy x.call host)).bind fun
    | .error e =>
      .ask (.complete ticket (failedCompletion cacheNowMs)) fun _ =>
        .ret (if selectedFromStale then .ok else .jwksHttp, { result with httpError := e })
    | .ok response =>
      let verdict := selectKey ext x.call response.body
      let result := result.afterSelect verdict
      if !verdict.isOk then
        .ask (.complete ticket (failedCompletion cacheNowMs)) fun _ => .ret (.jwksInvalid, result)
      else
        (completeResponse ext ticket cacheNowMs x.call.responseTimeSeconds x.cache.jwksFreshness
          x.cache.jwksStaleGraceMs response).bind fun accepted =>
            .ret (if accepted then .ok else .cache, result)

/-- The second lookup of the JWKS entry, after another backend's refresh. -/
def jwksAfterWait (ext : Externals) (x : CachedCall) (key : Bytes) (cacheNowMs elapsedMs : Int)
    (result : IssuerKeyResult) : CallProg FetchReturn :=
  if int64Max - cacheNowMs < elapsedMs then .ret (.cache, result)
  else
    .ask (.lookup key (cacheNowMs + elapsedMs) (0 < x.cache.jwksStaleGraceMs) x.capacity)
      fun lookup : IoLookup =>
        if lookup.usable then
          let verdict := selectKey ext x.call lookup.payload
          .ret (if verdict.isOk then .ok else .cache, result.afterSelect verdict)
        else .ret (.cache, result)

def refreshJwks (ext : Externals) (x : CachedCall) (key : Bytes) (cacheNowMs : Int)
    (uri host : CString) (selectedFromStale : Bool) (result : IssuerKeyResult) :
    CallProg FetchReturn :=
  .ask (.begin key cacheNowMs (result.jwksError == .keyNotFound)
    x.cache.unknownKidRefreshCooldownMs) fun (answer : CacheRefreshResult × CacheRefresh) =>
      let unowned := (if selectedFromStale then IssuerKeyError.ok else .cache, result)
      if answer.1 == .started then
        fetchJwks ext x answer.2 cacheNowMs uri host selectedFromStale result
      else if !selectedFromStale && answer.1 == .inProgress && 0 < x.cache.refreshWaitTimeoutMs then
        (waitRefresh key x.cache.refreshWaitTimeoutMs).bind fun waited =>
          if waited.1 then jwksAfterWait ext x key cacheNowMs waited.2 result else .ret unowned
      else .ret unowned

/-- The JWKS part of a call, from the first lookup of the JWKS entry on. -/
def obtainJwks (ext : Externals) (x : CachedCall) (cacheNowMs : Int) (uri host : CString) :
    CallProg FetchReturn :=
  match cacheKeyBuild (x.jwksKeyPolicy uri) with
  | .error _ => .ret (.cache, IssuerKeyResult.zero)
  | .ok key =>
    .ask (.lookup key cacheNowMs (0 < x.cache.jwksStaleGraceMs) x.capacity)
      fun lookup : IoLookup =>
        if lookup.usable then
          let verdict := selectKey ext x.call lookup.payload
          let result := IssuerKeyResult.zero.afterSelect verdict
          if verdict.isOk && lookup.freshness == .fresh then .ret (.ok, result)
          else if !verdict.isOk && result.jwksError != .keyNotFound then .ret (.cache, result)
          else refreshJwks ext x key cacheNowMs uri host verdict.isOk result
        else refreshJwks ext x key cacheNowMs uri host false IssuerKeyResult.zero

def afterMetadata (ext : Externals) (x : CachedCall) (cacheNowMs : Int) (uri : CString) :
    CallProg FetchReturn :=
  match httpUrlHost ext x.call.metadataUrl x.call.policy.metadataHttp.maxUrlSize
      x.call.policy.metadataHttp.allowInsecureHttp with
  | .error e => .ret (.metadataHttp, { IssuerKeyResult.zero with httpError := e })
  | .ok host => obtainJwks ext x cacheNowMs uri host

/-- A metadata document from the cache. -/
def useCachedMetadata (ext : Externals) (x : CachedCall) (cacheNowMs : Int) (body : Bytes) :
    CallProg FetchReturn :=
  match metadataParse ext body x.call.expectedIssuer x.call.policy.metadata with
  | .error e => .ret (.metadataInvalid, { IssuerKeyResult.zero with metadataError := e })
  | .ok uri => afterMetadata ext x cacheNowMs uri

/-- A metadata document this call has fetched, under the ticket it owns. -/
def useFetchedMetadata (ext : Externals) (x : CachedCall) (ticket : CacheRefresh)
    (response : HttpResponse) : CallProg FetchReturn :=
  match metadataParse ext response.body x.call.expectedIssuer x.call.policy.metadata with
  | .error e =>
    .ask (.complete ticket (failedCompletion x.call.nowMs)) fun _ =>
      .ret (.metadataInvalid, { IssuerKeyResult.zero with metadataError := e })
  | .ok uri =>
    (completeResponse ext ticket x.call.nowMs x.call.responseTimeSeconds x.cache.metadataFreshness 0
      response).bind fun accepted =>
        if accepted then afterMetadata ext x x.call.nowMs uri else .ret (.cache, IssuerKeyResult.zero)

def fetchMetadata (ext : Externals) (x : CachedCall) (ticket : CacheRefresh) :
    CallProg FetchReturn :=
  (getJson ext x.call.metadataUrl x.call.policy.metadataHttp).bind fun
    | .error e =>
      .ask (.complete ticket (failedCompletion x.call.nowMs)) fun _ =>
        .ret (.metadataHttp, { IssuerKeyResult.zero with httpError := e })
    | .ok response => useFetchedMetadata ext x ticket response

def metadataAfterWait (ext : Externals) (x : CachedCall) (key : Bytes) (elapsedMs : Int) :
    CallProg FetchReturn :=
  if int64Max - x.call.nowMs < elapsedMs then .ret (.cache, IssuerKeyResult.zero)
  else
    .ask (.lookup key (x.call.nowMs + elapsedMs) false x.capacity) fun lookup : IoLookup =>
      if lookup.hit then
        useCachedMetadata ext x (x.call.nowMs + elapsedMs) lookup.payload
      else .ret (.cache, IssuerKeyResult.zero)

def refreshMetadata (ext : Externals) (x : CachedCall) (key : Bytes) : CallProg FetchReturn :=
  .ask (.begin key x.call.nowMs false 0) fun (answer : CacheRefreshResult × CacheRefresh) =>
    if answer.1 == .started then fetchMetadata ext x answer.2
    else if answer.1 == .inProgress && 0 < x.cache.refreshWaitTimeoutMs then
      (waitRefresh key x.cache.refreshWaitTimeoutMs).bind fun waited =>
        if waited.1 then metadataAfterWait ext x key waited.2
        else .ret (.cache, IssuerKeyResult.zero)
    else .ret (.cache, IssuerKeyResult.zero)

def fetchThroughCache (ext : Externals) (x : CachedCall) : CallProg FetchReturn :=
  if x.capacity == 0 || cacheMaxPayloadSize < x.capacity then .ret (.cache, IssuerKeyResult.zero)
  else
    match cacheKeyBuild x.metadataKeyPolicy with
    | .error _ => .ret (.cache, IssuerKeyResult.zero)
    | .ok key =>
      .ask (.lookup key x.call.nowMs false x.capacity) fun lookup : IoLookup =>
        if lookup.hit then
          useCachedMetadata ext x x.call.nowMs lookup.payload
        else refreshMetadata ext x key

/-- The arguments of `pg_oauth_issuer_key_fetch_cached` as they are passed. -/
structure FetchArgs where
  metadataUrl : Option CString
  expectedIssuer : Option CString
  keyId : Option CString
  tokenAlgorithm : UInt32
  policy : Option IssuerKeyPolicy
  cachePolicy : Option IssuerKeyCachePolicy
  nowMs : Int
  responseTimeSeconds : Int
deriving DecidableEq

def FetchArgs.call (args : FetchArgs) : Option FetchCall :=
  match args.metadataUrl, args.expectedIssuer, args.keyId, args.policy with
  | some url, some issuer, some keyId, some policy =>
    if args.tokenAlgorithm == 0 then none
    else some ⟨url, issuer, keyId, args.tokenAlgorithm, policy, args.nowMs, args.responseTimeSeconds⟩
  | _, _, _, _ => none

def issuerKeyFetchCached (ext : Externals) (args : FetchArgs) : CallProg FetchReturn :=
  match args.call with
  | none => .ret (.invalidArgument, IssuerKeyResult.zero)
  | some call =>
    match args.cachePolicy with
    | none => fetchUncached ext call
    | some cache =>
      if !cachePolicyValid cache then .ret (.invalidArgument, IssuerKeyResult.zero)
      else fetchThroughCache ext ⟨call, cache⟩

def issuerKeyFetch (ext : Externals) (args : FetchArgs) : CallProg FetchReturn :=
  issuerKeyFetchCached ext { args with cachePolicy := none, nowMs := 0, responseTimeSeconds := 0 }

end OAuthValidator
