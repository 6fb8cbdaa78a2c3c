import OAuthValidator.AcceptedSettings
import OAuthValidator.DocumentAge
import OAuthValidator.StoredDocuments
import OAuthValidator.Wrapper

/-! The deployed system. Any number of backends run the callback, each for its own
connection and under its own settings, and their retrievals share one cache. A run
of callbacks is a run of the retrievals they perform, so what holds of those under
any policies holds here with the policies that the callback builds. -/

namespace OAuthValidator

open ExpiringMap Interleaving Program

abbrev CallbackHistory := History CallOp CallOp.Ans Invocation Shared

abbrev CallbackConfig := Config CallOp CallOp.Ans Invocation ValidateReturn Shared

/-- A run of callbacks, each started with what `admits` allows. -/
abbrev CallbackRun (ext : Externals) (admits : Shared → Invocation → Prop) (h : CallbackHistory)
    (c : CallbackConfig) : Prop :=
  Run (cacheSystem (validatorValidate ext) admits) initialShared h c

/-- What the callback has in hand when it asks for the key. -/
structure Demand where
  prepared : Prepared
  token : CString
  envelope : JwtEnvelope

def demand (ext : Externals) (inv : Invocation) : Option Demand := do
  let p ← (prepare ext inv).toOption
  let token ← inv.token
  if token.length == 0 || p.policy.maxTokenSize.toNat < token.length then none
  else
    let envelope ← (jwtEnvelopeParse ext token.bytes (validatorPolicy p inv).envelope).toOption
    return ⟨p, token, envelope⟩

def Demand.decide (ext : Externals) (d : Demand) (inv : Invocation) (fetched : FetchReturn) :
    ValidateReturn :=
  decideToken inv (verifyToken ext d.token.bytes (validatorPolicy d.prepared inv) d.envelope fetched)

/-- The retrieval that an invocation performs, if it comes to one. -/
def retrieval (ext : Externals) (inv : Invocation) : Option FetchArgs :=
  (demand ext inv).map fun d => d.prepared.fetchArgs inv d.envelope

/-- The answer of an invocation to what its retrieval has returned. -/
def conclude (ext : Externals) (inv : Invocation) (fetched : FetchReturn) : ValidateReturn :=
  (demand ext inv).elim internalFailure fun d => d.decide ext inv fetched

section Callback

variable {ext : Externals} {inv : Invocation} {d : Demand}

theorem toOption_eq_some {ε α : Type} {e : Except ε α} {a : α} : e.toOption = some a ↔ e = .ok a := by
  cases e <;> simp [Except.toOption]

theorem demand_eq_some (h : demand ext inv = some d) :
    prepare ext inv = .ok d.prepared ∧ inv.token = some d.token ∧
      (d.token.length ≠ 0 ∧ d.token.length ≤ d.prepared.policy.maxTokenSize.toNat) ∧
      jwtEnvelopeParse ext d.token.bytes (validatorPolicy d.prepared inv).envelope = .ok d.envelope := by
  simp only [demand, Option.bind_eq_bind, Option.bind_eq_some_iff, toOption_eq_some] at h
  obtain ⟨p, hp, token, ht, h⟩ := h
  split at h
  · simp at h
  · next hlength =>
    simp only [Option.bind_eq_some_iff, toOption_eq_some, Option.pure_def, Option.some.injEq] at h
    obtain ⟨envelope, he, rfl⟩ := h
    simp only [Bool.or_eq_true, beq_iff_eq, decide_eq_true_eq, not_or, Nat.not_lt] at hlength
    exact ⟨hp, ht, hlength, he⟩

/-- Without a retrieval the callback never decides in favour of the token. -/
theorem validatorValidate_undemanded (h : demand ext inv = none) :
    ∃ r, validatorValidate ext inv = .ret r ∧ r.2.authorized = false := by
  rcases validatorValidate_cases ext inv with hown | ⟨p, token, envelope, hp, ht, he, heq⟩
  · exact hown
  · simp only [demand, hp, ht, he, Except.toOption, Option.bind_eq_bind, Option.bind_some,
      Option.pure_def, ite_eq_left_iff, reduceCtorEq, imp_false, Bool.not_eq_true, Bool.not_eq_false] at h
    have hlong : (min token.length (p.policy.maxTokenSize.toNat + 1) == 0 ||
        decide (p.policy.maxTokenSize.toNat < min token.length (p.policy.maxTokenSize.toNat + 1))) = true := by
      simp only [Bool.or_eq_true, beq_iff_eq, decide_eq_true_eq] at h ⊢
      omega
    unfold validatorValidate
    exact ⟨rejected inv, by simp only [hp, ht, hlong, if_true], rfl⟩

/-- A token within its limit is counted and passed on whole. -/
theorem token_counted {token : CString} {maximum : Nat} (h : token.length ≠ 0 ∧ token.length ≤ maximum) :
    (min token.length (maximum + 1) == 0 || decide (maximum < min token.length (maximum + 1))) = false ∧
      token.bytes.take (min token.length (maximum + 1)) = token.bytes := by
  constructor
  · simp only [Bool.or_eq_false_iff, beq_eq_false_iff_ne, decide_eq_false_iff_not]
    omega
  · exact List.take_of_length_le (by simp only [CString.length] at h ⊢; omega)

/-- The callback decides on its own or performs one retrieval. -/
theorem validatorValidate_wraps (ext : Externals) :
    Wraps (validatorValidate ext) (issuerKeyFetchCached ext) (retrieval ext) (conclude ext) where
  decides inv hnone := by
    obtain ⟨r, hr, _⟩ := validatorValidate_undemanded (Option.map_eq_none_iff.mp hnone)
    exact ⟨r, hr⟩
  calls inv args hargs := by
    obtain ⟨d, hd, rfl⟩ := Option.map_eq_some_iff.mp hargs
    obtain ⟨hp, ht, hlength, he⟩ := demand_eq_some hd
    have hconclude : conclude ext inv = d.decide ext inv := by
      funext fetched
      simp [conclude, hd]
    obtain ⟨hshort, hwhole⟩ := token_counted hlength
    have hissuer : (validatorPolicy d.prepared inv).claims.issuer.isNone = false := rfl
    unfold validatorValidate
    simp only [hp, ht, hshort, Bool.false_eq_true, if_false, hwhole, validateAccessTokenCached, hissuer, he,
      Prog.bind_assoc, Prog.bind, hconclude]
    rfl

/-- What is known of an invocation that comes to a retrieval. -/
structure Demanded (ext : Externals) (inv : Invocation) (d : Demand) : Prop where
  demanded : demand ext inv = some d
  cached : (d.prepared.fetchArgs inv d.envelope).cached = some (d.prepared.cachedCall inv d.envelope)
  url : metadataUrl d.prepared.policy.issuer = some d.prepared.metadataUrl
  host : httpUrlHost ext d.prepared.metadataUrl maxUrlSize d.prepared.policy.allowInsecureHttp =
    .ok d.prepared.metadataHost
  clock : monotonicMs inv.monotonic = some d.prepared.monotonicMs
  lifetimes : (1000 ≤ d.prepared.policy.cacheMaxTtlMs ∧ d.prepared.policy.cacheMaxTtlMs ≤ 86400000) ∧
    (0 ≤ d.prepared.policy.jwksStaleGraceMs ∧ d.prepared.policy.jwksStaleGraceMs ≤ 3600000) ∧
    (0 ≤ d.prepared.policy.refreshWaitTimeoutMs ∧ d.prepared.policy.refreshWaitTimeoutMs ≤ 5000)

theorem demanded (h : demand ext inv = some d) : Demanded ext inv d := by
  obtain ⟨hp, _, _, he⟩ := demand_eq_some h
  obtain ⟨hba, haccepted⟩ := prepare_ok hp
  have hbuilt := policyBuild_ok haccepted.built
  exact {
    demanded := h
    cached := hbuilt.within.cached (jwtEnvelopeParse_ok he).algorithm_ne_zero
    url := haccepted.url
    host := haccepted.host
    clock := haccepted.clock
    lifetimes := ⟨⟨hbuilt.metadataTtl.1.trans hbuilt.metadataTtl.2, hbuilt.maximumTtl⟩, hbuilt.staleGrace,
      hbuilt.refreshWait⟩ }

theorem retrieval_eq_some {args : FetchArgs} (h : retrieval ext inv = some args) :
    ∃ d, Demanded ext inv d ∧ args = d.prepared.fetchArgs inv d.envelope := by
  obtain ⟨d, hd, rfl⟩ := Option.map_eq_some_iff.mp h
  exact ⟨d, demanded hd, rfl⟩

end Callback

/-! Two connections that share a document agree on everything that its retrieval
depends on. -/

/-- Connections under one key have the same requests and the same lifetimes. -/
structure SameRequests (p p' : Prepared) : Prop where
  issuer : p.policy.issuer = p'.policy.issuer
  metadataUrl : p.metadataUrl = p'.metadataUrl
  allowedJwksHosts : p.policy.allowedJwksHosts = p'.policy.allowedJwksHosts
  caFile : p.policy.caFile = p'.policy.caFile
  allowedAlgorithms : p.policy.allowedAlgorithms = p'.policy.allowedAlgorithms
  allowInsecureHttp : p.policy.allowInsecureHttp = p'.policy.allowInsecureHttp
  metadataHost : p.metadataHost = p'.metadataHost
  cacheMaxTtlMs : p.policy.cacheMaxTtlMs = p'.policy.cacheMaxTtlMs
  jwksStaleGraceMs : p.policy.jwksStaleGraceMs = p'.policy.jwksStaleGraceMs

section Keys

variable {ext : Externals} {inv inv' : Invocation} {d d' : Demand}

/-- The key policy of a document of a connection. -/
def documentKeyPolicy (p : Prepared) (resource : CacheResource) (jwksUrl : Option CString) : CacheKeyPolicy :=
  { cacheKeyPolicy p.policy with
    resource := resource
    issuer := some p.policy.issuer
    metadataUrl := some p.metadataUrl
    jwksUrl := jwksUrl }

theorem toUInt64_inj {a b : Int} (ha : 0 ≤ a ∧ a ≤ 86400000) (hb : 0 ≤ b ∧ b ≤ 86400000)
    (h : a.toNat.toUInt64 = b.toNat.toUInt64) : a = b := by
  have hmod := congrArg UInt64.toNat h
  simp only [Nat.toUInt64, UInt64.toNat_ofNat'] at hmod
  omega

/-- Writing a missing JWKS URL as the empty string loses nothing else. -/
theorem documentKeyPolicy_of_canonical {p p' : Prepared} {resource : CacheResource} {jwksUrl : Option CString}
    (h : (documentKeyPolicy p resource jwksUrl).canonical = (documentKeyPolicy p' resource jwksUrl).canonical) :
    documentKeyPolicy p resource jwksUrl = documentKeyPolicy p' resource jwksUrl := by
  have hback (q : Prepared) : documentKeyPolicy q resource jwksUrl =
      { (documentKeyPolicy q resource jwksUrl).canonical with jwksUrl := jwksUrl } := rfl
  rw [hback p, hback p', h]

theorem sameRequests_of_key (hd : Demanded ext inv d) (hd' : Demanded ext inv' d')
    {resource : CacheResource} {jwksUrl : Option CString}
    (h : documentKeyPolicy d.prepared resource jwksUrl = documentKeyPolicy d'.prepared resource jwksUrl) :
    SameRequests d.prepared d'.prepared := by
  have hurl : d.prepared.metadataUrl = d'.prepared.metadataUrl :=
    Option.some.inj (congrArg CacheKeyPolicy.metadataUrl h)
  have hinsecure : d.prepared.policy.allowInsecureHttp = d'.prepared.policy.allowInsecureHttp :=
    congrArg CacheKeyPolicy.allowInsecureHttp h
  have hhost := hd.host
  rw [hurl, hinsecure, hd'.host] at hhost
  obtain ⟨hmax, hgrace, _⟩ := hd.lifetimes
  obtain ⟨hmax', hgrace', _⟩ := hd'.lifetimes
  exact {
    issuer := Option.some.inj (congrArg CacheKeyPolicy.issuer h)
    metadataUrl := hurl
    allowedJwksHosts := congrArg CacheKeyPolicy.allowedJwksHosts h
    caFile := Option.some.inj (congrArg CacheKeyPolicy.caFile h)
    allowedAlgorithms := congrArg CacheKeyPolicy.allowedAlgorithms h
    allowInsecureHttp := hinsecure
    metadataHost := (Except.ok.inj hhost).symm
    cacheMaxTtlMs := toUInt64_inj (by omega) (by omega) (congrArg CacheKeyPolicy.cacheMaxTtlMs h)
    jwksStaleGraceMs := toUInt64_inj (by omega) (by omega) (congrArg CacheKeyPolicy.jwksStaleGraceMs h) }

theorem SameRequests.requestPolicy {p p' : Prepared} (h : SameRequests p p') (hosts : Option CString) :
    requestPolicy p hosts = requestPolicy p' hosts := by
  simp only [OAuthValidator.requestPolicy, h.metadataHost, h.caFile, h.allowInsecureHttp]

end Keys

/-! The documents behind the key of a connection. -/

/-- A connection of the run received a document at a real time, under settings that give
it the cache key that the document has for the settings of `p`. -/
inductive ReceivedUnderKey (ext : Externals) (h : CallbackHistory) (p : Prepared) (resource : CacheResource)
    (jwksUrl : Option CString) (url : CString) (policy : HttpPolicy) (response : HttpResponse) (ms : Int) : Prop
  | intro {j : Nat} {inv : Invocation} {d : Demand} {s : Shared} (started : (.start j inv, s) ∈ h)
      (demanded : demand ext inv = some d)
      (sameKey : documentKeyPolicy d.prepared resource jwksUrl = documentKeyPolicy p resource jwksUrl)
      (received : ReceivedIn h j url policy response ms)

theorem ReceivedUnderKey.receivedAt {ext : Externals} {h : CallbackHistory} {p : Prepared}
    {resource : CacheResource} {jwksUrl : Option CString} {url : CString} {policy : HttpPolicy}
    {response : HttpResponse} {ms : Int}
    (hr : ReceivedUnderKey ext h p resource jwksUrl url policy response ms) :
    ReceivedAt h url policy response ms := by
  obtain ⟨_, _, _, received⟩ := hr
  exact ⟨_, received⟩

/-- The documents that a key comes from, as the network served them to some backend
in answer to requests that are exactly those of this connection. -/
inductive TrustChain (ext : Externals) (h : CallbackHistory) (d : Demand) (key : SelectedJwk)
    (metadataMs jwksMs : Int) : Prop
  | intro {metadata jwks : HttpResponse} {uri : CString}
      (discovered : ReceivedUnderKey ext h d.prepared .metadata none d.prepared.metadataUrl
        (requestPolicy d.prepared none) metadata metadataMs)
      (named : metadataParse ext metadata.body d.prepared.policy.issuer
        ⟨maxDocumentSize, maxUrlSize, d.prepared.policy.allowInsecureHttp⟩ = .ok uri)
      (served : ReceivedUnderKey ext h d.prepared .jwks (some uri) uri
        (requestPolicy d.prepared d.prepared.policy.allowedJwksHosts) jwks jwksMs)
      (permitted : HostPermitted ext uri d.prepared.metadataHost
        (requestPolicy d.prepared d.prepared.policy.allowedJwksHosts))
      (selected : jwksSelect ext jwks.body d.envelope.keyId d.envelope.algorithm
        ⟨maxDocumentSize, 16, 1024, d.prepared.policy.allowedAlgorithms, 2048, 8192⟩ = .ok key)

/-- The longest time for which a connection may use a document after its receipt. -/
def Prepared.reachMs (p : Prepared) : Int :=
  p.policy.cacheMaxTtlMs + p.policy.jwksStaleGraceMs + 5000

theorem Demanded.reach_pos {ext : Externals} {inv : Invocation} {d : Demand} (hd : Demanded ext inv d) :
    0 < d.prepared.reachMs := by
  have hlifetimes := hd.lifetimes
  simp only [Prepared.reachMs]
  omega

/-- The retrievals that admitted invocations perform. -/
def Requested (ext : Externals) (admits : Shared → Invocation → Prop) (s : Shared) (args : FetchArgs) : Prop :=
  ∃ inv, admits s inv ∧ retrieval ext inv = some args

section Documents

variable {ext : Externals} {admits : Shared → Invocation → Prop} {inv : Invocation} {d : Demand}
  {h : CallbackHistory} {key document : Bytes} {ms untilMs : Int} {url : CString} {policy : HttpPolicy}
  {response : HttpResponse}

theorem ReceivedIn.of_requests {i : Nat} (hr : ReceivedIn (requests (retrieval ext) h) i url policy response ms) :
    ReceivedIn h i url policy response ms := by
  obtain ⟨s, hmem, hms⟩ := hr
  exact ⟨s, mem_requests_act.mp hmem, hms⟩

/-- The retrieval of a run that has started is that of an invocation. -/
theorem demanded_of_started {j : Nat} {args : FetchArgs} {s : Shared}
    (hs : (.start j args, s) ∈ requests (retrieval ext) h) :
    ∃ inv' d', (.start j inv', s) ∈ h ∧ Demanded ext inv' d' ∧
      args = d'.prepared.fetchArgs inv' d'.envelope := by
  obtain ⟨inv', hmem, hargs⟩ := mem_requests_start.mp hs
  obtain ⟨d', hd', rfl⟩ := retrieval_eq_some hargs
  exact ⟨inv', d', hmem, hd', rfl⟩

/-- A metadata document under the key of a connection, from whichever backend. -/
theorem ReceivedBy.metadata
    (hr : ReceivedBy ext (Requested ext admits) (requests (retrieval ext) h) key document ms untilMs)
    (hd : Demanded ext inv d) (hk : cacheKeyBuild (documentKeyPolicy d.prepared .metadata none) = .ok key) :
    ∃ response, ReceivedUnderKey ext h d.prepared .metadata none d.prepared.metadataUrl
      (requestPolicy d.prepared none) response ms ∧ response.body = document := by
  obtain ⟨started, hy, o, rfl, received, _, body, _⟩ := hr
  obtain ⟨inv', d', hstarted, hd', rfl⟩ := demanded_of_started started
  obtain rfl := Option.some.inj (hd'.cached.symm.trans hy)
  obtain ⟨_, hs, he⟩ | ⟨hres, _⟩ := o.of_key hk
  · have hkey : documentKeyPolicy d'.prepared .metadata none = documentKeyPolicy d.prepared .metadata none :=
      documentKeyPolicy_of_canonical he
    have hsame := sameRequests_of_key hd' hd hkey
    rw [hs] at received
    have hreceived : ReceivedIn h _ d'.prepared.metadataUrl (requestPolicy d'.prepared none) _ ms :=
      received.of_requests
    rw [hsame.metadataUrl, hsame.requestPolicy] at hreceived
    exact ⟨_, ⟨hstarted, hd'.demanded, hkey, hreceived⟩, body⟩
  · simp [documentKeyPolicy] at hres

/-- A JWKS document under the key of a connection, from whichever backend. -/
theorem ReceivedBy.jwks
    (hr : ReceivedBy ext (Requested ext admits) (requests (retrieval ext) h) key document ms untilMs)
    (hd : Demanded ext inv d) {uri : CString}
    (hk : cacheKeyBuild (documentKeyPolicy d.prepared .jwks (some uri)) = .ok key) :
    (∃ response, ReceivedUnderKey ext h d.prepared .jwks (some uri) uri
      (requestPolicy d.prepared d.prepared.policy.allowedJwksHosts) response ms ∧ response.body = document) ∧
    HostPermitted ext uri d.prepared.metadataHost
      (requestPolicy d.prepared d.prepared.policy.allowedJwksHosts) ∧
    (StartsByTheClock (Requested ext admits) → untilMs ≤ ms + d.prepared.reachMs) := by
  obtain ⟨started, hy, o, rfl, received, allowed, body, dated⟩ := hr
  obtain ⟨inv', d', hstarted, hd', rfl⟩ := demanded_of_started started
  obtain rfl := Option.some.inj (hd'.cached.symm.trans hy)
  have hk' : cacheKeyBuild ((d.prepared.cachedCall inv d.envelope).jwksKeyPolicy uri) = .ok _ := hk
  obtain ⟨tr, nowMs, host, hready, hs, hkey⟩ := o.of_jwksKey hk'
  have hsame := sameRequests_of_key hd' hd hkey
  have hslept := (o.slept hd'.lifetimes.2.2.1).2
  have hhost : host = d.prepared.metadataHost :=
    (Except.ok.inj (hready.host.symm.trans hd'.host)).trans hsame.metadataHost
  have hhttp : jwksHttpPolicy (d'.prepared.cachedCall inv' d'.envelope).call host =
      requestPolicy d.prepared d.prepared.policy.allowedJwksHosts := by
    rw [← hsame.allowedJwksHosts, ← hsame.requestPolicy, hhost, ← hsame.metadataHost]
    rfl
  rw [hs] at received allowed dated hslept
  simp only [jwksStage, hhttp] at received allowed
  refine ⟨⟨_, ⟨hstarted, hd'.demanded, hkey, received.of_requests⟩, body⟩,
    hostPermitted_of_requestError rfl allowed, fun hclock => ?_⟩
  have hdated := dated hclock
  have hlifetimes := hd'.lifetimes
  have hmax := hsame.cacheMaxTtlMs
  have hgrace := hsame.jwksStaleGraceMs
  simp only [jwksStage, Prepared.cachedCall, cachePolicy, Prepared.reachMs] at hdated hslept ⊢
  omega

variable {c : CallConfig} {i : Nat} {tr : CallTrace} {rest : CallProg FetchReturn}

/-- What the connection itself has received is under its own key. -/
theorem CallRun.receivedUnderKey (hr : CallRun ext (Requested ext admits) (requests (retrieval ext) h) c)
    (hd : Demanded ext inv d) (hc : c.calls i = some ⟨d.prepared.fetchArgs inv d.envelope, tr, rest⟩)
    (hreceived : ReceivedIn (requests (retrieval ext) h) i url policy response ms)
    {resource : CacheResource} {jwksUrl : Option CString} :
    ReceivedUnderKey ext h d.prepared resource jwksUrl url policy response ms := by
  obtain ⟨s, hs⟩ := Run.start_mem hr hc
  obtain ⟨inv', d', hstarted, hd', hargs⟩ := demanded_of_started hs
  have hcall : d.prepared.cachedCall inv d.envelope = d'.prepared.cachedCall inv' d'.envelope :=
    Option.some.inj (hd.cached.symm.trans ((congrArg FetchArgs.cached hargs).trans hd'.cached))
  refine ⟨hstarted, hd'.demanded, ?_, hreceived.of_requests⟩
  exact congrArg (fun x : CachedCall => { x.cache.keyPolicy with
    resource := resource
    issuer := some x.call.expectedIssuer
    metadataUrl := some x.call.metadataUrl
    jwksUrl := jwksUrl }) hcall.symm

/-- The metadata document that a retrieval goes by was received in the run. -/
theorem CallRun.metadataReceived (hr : CallRun ext (Requested ext admits) (requests (retrieval ext) h) c)
    (hd : Demanded ext inv d) (hc : c.calls i = some ⟨d.prepared.fetchArgs inv d.envelope, tr, rest⟩)
    {base : CallTrace} {nowMs : Int} {metadata : Bytes}
    (hkey : cacheKeyBuild (documentKeyPolicy d.prepared .metadata none) = .ok key)
    (hread : MetadataRead ext (d.prepared.cachedCall inv d.envelope) key base nowMs metadata)
    (hbase : base <:+ tr) :
    ∃ response ms, ReceivedUnderKey ext h d.prepared .metadata none d.prepared.metadataUrl
      (requestPolicy d.prepared none) response ms ∧ response.body = metadata := by
  rcases CallRun.taken hr hc hd.cached ((hread.taken hd.lifetimes.2.2.1).mono hbase) with
    ⟨response, ms, hreceived, _, hbody, _⟩ | ⟨ms, untilMs, hby, _⟩
  · exact ⟨response, ms, CallRun.receivedUnderKey hr hd hc hreceived, hbody⟩
  · obtain ⟨response, hreceived, hbody⟩ := hby.metadata hd hkey
    exact ⟨response, ms, hreceived, hbody⟩

/-- The JWKS document that a retrieval takes was received in the run. -/
theorem CallRun.jwksReceived (hr : CallRun ext (Requested ext admits) (requests (retrieval ext) h) c)
    (hd : Demanded ext inv d) (hc : c.calls i = some ⟨d.prepared.fetchArgs inv d.envelope, tr, rest⟩)
    {uri : CString} (hkey : cacheKeyBuild (documentKeyPolicy d.prepared .jwks (some uri)) = .ok key)
    (htaken : Taken (d.prepared.cachedCall inv d.envelope) key uri
      (requestPolicy d.prepared d.prepared.policy.allowedJwksHosts) tr document) :
    ∃ response ms, ReceivedUnderKey ext h d.prepared .jwks (some uri) uri
      (requestPolicy d.prepared d.prepared.policy.allowedJwksHosts) response ms ∧ response.body = document ∧
      HostPermitted ext uri d.prepared.metadataHost
        (requestPolicy d.prepared d.prepared.policy.allowedJwksHosts) ∧
      (StartsByTheClock (Requested ext admits) → d.prepared.monotonicMs < ms + d.prepared.reachMs) := by
  rcases CallRun.taken hr hc hd.cached htaken with
    ⟨response, ms, hreceived, hallowed, hbody, hdated⟩ | ⟨ms, untilMs, hby, hlt⟩
  · refine ⟨response, ms, CallRun.receivedUnderKey hr hd hc hreceived, hbody,
      hostPermitted_of_requestError rfl hallowed, fun hclock => ?_⟩
    have hms : d.prepared.monotonicMs ≤ ms := hdated hclock
    have hreach := hd.reach_pos
    omega
  · obtain ⟨⟨response, hreceived, hbody⟩, hpermitted, hdated⟩ := hby.jwks hd hkey
    exact ⟨response, ms, hreceived, hbody, hpermitted, fun hclock => Int.lt_of_lt_of_le hlt (hdated hclock)⟩

/-- The key that a retrieval returns, with the documents behind it. -/
theorem CallRun.trustChain (hr : CallRun ext (Requested ext admits) (requests (retrieval ext) h) c)
    (hd : Demanded ext inv d) {fetched : FetchReturn}
    (hc : c.calls i = some ⟨d.prepared.fetchArgs inv d.envelope, tr, .ret fetched⟩)
    (hok : fetched.1 = .ok) :
    ∃ selected metadataMs jwksMs, fetched.2.selected = some selected ∧
      TrustChain ext h d selected metadataMs jwksMs ∧
      (StartsByTheClock (Requested ext admits) → d.prepared.monotonicMs < jwksMs + d.prepared.reachMs) := by
  have hfinished : CallFinished ext (d.prepared.fetchArgs inv d.envelope) tr fetched :=
    Run.sat (issuerKeyFetchCached_sat ext) hr hc
  obtain ⟨selected, hselected, ⟨x, hx, haccepted⟩ | ⟨_, _, hnone, _⟩⟩ := hfinished.accepted hok
  · obtain rfl := Option.some.inj (hd.cached.symm.trans hx)
    obtain ⟨base, nowMs, uri, host, key, document, hready, hbase, hselect, htaken⟩ :=
      haccepted.taken hd.lifetimes.2.2.1
    obtain ⟨metadataKey, metadata, hkey, hread, hparse⟩ := hready.metadata
    obtain rfl : host = d.prepared.metadataHost := Except.ok.inj (hready.host.symm.trans hd.host)
    obtain ⟨m, metadataMs, hm, rfl⟩ := CallRun.metadataReceived hr hd hc hkey hread hbase
    obtain ⟨j, jwksMs, hj, rfl, hpermitted, hdated⟩ := CallRun.jwksReceived hr hd hc hready.key htaken
    exact ⟨selected, metadataMs, jwksMs, hselected, ⟨hm, hparse, hj, hpermitted, hselect⟩, hdated⟩
  · simp [Prepared.fetchArgs] at hnone

end Documents

/-! Runs of callbacks. -/

section Runs

variable {ext : Externals} {admits : Shared → Invocation → Prop} {h : CallbackHistory} {c : CallbackConfig}

/-- The retrievals of a run of callbacks are a run of their own. -/
theorem CallbackRun.retrievals (hr : CallbackRun ext admits h c) :
    ∃ c', CallRun ext (Requested ext admits) (requests (retrieval ext) h) c' ∧
      Agrees (validatorValidate ext) (retrieval ext) (conclude ext) c c' :=
  Run.requests (S := cacheSystem (validatorValidate ext) admits)
    (T := callSystem ext (Requested ext admits)) (validatorValidate_wraps ext) rfl rfl
    (fun _ inv _ hadmit hargs => ⟨inv, hadmit, hargs⟩) hr

/-- An authorized connection comes from a retrieval that returned a key. -/
theorem CallbackRun.authorized (hr : CallbackRun ext admits h c) {i : Nat}
    {call : Call CallOp CallOp.Ans Invocation ValidateReturn} (hc : c.calls i = some call)
    {r : ValidateReturn} (hret : call.rest = .ret r) (ha : r.2.authorized = true) :
    ∃ d c' fetched, Demanded ext call.arg d ∧
      CallRun ext (Requested ext admits) (requests (retrieval ext) h) c' ∧
      c'.calls i = some ⟨d.prepared.fetchArgs call.arg d.envelope, call.trace, .ret fetched⟩ ∧
      r = d.decide ext call.arg fetched := by
  obtain ⟨c', hr', hagrees⟩ := hr.retrievals
  have hmade := hagrees.made i call hc
  obtain ⟨inv, tr, rest⟩ := call
  obtain rfl : rest = .ret r := hret
  rcases hmade.returned with ⟨hnone, hown⟩ | ⟨args, fetched, hargs, hcall, hr⟩
  · obtain ⟨r', heq, hdenied⟩ := validatorValidate_undemanded (Option.map_eq_none_iff.mp hnone)
    rw [← Prog.ret.inj (heq.symm.trans hown), hdenied] at ha
    simp at ha
  · obtain ⟨d, hd, rfl⟩ := retrieval_eq_some hargs
    exact ⟨d, c', fetched, hd, hr', hcall, by rw [hr]; simp [conclude, hd.demanded]⟩

/-- What an authorized connection rests on, with the times of the two receipts. -/
theorem CallbackRun.chain (hr : CallbackRun ext admits h c) {i : Nat}
    {call : Call CallOp CallOp.Ans Invocation ValidateReturn} (hc : c.calls i = some call)
    {r : ValidateReturn} (hret : call.rest = .ret r) (ha : r.2.authorized = true) :
    ∃ d key claims metadataMs jwksMs, Demanded ext call.arg d ∧
      TrustChain ext h d key metadataMs jwksMs ∧
      signatureVerify ext d.token.bytes (some key) = .ok () ∧
      claimsValidate d.envelope.untrustedPayload (validatorPolicy d.prepared call.arg).claims = .ok claims ∧
      r.2.authnId = some claims.identity ∧
      (StartsByTheClock (Requested ext admits) → d.prepared.monotonicMs < jwksMs + d.prepared.reachMs) := by
  obtain ⟨d, c', fetched, hd, hr', hcall, rfl⟩ := CallbackRun.authorized hr hc hret ha
  obtain ⟨identity, hok, hid, hauthn⟩ := decideToken_authorized ha
  obtain ⟨hfetched, ⟨_, hsignature⟩, claims, hclaims, rfl⟩ := verifyToken_ok hok hid
  obtain ⟨key, metadataMs, jwksMs, hkey, hchain, hrecent⟩ := CallRun.trustChain hr' hd hcall hfetched
  rw [hkey] at hsignature
  exact ⟨d, key, claims, metadataMs, jwksMs, hd, hchain, hsignature, hclaims,
    by rw [Demand.decide, hauthn, ofBuffer_bytes], hrecent⟩

/-- Whatever other connections do under whatever settings, the key that a connection
was authorized with comes from documents that were requested as this connection
itself requests them, by connections whose settings have the same cache keys. -/
theorem authorized_by_own_requests (hr : CallbackRun ext admits h c) {i : Nat}
    {call : Call CallOp CallOp.Ans Invocation ValidateReturn} (hc : c.calls i = some call)
    {r : ValidateReturn} (hret : call.rest = .ret r) (ha : r.2.authorized = true) :
    ∃ d key claims metadataMs jwksMs, demand ext call.arg = some d ∧
      TrustChain ext h d key metadataMs jwksMs ∧
      signatureVerify ext d.token.bytes (some key) = .ok () ∧
      claimsValidate d.envelope.untrustedPayload (validatorPolicy d.prepared call.arg).claims = .ok claims ∧
      r.2.authnId = some claims.identity := by
  obtain ⟨d, key, claims, metadataMs, jwksMs, hd, hchain, hsignature, hclaims, hauthn, _⟩ :=
    CallbackRun.chain hr hc hret ha
  exact ⟨d, key, claims, metadataMs, jwksMs, hd.demanded, hchain, hsignature, hclaims, hauthn⟩

/-- Callbacks read the real clock when they start. -/
def ReadsTheClock (admits : Shared → Invocation → Prop) : Prop :=
  ∀ s inv, admits s inv → monotonicMs inv.monotonic = some s.clockMs

theorem ReadsTheClock.starts (hclock : ReadsTheClock admits) : StartsByTheClock (Requested ext admits) := by
  rintro s args ⟨inv, hadmit, hargs⟩
  obtain ⟨d, hd, rfl⟩ := retrieval_eq_some hargs
  have hnow : d.prepared.monotonicMs = s.clockMs :=
    Option.some.inj (hd.clock.symm.trans (hclock s inv hadmit))
  exact Int.le_of_eq hnow

/-- Once no key is served any more that a token verifies under, no connection that
starts a lifetime, a grace and a wait later is authorized by that token. -/
theorem withdrawn_key_not_authorized (hclock : ReadsTheClock admits) (hr : CallbackRun ext admits h c)
    {i : Nat} {call : Call CallOp CallOp.Ans Invocation ValidateReturn} (hc : c.calls i = some call)
    {d : Demand} (hd : demand ext call.arg = some d) {withdrawnMs : Int}
    (hwithdrawn : ∀ uri response ms key,
      ReceivedAt h uri (requestPolicy d.prepared d.prepared.policy.allowedJwksHosts) response ms →
      withdrawnMs < ms → jwksSelect ext response.body d.envelope.keyId d.envelope.algorithm
        ⟨maxDocumentSize, 16, 1024, d.prepared.policy.allowedAlgorithms, 2048, 8192⟩ = .ok key →
      signatureVerify ext d.token.bytes (some key) ≠ .ok ())
    (hlate : withdrawnMs + (d.prepared.policy.cacheMaxTtlMs + d.prepared.policy.jwksStaleGraceMs + 5000) ≤
      d.prepared.monotonicMs) {r : ValidateReturn} (hret : call.rest = .ret r) :
    r.2.authorized = false := by
  by_contra hne
  have ha : r.2.authorized = true := by simpa using hne
  obtain ⟨d', key, _, metadataMs, jwksMs, hd', ⟨_, _, hserved, _, hselected⟩, hsignature, _, _,
    hrecent⟩ := CallbackRun.chain hr hc hret ha
  obtain rfl := Option.some.inj (hd.symm.trans hd'.demanded)
  have hjwks := hrecent hclock.starts
  simp only [Prepared.reachMs] at hjwks
  exact hwithdrawn _ _ _ _ hserved.receivedAt (by omega) hselected hsignature

end Runs

namespace Sample

/-- A second connection, which finds both documents in the cache. -/
def warmConnection : List (Choice Invocation) :=
  coldConnection ++ [.start 1 invocation, .step 1 unreachable, .step 1 unreachable]

/-- The callback at a time, in seconds, for an issuer whose documents serve ten seconds. -/
def connectionAt (seconds : Nat) : Invocation :=
  { invocation with
    config := { config with metadataDefaultTtlMs := 5000, jwksDefaultTtlMs := 5000, cacheMaxTtlMs := 10000 }
    monotonic := some (seconds, 0)
    wallTime := 1700000000 + seconds }

/-- The steps of a callback that has to ask for both documents. -/
def refreshing (i : Nat) (inv : Invocation) (jwks : Bytes) : List (Choice Invocation) :=
  let quiet (n : Nat) : List (Choice Invocation) := List.replicate n (.step i unreachable)
  [.start i inv] ++ quiet 2 ++ [.step i (respond metadata)] ++ quiet 3 ++ [.step i (respond jwks)] ++ quiet 1

/-- The issuer replaces its key after the first connection, and the second one comes
fifteen seconds later with the same token. -/
def withdrawal : List (Choice Invocation) :=
  refreshing 0 (connectionAt 1) (keyText "a" pointA) ++ [.tick 15000] ++
    refreshing 1 (connectionAt 16) (keyText "b" pointB)

/-- Callbacks start with the time of the clock. -/
def readsTheClock (s : Shared) (inv : Invocation) : Bool :=
  monotonicMs inv.monotonic == some s.clockMs

/-- An event other than the receipt of a response. -/
def unanswered (e : Event CallOp CallOp.Ans Invocation × Shared) : Bool :=
  match e.1 with
  | .act _ (.transfer _ _) a => !Except.isOk a
  | _ => true

/-- An event that is not the receipt, after the first second, of a key set with the key
of a connection. -/
def keyless (d : Demand) (e : Event CallOp CallOp.Ans Invocation × Shared) : Bool :=
  match e.1 with
  | .act _ (.transfer _ _) (.ok response) =>
    decide (e.2.clockMs ≤ 1000) || !(jwksSelect tokenExternals response.body d.envelope.keyId d.envelope.algorithm
      ⟨maxDocumentSize, 16, 1024, d.prepared.policy.allowedAlgorithms, 2048, 8192⟩).isOk
  | _ => true

theorem keyless_received {h : CallbackHistory} {d : Demand} (hkeyless : ∀ e ∈ h, keyless d e = true)
    {uri : CString} {policy : HttpPolicy} {response : HttpResponse} {ms : Int} {key : SelectedJwk}
    (hreceived : ReceivedAt h uri policy response ms) (hms : 1000 < ms) :
    jwksSelect tokenExternals response.body d.envelope.keyId d.envelope.algorithm
      ⟨maxDocumentSize, 16, 1024, d.prepared.policy.allowedAlgorithms, 2048, 8192⟩ ≠ .ok key := by
  obtain ⟨i, s, hmem, rfl⟩ := hreceived
  intro hselect
  have htest := hkeyless _ hmem
  simp only [keyless, hselect, Except.isOk, Except.toBool, Bool.not_true, Bool.or_false,
    decide_eq_true_eq] at htest
  omega

/-- The second connection comes too late for the key of the first. -/
def late (h : CallbackHistory) (call : Call CallOp CallOp.Ans Invocation ValidateReturn) : Bool :=
  (demand tokenExternals call.arg).any fun d => h.all (keyless d) &&
    decide (1000 + (d.prepared.policy.cacheMaxTtlMs + d.prepared.policy.jwksStaleGraceMs + 5000) ≤
      d.prepared.monotonicMs)

/-- An invocation that has come to a retrieval and has returned. -/
def concluded (call : Call CallOp CallOp.Ans Invocation ValidateReturn) : Bool :=
  (demand tokenExternals call.arg).isSome && match call.rest with
    | .ret _ => true
    | _ => false

theorem concluded_returned {call : Call CallOp CallOp.Ans Invocation ValidateReturn}
    (h : concluded call = true) : ∃ r, call.rest = .ret r := by
  have hret := (Bool.and_eq_true_iff.mp h).2
  split at hret
  · next r hrest => exact ⟨r, hrest⟩
  · simp at hret

end Sample

theorem Sample.warmConnection_run :
    ∃ h c, CallbackRun Sample.tokenExternals (fun _ _ => true = true) h c ∧
      (∃ call r, c.calls 1 = some call ∧ call.rest = .ret r ∧ r.2.authorized = true) ∧
      ∃ e ∈ h, Sample.unanswered e = false := by
  have hrun : (replay (validatorValidate Sample.tokenExternals) (fun _ _ => true) 8 0
      Sample.warmConnection).any (fun p =>
        (p.2.calls 1).any Sample.authorizedCall && !p.1.all Sample.unanswered) = true := by
    simp only [Sample.warmConnection, Sample.coldConnection, Sample.invocation, Sample.tokenExternals,
      Sample.token, Sample.keyObjectText, CString.lit_append]
    decide +kernel
  obtain ⟨h, c, hr, htest⟩ := replay_any hrun
  rw [Bool.and_eq_true, Bool.not_eq_true', List.all_eq_false] at htest
  obtain ⟨call, hc, hcall⟩ := exists_of_any htest.1
  obtain ⟨e, he, hanswered⟩ := htest.2
  obtain ⟨r, hret, ha⟩ := Sample.authorizedCall_returned hcall
  exact ⟨h, c, hr, ⟨call, r, hc, hret, ha⟩, e, he, by simpa using hanswered⟩

theorem authorized_by_own_requests_shared :
    ∃ h c call r, CallbackRun Sample.tokenExternals (fun _ _ => true = true) h c ∧ c.calls 1 = some call ∧
      call.rest = .ret r ∧ r.2.authorized = true ∧
      ∃ d key claims metadataMs jwksMs, demand Sample.tokenExternals call.arg = some d ∧
        TrustChain Sample.tokenExternals h d key metadataMs jwksMs ∧
        signatureVerify Sample.tokenExternals d.token.bytes (some key) = .ok () ∧
        claimsValidate d.envelope.untrustedPayload (validatorPolicy d.prepared call.arg).claims = .ok claims ∧
        r.2.authnId = some claims.identity := by
  obtain ⟨h, c, hr, ⟨call, r, hc, hret, ha⟩, _⟩ := Sample.warmConnection_run
  exact ⟨h, c, call, r, hr, hc, hret, ha, authorized_by_own_requests hr hc hret ha⟩

/-- The first connection is authorized by a key of the issuer. When the issuer has
replaced it, the second connection is not, although it brings the same token in time. -/
theorem withdrawn_key_not_authorized_replaced :
    ∃ h c call₀ r₀ call d r,
      CallbackRun Sample.tokenExternals (fun s inv => Sample.readsTheClock s inv = true) h c ∧
      c.calls 0 = some call₀ ∧ call₀.rest = .ret r₀ ∧ r₀.2.authorized = true ∧
      c.calls 1 = some call ∧ demand Sample.tokenExternals call.arg = some d ∧
      (∀ uri response ms key,
        ReceivedAt h uri (requestPolicy d.prepared d.prepared.policy.allowedJwksHosts) response ms →
        1000 < ms →
        jwksSelect Sample.tokenExternals response.body d.envelope.keyId d.envelope.algorithm
          ⟨maxDocumentSize, 16, 1024, d.prepared.policy.allowedAlgorithms, 2048, 8192⟩ = .ok key →
        signatureVerify Sample.tokenExternals d.token.bytes (some key) ≠ .ok ()) ∧
      1000 + (d.prepared.policy.cacheMaxTtlMs + d.prepared.policy.jwksStaleGraceMs + 5000) ≤
        d.prepared.monotonicMs ∧
      call.rest = .ret r ∧ r.2.authorized = false := by
  have hrun : (replay (validatorValidate Sample.tokenExternals) Sample.readsTheClock 8 1000
      Sample.withdrawal).any (fun p => (p.2.calls 0).any Sample.authorizedCall &&
        ((p.2.calls 1).any fun call => Sample.late p.1 call && Sample.concluded call)) = true := by
    simp only [Sample.withdrawal, Sample.refreshing, Sample.connectionAt, Sample.invocation,
      Sample.tokenExternals, Sample.token, Sample.keyObjectText, CString.lit_append]
    decide +kernel
  obtain ⟨h, c, hr, htest⟩ := replay_any hrun
  rw [Bool.and_eq_true] at htest
  obtain ⟨call₀, hc₀, hcall₀⟩ := exists_of_any htest.1
  obtain ⟨call, hc, hcall⟩ := exists_of_any htest.2
  rw [Bool.and_eq_true] at hcall
  obtain ⟨d, hd, hlate⟩ := exists_of_any hcall.1
  rw [Bool.and_eq_true, List.all_eq_true, decide_eq_true_eq] at hlate
  have hclock : ReadsTheClock fun s inv => Sample.readsTheClock s inv = true := by
    intro s inv hadmit
    simpa [Sample.readsTheClock] using hadmit
  have hwithdrawn : ∀ uri response ms key,
      ReceivedAt h uri (requestPolicy d.prepared d.prepared.policy.allowedJwksHosts) response ms → 1000 < ms →
      jwksSelect Sample.tokenExternals response.body d.envelope.keyId d.envelope.algorithm
        ⟨maxDocumentSize, 16, 1024, d.prepared.policy.allowedAlgorithms, 2048, 8192⟩ = .ok key →
      signatureVerify Sample.tokenExternals d.token.bytes (some key) ≠ .ok () :=
    fun _ _ _ _ hreceived hms hselect => absurd hselect (Sample.keyless_received hlate.1 hreceived hms)
  obtain ⟨r₀, hret₀, ha₀⟩ := Sample.authorizedCall_returned hcall₀
  obtain ⟨r, hret⟩ := Sample.concluded_returned hcall.2
  exact ⟨h, c, call₀, r₀, call, d, r, hr, hc₀, hret₀, ha₀, hc, hd, hwithdrawn, hlate.2, hret,
    withdrawn_key_not_authorized hclock hr hc hd hwithdrawn hlate.2 hret⟩

end OAuthValidator
