import OAuthValidator.SequentialCache

/-! Calls one after another, under one policy and against an issuer that always
serves the same documents. Between the operations of such calls the cache holds
nothing but these documents, under their own keys, and at most one refresh is
under way. -/

namespace OAuthValidator

open ExpiringMap Program

/-- A policy that passes every check, and the documents of an issuer. -/
structure Deployment (ext : Externals) where
  metadataUrl : CString
  expectedIssuer : CString
  policy : IssuerKeyPolicy
  cache : IssuerKeyCachePolicy
  document : CString → Bytes
  metadataKey : Bytes
  valid : cachePolicyValid cache = true
  capacity_pos : 0 < max policy.metadataHttp.maxResponseSize policy.jwksHttp.maxResponseSize
  capacity_le : max policy.metadataHttp.maxResponseSize policy.jwksHttp.maxResponseSize ≤
    cacheMaxPayloadSize
  metadataKey_eq : cacheKeyBuild { cache.keyPolicy with
    resource := .metadata
    issuer := some expectedIssuer
    metadataUrl := some metadataUrl
    jwksUrl := none } = .ok metadataKey
  jwksKey_fits : ∀ uri, metadataParse ext (document metadataUrl) expectedIssuer policy.metadata = .ok uri →
    ∃ key, cacheKeyBuild { cache.keyPolicy with
      resource := .jwks
      issuer := some expectedIssuer
      metadataUrl := some metadataUrl
      jwksUrl := some uri } = .ok key

namespace Deployment

variable {ext : Externals} (d : Deployment ext)

def capacity : Nat :=
  max d.policy.metadataHttp.maxResponseSize d.policy.jwksHttp.maxResponseSize

/-- The arguments of a call: everything but the key and the times is fixed. -/
def args (keyId : Option CString) (algorithm : UInt32) (nowMs timeSeconds : Int) : FetchArgs :=
  ⟨some d.metadataUrl, some d.expectedIssuer, keyId, algorithm, some d.policy, some d.cache, nowMs,
    timeSeconds⟩

def call (keyId : CString) (algorithm : UInt32) (nowMs timeSeconds : Int) : CachedCall :=
  ⟨⟨d.metadataUrl, d.expectedIssuer, keyId, algorithm, d.policy, nowMs, timeSeconds⟩, d.cache⟩

/-- The issuer answers with its document, under headers from which the
freshness can be calculated. -/
structure Serves (timeSeconds : Int) (url : CString) (response : HttpResponse) : Prop where
  body : response.body = d.document url
  metadata : ∃ f, response.freshness ext timeSeconds d.cache.metadataFreshness = .ok f
  jwks : ∃ f, response.freshness ext timeSeconds d.cache.jwksFreshness = .ok f

/-- The operations of a call at a time, with this issuer at the other end. -/
def perform (timeSeconds : Int) : Shared → (op : CallOp) → op.Ans → Shared → Prop
  | s, .transfer url policy, answer, s' =>
    OAuthValidator.perform s (.transfer url policy) answer s' ∧
      ∃ response, answer = .ok response ∧ d.Serves timeSeconds url response
  | s, op, answer, s' => OAuthValidator.perform s op answer s'

/-- The states between the calls of a sequential run from an empty cache. -/
inductive Reached : Shared → Prop
  | init {s : Shared} {capacity : Nat} (room : 2 ≤ capacity) (empty : cacheInit capacity = some s.cache) :
      Reached s
  | call {s s' : Shared} {keyId : Option CString} {algorithm : UInt32} {nowMs timeSeconds : Int}
      {r : FetchReturn} (before : Reached s) (nonneg : 0 ≤ nowMs)
      (run : Solo (d.perform timeSeconds) s
        (issuerKeyFetchCached ext (d.args keyId algorithm nowMs timeSeconds)) s' r) : Reached s'
  | pause {s : Shared} (before : Reached s) (clockMs : Int) : Reached { s with clockMs := clockMs }

def metadata : Bytes :=
  d.document d.metadataUrl

def jwksKeyPolicy (uri : CString) : CacheKeyPolicy :=
  { d.cache.keyPolicy with
    resource := .jwks
    issuer := some d.expectedIssuer
    metadataUrl := some d.metadataUrl
    jwksUrl := some uri }

def jwksHttp (host : CString) : HttpPolicy :=
  { d.policy.jwksHttp with allowedHost := some host }

/-- Where the metadata points, and the host it was found on. -/
structure Discovers (uri host : CString) : Prop where
  parse : metadataParse ext d.metadata d.expectedIssuer d.policy.metadata = .ok uri
  host : httpUrlHost ext d.metadataUrl d.policy.metadataHttp.maxUrlSize
    d.policy.metadataHttp.allowInsecureHttp = .ok host

/-- The documents that can be stored under a key. -/
inductive Source : Bytes → Bytes → Prop
  | metadata (allowed : requestError ext d.metadataUrl d.policy.metadataHttp = none)
      (length : d.metadata.length ≤ d.capacity) : Source d.metadataKey d.metadata
  | jwks {uri host : CString} {key : Bytes} (found : d.Discovers uri host)
      (built : cacheKeyBuild (d.jwksKeyPolicy uri) = .ok key)
      (allowed : requestError ext uri (d.jwksHttp host) = none)
      (length : (d.document uri).length ≤ d.capacity) : Source key (d.document uri)

/-- The keys under which calls work. -/
def Key (key : Bytes) : Prop :=
  key = d.metadataKey ∨ ∃ uri, metadataParse ext d.metadata d.expectedIssuer d.policy.metadata = .ok uri ∧
    cacheKeyBuild (d.jwksKeyPolicy uri) = .ok key

/-- What holds of the cache between two operations. -/
structure Holds (pending : CacheRefresh → Option Bytes) (s : Shared) : Prop where
  inv : s.cache.Inv
  room : 2 ≤ s.cache.entries.length
  pending : pendingKey s.cache = pending
  keys : ∀ key, Occupied s.cache key → d.Key key
  stored : ∀ key stored, cacheMap s.cache key = some stored → d.Source key stored.value

/-- No refresh is under way. -/
abbrev Idle (s : Shared) : Prop :=
  d.Holds (fun _ => none) s

/-- One refresh is under way. -/
abbrev Refreshing (ticket : CacheRefresh) (key : Bytes) (s : Shared) : Prop :=
  d.Holds (Function.update (fun _ => none) ticket (some key)) s

variable {d}

theorem key_valid {key : Bytes} (hk : d.Key key) : validKey key = true := by
  rcases hk with rfl | ⟨uri, _, hb⟩
  · exact (cacheKeyBuild_eq_ok d.metadataKey_eq).validKey
  · exact (cacheKeyBuild_eq_ok hb).validKey

theorem Source.of_metadataKey {value : Bytes} (h : d.Source d.metadataKey value) :
    value = d.metadata ∧ requestError ext d.metadataUrl d.policy.metadataHttp = none ∧
      value.length ≤ d.capacity := by
  generalize hk : d.metadataKey = key at h
  cases h with
  | metadata allowed length => exact ⟨rfl, allowed, length⟩
  | jwks _ built _ _ =>
    -- keys of different resources differ
    have he := cacheKeyBuild_injective d.metadataKey_eq (hk ▸ built)
    exact absurd (congrArg CacheKeyPolicy.resource he) (by simp [CacheKeyPolicy.canonical, jwksKeyPolicy])

theorem Source.of_jwksKey {uri host : CString} {key value : Bytes} (found : d.Discovers uri host)
    (built : cacheKeyBuild (d.jwksKeyPolicy uri) = .ok key) (h : d.Source key value) :
    value = d.document uri ∧ requestError ext uri (d.jwksHttp host) = none ∧
      value.length ≤ d.capacity := by
  cases h with
  | metadata _ _ =>
    have he := cacheKeyBuild_injective d.metadataKey_eq built
    exact absurd (congrArg CacheKeyPolicy.resource he) (by simp [CacheKeyPolicy.canonical, jwksKeyPolicy])
  | jwks found' built' allowed length =>
    obtain rfl := Except.ok.inj (found.parse.symm.trans found'.parse)
    obtain rfl := Except.ok.inj (found.host.symm.trans found'.host)
    exact ⟨rfl, allowed, length⟩

section Operations

variable {s s' : Shared} {pending : CacheRefresh → Option Bytes}

theorem holds_iff : d.Holds pending s ↔ Holding d.Key d.Source pending s :=
  ⟨fun h => ⟨h.inv, h.room, h.pending, h.keys, h.stored⟩,
    fun h => ⟨h.inv, h.room, h.pending, h.keys, h.stored⟩⟩

theorem Idle.init {capacity : Nat} (room : 2 ≤ capacity) (empty : cacheInit capacity = some s.cache) :
    d.Idle s := by
  have hempty : s.cache.entries.length = capacity ∧ ∀ entry ∈ s.cache.entries, entry = .zero := by
    unfold cacheInit at empty
    split at empty
    · simp at empty
    · obtain he := Option.some.inj empty
      rw [← he]
      exact ⟨List.length_replicate, fun entry hm => List.eq_of_mem_replicate hm⟩
  refine holds_iff.mpr (.empty (.init empty) (by omega) fun entry hm => ?_)
  rw [hempty.2 entry hm]
  rfl

theorem Holds.quiet {op : CallOp} {answer : op.Ans} (h : d.Holds pending s)
    (hp : OAuthValidator.perform s op answer s') (habstract : abstractCache s'.cache = abstractCache s.cache)
    (hop : ∀ key nowMs unknownKid cooldownMs, op = .begin key nowMs unknownKid cooldownMs → d.Key key) :
    d.Holds pending s' :=
  holds_iff.mpr ((holds_iff.mp h).quiet hp habstract hop)

theorem Key.other {key : Bytes} (hk : d.Key key) : ∃ other, ∀ k, d.Key k → k = key ∨ k = other := by
  rcases hk with rfl | ⟨uri, hparse, hb⟩
  · cases hp : metadataParse ext d.metadata d.expectedIssuer d.policy.metadata with
    | error e =>
      refine ⟨d.metadataKey, fun k hk => Or.inl ?_⟩
      rcases hk with hk | ⟨uri, hparse, _⟩
      · exact hk
      · simp [hp] at hparse
    | ok uri =>
      obtain ⟨key, hb⟩ := d.jwksKey_fits uri hp
      refine ⟨key, fun k hk => ?_⟩
      rcases hk with hk | ⟨uri', hparse, hb'⟩
      · exact Or.inl hk
      · obtain rfl := Except.ok.inj (hp.symm.trans hparse)
        exact Or.inr (Except.ok.inj (hb'.symm.trans hb))
  · refine ⟨d.metadataKey, fun k hk => ?_⟩
    rcases hk with hk | ⟨uri', hparse', hb'⟩
    · exact Or.inr hk
    · obtain rfl := Except.ok.inj (hparse.symm.trans hparse')
      exact Or.inl (Except.ok.inj (hb'.symm.trans hb))

theorem Idle.begin {key : Bytes} {nowMs cooldownMs : Int} {unknownKid : Bool} {r : CacheRefreshResult}
    {ticket : CacheRefresh} (h : d.Idle s) (hk : d.Key key) (hn : 0 ≤ nowMs) (hc : 0 ≤ cooldownMs)
    (hp : OAuthValidator.perform s (.begin key nowMs unknownKid cooldownMs) (r, ticket) s') :
    (r = .started ∧ d.Refreshing ticket key s') ∨
      (r = .suppressed ∧ unknownKid = true ∧ d.Idle s') := by
  obtain ⟨other, hother⟩ := hk.other
  rcases (holds_iff.mp h).begin hk (key_valid hk) hother hn hc hp with ⟨hr, hs⟩ | ⟨hr, hu, hs⟩
  · exact Or.inl ⟨hr, holds_iff.mpr hs⟩
  · exact Or.inr ⟨hr, hu, holds_iff.mpr hs⟩

theorem Refreshing.complete {key : Bytes} {ticket : CacheRefresh} {comp : Completion} {accepted : Bool}
    (h : d.Refreshing ticket key s) (hp : OAuthValidator.perform s (.complete ticket comp) accepted s')
    (hput : ∀ stored, comp.outcome = .put stored → d.Source key stored.value) :
    accepted = !comp.rejected ∧ d.Idle s' := by
  obtain ⟨hacc, hs⟩ := (holds_iff.mp h).complete hp hput
  exact ⟨hacc, holds_iff.mpr hs⟩

end Operations

end Deployment

end OAuthValidator
