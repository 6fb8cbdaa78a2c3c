import OAuthValidator.HeaderReading
import OAuthValidator.Replay
import OAuthValidator.SequentialCache

/-! A call on an empty cache whose documents arrive with arbitrary freshness
headers. The validated documents serve the call only if the headers that are read
can be read, although the call without the cache never looks at them, and a
document is kept with headers that are not in order. -/

namespace OAuthValidator

open ExpiringMap Program

/-! Calls that nothing interrupts, with the transfers the network delivers. -/

def CallOp.isRequest : CallOp → Bool
  | .transfer _ _ => true
  | _ => false

/-- A transfer that never came about. -/
def Transfer.failed : Transfer :=
  ⟨none, [], [], .other, none, none⟩

/-- What a program returns, and the state it leaves, when its requests are
answered by the transfers of a script. -/
def serve {α : Type} : CallProg α → List Transfer → Shared → Option (α × Shared)
  | .ret a, _, s => some (a, s)
  | .ask op next, script, s =>
    match answer s (script.headD .failed) op with
    | some (a, s') => serve (next a) (if op.isRequest then script.tail else script) s'
    | none => none

theorem serve_solo {α : Type} {p : CallProg α} {script : List Transfer} {s s' : Shared} {a : α}
    (h : serve p script s = some (a, s')) : Solo perform s p s' a := by
  induction p generalizing script s with
  | ret a' =>
    obtain ⟨rfl, rfl⟩ := Prod.mk.inj (Option.some.inj h)
    exact .ret
  | ask op next ih =>
    simp only [serve] at h
    split at h
    · next b s₁ hb => exact .ask b (answer_perform hb) (ih b h)
    · simp at h

theorem serve_exec {α : Type} {p : CallProg α} {script : List Transfer} {s s' : Shared} {a : α}
    (h : serve p script s = some (a, s')) : ∃ tr, Exec [] p tr a := by
  obtain ⟨tr, htraced⟩ := (serve_solo h).traced []
  exact ⟨tr, htraced.exec⟩

/-- The program returns, and as promised. -/
def Served {α : Type} (Q : α → Shared → Prop) (script : List Transfer) (s : Shared) (p : CallProg α) :
    Prop :=
  ∃ a s', serve p script s = some (a, s') ∧ Q a s'

section Rules

variable {α : Type} {Q : α → Shared → Prop} {script : List Transfer} {s s' : Shared}

theorem Served.ret {a : α} (h : Q a s) : Served Q script s (.ret a) :=
  ⟨a, s, rfl, h⟩

/-- An operation other than a request. -/
theorem Served.ask {op : CallOp} {next : op.Ans → CallProg α} {a : op.Ans}
    (hop : op.isRequest = false) (ha : answer s (script.headD .failed) op = some (a, s'))
    (h : Served Q script s' (next a)) : Served Q script s (.ask op next) := by
  obtain ⟨b, t, hs, hq⟩ := h
  refine ⟨b, t, ?_, hq⟩
  simp only [serve, ha, hop]
  exact hs

theorem serve_getJson {ext : Externals} {url : CString} {policy : HttpPolicy}
    {transfer : Transfer} {script : List Transfer} {s : Shared}
    {f : Except HttpError HttpResponse → CallProg α} (h : requestError ext url policy = none) :
    serve ((getJson ext url policy).bind f) (transfer :: script) s =
      serve (f (finishTransfer policy transfer)) script s := by
  simp only [getJson, h]
  rfl

theorem Served.getJson {ext : Externals} {url : CString} {policy : HttpPolicy} {transfer : Transfer}
    {f : Except HttpError HttpResponse → CallProg α} (hallowed : requestError ext url policy = none)
    (h : Served Q script s (f (finishTransfer policy transfer))) :
    Served Q (transfer :: script) s ((getJson ext url policy).bind f) := by
  obtain ⟨a, s', hs, hq⟩ := h
  exact ⟨a, s', (serve_getJson hallowed).trans hs, hq⟩

/-- Between two operations of a call at the time `nowMs`: the keys under which
documents may be stored, and those under which one is fresh. -/
structure Progress (keys stored fresh : Bytes → Prop) (nowMs : Int) (pending : CacheRefresh → Option Bytes)
    (s : Shared) : Prop where
  holding : Holding keys (fun key _ => stored key) pending s
  fresh : ∀ key, (abstractCache s.cache).FreshAt key nowMs ↔ fresh key

namespace Progress

variable {keys stored stored' fresh : Bytes → Prop} {nowMs : Int} {pending : CacheRefresh → Option Bytes}

abbrev Idle (keys stored fresh : Bytes → Prop) (nowMs : Int) (s : Shared) : Prop :=
  Progress keys stored fresh nowMs (fun _ => none) s

abbrev Refreshing (keys stored fresh : Bytes → Prop) (nowMs : Int) (ticket : CacheRefresh) (key : Bytes)
    (s : Shared) : Prop :=
  Progress keys stored fresh nowMs (Function.update (fun _ => none) ticket (some key)) s

theorem mono (h : Progress keys stored fresh nowMs pending s) (hstored : ∀ key, stored key → stored' key) :
    Progress keys stored' fresh nowMs pending s :=
  ⟨h.holding.mono fun key _ => hstored key, h.fresh⟩

/-- A document stops being fresh before it stops being usable. -/
theorem ordered (h : Progress keys stored fresh nowMs pending s) {key : Bytes} {value : Stored Bytes Int}
    (hm : (abstractCache s.cache).map key = some value) : value.freshUntil ≤ value.staleUntil := by
  obtain ⟨i, entry, hslot, hk, rfl⟩ := (cacheMap_eq_some_iff h.holding.inv).mp hm
  have hwell := h.holding.inv.entries entry (List.mem_of_getElem? hslot)
  exact (hwell.times (valueKey_eq_some_iff.mp hk).2).2

end Progress

variable {keys stored fresh fresh' : Bytes → Prop} {key : Bytes} {nowMs : Int}

/-- Looking for a document that is not stored. -/
theorem Served.lookup {allowStale : Bool} {outputSize : Nat} {next : IoLookup → CallProg α}
    (h : Progress.Idle keys stored fresh nowMs s) (hnone : ¬ stored key)
    (hnext : ∀ l s', l.usable = false → Progress.Idle keys stored fresh nowMs s' → Served Q script s' (next l)) :
    Served Q script s (.ask (.lookup key nowMs allowStale outputSize) next) := by
  have ha : answer s (script.headD .failed) (.lookup key nowMs allowStale outputSize) =
    some ((sharedLookup s.cache key nowMs allowStale outputSize).1,
      { s with cache := (sharedLookup s.cache key nowMs allowStale outputSize).2 }) := rfl
  have hp := answer_perform ha
  have heff := perform_effect h.holding.inv hp
  refine .ask rfl ha (hnext _ _ ?_ ⟨h.holding.quiet hp heff (by simp), fun k => ?_⟩)
  · by_contra hu
    obtain ⟨value, hm, _⟩ := sharedLookup_usable rfl (by simpa using hu)
    exact hnone (h.holding.stored key value hm)
  · rw [show abstractCache _ = abstractCache s.cache from heff]
    exact h.fresh k

theorem Served.begin {other : Bytes} {cooldownMs : Int}
    {next : CacheRefreshResult × CacheRefresh → CallProg α} (h : Progress.Idle keys stored fresh nowMs s)
    (hk : keys key) (hvalid : validKey key = true) (hother : ∀ k, keys k → k = key ∨ k = other)
    (hn : 0 ≤ nowMs) (hc : 0 ≤ cooldownMs)
    (hnext : ∀ ticket s', Progress.Refreshing keys stored fresh nowMs ticket key s' →
      Served Q script s' (next (.started, ticket))) :
    Served Q script s (.ask (.begin key nowMs false cooldownMs) next) := by
  have ha : answer s (script.headD .failed) (.begin key nowMs false cooldownMs) =
    some (((cacheBeginRefresh s.cache key nowMs false cooldownMs).1,
      (cacheBeginRefresh s.cache key nowMs false cooldownMs).2.1),
      { s with cache := (cacheBeginRefresh s.cache key nowMs false cooldownMs).2.2 }) := rfl
  have hp := answer_perform ha
  rcases h.holding.begin hk hvalid hother hn hc hp with ⟨hr, hs⟩ | ⟨_, hu, _⟩
  · rcases MapStep.begin_cases (perform_effect h.holding.inv hp) with ⟨hne, _⟩ | ⟨_, hb⟩
    · exact absurd hr hne
    · rw [hr] at ha
      refine .ask rfl ha (hnext _ _ ⟨hs, fun k => ?_⟩)
      exact (hb.freshAt_iff (fun _ _ => h.ordered) k).trans (h.fresh k)
  · simp at hu

/-- A begin before the epoch of the clock is refused. -/
theorem Served.begin_refused {unknownKid : Bool} {cooldownMs : Int}
    {next : CacheRefreshResult × CacheRefresh → CallProg α} (hn : nowMs < 0)
    (hnext : Served Q script s (next (.invalidArgument, noRefresh))) :
    Served Q script s (.ask (.begin key nowMs unknownKid cooldownMs) next) := by
  have ha : answer s (script.headD .failed) (.begin key nowMs unknownKid cooldownMs) =
      some ((.invalidArgument, noRefresh), s) := by
    simp only [answer, cacheBeginRefresh, hn, decide_true, Bool.or_true, Bool.true_or, if_true]
    rfl
  exact .ask rfl ha hnext

/-- What a completion leaves fresh under its key. -/
def FreshAfter (outcome : Outcome Bytes Int) (nowMs : Int) (before : Prop) : Prop :=
  match outcome with
  | .keep => before
  | .drop => False
  | .put value => nowMs < value.freshUntil

theorem Served.complete {ticket : CacheRefresh} {comp : Completion} {next : Bool → CallProg α}
    (h : Progress.Refreshing keys stored fresh nowMs ticket key s)
    (hput : ∀ value, comp.outcome = .put value → stored key)
    (hfresh : ∀ k, fresh' k ↔ if k = key then FreshAfter comp.outcome nowMs (fresh key) else fresh k)
    (hnext : ∀ s', Progress.Idle keys stored fresh' nowMs s' → Served Q script s' (next (!comp.rejected))) :
    Served Q script s (.ask (.complete ticket comp) next) := by
  have ha : answer s (script.headD .failed) (.complete ticket comp) =
    some ((cacheCompleteRefresh s.cache ticket comp).1,
      { s with cache := (cacheCompleteRefresh s.cache ticket comp).2 }) := rfl
  have hp := answer_perform ha
  obtain ⟨hacc, hs⟩ := h.holding.complete hp hput
  have hpending : pendingKey s.cache ticket = some key := by
    rw [h.holding.pending, Function.update_self]
  rcases MapStep.complete_cases (perform_effect h.holding.inv hp) with ⟨k, _, hcomp⟩ | ⟨_, hnone, _⟩
  · obtain rfl : k = key := Option.some.inj (hcomp.pending.symm.trans hpending)
    rw [hacc] at ha
    refine .ask rfl ha (hnext _ ⟨hs, fun j => ?_⟩)
    rw [hfresh j]
    by_cases hj : j = k
    · subst hj
      rw [if_pos rfl, ← h.fresh j]
      simp only [State.FreshAt, hcomp.map]
      cases comp.outcome <;> simp [Outcome.apply, FreshAfter]
    · rw [if_neg hj, ← h.fresh j]
      simp only [State.FreshAt, hcomp.map_of_ne hj]
  · have hnone : pendingKey s.cache ticket = none := hnone
    simp [hpending] at hnone

/-- The freshness of a response can be calculated from its headers. -/
def Calculable (ext : Externals) (responseTimeSeconds : Int) (policy : HttpFreshnessPolicy)
    (response : HttpResponse) : Prop :=
  ∃ f, response.freshness ext responseTimeSeconds policy = .ok f

/-- A document that was received is published exactly if its freshness can be
calculated, and is then fresh exactly if its headers make it reusable. -/
theorem Served.completeResponse {ext : Externals} {ticket : CacheRefresh} {timeSeconds graceMs : Int}
    {policy : HttpFreshnessPolicy} {response : HttpResponse} {f : Bool → CallProg α}
    (h : Progress.Refreshing keys stored fresh nowMs ticket key s) (hn : 0 ≤ nowMs) (hg : 0 ≤ graceMs)
    (hpos : response.body ≠ []) (hlen : response.body.length ≤ cacheMaxPayloadSize)
    (hmaximum : 0 < policy.maximumTtlMs)
    (hstored : Calculable ext timeSeconds policy response → stored key)
    (hfresh : ∀ k, fresh' k ↔ if k = key then
      ReusableHeaders ext response timeSeconds policy ∧ nowMs < int64Max else fresh k)
    (unread : ¬ Calculable ext timeSeconds policy response → ∀ s', Progress.Idle keys stored fresh nowMs s' →
      Served Q script s' (f false))
    (published : Calculable ext timeSeconds policy response → ∀ s', Progress.Idle keys stored fresh' nowMs s' →
      Served Q script s' (f true)) :
    Served Q script s
      ((completeResponse ext ticket nowMs timeSeconds policy graceMs response).bind f) := by
  unfold OAuthValidator.completeResponse
  cases hf : response.freshness ext timeSeconds policy with
  | error e =>
    have hnot : ¬ Calculable ext timeSeconds policy response := by simp [Calculable, hf]
    have hkeep : (failedCompletion nowMs).outcome = .keep := by simp [Completion.outcome, failedCompletion]
    refine .complete h (by simp [hkeep]) (fun k => ?_) fun s' hs => unread hnot s' hs
    rw [hkeep]
    by_cases hk : k = key <;> simp [hk, FreshAfter]
  | ok freshness =>
    have hcalc : Calculable ext timeSeconds policy response := ⟨freshness, hf⟩
    obtain ⟨httl, _⟩ := httpFreshnessCalculate_ttl hf
    have hvalid : (publishCompletion nowMs freshness graceMs response.body).rejected = false :=
      Completion.rejected_eq_false hn httl hg hpos hlen
    have hafter : FreshAfter (publishCompletion nowMs freshness graceMs response.body).outcome nowMs (fresh key) ↔
        ReusableHeaders ext response timeSeconds policy ∧ nowMs < int64Max := by
      rw [← reusable_iff hmaximum hf, Completion.outcome, hvalid]
      cases hcacheable : freshness.cacheable with
      | false => simp [publishCompletion, hcacheable, FreshAfter]
      | true =>
        simp only [publishCompletion, hcacheable, FreshAfter, Bool.not_true, Bool.or_self, Bool.false_eq_true,
          if_false, true_and]
        omega
    rw [← hafter] at hfresh
    refine .complete h (fun _ _ => hstored hcalc) hfresh fun s' hs => ?_
    rw [hvalid]
    exact published hcalc s' hs

end Rules

/-- What is fetched and found without the cache. -/
structure Retrieved (ext : Externals) (call : FetchCall) (m j : Transfer) (metadata jwks : HttpResponse)
    (uri host : CString) (selected : SelectedJwk) : Prop where
  metadataSent : finishTransfer call.policy.metadataHttp m = .ok metadata
  jwksSent : finishTransfer call.policy.jwksHttp j = .ok jwks
  metadataAllowed : requestError ext call.metadataUrl call.policy.metadataHttp = none
  parse : metadataParse ext metadata.body call.expectedIssuer call.policy.metadata = .ok uri
  discovery : httpUrlHost ext call.metadataUrl call.policy.metadataHttp.maxUrlSize
    call.policy.metadataHttp.allowInsecureHttp = .ok host
  jwksAllowed : requestError ext uri (jwksHttpPolicy call host) = none
  select : selectKey ext call jwks.body = .ok selected

theorem retrieved_of_uncached {ext : Externals} {call : FetchCall} {m j : Transfer}
    {metadata jwks : HttpResponse} {s t : Shared} {result : IssuerKeyResult}
    (hm : finishTransfer call.policy.metadataHttp m = .ok metadata)
    (hj : finishTransfer call.policy.jwksHttp j = .ok jwks)
    (h : serve (fetchUncached ext call) [m, j] s = some ((.ok, result), t)) :
    ∃ uri host selected, Retrieved ext call m j metadata jwks uri host selected ∧
      result.selected = some selected := by
  unfold fetchUncached at h
  cases ha : requestError ext call.metadataUrl call.policy.metadataHttp with
  | some e => simp [getJson, ha, Prog.bind, serve] at h
  | none =>
    rw [serve_getJson ha, hm] at h
    cases hp : metadataParse ext metadata.body call.expectedIssuer call.policy.metadata with
    | error e => simp [hp, serve] at h
    | ok uri =>
      cases hh : httpUrlHost ext call.metadataUrl call.policy.metadataHttp.maxUrlSize
          call.policy.metadataHttp.allowInsecureHttp with
      | error e => simp [hp, hh, serve] at h
      | ok host =>
        simp only [hp, hh] at h
        cases hb : requestError ext uri (jwksHttpPolicy call host) with
        | some e => simp [getJson, hb, Prog.bind, serve] at h
        | none =>
          have hj : finishTransfer (jwksHttpPolicy call host) j = .ok jwks := hj
          rw [serve_getJson hb, hj] at h
          cases hv : selectKey ext call jwks.body with
          | error e => simp [hv, serve, Except.isOk, Except.toBool] at h
          | ok selected =>
            simp only [hv, serve, Option.some.injEq, Prod.mk.injEq] at h
            exact ⟨uri, host, selected, ⟨hm, hj, ha, hp, hh, hb, hv⟩, by rw [← h.1.2]; rfl⟩

/-- A cache with room for the documents of a call, and nothing in it. -/
structure EmptyCache (s : Shared) : Prop where
  inv : s.cache.Inv
  room : 2 ≤ s.cache.entries.length
  empty : ∀ entry ∈ s.cache.entries, entry.occupied = false

section Walk

variable {ext : Externals} {x : CachedCall} {metadata jwks : HttpResponse} {uri host : CString}
  {selected : SelectedJwk} {metadataKey jwksKey : Bytes} {m j : Transfer} {s : Shared}

/-- The two keys of a call. -/
structure CallKeys (x : CachedCall) (uri : CString) (metadataKey jwksKey : Bytes) : Prop where
  metadata : cacheKeyBuild x.metadataKeyPolicy = .ok metadataKey
  jwks : cacheKeyBuild (x.jwksKeyPolicy uri) = .ok jwksKey

theorem CallKeys.ne (h : CallKeys x uri metadataKey jwksKey) : jwksKey ≠ metadataKey := by
  rintro rfl
  have he := congrArg CacheKeyPolicy.resource (cacheKeyBuild_injective h.metadata h.jwks)
  simp [CacheKeyPolicy.canonical, CachedCall.metadataKeyPolicy, CachedCall.jwksKeyPolicy] at he

/-- The freshness of the metadata of a call can be calculated. -/
def MetadataCalculable (ext : Externals) (x : CachedCall) (metadata : HttpResponse) : Prop :=
  Calculable ext x.call.responseTimeSeconds x.cache.metadataFreshness metadata

/-- The freshness of the JWKS of a call can be calculated. -/
def JwksCalculable (ext : Externals) (x : CachedCall) (jwks : HttpResponse) : Prop :=
  Calculable ext x.call.responseTimeSeconds x.cache.jwksFreshness jwks

/-- The metadata of a call can be used again at the time of the call. -/
def MetadataReusable (ext : Externals) (x : CachedCall) (metadata : HttpResponse) : Prop :=
  ReusableHeaders ext metadata x.call.responseTimeSeconds x.cache.metadataFreshness ∧ x.call.nowMs < int64Max

/-- The JWKS of a call can be used again at the time of the call. -/
def JwksReusable (ext : Externals) (x : CachedCall) (jwks : HttpResponse) : Prop :=
  ReusableHeaders ext jwks x.call.responseTimeSeconds x.cache.jwksFreshness ∧ x.call.nowMs < int64Max

/-- A key of the call, on a condition for each of the two. -/
def UnderKey (metadataKey jwksKey : Bytes) (p q : Prop) (key : Bytes) : Prop :=
  key = metadataKey ∧ p ∨ key = jwksKey ∧ q

/-- Where a call stands: on which conditions its documents are stored, and fresh. -/
abbrev Reached (metadataKey jwksKey : Bytes) (p q p' q' : Prop) (nowMs : Int)
    (pending : CacheRefresh → Option Bytes) (s : Shared) : Prop :=
  Progress (fun key => key = metadataKey ∨ key = jwksKey) (UnderKey metadataKey jwksKey p q)
    (UnderKey metadataKey jwksKey p' q') nowMs pending s

theorem UnderKey.mono {p p' q q' : Prop} {key : Bytes} (hp : p → p') (hq : q → q')
    (h : UnderKey metadataKey jwksKey p q key) : UnderKey metadataKey jwksKey p' q' key :=
  h.imp (And.imp_right hp) (And.imp_right hq)

/-- In an empty cache there is nothing, under whatever keys. -/
theorem EmptyCache.reached (hs : EmptyCache s) (metadataKey jwksKey : Bytes) {nowMs : Int} :
    Reached metadataKey jwksKey False False False False nowMs (fun _ => none) s := by
  have hholding : Holding.Idle (fun key => key = metadataKey ∨ key = jwksKey)
      (fun key _ => UnderKey metadataKey jwksKey False False key) s := .empty hs.inv hs.room hs.empty
  refine ⟨hholding, fun key => iff_of_false ?_ (by simp [UnderKey])⟩
  rintro ⟨stored, hm, _⟩
  simpa [UnderKey] using hholding.stored key stored hm

/-- How the cached call ends. -/
structure Outcome (ext : Externals) (x : CachedCall) (metadata jwks : HttpResponse)
    (metadataKey jwksKey : Bytes) (selected : SelectedJwk) (r : FetchReturn) (s : Shared) : Prop where
  verdict : r.1 = .ok ↔ 0 ≤ x.call.nowMs ∧ x.capacity ≤ cacheMaxPayloadSize ∧
    MetadataCalculable ext x metadata ∧ JwksCalculable ext x jwks
  selected : r.1 = .ok → r.2.selected = some selected
  fresh : r.1 = .ok → ∀ key, (abstractCache s.cache).FreshAt key x.call.nowMs ↔
    UnderKey metadataKey jwksKey (MetadataReusable ext x metadata) (JwksReusable ext x jwks) key

variable (hr : Retrieved ext x.call m j metadata jwks uri host selected)
  (hkeys : CallKeys x uri metadataKey jwksKey) (hbounds : PolicyBounds x.cache)

include hr

theorem Retrieved.capacity_ne_zero : x.capacity ≠ 0 := by
  have hallowed := hr.metadataAllowed
  have hle : x.call.policy.metadataHttp.maxResponseSize ≤ x.capacity := Nat.le_max_left _ _
  unfold requestError at hallowed
  split at hallowed
  · simp at hallowed
  · split at hallowed
    · simp at hallowed
    · next hc =>
      simp only [Bool.or_eq_true, beq_iff_eq, not_or] at hc
      omega

include hkeys hbounds

theorem fetchJwks_served {ticket : CacheRefresh} (hn : 0 ≤ x.call.nowMs)
    (hcapacity : x.capacity ≤ cacheMaxPayloadSize) (hcalc : MetadataCalculable ext x metadata)
    (h : Reached metadataKey jwksKey (MetadataCalculable ext x metadata) (JwksCalculable ext x jwks)
      (MetadataReusable ext x metadata) False x.call.nowMs
      (Function.update (fun _ => none) ticket (some jwksKey)) s) :
    Served (Outcome ext x metadata jwks metadataKey jwksKey selected) [j] s
      (fetchJwks ext x ticket x.call.nowMs uri host false .zero) := by
  have hsent : finishTransfer (jwksHttpPolicy x.call host) j = .ok jwks := hr.jwksSent
  have hlen : jwks.body.length ≤ cacheMaxPayloadSize :=
    ((finishTransfer_length hsent).trans (Nat.le_max_right _ _)).trans hcapacity
  have hfresh (k : Bytes) : UnderKey metadataKey jwksKey (MetadataReusable ext x metadata)
      (JwksReusable ext x jwks) k ↔ if k = jwksKey then JwksReusable ext x jwks
        else UnderKey metadataKey jwksKey (MetadataReusable ext x metadata) False k := by
    by_cases hk : k = jwksKey <;> simp [UnderKey, hk, hkeys.ne]
  unfold fetchJwks
  refine .getJson hr.jwksAllowed ?_
  rw [hsent]
  simp only [hr.select, Except.isOk, Except.toBool, Bool.not_true, Bool.false_eq_true, if_false]
  refine .completeResponse h hn hbounds.grace (jwksSelect_ne_nil hr.select) hlen hbounds.jwksMaximum
    (fun hc => Or.inr ⟨rfl, hc⟩) hfresh
    (fun hnot s' _ => .ret ⟨?_, by simp, by simp⟩)
    fun hc s' hs => .ret ⟨?_, fun _ => rfl, fun _ => hs.fresh⟩
  · exact ⟨by simp, fun hall => absurd hall.2.2.2 hnot⟩
  · exact ⟨fun _ => ⟨hn, hcapacity, hcalc, hc⟩, fun _ => rfl⟩

theorem afterMetadata_served (hn : 0 ≤ x.call.nowMs) (hcapacity : x.capacity ≤ cacheMaxPayloadSize)
    (hcalc : MetadataCalculable ext x metadata)
    (h : Reached metadataKey jwksKey (MetadataCalculable ext x metadata) False
      (MetadataReusable ext x metadata) False x.call.nowMs (fun _ => none) s) :
    Served (Outcome ext x metadata jwks metadataKey jwksKey selected) [j] s
      (afterMetadata ext x x.call.nowMs uri) := by
  unfold afterMetadata obtainJwks
  rw [hr.discovery, hkeys.jwks]
  refine .lookup h (by simp [UnderKey, hkeys.ne]) fun l s' hl hs => ?_
  simp only [hl, Bool.false_eq_true, if_false]
  have hs := hs.mono fun key => UnderKey.mono id (False.elim : False → JwksCalculable ext x jwks)
  exact .begin hs (Or.inr rfl) (cacheKeyBuild_eq_ok hkeys.jwks).validKey (fun _ hk => hk.symm) hn
    hbounds.cooldown fun ticket s'' hs'' => fetchJwks_served hr hkeys hbounds hn hcapacity hcalc hs''

theorem fetchMetadata_served {ticket : CacheRefresh} (hn : 0 ≤ x.call.nowMs)
    (hcapacity : x.capacity ≤ cacheMaxPayloadSize)
    (h : Reached metadataKey jwksKey (MetadataCalculable ext x metadata) False False False x.call.nowMs
      (Function.update (fun _ => none) ticket (some metadataKey)) s) :
    Served (Outcome ext x metadata jwks metadataKey jwksKey selected) [m, j] s
      (fetchMetadata ext x ticket) := by
  have hlen : metadata.body.length ≤ cacheMaxPayloadSize :=
    ((finishTransfer_length hr.metadataSent).trans (Nat.le_max_left _ _)).trans hcapacity
  have hfresh (k : Bytes) : UnderKey metadataKey jwksKey (MetadataReusable ext x metadata) False k ↔
      if k = metadataKey then MetadataReusable ext x metadata
      else UnderKey metadataKey jwksKey False False k := by
    by_cases hk : k = metadataKey <;> simp [UnderKey, hk]
  unfold fetchMetadata
  refine .getJson hr.metadataAllowed ?_
  rw [hr.metadataSent]
  simp only [useFetchedMetadata, hr.parse]
  refine .completeResponse h hn (Int.le_refl 0) (metadataParse_ne_nil hr.parse) hlen hbounds.metadataMaximum
    (fun hc => Or.inl ⟨rfl, hc⟩) hfresh (fun hnot s' _ => .ret ⟨?_, by simp, by simp⟩)
    fun hc s' hs => afterMetadata_served hr hkeys hbounds hn hcapacity hc hs
  exact ⟨by simp, fun hall => absurd hall.2.2.1 hnot⟩

theorem fetchThroughCache_served (hs : EmptyCache s) :
    Served (Outcome ext x metadata jwks metadataKey jwksKey selected) [m, j] s
      (fetchThroughCache ext x) := by
  unfold fetchThroughCache
  by_cases hcapacity : x.capacity ≤ cacheMaxPayloadSize
  · have hsize : (x.capacity == 0 || decide (cacheMaxPayloadSize < x.capacity)) = false := by
      simp [hr.capacity_ne_zero, hcapacity]
    rw [hsize, hkeys.metadata]
    refine .lookup (hs.reached metadataKey jwksKey) (by simp [UnderKey]) fun l s' hl hs => ?_
    have hhit : l.hit = false := by
      simp only [IoLookup.usable, IoLookup.hit] at hl ⊢
      grind
    simp only [hhit, Bool.false_eq_true, if_false, refreshMetadata]
    by_cases hn : 0 ≤ x.call.nowMs
    · have hs := hs.mono fun key => UnderKey.mono (False.elim : False → MetadataCalculable ext x metadata) id
      exact .begin hs (Or.inl rfl) (cacheKeyBuild_eq_ok hkeys.metadata).validKey (fun _ hk => hk) hn
        (Int.le_refl 0) fun ticket s'' hs'' => fetchMetadata_served hr hkeys hbounds hn hcapacity hs''
    · refine .begin_refused (Int.not_le.mp hn) (.ret ⟨?_, by simp, by simp⟩)
      exact ⟨by simp, fun hall => absurd hall.1 hn⟩
  · have hsize : (x.capacity == 0 || decide (cacheMaxPayloadSize < x.capacity)) = true := by
      simp only [Bool.or_eq_true, decide_eq_true_eq]
      exact Or.inr (Nat.lt_of_not_le hcapacity)
    rw [hsize]
    refine .ret ⟨?_, by simp, by simp⟩
    exact ⟨by simp, fun hall => absurd hall.2.1 hcapacity⟩

end Walk

theorem FetchArgs.call_uncached {args : FetchArgs} {call : FetchCall} (h : args.call = some call) :
    FetchArgs.call { args with cachePolicy := none, nowMs := 0, responseTimeSeconds := 0 } =
      some { call with nowMs := 0, responseTimeSeconds := 0 } := by
  unfold FetchArgs.call at h
  split at h
  · next url issuer keyId policy hurl hissuer hkeyId hpolicy =>
    split at h
    · simp at h
    · next halgorithm =>
      obtain rfl := Option.some.inj h
      simp only [FetchArgs.call, hurl, hissuer, hkeyId, hpolicy]
      exact if_neg halgorithm
  · simp at h

/-- No lookup of the key finds a fresh document, from the given time on. -/
def NotReusedFrom (cache : Cache) (key : Bytes) (nowMs : Int) : Prop :=
  ∀ laterMs allowStale, nowMs ≤ laterMs → (cacheLookup cache key laterMs allowStale).1 ≠ .fresh

/-- What is not fresh does not become fresh by waiting. -/
theorem notReusedFrom_iff {cache : Cache} {key : Bytes} {nowMs : Int} (hkey : validKey key = true)
    (hn : 0 ≤ nowMs) : NotReusedFrom cache key nowMs ↔ ¬ (abstractCache cache).FreshAt key nowMs := by
  constructor
  · intro h hfresh
    exact h nowMs false (Int.le_refl nowMs) ((cacheLookup_fresh_iff false hkey hn).mpr hfresh)
  · intro h laterMs allowStale hle hlookup
    obtain ⟨stored, hm, hlt⟩ := (cacheLookup_fresh_iff allowStale hkey (hn.trans hle)).mp hlookup
    exact h ⟨stored, hm, lt_of_le_of_lt hle hlt⟩

/-- The headers of a document let it serve its call, and do not let it serve another
one if they are malformed or conflicting. -/
structure ServingHeaders (ext : Externals) (response : HttpResponse) (responseTimeSeconds nowMs : Int)
    (policy : HttpFreshnessPolicy) : Prop where
  bounds : policy.defaultTtlMs ≤ policy.maximumTtlMs
  readable : ReadableHeaders ext response
  irregular : IrregularHeaders ext response responseTimeSeconds →
    ReusableHeaders ext response responseTimeSeconds policy → int64Max ≤ nowMs

theorem servingHeaders_iff {ext : Externals} {response : HttpResponse} {responseTimeSeconds nowMs : Int}
    {policy : HttpFreshnessPolicy} (hdefault : 0 ≤ policy.defaultTtlMs) :
    0 ≤ responseTimeSeconds ∧ ServingHeaders ext response responseTimeSeconds nowMs policy ↔
      Calculable ext responseTimeSeconds policy response ∧
        (IrregularHeaders ext response responseTimeSeconds →
          ¬ (ReusableHeaders ext response responseTimeSeconds policy ∧ nowMs < int64Max)) := by
  have hcalc : Calculable ext responseTimeSeconds policy response ↔ _ := freshness_isOk_iff
  rw [hcalc]
  constructor
  · rintro ⟨htime, h⟩
    exact ⟨⟨⟨htime, hdefault, h.bounds⟩, h.readable⟩,
      fun hirregular hfresh => Int.not_lt.mpr (h.irregular hirregular hfresh.1) hfresh.2⟩
  · rintro ⟨⟨⟨htime, _, hbounds⟩, hreadable⟩, h⟩
    exact ⟨htime, hbounds, hreadable,
      fun hirregular hreusable => Int.not_lt.mp fun hlt => h hirregular ⟨hreusable, hlt⟩⟩

/-- Suppose a call succeeds without the cache. On an empty cache it succeeds too, with
the same key and without making a document reusable whose headers are malformed or
conflicting, exactly if the clocks and the size limits are in range and the headers
of both documents are as required. -/
theorem cached_call_serves_iff_headers {ext : Externals} {args : FetchArgs} {x : CachedCall}
    {m j : Transfer} {metadata jwks : HttpResponse} {uri : CString} {metadataKey jwksKey : Bytes}
    {s t : Shared} {result : IssuerKeyResult} (cached : args.cached = some x) (empty : EmptyCache s)
    (metadataSent : finishTransfer x.call.policy.metadataHttp m = .ok metadata)
    (jwksSent : finishTransfer x.call.policy.jwksHttp j = .ok jwks)
    (parsed : metadataParse ext metadata.body x.call.expectedIssuer x.call.policy.metadata = .ok uri)
    (keys : CallKeys x uri metadataKey jwksKey)
    (uncached : serve (issuerKeyFetch ext args) [m, j] s = some ((.ok, result), t)) :
    ∃ r s', serve (issuerKeyFetchCached ext args) [m, j] s = some (r, s') ∧
      ((r.1 = .ok ∧ r.2.selected = result.selected ∧
          (IrregularHeaders ext metadata x.call.responseTimeSeconds →
            NotReusedFrom s'.cache metadataKey x.call.nowMs) ∧
          (IrregularHeaders ext jwks x.call.responseTimeSeconds →
            NotReusedFrom s'.cache jwksKey x.call.nowMs)) ↔
        0 ≤ x.call.nowMs ∧ 0 ≤ x.call.responseTimeSeconds ∧ x.capacity ≤ cacheMaxPayloadSize ∧
          ServingHeaders ext metadata x.call.responseTimeSeconds x.call.nowMs x.cache.metadataFreshness ∧
          ServingHeaders ext jwks x.call.responseTimeSeconds x.call.nowMs x.cache.jwksFreshness) := by
  have hplain : issuerKeyFetch ext args =
      fetchUncached ext { x.call with nowMs := 0, responseTimeSeconds := 0 } := by
    unfold issuerKeyFetch issuerKeyFetchCached
    rw [FetchArgs.call_uncached (FetchArgs.cached_call cached)]
  rw [hplain] at uncached
  obtain ⟨uri', host, selected, hr, hsel⟩ := retrieved_of_uncached metadataSent jwksSent uncached
  have hr : Retrieved ext x.call m j metadata jwks uri' host selected :=
    ⟨hr.metadataSent, hr.jwksSent, hr.metadataAllowed, hr.parse, hr.discovery, hr.jwksAllowed, hr.select⟩
  obtain rfl := Except.ok.inj (parsed.symm.trans hr.parse)
  have hbounds := FetchArgs.cached_bounds cached
  obtain ⟨r, s', hserve, ho⟩ := fetchThroughCache_served hr keys hbounds empty
  have hmetadata (hn : 0 ≤ x.call.nowMs) (hok : r.1 = .ok) :
      NotReusedFrom s'.cache metadataKey x.call.nowMs ↔ ¬ MetadataReusable ext x metadata := by
    rw [notReusedFrom_iff (cacheKeyBuild_eq_ok keys.metadata).validKey hn, ho.fresh hok]
    simp [UnderKey, keys.ne.symm]
  have hjwks (hn : 0 ≤ x.call.nowMs) (hok : r.1 = .ok) :
      NotReusedFrom s'.cache jwksKey x.call.nowMs ↔ ¬ JwksReusable ext x jwks := by
    rw [notReusedFrom_iff (cacheKeyBuild_eq_ok keys.jwks).validKey hn, ho.fresh hok]
    simp [UnderKey, keys.ne]
  refine ⟨r, s', issuerKeyFetchCached_of_cached cached ▸ hserve, ?_, ?_⟩
  · rintro ⟨hok, _, hm, hj⟩
    obtain ⟨hn, hcapacity, hmcalc, hjcalc⟩ := ho.verdict.mp hok
    obtain ⟨htime, hms⟩ := (servingHeaders_iff hbounds.metadataDefault).mpr
      ⟨hmcalc, fun hirregular => (hmetadata hn hok).mp (hm hirregular)⟩
    obtain ⟨_, hjs⟩ := (servingHeaders_iff hbounds.jwksDefault).mpr
      ⟨hjcalc, fun hirregular => (hjwks hn hok).mp (hj hirregular)⟩
    exact ⟨hn, htime, hcapacity, hms, hjs⟩
  · rintro ⟨hn, htime, hcapacity, hms, hjs⟩
    obtain ⟨hmcalc, hm⟩ := (servingHeaders_iff hbounds.metadataDefault).mp ⟨htime, hms⟩
    obtain ⟨hjcalc, hj⟩ := (servingHeaders_iff hbounds.jwksDefault).mp ⟨htime, hjs⟩
    have hok : r.1 = .ok := ho.verdict.mpr ⟨hn, hcapacity, hmcalc, hjcalc⟩
    exact ⟨hok, (ho.selected hok).trans hsel.symm, fun h => (hmetadata hn hok).mpr (hm h),
      fun h => (hjwks hn hok).mpr (hj h)⟩

namespace Sample

def emptyShared : Shared :=
  ⟨⟨List.replicate 2 .zero, ⟨1, {}⟩⟩, 0⟩

theorem emptyShared_empty : EmptyCache emptyShared :=
  ⟨.init (show cacheInit 2 = some _ from rfl), Nat.le_refl 2, by simp [emptyShared, CacheEntry.zero]⟩

/-- The metadata and the JWKS of the issuer, the metadata with the given header. -/
def script (header : String) : List Transfer :=
  [{ respond metadata with headerLines := [ascii header] }, respond (keyText "a" pointA)]

/-- A document that may be kept for a minute. -/
def minute (body : Bytes) : HttpResponse :=
  ⟨body, 200, some (.lit "max-age=60"), none, none, none⟩

theorem minute_serving (body : Bytes) (nowMs : Int) :
    ServingHeaders externals (minute body) 1700000000 nowMs cachePolicy.metadataFreshness := by
  have hcalc : (minute body).freshness externals 1700000000 cachePolicy.metadataFreshness =
      .ok ⟨60000, true, false, true⟩ := by
    show httpFreshnessCalculate externals (some (.lit "max-age=60")) none none none _ _ = _
    decide +kernel
  obtain ⟨⟨_, _, hbounds⟩, hreadable⟩ := freshness_isOk_iff.mp ⟨_, hcalc⟩
  have hitems : headerItems (minute body).cacheControl = [ascii "max-age=60"] := by
    show headerItems (some (.lit "max-age=60")) = _
    decide +kernel
  have hlifetime {seconds : Int} (h : StatesLifetime externals (minute body) 1700000000 seconds) :
      seconds = 60 := by
    cases h with
    | maxAge listed named =>
      obtain rfl := List.mem_singleton.mp (hitems ▸ listed)
      decide +kernel
    | expires given => simp [minute] at given
    | unusable listed named =>
      obtain rfl := List.mem_singleton.mp (hitems ▸ listed)
      revert named
      decide +kernel
  refine ⟨hbounds, hreadable, fun hirregular => ?_⟩
  rcases hirregular with hmalformed | ⟨_, _, h, h', hne⟩
  · exact absurd ⟨hreadable.cacheControl.wellFormed, by simp [minute], by simp [minute], by simp [minute]⟩
      hmalformed
  · exact absurd ((hlifetime h).trans (hlifetime h').symm) hne

theorem callKeys (kid : String) (nowMs : Int) :
    CallKeys (call kid nowMs) (.lit "https://i/k")
      (((cacheKeyBuild (call "a" 0).metadataKeyPolicy).toOption).getD []) jwksKey := by
  refine ⟨?_, jwksKey_eq kid nowMs⟩
  show cacheKeyBuild (call "a" 0).metadataKeyPolicy = _
  decide +kernel

end Sample

/-- Metadata that arrive with `Expires: 0` serve the call without the cache, and
not the one with it. -/
theorem malformed_expires_fails_cached_call :
    (Sample.args "a" 0).cached = some (Sample.call "a" 0) ∧ EmptyCache Sample.emptyShared ∧
      (∃ metadataKey jwksKey, CallKeys (Sample.call "a" 0) (.lit "https://i/k") metadataKey jwksKey) ∧
      (∃ result s', serve (issuerKeyFetch Sample.externals (Sample.args "a" 0))
        (Sample.script "Expires: 0") Sample.emptyShared = some ((.ok, result), s')) ∧
      ∃ result s', serve (issuerKeyFetchCached Sample.externals (Sample.args "a" 0))
        (Sample.script "Expires: 0") Sample.emptyShared = some ((.cache, result), s') := by
  have hplain : (serve (issuerKeyFetch Sample.externals (Sample.args "a" 0))
      (Sample.script "Expires: 0") Sample.emptyShared).any (fun r => decide (r.1.1 = .ok)) = true := by
    decide +kernel
  have hcached : (serve (issuerKeyFetchCached Sample.externals (Sample.args "a" 0))
      (Sample.script "Expires: 0") Sample.emptyShared).any (fun r => decide (r.1.1 = .cache)) = true := by
    decide +kernel
  obtain ⟨⟨⟨e, result⟩, s⟩, hp, he⟩ := exists_of_any hplain
  obtain ⟨⟨⟨e', result'⟩, s'⟩, hc, he'⟩ := exists_of_any hcached
  obtain rfl : e = .ok := of_decide_eq_true he
  obtain rfl : e' = .cache := of_decide_eq_true he'
  exact ⟨Sample.args_cached "a" 0, Sample.emptyShared_empty, ⟨_, _, Sample.callKeys "a" 0⟩, ⟨_, _, hp⟩,
    ⟨_, _, hc⟩⟩

/-- With `max-age=60` on both documents the call with the cache succeeds too. -/
theorem cached_call_succeeds_for_a_minute :
    ∃ r s', serve (issuerKeyFetchCached Sample.externals (Sample.args "a" 0))
      (Sample.script "Cache-Control: max-age=60") Sample.emptyShared = some (r, s') ∧ r.1 = .ok ∧
      r.2.selected.isSome = true := by
  have hplain : (serve (issuerKeyFetch Sample.externals (Sample.args "a" 0))
      (Sample.script "Cache-Control: max-age=60") Sample.emptyShared).any
        (fun r => decide (r.1.1 = .ok) && r.1.2.selected.isSome) = true := by
    decide +kernel
  obtain ⟨⟨⟨e, result⟩, t⟩, hp, he⟩ := exists_of_any hplain
  obtain ⟨he, hsel⟩ := Bool.and_eq_true_iff.mp he
  obtain rfl : e = .ok := of_decide_eq_true he
  have hm : finishTransfer (Sample.call "a" 0).call.policy.metadataHttp
      { Sample.respond Sample.metadata with headerLines := [ascii "Cache-Control: max-age=60"] } =
      .ok (Sample.minute Sample.metadata) := by
    decide +kernel
  have hj : finishTransfer (Sample.call "a" 0).call.policy.jwksHttp
      (Sample.respond (Sample.keyText "a" Sample.pointA)) =
      .ok (Sample.minute (Sample.keyText "a" Sample.pointA)) := by
    decide +kernel
  obtain ⟨r, s', hserve, hiff⟩ := cached_call_serves_iff_headers (Sample.args_cached "a" 0)
    Sample.emptyShared_empty hm hj (by decide +kernel) (Sample.callKeys "a" 0) hp
  obtain ⟨hok, hsame, _⟩ := hiff.mpr ⟨by decide, by decide, by decide,
    Sample.minute_serving Sample.metadata 0, Sample.minute_serving (Sample.keyText "a" Sample.pointA) 0⟩
  exact ⟨r, s', hserve, hok, by rw [hsame]; exact hsel⟩

end OAuthValidator
