import OAuthValidator.SharedCache

/-! Where the contents of the cache come from. Whatever is stored under a key was
put there by a call that held the refresh of that key, had the document from the
network and had accepted it. -/

namespace OAuthValidator

open ExpiringMap Interleaving

/-- What a stage publishes, as the value that is stored. -/
theorem Stage.outcome_published {s : Stage} {f : HttpFreshness} {response : HttpResponse}
    {stored : Stored Bytes Int} (h : (s.published f response).outcome = .put stored) :
    f.cacheable = true ∧ 0 ≤ s.nowMs ∧ 0 ≤ f.ttlMs ∧ 0 < response.body.length ∧
      stored.value = response.body ∧ stored.freshUntil = min (s.nowMs + f.ttlMs) int64Max ∧
      stored.staleUntil = (if f.revalidationRequired then stored.freshUntil
        else min (stored.freshUntil + s.graceMs) int64Max) := by
  unfold Completion.outcome at h
  split at h
  · simp at h
  · next hr =>
    have hr : (s.published f response).rejected = false := by
      simp only [Bool.or_eq_true, not_or, Bool.not_eq_true] at hr
      exact hr.1
    obtain ⟨hn, ht, _, hp⟩ := Completion.not_rejected hr
    split at h
    · simp at h
    · next hc =>
      have hc : f.cacheable = true := by simpa [Stage.published, publishCompletion] using hc
      have hpos := (hp rfl hc).1
      obtain rfl := Outcome.put.inj h
      exact ⟨hc, hn, ht, hpos, rfl, rfl, rfl⟩

/-- A stage works under the key of exactly one resource and policy. -/
theorem StageOpen.of_key {ext : Externals} {y : CachedCall} {s : Stage} (o : StageOpen ext y s)
    {p : CacheKeyPolicy} (hp : cacheKeyBuild p = .ok s.key) :
    (p.resource = .metadata ∧ s = metadataStage ext y s.key ∧
      y.metadataKeyPolicy.canonical = p.canonical) ∨
    (p.resource = .jwks ∧ ∃ tr nowMs uri host, JwksReady ext y tr nowMs uri host s.key ∧
      s = jwksStage ext y tr nowMs uri host s.key ∧ (y.jwksKeyPolicy uri).canonical = p.canonical) := by
  cases o with
  | metadata hk =>
    have he := cacheKeyBuild_injective hk hp
    exact Or.inl ⟨(congrArg CacheKeyPolicy.resource he).symm, rfl, he⟩
  | jwks hj =>
    have he := cacheKeyBuild_injective hj.key hp
    exact Or.inr ⟨(congrArg CacheKeyPolicy.resource he).symm, _, _, _, _, hj, rfl, he⟩

theorem StageOpen.of_jwksKey {ext : Externals} {x y : CachedCall} {s : Stage} (o : StageOpen ext y s)
    {uri : CString} (hk : cacheKeyBuild (x.jwksKeyPolicy uri) = .ok s.key) :
    ∃ tr nowMs host, JwksReady ext y tr nowMs uri host s.key ∧
      s = jwksStage ext y tr nowMs uri host s.key ∧ y.jwksKeyPolicy uri = x.jwksKeyPolicy uri := by
  rcases o.of_key hk with ⟨hr, _⟩ | ⟨_, tr, nowMs, uri', host, hj, hs, he⟩
  · exact absurd hr (by simp [CachedCall.jwksKeyPolicy])
  · have he : y.jwksKeyPolicy uri' = x.jwksKeyPolicy uri := he
    obtain rfl : uri' = uri := Option.some.inj (congrArg CacheKeyPolicy.jwksUrl he)
    exact ⟨tr, nowMs, host, hj, hs, he⟩

theorem CallIssues.transfer_allowed {ext : Externals} {args : FetchArgs} {tr : CallTrace}
    {url : CString} {policy : HttpPolicy} (h : CallIssues ext args tr (.transfer url policy)) :
    requestError ext url policy = none := by
  rcases h with ⟨x, _, h⟩ | ⟨call, _, _, h⟩
  · cases h with
    | wait _ _ w => cases w
    | transfer _ _ allowed => exact allowed
  · cases h with
    | metadata allowed => exact allowed
    | jwks _ _ allowed => exact allowed

section Runs

variable {ext : Externals} {admits : Shared → FetchArgs → Prop}

/-- In the history `h`, at the point `h'`, the request of the call `y` for the
JWKS entry under `key` was answered. The call had looked the entry up before,
with the answer `l`, at the time `nowMs` of its own clock. -/
inductive JwksResponse (ext : Externals) (admits : Shared → FetchArgs → Prop) (h h' : CallHistory)
    (c' : CallConfig) (y : CachedCall) (base : CallTrace) (key : Bytes) (nowMs : Int) (l : IoLookup)
    (unknownKid : Bool) (response : HttpResponse) : Prop
  | intro {i : Nat} {args : FetchArgs} {uri host : CString} {ticket : CacheRefresh} {after : Shared}
      (exchange : ExchangeAt (callSystem ext admits) initialShared h i args
        ((jwksStage ext y base nowMs uri host key).begun l unknownKid .started ticket)
        (.transfer uri (jwksHttpPolicy y.call host)) (.ok response) h' c' after)
      (cached : args.cached = some y) (ready : JwksReady ext y base nowMs uri host key)
      (refresh : (jwksStage ext y base nowMs uri host key).refreshes l = some unknownKid)

/-- A response in a history that is not one to a metadata request. -/
theorem CallRun.jwksResponse {h past : CallHistory} {c : CallConfig} (hr : CallRun ext admits h c)
    {i : Nat} {url : CString} {policy : HttpPolicy} {response : HttpResponse} {s : Shared}
    (he : (.act i (.transfer url policy) (.ok response), s) :: past <:+ h)
    {call : Call CallOp CallOp.Ans FetchArgs FetchReturn} (hc : c.calls i = some call)
    {y : CachedCall} (hy : call.arg.cached = some y) (hurl : url ≠ y.call.metadataUrl) :
    ∃ c' base key nowMs l unknownKid, c'.shared = s ∧ cacheKeyBuild (y.jwksKeyPolicy url) = .ok key ∧
      JwksResponse ext admits h past c' y base key nowMs l unknownKid response := by
  obtain ⟨tr, c', s', hs, x⟩ := Run.exchange_of_event hr he hc
  rcases x.permitted (issuerKeyFetchCached_sat ext) with ⟨y', hy', hop⟩ | ⟨_, _, hnone, _⟩
  · obtain rfl := Option.some.inj (hy.symm.trans hy')
    cases hop with
    | wait _ _ w => cases w
    | transfer o refresh _ =>
      cases o with
      | metadata _ => exact absurd rfl hurl
      | jwks ready => exact ⟨c', _, _, _, _, _, hs, ready.key, x, hy, ready, refresh⟩
  · simp [FetchArgs.cached, hnone] at hy

/-- In the history `h`, at the point `h'`, a call published a value under a key. -/
inductive Published (ext : Externals) (admits : Shared → FetchArgs → Prop) (h h' : CallHistory)
    (key : Bytes) (stored : Stored Bytes Int) : Prop
  | intro {j : Nat} {args : FetchArgs} {y : CachedCall} {s : Stage} {l : IoLookup} {unknownKid : Bool}
      {ticket : CacheRefresh} {response : HttpResponse} {f : HttpFreshness} {c' : CallConfig}
      {after : Shared}
      (exchange : ExchangeAt (callSystem ext admits) initialShared h j args
        (s.transferred l unknownKid ticket (.ok response))
        (.complete ticket (s.published f response)) true h' c' after)
      (cached : args.cached = some y) (stage : StageOpen ext y s)
      (accepted : s.accepts response.body = true)
      (fresh : response.freshness ext s.responseTimeSeconds s.freshness = .ok f)
      (under : s.key = key) (outcome : (s.published f response).outcome = .put stored)

theorem Published.cons {h h' : CallHistory} {key : Bytes} {stored : Stored Bytes Int}
    (p : Published ext admits h h' key stored) (e : Event CallOp CallOp.Ans FetchArgs × Shared) :
    Published ext admits (e :: h) h' key stored := by
  obtain ⟨x, hc, ho, ha, hf, hk, hp⟩ := p
  exact ⟨x.cons e, hc, ho, ha, hf, hk, hp⟩

/-- The only completion that puts a value is the one that publishes. -/
theorem CallIssues.complete_put {args : FetchArgs} {tr : CallTrace} {ticket : CacheRefresh}
    {comp : Completion} {stored : Stored Bytes Int} (h : CallIssues ext args tr (.complete ticket comp))
    (hp : comp.outcome = .put stored) :
    ∃ y s l unknownKid response f, args.cached = some y ∧ StageOpen ext y s ∧
      tr = s.transferred l unknownKid ticket (.ok response) ∧ comp = s.published f response ∧
      s.accepts response.body = true ∧
      response.freshness ext s.responseTimeSeconds s.freshness = .ok f := by
  have hfailed : ∀ nowMs, (failedCompletion nowMs).outcome ≠ .put stored := fun nowMs => by
    simp [Completion.outcome, failedCompletion]
  rcases h with ⟨y, hy, h⟩ | ⟨call, _, _, h⟩
  · cases h with
    | wait _ _ w => cases w
    | refused => exact absurd hp (hfailed _)
    | failed => exact absurd hp (hfailed _)
    | publish o _ ha hf => exact ⟨y, _, _, _, _, _, hy, o, rfl, rfl, ha, hf⟩
  · cases h

/-- What one operation of a call can add to the cache. -/
theorem published_step {h : CallHistory} {c : CallConfig} (hr : CallRun ext admits h c) {i : Nat}
    {args : FetchArgs} {tr : CallTrace} {op : CallOp} {next : op.Ans → CallProg FetchReturn}
    {answer : op.Ans} {s : Shared} (hcall : c.calls i = some ⟨args, tr, .ask op next⟩)
    (hop : CallIssues ext args tr op) (hp : perform c.shared op answer s) {key : Bytes}
    {stored : Stored Bytes Int} (hm : cacheMap s.cache key = some stored) :
    cacheMap c.shared.cache key = some stored ∨
      Published ext admits ((.act i op answer, c.shared) :: h) h key stored := by
  have heff := perform_effect (CallRun.inv hr) hp
  have hm : (abstractCache s.cache).map key = some stored := hm
  cases op with
  | begin k nowMs unknownKid cooldownMs =>
    obtain ⟨r, ticket⟩ := answer
    rcases MapStep.begin_cases heff with ⟨_, he⟩ | ⟨_, hb⟩
    · rw [he] at hm
      exact Or.inl hm
    · exact Or.inl (hb.map_of_some hm)
  | complete ticket comp =>
    rcases MapStep.complete_cases heff with ⟨k, hacc, hc⟩ | ⟨_, _, he⟩
    · rcases hc.map_of_some hm with hold | ⟨rfl, hput⟩
      · exact Or.inl hold
      · right
        obtain ⟨y, st, l, uk, response, f, hy, ho, rfl, rfl, ha, hf⟩ := hop.complete_put hput
        -- the key under which the value is stored is the one the call holds
        have hk : key = st.key :=
          hc.key_eq (CallRun.held hr).1 (i := i) (by simp [holder, hcall])
        have htrue : answer = true := by
          have hrej : (st.published f response).rejected = false := by
            by_contra hne
            rw [Bool.not_eq_false] at hne
            simp [Completion.outcome, hne] at hput
          rw [hacc, hrej]
          rfl
        subst htrue
        exact ⟨⟨⟨[], rfl⟩, hr, ⟨next, hcall⟩, hp⟩, hy, ho, ha, hf, hk.symm, hput⟩
    · rw [he] at hm
      exact Or.inl hm
  | _ =>
    rw [show abstractCache s.cache = abstractCache c.shared.cache from heff] at hm
    exact Or.inl hm

/-- Every value in the cache was published under its key. -/
theorem CallRun.published {h : CallHistory} {c : CallConfig} (hr : CallRun ext admits h c) {key : Bytes}
    {stored : Stored Bytes Int} (hm : cacheMap c.shared.cache key = some stored) :
    ∃ h', Published ext admits h h' key stored := by
  refine Run.induct (issuerKeyFetchCached_sat ext)
    (P := fun h c => ∀ key stored, cacheMap c.shared.cache key = some stored →
      ∃ h', Published ext admits h h' key stored) ?_ ?_ ?_ ?_ hr key stored hm
  · intro s hs key stored hm
    have : (abstractCache s.cache).map key = some stored := hm
    rw [hs.empty] at this
    simp [State.empty] at this
  · intro h c i args _ ih _ _ key stored hm
    obtain ⟨h', hp⟩ := ih key stored hm
    exact ⟨h', hp.cons _⟩
  · intro h c i args tr op next answer s hr ih hcall hop hp key stored hm
    rcases published_step hr hcall hop hp hm with hold | hnew
    · obtain ⟨h', hp⟩ := ih key stored hold
      exact ⟨h', hp.cons _⟩
    · exact ⟨h, hnew⟩
  · intro h c s _ ih hd key stored hm
    obtain ⟨h', hp⟩ := ih key stored (hd.1 ▸ hm)
    exact ⟨h', hp.cons _⟩

/-- Whatever a cache holds was there at every earlier event of a history, or was
published at that event or later. -/
def KeptOrPublished (ext : Externals) (admits : Shared → FetchArgs → Prop) (h : CallHistory)
    (cache : Cache) : Prop :=
  ∀ e s past, (e, s) :: past <:+ h → ∀ key stored, cacheMap cache key = some stored →
    cacheMap s.cache key = some stored ∨ ∃ h', past <:+ h' ∧ Published ext admits h h' key stored

theorem KeptOrPublished.cons {h : CallHistory} {s : Shared} (hk : KeptOrPublished ext admits h s.cache)
    (e : Event CallOp CallOp.Ans FetchArgs) : KeptOrPublished ext admits ((e, s) :: h) s.cache := by
  intro e' s' past hsuffix key stored hm
  rcases List.suffix_cons_iff.mp hsuffix with heq | hsuffix
  · obtain ⟨hes, -⟩ := List.cons.inj heq
    exact Or.inl ((Prod.mk.inj hes).2 ▸ hm)
  · rcases hk e' s' past hsuffix key stored hm with hold | ⟨h', hle, hp⟩
    · exact Or.inl hold
    · exact Or.inr ⟨h', hle, hp.cons _⟩

theorem CallRun.keptOrPublished {h : CallHistory} {c : CallConfig} (hr : CallRun ext admits h c) :
    KeptOrPublished ext admits h c.shared.cache := by
  refine Run.induct (issuerKeyFetchCached_sat ext)
    (P := fun h c => KeptOrPublished ext admits h c.shared.cache) ?_ ?_ ?_ ?_ hr
  · intro s _ e s' past hsuffix
    simp at hsuffix
  · intro h c i args _ ih _ _
    exact ih.cons _
  · intro h c i args tr op next answer s hr ih hcall hop hp e s' past hsuffix key stored hm
    rcases published_step hr hcall hop hp hm with hold | hnew
    · exact ih.cons _ e s' past hsuffix key stored hold
    · refine Or.inr ⟨h, ?_, hnew⟩
      rcases List.suffix_cons_iff.mp hsuffix with heq | hsuffix
      · exact (List.cons.inj heq).2 ▸ List.suffix_rfl
      · exact (List.suffix_cons (e, s') past).trans hsuffix
  · intro h c s _ ih hd
    exact (show s.cache = c.shared.cache from hd.1) ▸ ih.cons _

end Runs

end OAuthValidator
