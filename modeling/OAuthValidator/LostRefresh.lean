import OAuthValidator.Deployed
import OAuthValidator.WakeUp

/-! A refresh whose backend is gone. A ticket has no term: nothing but its own
completion gives the key back, so when a backend ends between the beginning and
the completion of a refresh, the document under that key is never requested or
replaced again. Once the copy in the cache has expired, no connection that needs
the document is authorized. -/

namespace OAuthValidator

open ExpiringMap Interleaving Program

section Events

variable {Arg : Type}

/-- Call `i` begins a refresh of `key` in the state `s`. -/
def refreshBegun (i : Nat) (key : Bytes) (beganMs : Int) (unknownKid : Bool) (cooldownMs : Int)
    (ticket : CacheRefresh) (s : Shared) : Event CallOp CallOp.Ans Arg × Shared :=
  (.act i (.begin key beganMs unknownKid cooldownMs) (.started, ticket), s)

/-- Call `i` completes no refresh. -/
def NeverCompletes (i : Nat) (h : History CallOp CallOp.Ans Arg Shared) : Prop :=
  ∀ ticket completion accepted s, (.act i (.complete ticket completion) accepted, s) ∉ h

theorem NeverCompletes.mono {i : Nat} {h h' : History CallOp CallOp.Ans Arg Shared}
    (hlost : NeverCompletes i h) (hle : h' ⊆ h) : NeverCompletes i h' :=
  fun ticket completion accepted s hmem => hlost ticket completion accepted s (hle hmem)

end Events

section Calls

variable {ext : Externals} {admits : Shared → FetchArgs → Prop} {later older : CallHistory} {c : CallConfig}
  {i : Nat} {key : Bytes} {beganMs : Int} {unknownKid : Bool} {cooldownMs : Int} {ticket : CacheRefresh}
  {s₀ : Shared}

/-- What one operation leaves of a refresh under way that it does not complete. -/
theorem CallRun.keeps_refresh {h : CallHistory} (hr : CallRun ext admits h c)
    (hheld : holder c i = some (key, ticket)) {j : Nat} {args : FetchArgs} {tr : CallTrace} {op : CallOp}
    {next : op.Ans → CallProg FetchReturn} {answer : op.Ans} {s : Shared}
    (hcall : c.calls j = some ⟨args, tr, .ask op next⟩) (hp : perform c.shared op answer s)
    (hlost : j = i → ∀ ticket completion, op ≠ .complete ticket completion) :
    (j = i → owned (⟨op, answer⟩ :: tr) = some (key, ticket)) ∧
      cacheMap s.cache key = cacheMap c.shared.cache key := by
  have hop := (Run.sat (issuerKeyFetchCached_sat ext) hr hcall).1
  have heff := perform_effect (CallRun.inv hr) hp
  obtain ⟨hholders, hexclusive⟩ := CallRun.held hr
  have hpending : (abstractCache c.shared.cache).pending ticket = some key :=
    (hholders.pending ticket key).mpr ⟨i, hheld⟩
  have hself : holder c j = owned tr := by simp [holder, hcall]
  have hown (hj : j = i) : owned tr = some (key, ticket) := by rw [← hself, hj, hheld]
  have hquiet (hmap : abstractCache s.cache = abstractCache c.shared.cache) :
      cacheMap s.cache key = cacheMap c.shared.cache key :=
    congrFun (congrArg State.map hmap) key
  cases op with
  | begin key' nowMs unknownKid cooldownMs =>
    obtain ⟨r, ticket'⟩ := answer
    refine ⟨fun hj => ?_, ?_⟩
    · have hnone := hop.begin_owned
      simp [hown hj] at hnone
    · rcases MapStep.begin_cases heff with ⟨_, hsame⟩ | ⟨_, hbegins⟩
      · exact hquiet hsame
      · exact hbegins.map_of_pending (Or.inr ⟨ticket, hpending⟩)
  | complete ticket' completion =>
    have hother : j ≠ i := fun hj => hlost hj ticket' completion rfl
    refine ⟨fun hj => absurd hj hother, ?_⟩
    obtain ⟨key', hk⟩ := hop.complete_owned
    rcases MapStep.complete_cases heff with ⟨_, _, hcompletes⟩ | ⟨_, _, hsame⟩
    · -- the other call holds another key, and completes that
      have hkey := hcompletes.key_eq hholders (hself.trans hk)
      refine hcompletes.map_of_ne fun hsame => ?_
      rw [← hkey, ← hsame] at hk
      exact hother (hholders.key_unique hexclusive (hself.trans hk) hheld)
    · exact hquiet hsame
  | lookup _ _ _ _ => exact ⟨hown, hquiet heff⟩
  | isRefreshing _ => exact ⟨hown, hquiet heff⟩
  | sleepBegin => exact ⟨hown, hquiet heff⟩
  | sleepEnd _ _ => exact ⟨hown, hquiet heff⟩
  | transfer _ _ => exact ⟨hown, hquiet heff⟩

/-- A refresh that is not completed stays with its call, and the value under its
key stays what it was. -/
theorem CallRun.unfinished
    (hr : CallRun ext admits
      (later ++ refreshBegun i key beganMs unknownKid cooldownMs ticket s₀ :: older) c)
    (hlost : NeverCompletes i later) :
    holder c i = some (key, ticket) ∧ cacheMap c.shared.cache key = cacheMap s₀.cache key := by
  induction later generalizing c with
  | nil =>
    generalize hbegun : (refreshBegun i key beganMs unknownKid cooldownMs ticket s₀ :
      Event CallOp CallOp.Ans FetchArgs × Shared) = e at hr
    cases hr with
    | start _ _ _ _ _ => simp [refreshBegun] at hbegun
    | drift _ _ => simp [refreshBegun] at hbegun
    | @act _ c' j args tr op next answer s run hcall hp =>
      obtain ⟨hact, rfl⟩ := Prod.mk.inj hbegun
      obtain ⟨rfl, rfl, hanswer⟩ := Event.act.inj hact
      obtain rfl := eq_of_heq hanswer
      refine ⟨by simp [holder, owned], ?_⟩
      have hp : perform c'.shared (.begin key beganMs unknownKid cooldownMs) (.started, ticket) s := hp
      have heff : MapStep (abstractCache c'.shared.cache) (.begin key beganMs unknownKid cooldownMs)
          (.begin .started ticket) (abstractCache s.cache) := perform_effect (CallRun.inv run) hp
      rcases MapStep.begin_cases heff with ⟨hne, _⟩ | ⟨_, hbegins⟩
      · simp at hne
      · refine hbegins.map_of_pending (Or.inl ?_)
        rw [hbegins.pending, Function.update_self]
  | cons e later ih =>
    have hrest : NeverCompletes i later := hlost.mono (List.subset_cons_self e later)
    cases hr with
    | start j args run unused _ =>
      obtain ⟨hheld, hmap⟩ := ih run hrest
      have hother : i ≠ j := by
        rintro rfl
        simp [holder, unused] at hheld
      refine ⟨?_, hmap⟩
      rw [← hheld]
      simp [holder, hother]
    | @act _ c' j args tr op next answer s run hcall hp =>
      obtain ⟨hheld, hmap⟩ := ih run hrest
      obtain ⟨hown, hkept⟩ := CallRun.keeps_refresh run hheld hcall hp fun hj ticket' completion hop => by
        subst hj hop
        exact hlost ticket' completion answer _ List.mem_cons_self
      refine ⟨?_, hkept.trans hmap⟩
      by_cases hij : i = j
      · subst hij
        simp [holder, hown rfl]
      · rw [← hheld]
        simp [holder, hij]
    | drift run moved =>
      obtain ⟨hheld, hmap⟩ := ih run hrest
      refine ⟨hheld, ?_⟩
      rw [← hmap]
      show cacheMap _ key = cacheMap _ key
      rw [moved.1]

/-- The refresh is under way in every later state. -/
theorem CallRun.refreshing
    (hr : CallRun ext admits
      (later ++ refreshBegun i key beganMs unknownKid cooldownMs ticket s₀ :: older) c)
    (hlost : NeverCompletes i later) : cacheIsRefreshing c.shared.cache key = true := by
  have hpending : pendingKey c.shared.cache ticket = some key :=
    ((CallRun.held hr).1.pending ticket key).mpr ⟨i, (CallRun.unfinished hr hlost).1⟩
  obtain ⟨entry, howns, rfl⟩ := pendingKey_eq_some_iff.mp hpending
  rw [cacheIsRefreshing_of_slot (CallRun.inv hr) howns.slot howns.ownerKey, howns.refreshing]

/-- A call that starts later does not come by the document: what the cache holds
has expired, and it is not the call's to request. -/
theorem CallRun.not_taken
    (hr : CallRun ext admits
      (later ++ refreshBegun i key beganMs unknownKid cooldownMs ticket s₀ :: older) c)
    (hlost : NeverCompletes i later) {j : Nat} {args : FetchArgs} {s₁ : Shared}
    (hstart : (.start j args, s₁) ∈ later) {x : CachedCall}
    (hexpired : ∀ stored, cacheMap s₀.cache key = some stored →
      stored.freshUntil ≤ x.call.nowMs ∧ stored.staleUntil ≤ x.call.nowMs)
    {tr : CallTrace} {rest : CallProg FetchReturn} (hc : c.calls j = some ⟨args, tr, rest⟩) {url : CString}
    {http : HttpPolicy} {document : Bytes} : ¬ Taken x key url http tr document := by
  intro htaken
  cases htaken with
  | @copied nowMs allowStale l rest' hlater asked usable =>
    obtain ⟨recent, htr⟩ := asked
    obtain ⟨past, c', s, e⟩ := Run.exchange hr hc htr.symm
    obtain ⟨later', rfl, hsub⟩ := e.after hr hstart
    obtain ⟨stored, hmap, _, hfreshness⟩ := sharedLookup_usable e.perform.1 usable
    rw [(CallRun.unfinished e.run (hlost.mono hsub)).2] at hmap
    obtain ⟨hfresh, hstale⟩ := hexpired stored hmap
    have hmiss : l.freshness = .miss := by
      have hnot : ¬ nowMs < stored.freshUntil := by omega
      have hnot' : ¬ nowMs < stored.staleUntil := by omega
      rw [hfreshness]
      simp [freshnessAt, hnot, hnot']
    simp [IoLookup.usable, hmiss] at usable
  | @received response ticket' rest' asked held =>
    obtain ⟨recent, htr⟩ := asked
    obtain ⟨past, c', s, e⟩ := Run.exchange hr hc htr.symm
    obtain ⟨later', rfl, hsub⟩ := e.after hr hstart
    obtain ⟨hheld, _⟩ := CallRun.unfinished e.run (hlost.mono hsub)
    obtain ⟨hholders, hexclusive⟩ := CallRun.held e.run
    obtain ⟨_, hcall⟩ := e.call
    have hother : holder c' j = some (key, ticket') := by simp [holder, hcall, held]
    obtain rfl := hholders.key_unique hexclusive hheld hother
    -- the call that holds the refresh had started before it began it
    obtain ⟨_, _, c₁, _, _, begun⟩ := hr.performed
    obtain ⟨_, hcall₁⟩ := begun.call
    obtain ⟨_, hearlier⟩ := begun.run.start_mem hcall₁
    exact hr.start_once hstart (List.mem_cons_of_mem _ hearlier)

end Calls

section Callbacks

variable {ext : Externals} {admits : Shared → Invocation → Prop}

/-- The document under the key is the connection's metadata, or the key set that
all metadata name which the connection can come by. -/
def Needs (ext : Externals) (h : CallbackHistory) (d : Demand) (key : Bytes) : Prop :=
  cacheKeyBuild (documentKeyPolicy d.prepared .metadata none) = .ok key ∨
    ∀ response ms uri, ReceivedAt h d.prepared.metadataUrl (requestPolicy d.prepared none) response ms →
      metadataParse ext response.body d.prepared.policy.issuer
        ⟨maxDocumentSize, maxUrlSize, d.prepared.policy.allowInsecureHttp⟩ = .ok uri →
      cacheKeyBuild (documentKeyPolicy d.prepared .jwks (some uri)) = .ok key

theorem requests_append (later past : CallbackHistory) :
    requests (retrieval ext) (later ++ past) = requests (retrieval ext) later ++ requests (retrieval ext) past :=
  List.filterMap_append

theorem NeverCompletes.requests {i : Nat} {later : CallbackHistory} (hlost : NeverCompletes i later) :
    NeverCompletes i (requests (retrieval ext) later) :=
  fun ticket completion accepted s hmem => hlost ticket completion accepted s (mem_requests_act.mp hmem)

/-- A refresh that is never completed is under way for ever, and once the copy
that it was to replace has expired, every connection that needs the document is
turned away, whatever the other backends do. -/
theorem lost_refresh_denies {later older : CallbackHistory} {c : CallbackConfig} {i : Nat} {key : Bytes}
    {beganMs : Int} {unknownKid : Bool} {cooldownMs : Int} {ticket : CacheRefresh} {s₀ : Shared}
    (hr : CallbackRun ext admits
      (later ++ refreshBegun i key beganMs unknownKid cooldownMs ticket s₀ :: older) c)
    (hlost : NeverCompletes i later) :
    cacheIsRefreshing c.shared.cache key = true ∧
    ∀ j inv s₁ d call r, (.start j inv, s₁) ∈ later → demand ext inv = some d →
      Needs ext (later ++ refreshBegun i key beganMs unknownKid cooldownMs ticket s₀ :: older) d key →
      (∀ stored, cacheMap s₀.cache key = some stored →
        stored.freshUntil ≤ d.prepared.monotonicMs ∧ stored.staleUntil ≤ d.prepared.monotonicMs) →
      c.calls j = some call → call.rest = .ret r → r.2.authorized = false := by
  have hsplit : requests (retrieval ext)
      (later ++ refreshBegun i key beganMs unknownKid cooldownMs ticket s₀ :: older) =
      requests (retrieval ext) later ++
        refreshBegun i key beganMs unknownKid cooldownMs ticket s₀ :: requests (retrieval ext) older :=
    requests_append _ _
  refine ⟨?_, ?_⟩
  · obtain ⟨c', hr', hagrees⟩ := CallbackRun.retrievals hr
    rw [hsplit] at hr'
    rw [← hagrees.shared]
    exact CallRun.refreshing hr' hlost.requests
  · intro j inv s₁ d call r hstart hd hneeds hexpired hc hret
    by_contra hne
    have ha : r.2.authorized = true := by simpa using hne
    obtain ⟨d', c', fetched, hd', hr', hcall, rfl⟩ := CallbackRun.authorized hr hc hret ha
    obtain ⟨call', hc', hinv⟩ := hr.arg_of_start (List.mem_append_left _ hstart)
    obtain rfl := Option.some.inj (hc.symm.trans hc')
    subst hinv
    obtain rfl := Option.some.inj (hd.symm.trans hd'.demanded)
    obtain ⟨identity, hok, hid, _⟩ := decideToken_authorized ha
    obtain ⟨hfetched, _⟩ := verifyToken_ok hok hid
    have hstart' : (.start j (d.prepared.fetchArgs call.arg d.envelope), s₁) ∈ requests (retrieval ext) later := by
      refine List.mem_filterMap.mpr ⟨_, hstart, ?_⟩
      simp [requestEvent, retrieval, hd]
    have hfinished : CallFinished ext (d.prepared.fetchArgs call.arg d.envelope) call.trace fetched :=
      Run.sat (issuerKeyFetchCached_sat ext) hr' hcall
    obtain ⟨selected, _, ⟨x, hx, haccepted⟩ | ⟨_, _, hnone, _⟩⟩ := hfinished.accepted hfetched
    · obtain rfl := Option.some.inj (hd'.cached.symm.trans hx)
      obtain ⟨base, nowMs, uri, host, jwksKey, document, hready, hbase, _, htaken⟩ :=
        haccepted.taken hd'.lifetimes.2.2.1
      obtain ⟨metadataKey, metadata, hkey, hread, hparse⟩ := hready.metadata
      obtain ⟨response, ms, hreceived, rfl⟩ := CallRun.metadataReceived hr' hd' hcall hkey hread hbase
      have hnot {url : CString} {http : HttpPolicy} {document : Bytes} :
          ¬ Taken (d.prepared.cachedCall call.arg d.envelope) key url http call.trace document := by
        rw [hsplit] at hr'
        exact CallRun.not_taken hr' hlost.requests hstart' hexpired hcall
      rcases hneeds with hmetadata | hjwks
      · obtain rfl := Except.ok.inj (hkey.symm.trans hmetadata)
        exact hnot ((hread.taken hd'.lifetimes.2.2.1).mono hbase)
      · have hnamed := hjwks response ms uri hreceived.receivedAt hparse
        obtain rfl := Except.ok.inj (hready.key.symm.trans hnamed)
        exact hnot htaken
    · simp [Prepared.fetchArgs] at hnone

end Callbacks

namespace Sample

/-- A backend that ends while it holds the refresh of the metadata, and another
that waits for it in vain. -/
def orphanedConnection : List (Choice Invocation) :=
  [.start 0 invocation] ++ List.replicate 2 (.step 0 unreachable) ++ [.start 1 invocation] ++
    List.replicate 4 (.step 1 unreachable) ++ [.tick 5000] ++ List.replicate 2 (.step 1 unreachable)

/-- Call 0 has begun a refresh of the metadata, of which the cache has no copy,
and next call 1 starts, which needs it. -/
def orphaned (h : CallbackHistory) : Bool :=
  match h with
  | (.start 1 inv, _) :: (.act 0 (.begin key _ _ _) answer, s) :: _ =>
    match (answer : CacheRefreshResult × CacheRefresh) with
    | (.started, _) => (cacheMap s.cache key).isNone && (demand tokenExternals inv).any fun d =>
        decide (cacheKeyBuild (documentKeyPolicy d.prepared .metadata none) = .ok key)
    | _ => false
  | _ => false

def byOthers (e : Event CallOp CallOp.Ans Invocation × Shared) : Bool :=
  match e.1 with
  | .act 0 _ _ => false
  | _ => true

theorem orphaned_eq_true {h : CallbackHistory} (ho : orphaned h = true) :
    ∃ inv s₁ key beganMs unknownKid cooldownMs ticket s₀ older d,
      h = (.start 1 inv, s₁) :: refreshBegun 0 key beganMs unknownKid cooldownMs ticket s₀ :: older ∧
      cacheMap s₀.cache key = none ∧ demand tokenExternals inv = some d ∧
      cacheKeyBuild (documentKeyPolicy d.prepared .metadata none) = .ok key := by
  unfold orphaned at ho
  split at ho
  · next inv s₁ key beganMs unknownKid cooldownMs answer s older =>
    split at ho
    · next ticket =>
      rw [Bool.and_eq_true, Option.isNone_iff_eq_none] at ho
      obtain ⟨d, hd, hkey⟩ := exists_of_any ho.2
      exact ⟨inv, s₁, key, beganMs, unknownKid, cooldownMs, ticket, s, older, d, rfl, ho.1, hd,
        of_decide_eq_true hkey⟩
    · simp at ho
  · simp at ho

theorem neverCompletes_of_byOthers {h : CallbackHistory} (hothers : h.all byOthers = true) :
    NeverCompletes 0 h := by
  intro ticket completion accepted s hmem
  have hother := List.all_eq_true.mp hothers _ hmem
  simp [byOthers] at hother

end Sample

/-- The second backend waits five seconds and then turns its connection away. -/
theorem lost_refresh_denies_orphaned :
    ∃ later older c key beganMs unknownKid cooldownMs ticket s₀,
      CallbackRun Sample.tokenExternals (fun _ _ => true = true)
        (later ++ refreshBegun 0 key beganMs unknownKid cooldownMs ticket s₀ :: older) c ∧
      NeverCompletes 0 later ∧ cacheIsRefreshing c.shared.cache key = true ∧
      ∃ inv s₁ d call r, (.start 1 inv, s₁) ∈ later ∧ demand Sample.tokenExternals inv = some d ∧
        c.calls 1 = some call ∧ call.rest = .ret r ∧ r.2.authorized = false := by
  have hrun : (replay (validatorValidate Sample.tokenExternals) (fun _ _ => true) 8 0
      Sample.orphanedConnection).any (fun p => Sample.orphaned (p.1.drop 7) &&
        (p.1.take 8).all Sample.byOthers && (p.2.calls 1).any Sample.concluded) = true := by
    simp only [Sample.orphanedConnection, Sample.invocation, Sample.tokenExternals, Sample.token,
      Sample.keyObjectText, CString.lit_append]
    decide +kernel
  obtain ⟨h, c, hr, htest⟩ := replay_any hrun
  simp only [Bool.and_eq_true] at htest
  obtain ⟨⟨horphaned, hothers⟩, hconcluded⟩ := htest
  obtain ⟨inv, s₁, key, beganMs, unknownKid, cooldownMs, ticket, s₀, older, d, hdrop, hempty, hd, hkey⟩ :=
    Sample.orphaned_eq_true horphaned
  obtain ⟨call, hc, hcall⟩ := exists_of_any hconcluded
  have hsplit : h = (h.take 7 ++ [(.start 1 inv, s₁)]) ++
      refreshBegun 0 key beganMs unknownKid cooldownMs ticket s₀ :: older := by
    rw [List.append_assoc, List.singleton_append, ← hdrop, List.take_append_drop]
  have htake : h.take 8 = h.take 7 ++ [(.start 1 inv, s₁)] := by
    rw [List.take_add_one, List.head?_drop.symm, hdrop]
    rfl
  have hlost : NeverCompletes 0 (h.take 7 ++ [(.start 1 inv, s₁)]) := by
    rw [← htake]
    exact Sample.neverCompletes_of_byOthers hothers
  have hstart : (.start 1 inv, s₁) ∈ h.take 7 ++ [(.start 1 inv, s₁)] := by simp
  rw [hsplit] at hr
  obtain ⟨hrefreshing, hdenied⟩ := lost_refresh_denies hr hlost
  obtain ⟨r, hrest⟩ := Sample.concluded_returned hcall
  exact ⟨_, older, c, key, beganMs, unknownKid, cooldownMs, ticket, s₀, hr, hlost, hrefreshing, inv, s₁, d, call, r,
    hstart, hd, hc, hrest, hdenied 1 inv s₁ d call r hstart hd (Or.inl hkey) (by simp [hempty]) hc hrest⟩

end OAuthValidator
