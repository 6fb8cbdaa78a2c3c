import OAuthValidator.KeyProvenance
import OAuthValidator.WaitingClock

/-! How old a document can be when a call uses it. The document was received, by
this call or by the one that published it, and what it is used at lies within the
lifetime, the grace and the sleeps that the publication was dated by. -/

namespace OAuthValidator

open ExpiringMap Interleaving

/-- Call `i` received a response at a real time, in a run of calls or of their callers. -/
def ReceivedIn {Arg : Type} (h : History CallOp CallOp.Ans Arg Shared) (i : Nat) (url : CString)
    (policy : HttpPolicy) (response : HttpResponse) (ms : Int) : Prop :=
  ∃ s, (.act i (.transfer url policy) (.ok response), s) ∈ h ∧ s.clockMs = ms

/-- A response was received at a real time. -/
def ReceivedAt {Arg : Type} (h : History CallOp CallOp.Ans Arg Shared) (url : CString)
    (policy : HttpPolicy) (response : HttpResponse) (ms : Int) : Prop :=
  ∃ i, ReceivedIn h i url policy response ms

/-- A document that a call has taken from the cache, or from the network. -/
inductive Taken (x : CachedCall) (key : Bytes) (url : CString) (http : HttpPolicy) (tr : CallTrace) :
    Bytes → Prop
  | copied {nowMs : Int} {allowStale : Bool} {l : IoLookup} {rest : CallTrace}
      (later : x.call.nowMs ≤ nowMs)
      (asked : ⟨.lookup key nowMs allowStale x.capacity, l⟩ :: rest <:+ tr) (usable : l.usable = true) :
      Taken x key url http tr l.payload
  | received {response : HttpResponse} {ticket : CacheRefresh} {rest : CallTrace}
      (asked : ⟨.transfer url http, .ok response⟩ :: rest <:+ tr) (held : owned rest = some (key, ticket)) :
      Taken x key url http tr response.body

section Calls

variable {ext : Externals} {x : CachedCall} {tr tr' : CallTrace} {key : Bytes} {nowMs : Int}
  {uri host : CString}

theorem Taken.mono {url : CString} {http : HttpPolicy} {document : Bytes}
    (h : Taken x key url http tr document) (hle : tr <:+ tr') : Taken x key url http tr' document := by
  cases h with
  | copied later asked usable => exact .copied later (asked.trans hle) usable
  | received asked held => exact .received (asked.trans hle) held

theorem IoLookup.usable_of_hit {l : IoLookup} (h : l.hit = true) : l.usable = true := by
  obtain ⟨hfresh, hok⟩ : l.freshness = .fresh ∧ l.copyResult = .ok := by simpa [IoLookup.hit] using h
  simp [IoLookup.usable, hfresh, hok]

/-- A wait never reports a negative time, and none beyond its timeout. -/
theorem Waited.elapsed {timeoutMs : Int} {w : Bool × Int} (h : Waited key timeoutMs tr tr' w)
    (hwait : 0 ≤ timeoutMs) : 0 ≤ w.2 ∧ w.2 ≤ timeoutMs := by
  cases h with
  | refused => exact ⟨Int.le_refl 0, hwait⟩
  | idle => exact ⟨Int.le_refl 0, hwait⟩
  | slept since refreshing positive => exact ⟨by simpa using hwait, Int.le_refl _⟩

theorem MetadataRead.taken {body : Bytes} (h : MetadataRead ext x key tr nowMs body)
    (hwait : 0 ≤ x.cache.refreshWaitTimeoutMs) :
    Taken x key x.call.metadataUrl x.call.policy.metadataHttp tr body := by
  cases h with
  | hit l hhit => exact .copied (Int.le_refl _) List.suffix_rfl (IoLookup.usable_of_hit hhit)
  | waited l ticket tr' elapsedMs l' _ wait _ hhit =>
    have helapsed := (wait.elapsed hwait).1
    exact .copied (by simp only [metadataStage]; omega) List.suffix_rfl (IoLookup.usable_of_hit hhit)
  | fetched l ticket response f _ _ => exact .received (List.suffix_cons _ _) rfl

/-- A call sleeps at most once before it turns to the JWKS. -/
theorem MetadataRead.slept {body : Bytes} (h : MetadataRead ext x key tr nowMs body)
    (hwait : 0 ≤ x.cache.refreshWaitTimeoutMs) :
    0 ≤ timeSlept tr ∧ timeSlept tr ≤ x.cache.refreshWaitTimeoutMs := by
  cases h with
  | hit l _ => exact ⟨Int.le_refl 0, hwait⟩
  | waited l ticket tr' elapsedMs l' _ wait _ _ =>
    have helapsed := wait.elapsed hwait
    have hslept := wait.timeSlept_eq
    simp only [timeSlept_begun, timeSlept_relookedUp, metadataStage, timeSlept] at hslept ⊢
    omega
  | fetched l ticket response f _ _ => exact ⟨Int.le_refl 0, hwait⟩

theorem StageOpen.slept {s : Stage} (o : StageOpen ext x s) (hwait : 0 ≤ x.cache.refreshWaitTimeoutMs) :
    0 ≤ timeSlept s.base ∧ timeSlept s.base ≤ x.cache.refreshWaitTimeoutMs := by
  cases o with
  | metadata _ => exact ⟨Int.le_refl 0, hwait⟩
  | jwks h =>
    obtain ⟨_, _, _, hread, _⟩ := h.metadata
    exact hread.slept hwait

/-- The document that the key of a call was selected from. -/
theorem Accepted.taken {selected : SelectedJwk} (h : Accepted ext x tr selected)
    (hwait : 0 ≤ x.cache.refreshWaitTimeoutMs) :
    ∃ base nowMs uri host key document, JwksReady ext x base nowMs uri host key ∧ base <:+ tr ∧
      selectKey ext x.call document = .ok selected ∧
      Taken x key uri (jwksHttpPolicy x.call host) tr document := by
  have hnow {base : CallTrace} {nowMs : Int} {uri host : CString} {key : Bytes}
      (o : JwksReady ext x base nowMs uri host key) : x.call.nowMs ≤ nowMs := by
    have hclock := (StageOpen.jwks o).clock
    have hslept := ((StageOpen.jwks o).slept hwait).1
    simp only [jwksStage] at hclock hslept
    omega
  have hlooked {base tr : CallTrace} {nowMs : Int} {uri host : CString} {key : Bytes} {l : IoLookup}
      (o : JwksReady ext x base nowMs uri host key) (usable : l.usable = true)
      (hle : (jwksStage ext x base nowMs uri host key).lookedUp l <:+ tr) :
      Taken x key uri (jwksHttpPolicy x.call host) tr l.payload :=
    .copied (hnow o) hle usable
  cases h with
  | fresh o usable _ select =>
    exact ⟨_, _, _, _, _, _, o, List.suffix_cons _ _, select, hlooked o usable List.suffix_rfl⟩
  | @waited base nowMs uri host key l l' unknownKid ticket tr' elapsedMs _ o _ wait usable select =>
    have hbase : base <:+ (jwksStage ext x base nowMs uri host key).begun l unknownKid .inProgress ticket :=
      List.suffix_append [_, _] base
    have helapsed := (wait.elapsed hwait).1
    have hstart := hnow o
    refine ⟨_, _, _, _, _, _, o, (hbase.trans wait.suffix).trans (List.suffix_cons _ _), select,
      .copied ?_ List.suffix_rfl usable⟩
    simp only [jwksStage]
    omega
  | @unowned base nowMs uri host key l r ticket _ o usable _ select _ =>
    exact ⟨_, _, _, _, _, _, o, List.suffix_append [_, _] base, select,
      hlooked o usable Stage.lookedUp_suffix_begun⟩
  | @refused base nowMs uri host key l ticket e accepted _ o usable _ select _ =>
    exact ⟨_, _, _, _, _, _, o, List.suffix_append [_, _, _] base, select,
      hlooked o usable (Stage.lookedUp_suffix_begun.trans (List.suffix_cons _ _))⟩
  | @unreachable base nowMs uri host key l ticket e accepted _ o usable _ select =>
    exact ⟨_, _, _, _, _, _, o, List.suffix_append [_, _, _, _] base, select,
      hlooked o usable (Stage.lookedUp_suffix_transferred.trans (List.suffix_cons _ _))⟩
  | @fetched base nowMs uri host key l unknownKid ticket response f _ o _ _ select =>
    exact ⟨_, _, _, _, _, _, o, List.suffix_append [_, _, _, _] base, select,
      .received (List.suffix_cons _ _) rfl⟩

end Calls

/-- No call starts with a time that the real clock has not reached. -/
def StartsByTheClock (admits : Shared → FetchArgs → Prop) : Prop :=
  ∀ s args, admits s args → args.nowMs ≤ s.clockMs

section Runs

variable {ext : Externals} {admits : Shared → FetchArgs → Prop} {h : CallHistory} {c : CallConfig}

/-- A stage of a call of the run received a document under a key at the real time
`ms`, and its publication is not usable at `untilMs` or later. -/
inductive ReceivedBy (ext : Externals) (admits : Shared → FetchArgs → Prop) (h : CallHistory)
    (key document : Bytes) (ms untilMs : Int) : Prop
  | intro {j : Nat} {args : FetchArgs} {y : CachedCall} {s : Stage} {response : HttpResponse} {shared : Shared}
      (started : (.start j args, shared) ∈ h) (cached : args.cached = some y) (stage : StageOpen ext y s)
      (under : s.key = key) (received : ReceivedIn h j s.url s.http response ms)
      (allowed : requestError ext s.url s.http = none) (body : response.body = document)
      (dated : StartsByTheClock admits →
        untilMs ≤ ms + timeSlept s.base + s.freshness.maximumTtlMs + s.graceMs)

theorem Stage.graceMs_nonneg {y : CachedCall} {s : Stage} {args : FetchArgs} (hy : args.cached = some y)
    (o : StageOpen ext y s) : 0 ≤ s.graceMs := by
  cases o with
  | metadata _ => exact Int.le_refl 0
  | jwks _ => exact (FetchArgs.cached_bounds hy).grace

/-- What is stored was received, and expires by the date of its publication. -/
theorem Published.receivedBy {point : CallHistory} {key : Bytes} {stored : Stored Bytes Int}
    (p : Published ext admits h point key stored) :
    ∃ ms, ReceivedBy ext admits h key stored.value ms (max stored.freshUntil stored.staleUntil) := by
  obtain @⟨j, args, y, s, l, unknownKid, ticket, response, f, c', after, e, hy, o, _, hfresh, rfl,
    hput⟩ := p
  obtain ⟨_, _, _, _, hvalue, hfreshUntil, hstaleUntil⟩ := Stage.outcome_published hput
  obtain ⟨next, hcall⟩ := e.call
  obtain ⟨shared, hstarted⟩ := Run.start_mem e.run hcall
  obtain ⟨past, c'', after', x⟩ := Run.exchange e.run hcall (List.nil_append _).symm
  have hallowed := (x.permitted (issuerKeyFetchCached_sat ext)).transfer_allowed
  refine ⟨c''.shared.clockMs, e.past_subset hstarted, hy, o, rfl, ⟨c''.shared, e.past_subset x.mem, rfl⟩,
    hallowed, hvalue.symm, fun hclock => ?_⟩
  obtain ⟨_, hcall''⟩ := x.call
  have hstart : args.nowMs ≤ c''.shared.clockMs := CallRun.started hclock x.run hcall''
  have hnow := o.clock
  rw [FetchArgs.cached_nowMs hy] at hnow
  have httl : f.ttlMs ≤ s.freshness.maximumTtlMs := (httpFreshnessCalculate_ttl hfresh).2
  have hgrace := Stage.graceMs_nonneg hy o
  split at hstaleUntil <;> omega

/-- A document that a call has taken was received: by the call itself, after it
had started, or by the stage that published it. -/
theorem CallRun.taken (hr : CallRun ext admits h c) {i : Nat}
    {call : Call CallOp CallOp.Ans FetchArgs FetchReturn} (hc : c.calls i = some call) {x : CachedCall}
    (hx : call.arg.cached = some x) {key document : Bytes} {url : CString} {http : HttpPolicy}
    (ht : Taken x key url http call.trace document) :
    (∃ response ms, ReceivedIn h i url http response ms ∧ requestError ext url http = none ∧
      response.body = document ∧ (StartsByTheClock admits → x.call.nowMs ≤ ms)) ∨
    ∃ ms untilMs, ReceivedBy ext admits h key document ms untilMs ∧ x.call.nowMs < untilMs := by
  cases ht with
  | @received response ticket rest asked _ =>
    obtain ⟨recent, htr⟩ := asked
    obtain ⟨past, c', s, e⟩ := Run.exchange hr hc htr.symm
    refine Or.inl ⟨response, c'.shared.clockMs, ⟨c'.shared, e.mem, rfl⟩,
      (e.permitted (issuerKeyFetchCached_sat ext)).transfer_allowed, rfl, fun hclock => ?_⟩
    obtain ⟨next, hcall⟩ := e.call
    have hstart := CallRun.started hclock e.run hcall
    rw [FetchArgs.cached_nowMs hx]
    exact hstart
  | @copied nowMs allowStale l rest later asked usable =>
    obtain ⟨stored, past, hpay, hfreshness, hcopied, point, hp⟩ := CallRun.copied hr hc asked usable
    have hsub := hcopied.past_subset
    obtain ⟨ms, hreceived⟩ := hp.receivedBy
    obtain ⟨started, cached, stage, under, ⟨s, hmem, hms⟩, allowed, body, dated⟩ := hreceived
    refine Or.inr ⟨ms, _, ⟨hsub started, cached, stage, under, ⟨s, hsub hmem, hms⟩, allowed,
      body.trans hpay.symm, dated⟩, ?_⟩
    cases hfr : l.freshness with
    | fresh =>
      have hlt := freshnessAt_eq_fresh_iff.mp (hfreshness.symm.trans hfr)
      omega
    | stale =>
      have hlt := (freshnessAt_eq_stale_iff.mp (hfreshness.symm.trans hfr)).2.2
      omega
    | miss => simp [IoLookup.usable, hfr] at usable

end Runs

end OAuthValidator
