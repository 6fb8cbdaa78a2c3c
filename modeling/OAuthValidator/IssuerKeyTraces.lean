import OAuthValidator.IssuerKey

/-! The exchanges a retrieval can have. The metadata and the JWKS part of a call
have one shape: a lookup, then possibly a begin, then either a wait and a second
lookup or a request and the completion that ends it. What is said of the exchanges
later is derived from this description and not from the program text. -/

namespace OAuthValidator

open Program

/-- One of the two parts of a call. -/
structure Stage where
  base : CallTrace
  key : Bytes
  nowMs : Int
  allowStale : Bool
  outputSize : Nat
  cooldownMs : Int
  waitMs : Int
  url : CString
  http : HttpPolicy
  responseTimeSeconds : Int
  freshness : HttpFreshnessPolicy
  graceMs : Int
  /-- The unknown-kid flag of the begin that follows a lookup, if one does. -/
  refreshes : IoLookup → Option Bool
  accepts : Bytes → Bool

namespace Stage

def lookedUp (s : Stage) (l : IoLookup) : CallTrace :=
  ⟨.lookup s.key s.nowMs s.allowStale s.outputSize, l⟩ :: s.base

def begun (s : Stage) (l : IoLookup) (unknownKid : Bool) (r : CacheRefreshResult)
    (ticket : CacheRefresh) : CallTrace :=
  ⟨.begin s.key s.nowMs unknownKid s.cooldownMs, (r, ticket)⟩ :: s.lookedUp l

def transferred (s : Stage) (l : IoLookup) (unknownKid : Bool) (ticket : CacheRefresh)
    (answer : Except HttpError HttpResponse) : CallTrace :=
  ⟨.transfer s.url s.http, answer⟩ :: s.begun l unknownKid .started ticket

/-- The second lookup, after a wait that took `elapsedMs` by its own account. -/
def relookedUp (s : Stage) (tr : CallTrace) (elapsedMs : Int) (l : IoLookup) : CallTrace :=
  ⟨.lookup s.key (s.nowMs + elapsedMs) s.allowStale s.outputSize, l⟩ :: tr

def published (s : Stage) (f : HttpFreshness) (response : HttpResponse) : Completion :=
  publishCompletion s.nowMs f s.graceMs response.body

variable {s : Stage} {l : IoLookup} {unknownKid : Bool} {r : CacheRefreshResult}
  {ticket : CacheRefresh} {answer : Except HttpError HttpResponse}

theorem lookedUp_suffix_begun : s.lookedUp l <:+ s.begun l unknownKid r ticket :=
  List.suffix_cons _ _

theorem lookedUp_suffix_transferred : s.lookedUp l <:+ s.transferred l unknownKid ticket answer :=
  lookedUp_suffix_begun.trans (List.suffix_cons _ _)

theorem base_suffix_lookedUp : s.base <:+ s.lookedUp l :=
  List.suffix_cons _ _

end Stage

def metadataStage (ext : Externals) (x : CachedCall) (key : Bytes) : Stage where
  base := []
  key := key
  nowMs := x.call.nowMs
  allowStale := false
  outputSize := x.capacity
  cooldownMs := 0
  waitMs := x.cache.refreshWaitTimeoutMs
  url := x.call.metadataUrl
  http := x.call.policy.metadataHttp
  responseTimeSeconds := x.call.responseTimeSeconds
  freshness := x.cache.metadataFreshness
  graceMs := 0
  refreshes l := if l.hit then none else some false
  accepts document :=
    (metadataParse ext document x.call.expectedIssuer x.call.policy.metadata).isOk

def jwksStage (ext : Externals) (x : CachedCall) (tr : CallTrace) (nowMs : Int) (uri host : CString)
    (key : Bytes) : Stage where
  base := tr
  key := key
  nowMs := nowMs
  allowStale := 0 < x.cache.jwksStaleGraceMs
  outputSize := x.capacity
  cooldownMs := x.cache.unknownKidRefreshCooldownMs
  waitMs := x.cache.refreshWaitTimeoutMs
  url := uri
  http := jwksHttpPolicy x.call host
  responseTimeSeconds := x.call.responseTimeSeconds
  freshness := x.cache.jwksFreshness
  graceMs := x.cache.jwksStaleGraceMs
  refreshes l :=
    if l.usable then
      match selectKey ext x.call l.payload with
      | .ok _ => if l.freshness == .fresh then none else some false
      | .error e => if e == .keyNotFound then some true else none
    else some false
  accepts document := (selectKey ext x.call document).isOk

/-- The operations of a wait that starts after the exchanges `tr`. -/
inductive Waiting (key : Bytes) (timeoutMs : Int) (tr : CallTrace) : CallTrace → CallOp → Prop
  | check : Waiting key timeoutMs tr tr (.isRefreshing key)
  | fallAsleep : Waiting key timeoutMs tr (⟨.isRefreshing key, true⟩ :: tr) .sleepBegin
  | wakeUp (since : Int) : Waiting key timeoutMs tr
      (⟨.sleepBegin, since⟩ :: ⟨.isRefreshing key, true⟩ :: tr) (.sleepEnd since timeoutMs)
  | recheck (since : Int) : Waiting key timeoutMs tr
      (⟨.sleepEnd since timeoutMs, ()⟩ :: ⟨.sleepBegin, since⟩ :: ⟨.isRefreshing key, true⟩ :: tr)
      (.isRefreshing key)

/-- A wait that is over, with its verdict and the elapsed time it reports. -/
inductive Waited (key : Bytes) (timeoutMs : Int) (tr : CallTrace) : CallTrace → Bool × Int → Prop
  | refused : Waited key timeoutMs tr tr (false, 0)
  | idle : Waited key timeoutMs tr (⟨.isRefreshing key, false⟩ :: tr) (true, 0)
  | slept (since : Int) (refreshing : Bool) (positive : 0 < timeoutMs) :
      Waited key timeoutMs tr
        (⟨.isRefreshing key, refreshing⟩ :: ⟨.sleepEnd since timeoutMs, ()⟩ ::
          ⟨.sleepBegin, since⟩ :: ⟨.isRefreshing key, true⟩ :: tr) (!refreshing, timeoutMs)

/-- The ways in which a call comes by a metadata document. -/
inductive MetadataRead (ext : Externals) (x : CachedCall) (key : Bytes) :
    CallTrace → Int → Bytes → Prop
  | hit (l : IoLookup) (hit : l.hit = true) :
      MetadataRead ext x key ((metadataStage ext x key).lookedUp l) x.call.nowMs l.payload
  | waited (l : IoLookup) (ticket : CacheRefresh) (tr : CallTrace) (elapsedMs : Int) (l' : IoLookup)
      (missed : l.hit = false)
      (wait : Waited key x.cache.refreshWaitTimeoutMs
        ((metadataStage ext x key).begun l false .inProgress ticket) tr (true, elapsedMs))
      (bound : elapsedMs ≤ int64Max - x.call.nowMs) (hit : l'.hit = true) :
      MetadataRead ext x key ((metadataStage ext x key).relookedUp tr elapsedMs l')
        (x.call.nowMs + elapsedMs) l'.payload
  | fetched (l : IoLookup) (ticket : CacheRefresh) (response : HttpResponse) (f : HttpFreshness)
      (missed : l.hit = false)
      (fresh : response.freshness ext x.call.responseTimeSeconds x.cache.metadataFreshness = .ok f) :
      MetadataRead ext x key
        (⟨.complete ticket ((metadataStage ext x key).published f response), true⟩ ::
          (metadataStage ext x key).transferred l false ticket (.ok response))
        x.call.nowMs response.body

/-- A call that has accepted a metadata document and turns to the JWKS. -/
structure JwksReady (ext : Externals) (x : CachedCall) (tr : CallTrace) (nowMs : Int)
    (uri host : CString) (key : Bytes) : Prop where
  metadata : ∃ metadataKey body, cacheKeyBuild x.metadataKeyPolicy = .ok metadataKey ∧
    MetadataRead ext x metadataKey tr nowMs body ∧
    metadataParse ext body x.call.expectedIssuer x.call.policy.metadata = .ok uri
  host : httpUrlHost ext x.call.metadataUrl x.call.policy.metadataHttp.maxUrlSize
    x.call.policy.metadataHttp.allowInsecureHttp = .ok host
  key : cacheKeyBuild (x.jwksKeyPolicy uri) = .ok key

/-- The stages a call can enter, each with the exchanges that precede it. -/
inductive StageOpen (ext : Externals) (x : CachedCall) : Stage → Prop
  | metadata {key : Bytes} (h : cacheKeyBuild x.metadataKeyPolicy = .ok key) :
      StageOpen ext x (metadataStage ext x key)
  | jwks {tr : CallTrace} {nowMs : Int} {uri host : CString} {key : Bytes}
      (h : JwksReady ext x tr nowMs uri host key) :
      StageOpen ext x (jwksStage ext x tr nowMs uri host key)

/-- Every operation a call performs, after the exchanges it has had. -/
inductive Issues (ext : Externals) (x : CachedCall) : CallTrace → CallOp → Prop
  | lookup {s : Stage} (o : StageOpen ext x s) :
      Issues ext x s.base (.lookup s.key s.nowMs s.allowStale s.outputSize)
  | begin {s : Stage} {l : IoLookup} {unknownKid : Bool} (o : StageOpen ext x s)
      (refresh : s.refreshes l = some unknownKid) :
      Issues ext x (s.lookedUp l) (.begin s.key s.nowMs unknownKid s.cooldownMs)
  | wait {s : Stage} {l : IoLookup} {unknownKid : Bool} {ticket : CacheRefresh} {tr : CallTrace}
      {op : CallOp} (o : StageOpen ext x s) (refresh : s.refreshes l = some unknownKid)
      (wait : Waiting s.key s.waitMs (s.begun l unknownKid .inProgress ticket) tr op) :
      Issues ext x tr op
  | relookup {s : Stage} {l : IoLookup} {unknownKid : Bool} {ticket : CacheRefresh} {tr : CallTrace}
      {elapsedMs : Int} (o : StageOpen ext x s) (refresh : s.refreshes l = some unknownKid)
      (wait : Waited s.key s.waitMs (s.begun l unknownKid .inProgress ticket) tr (true, elapsedMs))
      (bound : elapsedMs ≤ int64Max - s.nowMs) :
      Issues ext x tr (.lookup s.key (s.nowMs + elapsedMs) s.allowStale s.outputSize)
  | transfer {s : Stage} {l : IoLookup} {unknownKid : Bool} {ticket : CacheRefresh}
      (o : StageOpen ext x s) (refresh : s.refreshes l = some unknownKid)
      (allowed : requestError ext s.url s.http = none) :
      Issues ext x (s.begun l unknownKid .started ticket) (.transfer s.url s.http)
  | refused {s : Stage} {l : IoLookup} {unknownKid : Bool} {ticket : CacheRefresh} {e : HttpError}
      (o : StageOpen ext x s) (refresh : s.refreshes l = some unknownKid)
      (refused : requestError ext s.url s.http = some e) :
      Issues ext x (s.begun l unknownKid .started ticket)
        (.complete ticket (failedCompletion s.nowMs))
  | failed {s : Stage} {l : IoLookup} {unknownKid : Bool} {ticket : CacheRefresh}
      {answer : Except HttpError HttpResponse} (o : StageOpen ext x s)
      (refresh : s.refreshes l = some unknownKid)
      (unusable : ∀ response, answer = .ok response → s.accepts response.body = false ∨
        ∃ e, response.freshness ext s.responseTimeSeconds s.freshness = .error e) :
      Issues ext x (s.transferred l unknownKid ticket answer)
        (.complete ticket (failedCompletion s.nowMs))
  | publish {s : Stage} {l : IoLookup} {unknownKid : Bool} {ticket : CacheRefresh}
      {response : HttpResponse} {f : HttpFreshness} (o : StageOpen ext x s)
      (refresh : s.refreshes l = some unknownKid) (accepted : s.accepts response.body = true)
      (fresh : response.freshness ext s.responseTimeSeconds s.freshness = .ok f) :
      Issues ext x (s.transferred l unknownKid ticket (.ok response))
        (.complete ticket (s.published f response))

/-- The refresh that a call has begun and not yet completed. -/
def owned : CallTrace → Option (Bytes × CacheRefresh)
  | [] => none
  | ⟨.begin key _ _ _, answer⟩ :: tr =>
    match (answer : CacheRefreshResult × CacheRefresh) with
    | (.started, ticket) => some (key, ticket)
    | _ => owned tr
  | ⟨.complete _ _, _⟩ :: _ => none
  | _ :: tr => owned tr

/-- The ways in which a call comes by the key it returns. -/
inductive Accepted (ext : Externals) (x : CachedCall) : CallTrace → SelectedJwk → Prop
  | fresh {tr nowMs uri host key} {l : IoLookup} {selected : SelectedJwk}
      (o : JwksReady ext x tr nowMs uri host key) (usable : l.usable = true)
      (fresh : l.freshness = .fresh) (select : selectKey ext x.call l.payload = .ok selected) :
      Accepted ext x ((jwksStage ext x tr nowMs uri host key).lookedUp l) selected
  | waited {tr nowMs uri host key} {l l' : IoLookup} {unknownKid : Bool} {ticket : CacheRefresh}
      {tr' : CallTrace} {elapsedMs : Int} {selected : SelectedJwk}
      (o : JwksReady ext x tr nowMs uri host key)
      (refresh : (jwksStage ext x tr nowMs uri host key).refreshes l = some unknownKid)
      (wait : Waited key x.cache.refreshWaitTimeoutMs
        ((jwksStage ext x tr nowMs uri host key).begun l unknownKid .inProgress ticket) tr'
        (true, elapsedMs))
      (usable : l'.usable = true) (select : selectKey ext x.call l'.payload = .ok selected) :
      Accepted ext x ((jwksStage ext x tr nowMs uri host key).relookedUp tr' elapsedMs l') selected
  | unowned {tr nowMs uri host key} {l : IoLookup} {r : CacheRefreshResult} {ticket : CacheRefresh}
      {selected : SelectedJwk} (o : JwksReady ext x tr nowMs uri host key) (usable : l.usable = true)
      (stale : l.freshness ≠ .fresh) (select : selectKey ext x.call l.payload = .ok selected)
      (other : r ≠ .started) :
      Accepted ext x ((jwksStage ext x tr nowMs uri host key).begun l false r ticket) selected
  | refused {tr nowMs uri host key} {l : IoLookup} {ticket : CacheRefresh} {e : HttpError}
      {accepted : Bool} {selected : SelectedJwk} (o : JwksReady ext x tr nowMs uri host key)
      (usable : l.usable = true) (stale : l.freshness ≠ .fresh)
      (select : selectKey ext x.call l.payload = .ok selected)
      (refused : requestError ext uri (jwksHttpPolicy x.call host) = some e) :
      Accepted ext x (⟨.complete ticket (failedCompletion nowMs), accepted⟩ ::
        (jwksStage ext x tr nowMs uri host key).begun l false .started ticket) selected
  | unreachable {tr nowMs uri host key} {l : IoLookup} {ticket : CacheRefresh} {e : HttpError}
      {accepted : Bool} {selected : SelectedJwk} (o : JwksReady ext x tr nowMs uri host key)
      (usable : l.usable = true) (stale : l.freshness ≠ .fresh)
      (select : selectKey ext x.call l.payload = .ok selected) :
      Accepted ext x (⟨.complete ticket (failedCompletion nowMs), accepted⟩ ::
        (jwksStage ext x tr nowMs uri host key).transferred l false ticket (.error e)) selected
  | fetched {tr nowMs uri host key} {l : IoLookup} {unknownKid : Bool} {ticket : CacheRefresh}
      {response : HttpResponse} {f : HttpFreshness} {selected : SelectedJwk}
      (o : JwksReady ext x tr nowMs uri host key)
      (refresh : (jwksStage ext x tr nowMs uri host key).refreshes l = some unknownKid)
      (fresh : response.freshness ext x.call.responseTimeSeconds x.cache.jwksFreshness = .ok f)
      (select : selectKey ext x.call response.body = .ok selected) :
      Accepted ext x
        (⟨.complete ticket ((jwksStage ext x tr nowMs uri host key).published f response), true⟩ ::
          (jwksStage ext x tr nowMs uri host key).transferred l unknownKid ticket (.ok response))
        selected

/-- The ways in which a call comes to refuse a metadata document. -/
inductive MetadataRejected (ext : Externals) (x : CachedCall) : CallTrace → Prop
  | cached {key body : Bytes} {tr : CallTrace} {nowMs : Int} {e : MetadataError}
      (keyed : cacheKeyBuild x.metadataKeyPolicy = .ok key)
      (read : MetadataRead ext x key tr nowMs body)
      (parse : metadataParse ext body x.call.expectedIssuer x.call.policy.metadata = .error e) :
      MetadataRejected ext x tr
  | fetched {key : Bytes} {l : IoLookup} {ticket : CacheRefresh} {response : HttpResponse}
      {accepted : Bool} (missed : l.hit = false) :
      MetadataRejected ext x (⟨.complete ticket (failedCompletion x.call.nowMs), accepted⟩ ::
        (metadataStage ext x key).transferred l false ticket (.ok response))

/-- What holds when a call returns: it owns no refresh, success comes with a
key, and a refused metadata document was read first. -/
structure Finished (ext : Externals) (x : CachedCall) (tr : CallTrace) (r : FetchReturn) : Prop where
  released : owned tr = none
  accepted : r.1 = .ok → ∃ selected, r.2.selected = some selected ∧ Accepted ext x tr selected
  rejected : r.1 = .metadataInvalid → MetadataRejected ext x tr

section Owned

variable {s : Stage} {tr : CallTrace} {l : IoLookup} {unknownKid : Bool} {ticket : CacheRefresh}

@[simp] theorem owned_lookedUp : owned (s.lookedUp l) = owned s.base := rfl

@[simp] theorem owned_begun_started :
    owned (s.begun l unknownKid .started ticket) = some (s.key, ticket) := rfl

theorem owned_begun {r : CacheRefreshResult} (h : r ≠ .started) :
    owned (s.begun l unknownKid r ticket) = owned s.base := by
  cases r <;> first | rfl | exact absurd rfl h

@[simp] theorem owned_transferred {answer : Except HttpError HttpResponse} :
    owned (s.transferred l unknownKid ticket answer) = some (s.key, ticket) := rfl

@[simp] theorem owned_relookedUp {elapsedMs : Int} : owned (s.relookedUp tr elapsedMs l) = owned tr :=
  rfl

@[simp] theorem owned_complete {c : Completion} {accepted : Bool} :
    owned (⟨.complete ticket c, accepted⟩ :: tr) = none := rfl

theorem Waited.owned {key : Bytes} {timeoutMs : Int} {tr' : CallTrace} {w : Bool × Int}
    (h : Waited key timeoutMs tr tr' w) : owned tr' = owned tr := by
  cases h <;> rfl

theorem Waited.suffix {key : Bytes} {timeoutMs : Int} {tr' : CallTrace} {w : Bool × Int}
    (h : Waited key timeoutMs tr tr' w) : tr <:+ tr' := by
  cases h with
  | refused => exact List.suffix_rfl
  | idle => exact List.suffix_cons _ _
  | slept since refreshing _ => exact List.suffix_append [_, _, _, _] tr

theorem MetadataRead.owned {ext : Externals} {x : CachedCall} {key : Bytes} {nowMs : Int}
    {body : Bytes} (h : MetadataRead ext x key tr nowMs body) : owned tr = none := by
  cases h with
  | hit l _ => rfl
  | waited l ticket tr' elapsedMs l' _ wait _ _ =>
    rw [owned_relookedUp, wait.owned]
    exact owned_begun (by decide)
  | fetched l ticket response f _ _ => rfl

theorem StageOpen.owned {ext : Externals} {x : CachedCall} (o : StageOpen ext x s) :
    owned s.base = none := by
  cases o with
  | metadata _ => rfl
  | jwks h =>
    obtain ⟨_, _, _, hr, _⟩ := h.metadata
    exact hr.owned

end Owned

section Rules

variable {ext : Externals} {α : Type} {G : CallTrace → CallOp → Prop} {R : CallTrace → α → Prop}
  {tr : CallTrace}

theorem sat_getJson {url : CString} {policy : HttpPolicy}
    {f : Except HttpError HttpResponse → CallProg α}
    (refused : ∀ e, requestError ext url policy = some e → Sat G R tr (f (.error e)))
    (sent : requestError ext url policy = none → G tr (.transfer url policy) ∧
      ∀ answer, Sat G R (⟨.transfer url policy, answer⟩ :: tr) (f answer)) :
    Sat G R tr ((getJson ext url policy).bind f) := by
  unfold getJson
  cases h : requestError ext url policy with
  | some e => exact refused e h
  | none => exact sent h

theorem sat_waitRefresh {key : Bytes} {timeoutMs : Int} {f : Bool × Int → CallProg α}
    (during : ∀ tr' op, Waiting key timeoutMs tr tr' op → G tr' op)
    (after : ∀ tr' w, Waited key timeoutMs tr tr' w → Sat G R tr' (f w)) :
    Sat G R tr ((waitRefresh key timeoutMs).bind f) := by
  unfold waitRefresh
  split
  · exact after _ _ .refused
  · next hv =>
    have hpos : 0 < timeoutMs := by
      simp only [Bool.or_eq_true, Bool.not_eq_true', decide_eq_true_eq, not_or] at hv
      omega
    refine ⟨during _ _ .check, fun refreshing => ?_⟩
    cases refreshing with
    | false => exact after _ _ .idle
    | true =>
      refine ⟨during _ _ .fallAsleep, fun since => ⟨during _ _ (.wakeUp since), fun _ =>
        ⟨during _ _ (.recheck since), fun refreshing => ?_⟩⟩⟩
      exact after _ _ (.slept since refreshing hpos)

theorem sat_completeResponse {ticket : CacheRefresh} {nowMs responseTimeSeconds graceMs : Int}
    {policy : HttpFreshnessPolicy} {response : HttpResponse} {f : Bool → CallProg α}
    (malformed : ∀ e, response.freshness ext responseTimeSeconds policy = .error e →
      G tr (.complete ticket (failedCompletion nowMs)) ∧
        ∀ accepted : Bool,
          Sat G R (⟨.complete ticket (failedCompletion nowMs), accepted⟩ :: tr) (f false))
    (calculated : ∀ fresh, response.freshness ext responseTimeSeconds policy = .ok fresh →
      G tr (.complete ticket (publishCompletion nowMs fresh graceMs response.body)) ∧
        ∀ accepted : Bool,
          Sat G R (⟨.complete ticket (publishCompletion nowMs fresh graceMs response.body),
            accepted⟩ :: tr) (f accepted)) :
    Sat G R tr ((completeResponse ext ticket nowMs responseTimeSeconds policy graceMs
      response).bind f) := by
  unfold completeResponse
  cases h : response.freshness ext responseTimeSeconds policy with
  | error e => exact malformed e h
  | ok fresh => exact calculated fresh h

end Rules

theorem finished_of_error {ext : Externals} {x : CachedCall} {tr : CallTrace} {r : FetchReturn}
    (howned : owned tr = none) (h : r.1 ≠ .ok ∧ r.1 ≠ .metadataInvalid) : Finished ext x tr r :=
  ⟨howned, fun hok => absurd hok h.1, fun hinvalid => absurd hinvalid h.2⟩

theorem finished_of_accepted {ext : Externals} {x : CachedCall} {tr : CallTrace}
    {result : IssuerKeyResult} {selected : SelectedJwk} (howned : owned tr = none)
    (hs : result.selected = some selected) (ha : Accepted ext x tr selected) :
    Finished ext x tr (.ok, result) :=
  ⟨howned, fun _ => ⟨selected, hs, ha⟩, by simp⟩

theorem isOk_eq_true_iff {ε α : Type} {e : Except ε α} : e.isOk = true ↔ ∃ a, e = .ok a := by
  cases e <;> simp [Except.isOk, Except.toBool]

section Jwks

variable {ext : Externals} {x : CachedCall} {tr : CallTrace} {nowMs : Int} {uri host : CString}
  {key : Bytes} {l : IoLookup} {unknownKid : Bool}

/-- A key selected from a stale document that the call may fall back on. -/
structure Fallback (ext : Externals) (x : CachedCall) (l : IoLookup) (unknownKid : Bool)
    (result : IssuerKeyResult) : Prop where
  usable : l.usable = true
  stale : l.freshness ≠ .fresh
  known : unknownKid = false
  selected : ∃ selected, selectKey ext x.call l.payload = .ok selected ∧
    result.selected = some selected

theorem fetchJwks_sat (o : JwksReady ext x tr nowMs uri host key)
    (refresh : (jwksStage ext x tr nowMs uri host key).refreshes l = some unknownKid)
    {fromStale : Bool} {result : IssuerKeyResult}
    (fallback : fromStale = true → Fallback ext x l unknownKid result) (ticket : CacheRefresh) :
    Sat (Issues ext x) (Finished ext x)
      ((jwksStage ext x tr nowMs uri host key).begun l unknownKid .started ticket)
      (fetchJwks ext x ticket nowMs uri host fromStale result) := by
  have open' := StageOpen.jwks o
  unfold fetchJwks
  refine sat_getJson (fun e he => ⟨.refused open' refresh he, fun accepted => ?_⟩)
    fun he => ⟨.transfer open' refresh he, fun answer => ?_⟩
  · cases fromStale with
    | false => exact finished_of_error rfl (by simp)
    | true =>
      obtain ⟨hu, hs, rfl, selected, hsel, hres⟩ := fallback rfl
      exact finished_of_accepted rfl hres (.refused o hu hs hsel he)
  · cases answer with
    | error e =>
      refine ⟨.failed open' refresh (by simp), fun accepted => ?_⟩
      cases fromStale with
      | false => exact finished_of_error rfl (by simp)
      | true =>
        obtain ⟨hu, hs, rfl, selected, hsel, hres⟩ := fallback rfl
        exact finished_of_accepted rfl hres (.unreachable o hu hs hsel)
    | ok response =>
      cases hv : selectKey ext x.call response.body with
      | error e =>
        have hrej : (jwksStage ext x tr nowMs uri host key).accepts response.body = false := by
          simp [jwksStage, hv, Except.isOk, Except.toBool]
        simp only [hv, Except.isOk, Except.toBool, Bool.not_false, if_true]
        refine ⟨.failed open' refresh fun r hr => ?_, fun accepted => finished_of_error rfl (by simp)⟩
        obtain rfl : response = r := Except.ok.inj hr
        exact Or.inl hrej
      | ok selected =>
        have hacc : (jwksStage ext x tr nowMs uri host key).accepts response.body = true := by
          simp [jwksStage, hv, Except.isOk, Except.toBool]
        simp only [hv, Except.isOk, Except.toBool, Bool.not_true, Bool.false_eq_true, if_false]
        refine sat_completeResponse (fun e he => ⟨.failed open' refresh fun r hr => ?_,
          fun accepted => finished_of_error rfl (by simp)⟩)
          fun f hf => ⟨.publish open' refresh hacc hf, fun accepted => ?_⟩
        · obtain rfl : response = r := Except.ok.inj hr
          exact Or.inr ⟨e, he⟩
        · cases accepted with
          | false => exact finished_of_error rfl (by simp)
          | true => exact finished_of_accepted rfl rfl (.fetched o refresh hf hv)

theorem jwksAfterWait_sat (o : JwksReady ext x tr nowMs uri host key)
    (refresh : (jwksStage ext x tr nowMs uri host key).refreshes l = some unknownKid)
    {ticket : CacheRefresh} {tr' : CallTrace} {elapsedMs : Int} (result : IssuerKeyResult)
    (wait : Waited key x.cache.refreshWaitTimeoutMs
      ((jwksStage ext x tr nowMs uri host key).begun l unknownKid .inProgress ticket) tr'
      (true, elapsedMs)) :
    Sat (Issues ext x) (Finished ext x) tr' (jwksAfterWait ext x key nowMs elapsedMs result) := by
  have howned : owned tr' = none := by
    rw [wait.owned, owned_begun (by decide), (StageOpen.jwks o).owned]
  unfold jwksAfterWait
  split
  · exact finished_of_error howned (by simp)
  · next hb =>
    refine ⟨.relookup (.jwks o) refresh wait (Int.not_lt.mp hb), fun l' => ?_⟩
    cases hu : IoLookup.usable l' with
    | false =>
      simp only [hu, Bool.false_eq_true, if_false]
      exact finished_of_error howned (by simp)
    | true =>
      simp only [hu, if_true]
      cases hv : selectKey ext x.call (IoLookup.payload l') with
      | error e => exact finished_of_error howned (by simp [Except.isOk, Except.toBool])
      | ok selected =>
        exact finished_of_accepted howned rfl (.waited o refresh wait hu hv)

theorem refreshJwks_sat (o : JwksReady ext x tr nowMs uri host key) {fromStale : Bool}
    {result : IssuerKeyResult}
    (refresh : (jwksStage ext x tr nowMs uri host key).refreshes l =
      some (result.jwksError == .keyNotFound))
    (fallback : fromStale = true → Fallback ext x l (result.jwksError == .keyNotFound) result) :
    Sat (Issues ext x) (Finished ext x) ((jwksStage ext x tr nowMs uri host key).lookedUp l)
      (refreshJwks ext x key nowMs uri host fromStale result) := by
  unfold refreshJwks
  refine ⟨.begin (.jwks o) refresh, fun answer => ?_⟩
  obtain ⟨r, ticket⟩ := answer
  by_cases hr : r = .started
  · subst hr
    exact fetchJwks_sat o refresh fallback ticket
  · have hbegun : owned ((jwksStage ext x tr nowMs uri host key).begun l
        (result.jwksError == .keyNotFound) r ticket) = none :=
      (owned_begun hr).trans (StageOpen.jwks o).owned
    simp only [beq_iff_eq, hr, if_false]
    split
    · next hw =>
      simp only [Bool.and_eq_true, Bool.not_eq_true', beq_iff_eq, decide_eq_true_eq] at hw
      obtain ⟨⟨hfs, rfl⟩, _⟩ := hw
      refine sat_waitRefresh (fun tr' op hop => .wait (.jwks o) refresh hop) fun tr' w hwait => ?_
      obtain ⟨waited, elapsedMs⟩ := w
      cases waited with
      | true => exact jwksAfterWait_sat o refresh result hwait
      | false =>
        simp only [Bool.false_eq_true, if_false, hfs]
        exact finished_of_error (hwait.owned.trans hbegun) (by simp)
    · cases hs : fromStale with
      | false => exact finished_of_error hbegun (by simp)
      | true =>
        obtain ⟨hu, hst, hk, selected, hsel, hres⟩ := fallback hs
        rw [hk] at hbegun ⊢
        exact finished_of_accepted hbegun hres (.unowned o hu hst hsel hr)

theorem obtainJwks_sat {metadataKey body : Bytes} (hkey : cacheKeyBuild x.metadataKeyPolicy = .ok metadataKey)
    (hread : MetadataRead ext x metadataKey tr nowMs body)
    (hparse : metadataParse ext body x.call.expectedIssuer x.call.policy.metadata = .ok uri)
    (hhost : httpUrlHost ext x.call.metadataUrl x.call.policy.metadataHttp.maxUrlSize
      x.call.policy.metadataHttp.allowInsecureHttp = .ok host) :
    Sat (Issues ext x) (Finished ext x) tr (obtainJwks ext x nowMs uri host) := by
  unfold obtainJwks
  cases hk : cacheKeyBuild (x.jwksKeyPolicy uri) with
  | error e => exact finished_of_error hread.owned (by simp)
  | ok key =>
    have o : JwksReady ext x tr nowMs uri host key := ⟨⟨metadataKey, body, hkey, hread, hparse⟩, hhost, hk⟩
    refine ⟨.lookup (.jwks o), fun l => ?_⟩
    change IoLookup at l
    cases hu : l.usable with
    | false =>
      simp only [hu, Bool.false_eq_true, if_false]
      exact refreshJwks_sat o (by simp [jwksStage, hu, IssuerKeyResult.zero]) (by simp)
    | true =>
      simp only [hu, if_true]
      cases hv : selectKey ext x.call l.payload with
      | ok selected =>
        simp only [Except.isOk, Except.toBool, Bool.true_and, Bool.not_true, Bool.false_and,
          Bool.false_eq_true, if_false]
        by_cases hf : l.freshness = .fresh
        · simp only [hf, beq_self_eq_true, if_true]
          exact finished_of_accepted hread.owned rfl (.fresh o hu hf hv)
        · simp only [beq_iff_eq, hf, if_false]
          exact refreshJwks_sat o (by simp [jwksStage, hu, hv, hf, IssuerKeyResult.afterSelect])
            fun _ => ⟨hu, hf, rfl, selected, hv, rfl⟩
      | error e =>
        simp only [Except.isOk, Except.toBool, Bool.false_and, Bool.not_false, Bool.true_and,
          Bool.false_eq_true, if_false]
        by_cases he : e = .keyNotFound
        · subst he
          simp only [IssuerKeyResult.afterSelect, bne_self_eq_false, Bool.false_eq_true, if_false]
          exact refreshJwks_sat o (by simp [jwksStage, hu, hv]) (by simp)
        · have hne : ((IssuerKeyResult.zero.afterSelect (.error e)).jwksError != .keyNotFound) = true := by
            simp [IssuerKeyResult.afterSelect, he]
          rw [if_pos hne]
          exact finished_of_error hread.owned (by simp)

end Jwks

section Metadata

variable {ext : Externals} {x : CachedCall} {key : Bytes} (hkey : cacheKeyBuild x.metadataKeyPolicy = .ok key)
include hkey

theorem afterMetadata_sat {tr : CallTrace} {nowMs : Int} {body : Bytes} {uri : CString}
    (hread : MetadataRead ext x key tr nowMs body)
    (hparse : metadataParse ext body x.call.expectedIssuer x.call.policy.metadata = .ok uri) :
    Sat (Issues ext x) (Finished ext x) tr (afterMetadata ext x nowMs uri) := by
  unfold afterMetadata
  split
  · exact finished_of_error hread.owned (by simp)
  · next host hhost => exact obtainJwks_sat hkey hread hparse hhost

theorem useCachedMetadata_sat {tr : CallTrace} {nowMs : Int} {body : Bytes}
    (hread : MetadataRead ext x key tr nowMs body) :
    Sat (Issues ext x) (Finished ext x) tr (useCachedMetadata ext x nowMs body) := by
  unfold useCachedMetadata
  split
  · next e hparse => exact ⟨hread.owned, by simp, fun _ => .cached hkey hread hparse⟩
  · next uri hparse => exact afterMetadata_sat hkey hread hparse

theorem fetchMetadata_sat {l : IoLookup} (hl : l.hit = false) (ticket : CacheRefresh) :
    Sat (Issues ext x) (Finished ext x) ((metadataStage ext x key).begun l false .started ticket)
      (fetchMetadata ext x ticket) := by
  have open' : StageOpen ext x (metadataStage ext x key) := .metadata hkey
  have refresh : (metadataStage ext x key).refreshes l = some false := by simp [metadataStage, hl]
  unfold fetchMetadata
  refine sat_getJson (fun e he => ⟨.refused open' refresh he, fun accepted =>
    finished_of_error rfl (by simp)⟩) fun he => ⟨.transfer open' refresh he, fun answer => ?_⟩
  cases answer with
  | error e =>
    exact ⟨.failed open' refresh (by simp), fun accepted => finished_of_error rfl (by simp)⟩
  | ok response =>
    show Sat _ _ _ (useFetchedMetadata ext x ticket response)
    unfold useFetchedMetadata
    cases hparse : metadataParse ext response.body x.call.expectedIssuer x.call.policy.metadata with
    | error e =>
      refine ⟨.failed open' refresh fun r hr => Or.inl ?_, fun accepted =>
        ⟨rfl, by simp, fun _ => .fetched hl⟩⟩
      obtain rfl : response = r := Except.ok.inj hr
      simp [metadataStage, hparse, Except.isOk, Except.toBool]
    | ok uri =>
      have hacc : (metadataStage ext x key).accepts response.body = true := by
        simp [metadataStage, hparse, Except.isOk, Except.toBool]
      refine sat_completeResponse (fun e he => ⟨.failed open' refresh fun r hr => ?_,
        fun accepted => finished_of_error rfl (by simp)⟩)
        fun f hf => ⟨.publish open' refresh hacc hf, fun accepted => ?_⟩
      · obtain rfl : response = r := Except.ok.inj hr
        exact Or.inr ⟨e, he⟩
      · cases accepted with
        | false => exact finished_of_error rfl (by simp)
        | true => exact afterMetadata_sat hkey (.fetched l ticket response f hl hf) hparse

theorem metadataAfterWait_sat {l : IoLookup} (hl : l.hit = false) {ticket : CacheRefresh}
    {tr : CallTrace} {elapsedMs : Int}
    (wait : Waited key x.cache.refreshWaitTimeoutMs
      ((metadataStage ext x key).begun l false .inProgress ticket) tr (true, elapsedMs)) :
    Sat (Issues ext x) (Finished ext x) tr (metadataAfterWait ext x key elapsedMs) := by
  have refresh : (metadataStage ext x key).refreshes l = some false := by simp [metadataStage, hl]
  have howned : owned tr = none := wait.owned
  unfold metadataAfterWait
  split
  · exact finished_of_error howned (by simp)
  · next hb =>
    refine ⟨.relookup (.metadata hkey) refresh wait (Int.not_lt.mp hb), fun l' => ?_⟩
    change IoLookup at l'
    cases hh : l'.hit with
    | false =>
      simp only [hh, Bool.false_eq_true, if_false]
      exact finished_of_error howned (by simp)
    | true =>
      simp only [hh, if_true]
      exact useCachedMetadata_sat hkey
        (.waited l ticket tr elapsedMs l' hl wait (Int.not_lt.mp hb) hh)

theorem refreshMetadata_sat {l : IoLookup} (hl : l.hit = false) :
    Sat (Issues ext x) (Finished ext x) ((metadataStage ext x key).lookedUp l)
      (refreshMetadata ext x key) := by
  have refresh : (metadataStage ext x key).refreshes l = some false := by simp [metadataStage, hl]
  unfold refreshMetadata
  refine ⟨.begin (.metadata hkey) refresh, fun answer => ?_⟩
  obtain ⟨r, ticket⟩ := answer
  by_cases hr : r = .started
  · subst hr
    exact fetchMetadata_sat hkey hl ticket
  · have hbegun : owned ((metadataStage ext x key).begun l false r ticket) = none := owned_begun hr
    simp only [beq_iff_eq, hr, if_false]
    split
    · next hw =>
      simp only [Bool.and_eq_true, beq_iff_eq, decide_eq_true_eq] at hw
      obtain ⟨rfl, _⟩ := hw
      refine sat_waitRefresh (fun tr' op hop => .wait (.metadata hkey) refresh hop) fun tr' w hwait => ?_
      obtain ⟨waited, elapsedMs⟩ := w
      cases waited with
      | true => exact metadataAfterWait_sat hkey hl hwait
      | false => exact finished_of_error (hwait.owned.trans hbegun) (by simp)
    · exact finished_of_error hbegun (by simp)

end Metadata

/-- A cached retrieval performs exactly the described operations. -/
theorem fetchThroughCache_sat (ext : Externals) (x : CachedCall) :
    Sat (Issues ext x) (Finished ext x) [] (fetchThroughCache ext x) := by
  unfold fetchThroughCache
  split
  · exact finished_of_error rfl (by simp)
  · cases hkey : cacheKeyBuild x.metadataKeyPolicy with
    | error e => exact finished_of_error rfl (by simp)
    | ok key =>
      refine ⟨.lookup (.metadata hkey), fun l => ?_⟩
      change IoLookup at l
      cases hl : l.hit with
      | false =>
        simp only [hl, Bool.false_eq_true, if_false]
        exact refreshMetadata_sat hkey hl
      | true =>
        simp only [hl, if_true]
        exact useCachedMetadata_sat hkey (.hit l hl)

/-- The cached call that arguments which pass all checks stand for. -/
def FetchArgs.cached (args : FetchArgs) : Option CachedCall :=
  match args.call, args.cachePolicy with
  | some call, some cache => if cachePolicyValid cache then some ⟨call, cache⟩ else none
  | _, _ => none

theorem FetchArgs.cached_call {args : FetchArgs} {x : CachedCall} (h : args.cached = some x) :
    args.call = some x.call := by
  unfold FetchArgs.cached at h
  grind

theorem FetchArgs.cached_bounds {args : FetchArgs} {x : CachedCall} (h : args.cached = some x) :
    PolicyBounds x.cache := by
  have hvalid : cachePolicyValid x.cache = true := by
    unfold FetchArgs.cached at h
    grind
  exact cachePolicyValid_bounds hvalid

theorem issuerKeyFetchCached_of_cached {ext : Externals} {args : FetchArgs} {x : CachedCall}
    (h : args.cached = some x) : issuerKeyFetchCached ext args = fetchThroughCache ext x := by
  unfold FetchArgs.cached at h
  unfold issuerKeyFetchCached
  grind

theorem FetchArgs.call_policy {args : FetchArgs} {call : FetchCall} {policy : IssuerKeyPolicy}
    (h : args.call = some call) (hp : args.policy = some policy) : call.policy = policy := by
  unfold FetchArgs.call at h
  grind

theorem FetchArgs.call_request {args : FetchArgs} {call : FetchCall} (h : args.call = some call) :
    args.expectedIssuer = some call.expectedIssuer ∧ args.keyId = some call.keyId ∧
      args.tokenAlgorithm = call.tokenAlgorithm := by
  unfold FetchArgs.call at h
  grind

theorem FetchArgs.cached_nowMs {args : FetchArgs} {x : CachedCall} (h : args.cached = some x) :
    x.call.nowMs = args.nowMs := by
  unfold FetchArgs.cached FetchArgs.call at h
  grind

inductive UncachedIssues (ext : Externals) (call : FetchCall) : CallTrace → CallOp → Prop
  | metadata (allowed : requestError ext call.metadataUrl call.policy.metadataHttp = none) :
      UncachedIssues ext call [] (.transfer call.metadataUrl call.policy.metadataHttp)
  | jwks {metadata : HttpResponse} {uri host : CString}
      (parse : metadataParse ext metadata.body call.expectedIssuer call.policy.metadata = .ok uri)
      (discovery : httpUrlHost ext call.metadataUrl call.policy.metadataHttp.maxUrlSize
        call.policy.metadataHttp.allowInsecureHttp = .ok host)
      (allowed : requestError ext uri (jwksHttpPolicy call host) = none) :
      UncachedIssues ext call [⟨.transfer call.metadataUrl call.policy.metadataHttp, .ok metadata⟩]
        (.transfer uri (jwksHttpPolicy call host))

inductive UncachedAccepted (ext : Externals) (call : FetchCall) : CallTrace → SelectedJwk → Prop
  | fetched {metadata response : HttpResponse} {uri host : CString} {selected : SelectedJwk}
      (parse : metadataParse ext metadata.body call.expectedIssuer call.policy.metadata = .ok uri)
      (discovery : httpUrlHost ext call.metadataUrl call.policy.metadataHttp.maxUrlSize
        call.policy.metadataHttp.allowInsecureHttp = .ok host)
      (allowed : requestError ext uri (jwksHttpPolicy call host) = none)
      (select : selectKey ext call response.body = .ok selected) :
      UncachedAccepted ext call [⟨.transfer uri (jwksHttpPolicy call host), .ok response⟩,
        ⟨.transfer call.metadataUrl call.policy.metadataHttp, .ok metadata⟩] selected

/-- What `pg_oauth_issuer_key_fetch_cached` performs, cached or not. -/
def CallIssues (ext : Externals) (args : FetchArgs) (tr : CallTrace) (op : CallOp) : Prop :=
  (∃ x, args.cached = some x ∧ Issues ext x tr op) ∨
    ∃ call, args.call = some call ∧ args.cachePolicy = none ∧ UncachedIssues ext call tr op

/-- How a call came by the key it selected. -/
def CallAccepted (ext : Externals) (args : FetchArgs) (tr : CallTrace) (selected : SelectedJwk) :
    Prop :=
  (∃ x, args.cached = some x ∧ Accepted ext x tr selected) ∨
    ∃ call, args.call = some call ∧ args.cachePolicy = none ∧ UncachedAccepted ext call tr selected

structure CallFinished (ext : Externals) (args : FetchArgs) (tr : CallTrace) (r : FetchReturn) :
    Prop where
  released : owned tr = none
  accepted : r.1 = .ok → ∃ selected, r.2.selected = some selected ∧ CallAccepted ext args tr selected
  rejected : r.1 = .metadataInvalid → ∀ x, args.cached = some x → MetadataRejected ext x tr

theorem fetchUncached_sat (ext : Externals) (call : FetchCall) :
    Sat (UncachedIssues ext call)
      (fun tr r => owned tr = none ∧ (r.1 = .ok → ∃ selected, r.2.selected = some selected ∧
        UncachedAccepted ext call tr selected)) [] (fetchUncached ext call) := by
  unfold fetchUncached
  refine sat_getJson (fun e _ => ⟨rfl, by simp⟩) fun he => ⟨.metadata he, fun answer => ?_⟩
  cases answer with
  | error e => exact ⟨rfl, by simp⟩
  | ok metadata =>
    cases hparse : metadataParse ext metadata.body call.expectedIssuer call.policy.metadata with
    | error e => simp only [hparse]; exact ⟨rfl, by simp⟩
    | ok uri =>
      simp only [hparse]
      cases hhost : httpUrlHost ext call.metadataUrl call.policy.metadataHttp.maxUrlSize
          call.policy.metadataHttp.allowInsecureHttp with
      | error e => exact ⟨rfl, by simp⟩
      | ok host =>
        refine sat_getJson (fun e _ => ⟨rfl, by simp⟩) fun hu => ⟨.jwks hparse hhost hu, fun answer => ?_⟩
        cases answer with
        | error e => exact ⟨rfl, by simp⟩
        | ok response =>
          cases hv : selectKey ext call response.body with
          | error e => simp only [hv]; exact ⟨rfl, by simp [Except.isOk, Except.toBool]⟩
          | ok selected =>
            simp only [hv]
            exact ⟨rfl, fun _ => ⟨selected, rfl, .fetched hparse hhost hu hv⟩⟩

theorem issuerKeyFetchCached_sat (ext : Externals) (args : FetchArgs) :
    Sat (CallIssues ext args) (CallFinished ext args) [] (issuerKeyFetchCached ext args) := by
  unfold issuerKeyFetchCached
  cases hcall : args.call with
  | none => exact ⟨rfl, by simp, by simp⟩
  | some call =>
    cases hpolicy : args.cachePolicy with
    | none =>
      refine (fetchUncached_sat ext call).mono (fun tr op hop => Or.inr ⟨call, hcall, hpolicy, hop⟩)
        fun tr r hr => ⟨hr.1, fun hok => ?_, by simp [FetchArgs.cached, hpolicy]⟩
      obtain ⟨selected, hs, ha⟩ := hr.2 hok
      exact ⟨selected, hs, Or.inr ⟨call, hcall, hpolicy, ha⟩⟩
    | some cache =>
      cases hv : cachePolicyValid cache with
      | false => simp only [hv, Bool.not_false, if_true]; exact ⟨rfl, by simp, by simp⟩
      | true =>
        have hx : args.cached = some ⟨call, cache⟩ := by simp [FetchArgs.cached, hcall, hpolicy, hv]
        simp only [hv, Bool.not_true, Bool.false_eq_true, if_false]
        refine (fetchThroughCache_sat ext ⟨call, cache⟩).mono (fun tr op hop => Or.inl ⟨_, hx, hop⟩)
          fun tr r hr => ⟨hr.released, fun hok => ?_, fun hinvalid x hx' => ?_⟩
        · obtain ⟨selected, hs, ha⟩ := hr.accepted hok
          exact ⟨selected, hs, Or.inl ⟨_, hx, ha⟩⟩
        · obtain rfl := Option.some.inj (hx.symm.trans hx')
          exact hr.rejected hinvalid

theorem CallIssues.begin_owned {ext : Externals} {args : FetchArgs} {tr : CallTrace} {key : Bytes}
    {nowMs cooldownMs : Int} {unknownKid : Bool}
    (h : CallIssues ext args tr (.begin key nowMs unknownKid cooldownMs)) : owned tr = none := by
  rcases h with ⟨x, _, h⟩ | ⟨call, _, _, h⟩
  · cases h with
    | begin o _ => exact o.owned
    | wait _ _ w => cases w
  · cases h

theorem CallIssues.complete_owned {ext : Externals} {args : FetchArgs} {tr : CallTrace}
    {ticket : CacheRefresh} {c : Completion} (h : CallIssues ext args tr (.complete ticket c)) :
    ∃ key, owned tr = some (key, ticket) := by
  rcases h with ⟨x, _, h⟩ | ⟨call, _, _, h⟩
  · cases h with
    | wait _ _ w => cases w
    | refused => exact ⟨_, rfl⟩
    | failed => exact ⟨_, rfl⟩
    | publish => exact ⟨_, rfl⟩
  · cases h

end OAuthValidator
