import OAuthValidator.Replay

/-! Single flight. Whatever the interleaving and the outcomes, no two calls
refresh one key at a time, every refresh a call begins it also completes, and a
cache that no call is using has no refresh left over. -/

namespace OAuthValidator

open ExpiringMap Interleaving Program

/-- What a call does with tickets: it obtains one, or passes one back. -/
inductive RefreshEvent
  | started (ticket : CacheRefresh)
  | completed (ticket : CacheRefresh)

/-- The ticket events of a trace, newest first. -/
def refreshEvents : CallTrace → List RefreshEvent
  | [] => []
  | ⟨.begin _ _ _ _, answer⟩ :: tr =>
    match (answer : CacheRefreshResult × CacheRefresh) with
    | (.started, ticket) => .started ticket :: refreshEvents tr
    | _ => refreshEvents tr
  | ⟨.complete ticket _, _⟩ :: tr => .completed ticket :: refreshEvents tr
  | _ :: tr => refreshEvents tr

/-- Each ticket obtained is passed back once, before the next is obtained. -/
inductive Paired : List RefreshEvent → Prop
  | nil : Paired []
  | cons (ticket : CacheRefresh) {l : List RefreshEvent} (h : Paired l) :
      Paired (.completed ticket :: .started ticket :: l)

/-- Paired but for the ticket that is still held. -/
def PairedUpTo (held : Option (Bytes × CacheRefresh)) (l : List RefreshEvent) : Prop :=
  match held with
  | none => Paired l
  | some (_, ticket) => ∃ l', l = .started ticket :: l' ∧ Paired l'

theorem pairedUpTo_cons {ext : Externals} {args : FetchArgs} {tr : CallTrace} {op : CallOp}
    (answer : op.Ans) (hop : CallIssues ext args tr op)
    (h : PairedUpTo (owned tr) (refreshEvents tr)) :
    PairedUpTo (owned (⟨op, answer⟩ :: tr)) (refreshEvents (⟨op, answer⟩ :: tr)) := by
  cases op with
  | begin key nowMs unknownKid cooldownMs =>
    obtain ⟨r, ticket⟩ := answer
    have hnone := hop.begin_owned
    cases r with
    | started =>
      rw [hnone] at h
      exact ⟨_, rfl, h⟩
    | _ => exact h
  | complete ticket c =>
    obtain ⟨key, hk⟩ := hop.complete_owned
    rw [hk] at h
    obtain ⟨l, hl, hp⟩ := h
    show Paired (.completed ticket :: refreshEvents tr)
    rw [hl]
    exact .cons ticket hp
  | _ => exact h

section Runs

variable {ext : Externals} {admits : Shared → FetchArgs → Prop} {h : CallHistory} {c : CallConfig}

theorem CallRun.pairedUpTo (hr : CallRun ext admits h c) {i : Nat}
    {call : Call CallOp CallOp.Ans FetchArgs FetchReturn} (hc : c.calls i = some call) :
    PairedUpTo (owned call.trace) (refreshEvents call.trace) :=
  Run.trace_invariant (P := fun tr => PairedUpTo (owned tr) (refreshEvents tr))
    (issuerKeyFetchCached_sat ext) .nil
    (fun _ _ _ answer hop hp => pairedUpTo_cons answer hop hp) hr hc

/-- A call that has returned holds no refresh. -/
theorem CallRun.owned_of_returned (hr : CallRun ext admits h c) {i : Nat}
    {call : Call CallOp CallOp.Ans FetchArgs FetchReturn} (hc : c.calls i = some call)
    {r : FetchReturn} (hret : call.rest = .ret r) : owned call.trace = none := by
  have hsat := Run.sat (issuerKeyFetchCached_sat ext) hr hc
  rw [hret] at hsat
  exact hsat.released

/-- The cache key under which a call requests a URL. -/
def RequestKey (x : CachedCall) (url : CString) (key : Bytes) : Prop :=
  (url = x.call.metadataUrl ∧ cacheKeyBuild x.metadataKeyPolicy = .ok key) ∨
    cacheKeyBuild (x.jwksKeyPolicy url) = .ok key

theorem StageOpen.requestKey {x : CachedCall} {s : Stage} (o : StageOpen ext x s) :
    RequestKey x s.url s.key := by
  cases o with
  | metadata hk => exact Or.inl ⟨rfl, hk⟩
  | jwks hj => exact Or.inr hj.key

/-- A cached call that is about to send a request holds the refresh it is for. -/
theorem CallRun.owned_of_transfer (hr : CallRun ext admits h c) {i : Nat}
    {call : Call CallOp CallOp.Ans FetchArgs FetchReturn} (hc : c.calls i = some call)
    {url : CString} {policy : HttpPolicy} {next : _ → CallProg FetchReturn}
    (hrest : call.rest = .ask (.transfer url policy) next) (hcached : call.arg.cachePolicy ≠ none) :
    ∃ x key ticket, call.arg.cached = some x ∧ RequestKey x url key ∧
      owned call.trace = some (key, ticket) := by
  have hsat := Run.sat (issuerKeyFetchCached_sat ext) hr hc
  rw [hrest] at hsat
  rcases hsat.1 with ⟨x, hx, hop⟩ | ⟨_, _, hnone, _⟩
  · generalize call.trace = tr at hop
    cases hop with
    | wait _ _ w => cases w
    | transfer o _ _ => exact ⟨x, _, _, hx, o.requestKey, rfl⟩
  · exact absurd hnone hcached

/-- The refreshes of concurrent calls are in order: no two calls hold one key,
a request is made by the call that holds its key, a call that has returned has
passed back every ticket once, and idle caches have no refresh under way. -/
structure SingleFlight (c : CallConfig) : Prop where
  exclusive : ∀ i j ci cj key ticket ticket', c.calls i = some ci → c.calls j = some cj →
    owned ci.trace = some (key, ticket) → owned cj.trace = some (key, ticket') → i = j
  request : ∀ i call url policy next, c.calls i = some call →
    call.rest = .ask (.transfer url policy) next → call.arg.cachePolicy ≠ none →
    ∃ x key ticket, call.arg.cached = some x ∧ RequestKey x url key ∧
      owned call.trace = some (key, ticket)
  paired : ∀ i call r, c.calls i = some call → call.rest = .ret r → Paired (refreshEvents call.trace)
  released : (∀ i call, c.calls i = some call → ∃ r, call.rest = .ret r) →
    ∀ entry ∈ c.shared.cache.entries, entry.refreshing = false

theorem single_flight_without_leak (hr : CallRun ext admits h c) : SingleFlight c where
  exclusive := by
    intro i j ci cj key ticket ticket' hi hj hoi hoj
    obtain ⟨hheld, hexcl⟩ := CallRun.held hr
    exact hheld.key_unique hexcl (holder_eq_some_iff.mpr ⟨ci, hi, hoi⟩)
      (holder_eq_some_iff.mpr ⟨cj, hj, hoj⟩)
  request := by
    intro i call url policy next hc hrest hcached
    exact CallRun.owned_of_transfer hr hc hrest hcached
  paired := by
    intro i call r hc hret
    have hp := CallRun.pairedUpTo hr hc
    rwa [CallRun.owned_of_returned hr hc hret] at hp
  released := by
    intro hidle entry hmem
    cases href : entry.refreshing with
    | false => rfl
    | true =>
      obtain ⟨ticket, hp⟩ := (CallRun.inv hr).pendingKey_of_refreshing hmem href
      obtain ⟨i, hi⟩ := ((CallRun.held hr).1.pending ticket entry.key).mp hp
      obtain ⟨call, hc, ho⟩ := holder_eq_some_iff.mp hi
      obtain ⟨r, hret⟩ := hidle i call hc
      rw [CallRun.owned_of_returned hr hc hret] at ho
      simp at ho

/-- Two calls at once: the first holds the metadata refresh while the second
has found it in progress. -/
theorem single_flight_without_leak_in_flight :
    ∃ h c, CallRun Sample.externals (fun _ _ => true = true) h c ∧
      ((holder c 0).isSome && (c.calls 1).isSome) = true ∧ SingleFlight c := by
  have hrun : (replay (issuerKeyFetchCached Sample.externals) (fun _ _ => true) 2 0
      ([.start 0 (Sample.args "a" 0), .start 1 (Sample.args "a" 0)] ++ Sample.steps 0 2 ++
        Sample.steps 1 2)).any (fun p => (holder p.2 0).isSome && (p.2.calls 1).isSome) = true := by
    decide +kernel
  obtain ⟨h, c, hr, hc⟩ := replay_any hrun
  exact ⟨h, c, hr, hc, single_flight_without_leak hr⟩

end Runs

end OAuthValidator
