import OAuthValidator.CacheRuns
import OAuthValidator.Interleaving
import OAuthValidator.IssuerKeyTraces

/-! Backends that retrieve keys through one shared cache. Their calls interleave
at the boundaries of the cache operations while the real clock moves on. -/

namespace OAuthValidator

open ExpiringMap Interleaving

/-- The shared segment and the real monotonic time in milliseconds. -/
structure Shared where
  cache : Cache
  clockMs : Int
deriving DecidableEq

def sharedLookup (cache : Cache) (key : Bytes) (nowMs : Int) (allowStale : Bool) (outputSize : Nat) :
    IoLookup × Cache :=
  let found := cacheLookup cache key nowMs allowStale
  if found.1 == .miss then (⟨.miss, .notFound, []⟩, found.2.2)
  else
    let copy := cacheCopyPayload found.2.2 (found.2.1.getD 0) outputSize
    (⟨found.1, copy.1, copy.2.2⟩, found.2.2)

/-- What an operation may answer and do. The network answers anything that a
transfer can be turned into, and a sleep ends within its timeout. -/
def perform (s : Shared) : (op : CallOp) → op.Ans → Shared → Prop
  | .lookup key nowMs allowStale outputSize, answer, s' =>
    let r := sharedLookup s.cache key nowMs allowStale outputSize
    answer = r.1 ∧ s' = { s with cache := r.2 }
  | .begin key nowMs unknownKid cooldownMs, answer, s' =>
    let r := cacheBeginRefresh s.cache key nowMs unknownKid cooldownMs
    answer = (r.1, r.2.1) ∧ s' = { s with cache := r.2.2 }
  | .complete ticket c, answer, s' =>
    let r := cacheCompleteRefresh s.cache ticket c
    answer = r.1 ∧ s' = { s with cache := r.2 }
  | .isRefreshing key, answer, s' => answer = cacheIsRefreshing s.cache key ∧ s' = s
  | .sleepBegin, since, s' => since = s.clockMs ∧ s' = s
  | .sleepEnd since timeoutMs, _, s' => s.clockMs ≤ since + timeoutMs ∧ s' = s
  | .transfer _ policy, answer, s' => (∃ t, answer = finishTransfer policy t) ∧ s' = s

/-- Concurrent calls of a program over the shared cache, started with the
arguments that `admits` allows. -/
def cacheSystem {Arg α : Type} (body : Arg → CallProg α) (admits : Shared → Arg → Prop) :
    System CallOp CallOp.Ans Arg α Shared where
  body := body
  perform := perform
  drift s s' := s'.cache = s.cache ∧ s.clockMs ≤ s'.clockMs
  admits := admits

/-- Concurrent calls of `pg_oauth_issuer_key_fetch_cached`. -/
abbrev callSystem (ext : Externals) (admits : Shared → FetchArgs → Prop) :
    System CallOp CallOp.Ans FetchArgs FetchReturn Shared :=
  cacheSystem (issuerKeyFetchCached ext) admits

def initialShared (s : Shared) : Prop :=
  ∃ capacity, cacheInit capacity = some s.cache

abbrev CallConfig := Config CallOp CallOp.Ans FetchArgs FetchReturn Shared

abbrev CallHistory := History CallOp CallOp.Ans FetchArgs Shared

/-- A run of calls over a cache that starts empty. -/
abbrev CallRun (ext : Externals) (admits : Shared → FetchArgs → Prop) (h : CallHistory)
    (c : CallConfig) : Prop :=
  Run (callSystem ext admits) initialShared h c

/-- What an operation does to the map and to the refreshes under way. -/
def Effect (m m' : State Bytes CacheRefresh Bytes Int) : (op : CallOp) → op.Ans → Prop
  | .begin key nowMs unknownKid cooldownMs, answer =>
    let answer : CacheRefreshResult × CacheRefresh := answer
    MapStep m (.begin key nowMs unknownKid cooldownMs) (.begin answer.1 answer.2) m'
  | .complete ticket c, accepted => MapStep m (.complete ticket c) (.complete accepted) m'
  | _, _ => m' = m

theorem sharedLookup_cache (cache : Cache) (key : Bytes) (nowMs : Int) (allowStale : Bool)
    (outputSize : Nat) :
    (sharedLookup cache key nowMs allowStale outputSize).2 =
      (cacheLookup cache key nowMs allowStale).2.2 := by
  simp only [sharedLookup]
  split <;> rfl

def missed : IoLookup := ⟨.miss, .notFound, []⟩

/-- The answer of a lookup, from the value under its key alone. -/
def lookupAnswer (value : Option (Stored Bytes Int)) (nowMs : Int) (allowStale : Bool)
    (outputSize : Nat) : IoLookup :=
  match value with
  | none => missed
  | some stored =>
    let freshness := freshnessAt stored nowMs allowStale
    if freshness == .miss then missed
    else if outputSize < stored.value.length then ⟨freshness, .tooSmall, []⟩
    else ⟨freshness, .ok, stored.value⟩

theorem sharedLookup_eq {cache : Cache} {key : Bytes} {nowMs : Int} (hk : validKey key = true)
    (hn : 0 ≤ nowMs) (allowStale : Bool) (outputSize : Nat) :
    (sharedLookup cache key nowMs allowStale outputSize).1 =
      lookupAnswer (cacheMap cache key) nowMs allowStale outputSize := by
  have hres := cacheLookup_result cache allowStale hk hn
  obtain ⟨_, ⟨_, hm, _⟩ | ⟨i, entry, hi, hslot, hf, _, _, hc, hne, he⟩⟩ :=
    cacheLookup_cases cache key nowMs allowStale
  · rw [hm] at hres
    cases hf : KeyedSlots.find valueKey cache.entries key with
    | none => simp [sharedLookup, hm, lookupAnswer, cacheMap, hf, missed]
    | some entry =>
      have hmiss : freshnessAt (storedOf entry) nowMs allowStale = .miss := by
        rw [hf] at hres
        exact hres.symm
      simp [sharedLookup, hm, lookupAnswer, cacheMap, hf, hmiss, missed]
  · have hv := valueKey_eq_some_iff.mp (by simpa using List.find?_some hf : valueKey entry = some key)
    have ho := (ownerKey_eq_some_iff.mp hv.1).1
    have hlt := (List.getElem?_eq_some_iff.mp hslot).1
    have hfresh : freshnessAt (storedOf entry) nowMs allowStale =
        (cacheLookup cache key nowMs allowStale).1 := hc.symm
    simp only [sharedLookup, hi, lookupAnswer, cacheMap, hf, Option.map_some, hfresh, beq_iff_eq, hne,
      if_false, Option.getD_some, cacheCopyPayload, he, List.getElem?_set_self hlt, ho, hv.2,
      Bool.not_true, Bool.or_self, Bool.false_eq_true, show (storedOf entry).value = entry.payload from rfl]
    split <;> rfl

/-- A document that was copied is the value under the key, at a time at which
it could be used. -/
theorem sharedLookup_usable {cache : Cache} {key : Bytes} {nowMs : Int} {allowStale : Bool}
    {outputSize : Nat} {l : IoLookup}
    (hl : l = (sharedLookup cache key nowMs allowStale outputSize).1) (hu : l.usable = true) :
    ∃ stored, cacheMap cache key = some stored ∧ l.payload = stored.value ∧
      l.freshness = freshnessAt stored nowMs allowStale := by
  by_cases hv : validKey key = true ∧ 0 ≤ nowMs
  · rw [sharedLookup_eq hv.1 hv.2] at hl
    cases hm : cacheMap cache key with
    | none => simp [hl, hm, lookupAnswer, missed, IoLookup.usable] at hu
    | some stored =>
      refine ⟨stored, rfl, ?_⟩
      rw [hm] at hl
      simp only [lookupAnswer] at hl
      split at hl
      · simp [hl, missed, IoLookup.usable] at hu
      · split at hl
        · simp [hl, IoLookup.usable] at hu
        · exact ⟨by rw [hl], by rw [hl]⟩
  · have hinvalid : (!validKey key || decide (nowMs < 0)) = true := by
      simp only [Bool.or_eq_true, Bool.not_eq_true', decide_eq_true_eq]
      by_contra hne
      exact hv ⟨by simpa using (not_or.mp hne).1, Int.not_lt.mp (not_or.mp hne).2⟩
    simp [hl, sharedLookup, cacheLookup, hinvalid, IoLookup.usable] at hu

theorem perform_inv {s s' : Shared} {op : CallOp} {answer : op.Ans} (h : s.cache.Inv)
    (hp : perform s op answer s') : s'.cache.Inv := by
  cases op with
  | lookup key nowMs allowStale outputSize =>
    obtain ⟨-, rfl⟩ := hp
    exact sharedLookup_cache .. ▸ h.lookup key nowMs allowStale
  | begin key nowMs unknownKid cooldownMs =>
    obtain ⟨-, rfl⟩ := hp
    exact h.begin key nowMs unknownKid cooldownMs
  | complete ticket c =>
    obtain ⟨-, rfl⟩ := hp
    exact h.complete ticket c
  | isRefreshing key =>
    obtain ⟨-, rfl⟩ := hp
    exact h
  | sleepBegin =>
    obtain ⟨-, rfl⟩ := hp
    exact h
  | sleepEnd since timeoutMs =>
    obtain ⟨-, rfl⟩ := hp
    exact h
  | transfer url policy =>
    obtain ⟨-, rfl⟩ := hp
    exact h

theorem perform_length {s s' : Shared} {op : CallOp} {answer : op.Ans} (hp : perform s op answer s') :
    s'.cache.entries.length = s.cache.entries.length := by
  cases op with
  | lookup key nowMs allowStale outputSize =>
    obtain ⟨-, rfl⟩ := hp
    show (sharedLookup s.cache key nowMs allowStale outputSize).2.entries.length = _
    rw [sharedLookup_cache]
    obtain ⟨_, ⟨_, _, he⟩ | ⟨i, entry, _, _, _, _, _, _, _, he⟩⟩ :=
      cacheLookup_cases s.cache key nowMs allowStale
    · rw [he]
    · rw [he, List.length_set]
  | begin key nowMs unknownKid cooldownMs =>
    obtain ⟨-, rfl⟩ := hp
    show (cacheBeginRefresh s.cache key nowMs unknownKid cooldownMs).2.2.entries.length = _
    rcases cacheBeginRefresh_cases s.cache key nowMs unknownKid cooldownMs with
      ⟨_, _, he, _⟩ | ⟨_, entry, existing, hst⟩
    · rw [he]
    · rw [hst.entries, List.length_set]
  | complete ticket c =>
    obtain ⟨-, rfl⟩ := hp
    show (cacheCompleteRefresh s.cache ticket c).2.entries.length = _
    by_cases ho : ∃ entry, Owns s.cache ticket entry
    · obtain ⟨entry, ho⟩ := ho
      rw [(cacheCompleteRefresh_of_owns ho c).2.1, List.length_set]
    · rw [cacheCompleteRefresh_of_not_owns (not_exists.mp ho) c]
  | _ =>
    obtain ⟨-, rfl⟩ := hp
    rfl

theorem perform_effect {s s' : Shared} {op : CallOp} {answer : op.Ans} (h : s.cache.Inv)
    (hp : perform s op answer s') :
    Effect (abstractCache s.cache) (abstractCache s'.cache) op answer := by
  cases op with
  | lookup key nowMs allowStale outputSize =>
    obtain ⟨-, rfl⟩ := hp
    show abstractCache (sharedLookup s.cache key nowMs allowStale outputSize).2 = _
    rw [sharedLookup_cache]
    exact abstractCache_lookup h key nowMs allowStale
  | begin key nowMs unknownKid cooldownMs =>
    obtain ⟨rfl, rfl⟩ := hp
    exact mapStep_apply h (.begin key nowMs unknownKid cooldownMs)
  | complete ticket c =>
    obtain ⟨rfl, rfl⟩ := hp
    exact mapStep_apply h (.complete ticket c)
  | isRefreshing key =>
    obtain ⟨-, rfl⟩ := hp
    rfl
  | sleepBegin =>
    obtain ⟨-, rfl⟩ := hp
    rfl
  | sleepEnd since timeoutMs =>
    obtain ⟨-, rfl⟩ := hp
    rfl
  | transfer url policy =>
    obtain ⟨-, rfl⟩ := hp
    rfl

theorem perform_clock {s s' : Shared} {op : CallOp} {answer : op.Ans}
    (hp : perform s op answer s') : s'.clockMs = s.clockMs := by
  cases op <;> (obtain ⟨-, rfl⟩ := hp; rfl)

theorem initialShared.inv {s : Shared} (h : initialShared s) : s.cache.Inv := by
  obtain ⟨capacity, hc⟩ := h
  exact Cache.Inv.init hc

theorem initialShared.empty {s : Shared} (h : initialShared s) :
    abstractCache s.cache = State.empty := by
  obtain ⟨capacity, hc⟩ := h
  exact abstractCache_init hc

section Runs

variable {ext : Externals} {admits : Shared → FetchArgs → Prop} {h : CallHistory} {c : CallConfig}

theorem CallRun.inv (hr : CallRun ext admits h c) : c.shared.cache.Inv := by
  induction hr with
  | init hs => exact hs.inv
  | start _ _ _ _ _ ih => exact ih
  | act _ _ _ _ hp ih => exact perform_inv ih hp
  | drift _ hd ih => exact hd.1 ▸ ih

/-- The refresh each call holds. -/
def holder (c : CallConfig) (i : Nat) : Option (Bytes × CacheRefresh) :=
  (c.calls i).bind fun call => owned call.trace

theorem holder_eq_some_iff {c : CallConfig} {i : Nat} {p : Bytes × CacheRefresh} :
    holder c i = some p ↔ ∃ call, c.calls i = some call ∧ owned call.trace = some p :=
  Option.bind_eq_some_iff

theorem holder_update {calls : Nat → Option (Call CallOp CallOp.Ans FetchArgs FetchReturn)}
    {s s' : Shared} {i : Nat} (call : Call CallOp CallOp.Ans FetchArgs FetchReturn) :
    holder ⟨s', Function.update calls i (some call)⟩ =
      Function.update (holder ⟨s, calls⟩) i (owned call.trace) := by
  funext j
  by_cases hj : j = i
  · subst hj
    simp [holder]
  · simp [holder, hj]

theorem update_holder_self {i : Nat} {o : Option (Bytes × CacheRefresh)} (ho : holder c i = o) :
    Function.update (holder c) i o = holder c := by
  rw [← ho, Function.update_eq_self]

/-- In every state the refreshes under way are those the calls hold, for
different keys. -/
theorem CallRun.held (hr : CallRun ext admits h c) :
    (abstractCache c.shared.cache).HeldBy (holder c) ∧ (abstractCache c.shared.cache).Exclusive := by
  refine Run.induct (issuerKeyFetchCached_sat ext)
    (P := fun _ c => (abstractCache c.shared.cache).HeldBy (holder c) ∧
      (abstractCache c.shared.cache).Exclusive) ?_ ?_ ?_ ?_ hr
  · intro s hs
    simp only [hs.empty]
    exact ⟨State.HeldBy.empty, State.exclusive_empty⟩
  · intro h c i args _ ih hi _
    have hn : holder c i = none := by simp [holder, hi]
    rw [holder_update (s := c.shared)]
    show (abstractCache c.shared.cache).HeldBy (Function.update (holder c) i none) ∧ _
    rw [update_holder_self hn]
    exact ih
  · intro h c i args tr op next answer s hr ih hcall hop hp
    have heff := perform_effect (CallRun.inv hr) hp
    have ho : holder c i = owned tr := by simp [holder, hcall]
    rw [holder_update (s := c.shared)]
    show (abstractCache s.cache).HeldBy (Function.update (holder c) i (owned (⟨op, answer⟩ :: tr))) ∧ _
    -- an operation that changes neither the map nor what the call holds
    have hquiet (hmap : abstractCache s.cache = abstractCache c.shared.cache)
        (howned : owned (⟨op, answer⟩ :: tr) = owned tr) :
        (abstractCache s.cache).HeldBy (Function.update (holder c) i (owned (⟨op, answer⟩ :: tr))) ∧
          (abstractCache s.cache).Exclusive := by
      rw [hmap, howned, update_holder_self ho]
      exact ih
    cases op with
    | begin key nowMs unknownKid cooldownMs =>
      have hnone : holder c i = none := ho.trans hop.begin_owned
      obtain ⟨r, ticket⟩ := answer
      rcases MapStep.begin_cases heff with ⟨hr', he⟩ | ⟨rfl, hb⟩
      · have hsame : owned (⟨.begin key nowMs unknownKid cooldownMs, (r, ticket)⟩ :: tr) = owned tr := by
          cases r <;> first | rfl | exact absurd rfl hr'
        exact hquiet he hsame
      · exact ⟨hb.heldBy ih.1 hnone, hb.exclusive ih.2⟩
    | complete ticket comp =>
      obtain ⟨key, hk⟩ := hop.complete_owned
      rcases MapStep.complete_cases heff with ⟨_, _, hc⟩ | ⟨_, hn, _⟩
      · exact ⟨hc.heldBy ih.1 (ho.trans hk), hc.exclusive ih.2⟩
      · -- a call completes only what it holds, so the ticket is recognised
        have := (ih.1.pending ticket key).mpr ⟨i, ho.trans hk⟩
        rw [hn] at this
        simp at this
    | lookup _ _ _ _ => exact hquiet heff rfl
    | isRefreshing _ => exact hquiet heff rfl
    | sleepBegin => exact hquiet heff rfl
    | sleepEnd _ _ => exact hquiet heff rfl
    | transfer _ _ => exact hquiet heff rfl
  · intro h c s _ ih hd
    show (abstractCache s.cache).HeldBy (holder c) ∧ (abstractCache s.cache).Exclusive
    rw [hd.1]
    exact ih

end Runs

end OAuthValidator
