import OAuthValidator.CacheRefinement

/-! Runs of cache operations by any number of clients. A run is the list of
operations in the order in which they took effect. -/

namespace OAuthValidator

open ExpiringMap

inductive CacheOp
  | lookup (key : Bytes) (nowMs : Int) (allowStale : Bool)
  | begin (key : Bytes) (nowMs : Int) (unknownKid : Bool) (cooldownMs : Int)
  | complete (ticket : CacheRefresh) (c : Completion)
deriving DecidableEq, Repr

inductive CacheAnswer
  | lookup (result : CacheLookup) (index : Option Nat)
  | begin (result : CacheRefreshResult) (ticket : CacheRefresh)
  | complete (accepted : Bool)
deriving DecidableEq, Repr

def CacheOp.apply (op : CacheOp) (cache : Cache) : CacheAnswer × Cache :=
  match op with
  | .lookup key nowMs allowStale =>
    let r := cacheLookup cache key nowMs allowStale
    (.lookup r.1 r.2.1, r.2.2)
  | .begin key nowMs unknownKid cooldownMs =>
    let r := cacheBeginRefresh cache key nowMs unknownKid cooldownMs
    (.begin r.1 r.2.1, r.2.2)
  | .complete ticket c =>
    let r := cacheCompleteRefresh cache ticket c
    (.complete r.1, r.2)

/-- The cache after the first `n` operations of a run. -/
def stateAt (cache : Cache) (ops : List CacheOp) (n : Nat) : Cache :=
  (ops.take n).foldl (fun c op => (op.apply c).2) cache

def answerAt (cache : Cache) (ops : List CacheOp) (n : Nat) : Option CacheAnswer :=
  ops[n]?.map fun op => (op.apply (stateAt cache ops n)).1

theorem stateAt_succ {cache : Cache} {ops : List CacheOp} {n : Nat} {op : CacheOp}
    (h : ops[n]? = some op) : stateAt cache ops (n + 1) = (op.apply (stateAt cache ops n)).2 := by
  simp [stateAt, List.take_add_one, h]

theorem stateAt_succ_of_none {cache : Cache} {ops : List CacheOp} {n : Nat}
    (h : ops[n]? = none) : stateAt cache ops (n + 1) = stateAt cache ops n := by
  simp [stateAt, List.take_add_one, h]

theorem Cache.Inv.apply {cache : Cache} (h : cache.Inv) (op : CacheOp) : (op.apply cache).2.Inv := by
  cases op with
  | lookup key nowMs allowStale => exact h.lookup key nowMs allowStale
  | begin key nowMs unknownKid cooldownMs => exact h.begin key nowMs unknownKid cooldownMs
  | complete ticket c => exact h.complete ticket c

theorem Cache.Inv.stateAt {cache : Cache} (h : cache.Inv) (ops : List CacheOp) (n : Nat) :
    (stateAt cache ops n).Inv := by
  induction n with
  | zero => exact h
  | succ n ih =>
    cases ho : ops[n]? with
    | none => exact stateAt_succ_of_none ho ▸ ih
    | some op => exact stateAt_succ ho ▸ ih.apply op

/-- What an operation with its answer does to the expiring map. -/
inductive MapStep (m : State Bytes CacheRefresh Bytes Int) :
    CacheOp → CacheAnswer → State Bytes CacheRefresh Bytes Int → Prop
  | lookup {key : Bytes} {nowMs : Int} {allowStale : Bool} {result : CacheLookup}
      {index : Option Nat}
      (fresh : validKey key = true → 0 ≤ nowMs → (result = .fresh ↔ m.FreshAt key nowMs))
      (stale : validKey key = true → 0 ≤ nowMs →
        (result = .stale ↔ allowStale = true ∧ m.StaleAt key nowMs)) :
      MapStep m (.lookup key nowMs allowStale) (.lookup result index) m
  | refused {key : Bytes} {nowMs : Int} {unknownKid : Bool} {cooldownMs : Int}
      {result : CacheRefreshResult} {ticket : CacheRefresh} (refused : result ≠ .started) :
      MapStep m (.begin key nowMs unknownKid cooldownMs) (.begin result ticket) m
  | begun {key : Bytes} {nowMs : Int} {unknownKid : Bool} {cooldownMs : Int}
      {ticket : CacheRefresh} {m' : State Bytes CacheRefresh Bytes Int}
      (begins : Begins m key nowMs ticket m') :
      MapStep m (.begin key nowMs unknownKid cooldownMs) (.begin .started ticket) m'
  | completed {ticket : CacheRefresh} {key : Bytes} {c : Completion}
      {m' : State Bytes CacheRefresh Bytes Int} (completes : Completes m ticket key c.outcome m') :
      MapStep m (.complete ticket c) (.complete (!c.rejected)) m'
  | unrecognised {ticket : CacheRefresh} {c : Completion} (none : m.pending ticket = none) :
      MapStep m (.complete ticket c) (.complete false) m

theorem MapStep.begin_cases {m m' : State Bytes CacheRefresh Bytes Int} {key : Bytes} {nowMs : Int}
    {unknownKid : Bool} {cooldownMs : Int} {r : CacheRefreshResult} {ticket : CacheRefresh}
    (h : MapStep m (.begin key nowMs unknownKid cooldownMs) (.begin r ticket) m') :
    (r ≠ .started ∧ m' = m) ∨ (r = .started ∧ Begins m key nowMs ticket m') := by
  cases h with
  | refused hr => exact Or.inl ⟨hr, rfl⟩
  | begun hb => exact Or.inr ⟨rfl, hb⟩

theorem MapStep.complete_cases {m m' : State Bytes CacheRefresh Bytes Int} {ticket : CacheRefresh}
    {c : Completion} {accepted : Bool} (h : MapStep m (.complete ticket c) (.complete accepted) m') :
    (∃ key, accepted = !c.rejected ∧ Completes m ticket key c.outcome m') ∨
      (accepted = false ∧ m.pending ticket = none ∧ m' = m) := by
  cases h with
  | completed hc => exact Or.inl ⟨_, rfl, hc⟩
  | unrecognised hn => exact Or.inr ⟨rfl, hn, rfl⟩

/-- Whether a value can be used at a time. -/
def freshnessAt (stored : Stored Bytes Int) (nowMs : Int) (allowStale : Bool) : CacheLookup :=
  if nowMs < stored.freshUntil then .fresh
  else if allowStale && decide (nowMs < stored.staleUntil) then .stale
  else .miss

theorem classify_eq (entry : CacheEntry) (nowMs : Int) (allowStale : Bool) :
    classify entry nowMs allowStale = freshnessAt (storedOf entry) nowMs allowStale := rfl

theorem freshnessAt_eq_fresh_iff {stored : Stored Bytes Int} {nowMs : Int} {allowStale : Bool} :
    freshnessAt stored nowMs allowStale = .fresh ↔ nowMs < stored.freshUntil := by
  unfold freshnessAt
  split
  · simp_all
  · split <;> simp_all

theorem freshnessAt_eq_stale_iff {stored : Stored Bytes Int} {nowMs : Int} {allowStale : Bool} :
    freshnessAt stored nowMs allowStale = .stale ↔
      allowStale = true ∧ stored.freshUntil ≤ nowMs ∧ nowMs < stored.staleUntil := by
  unfold freshnessAt
  split
  · next h => simp; omega
  · next h =>
    have hle : stored.freshUntil ≤ nowMs := by omega
    split <;> simp_all

/-- The scan of a valid lookup agrees with the map. -/
theorem cacheLookup_result (cache : Cache) {key : Bytes} {nowMs : Int} (allowStale : Bool)
    (hk : validKey key = true) (hn : 0 ≤ nowMs) :
    (cacheLookup cache key nowMs allowStale).1 =
      match KeyedSlots.find valueKey cache.entries key with
      | some entry => classify entry nowMs allowStale
      | none => .miss := by
  have hv : (!validKey key || decide (nowMs < 0)) = false := by
    simp only [hk, Bool.not_true, Bool.false_or, decide_eq_false_iff_not]
    omega
  rcases lookupFrom_spec key nowMs allowStale cache.entries 0 with ⟨hf, hl⟩ | ⟨n, entry, _, hf, hl⟩
  · simp [cacheLookup, hv, hl, hf]
  · simp [cacheLookup, hv, hl, hf]

theorem cacheLookup_fresh_iff {cache : Cache} {key : Bytes} {nowMs : Int} (allowStale : Bool)
    (hk : validKey key = true) (hn : 0 ≤ nowMs) :
    (cacheLookup cache key nowMs allowStale).1 = .fresh ↔
      (abstractCache cache).FreshAt key nowMs := by
  rw [cacheLookup_result _ allowStale hk hn]
  unfold State.FreshAt abstractCache cacheMap
  cases hf : KeyedSlots.find valueKey cache.entries key with
  | none => simp [hf]
  | some entry => simp [hf, classify_eq, freshnessAt_eq_fresh_iff]

theorem cacheLookup_stale_iff {cache : Cache} {key : Bytes} {nowMs : Int} (allowStale : Bool)
    (hk : validKey key = true) (hn : 0 ≤ nowMs) :
    (cacheLookup cache key nowMs allowStale).1 = .stale ↔
      allowStale = true ∧ (abstractCache cache).StaleAt key nowMs := by
  rw [cacheLookup_result _ allowStale hk hn]
  unfold State.StaleAt abstractCache cacheMap
  cases hf : KeyedSlots.find valueKey cache.entries key with
  | none => simp [hf]
  | some entry => simp [hf, classify_eq, freshnessAt_eq_stale_iff]

/-- Every operation is a step of the expiring map. -/
theorem mapStep_apply {cache : Cache} (h : cache.Inv) (op : CacheOp) :
    MapStep (abstractCache cache) op (op.apply cache).1 (abstractCache (op.apply cache).2) := by
  cases op with
  | lookup key nowMs allowStale =>
    simp only [CacheOp.apply]
    rw [abstractCache_lookup h]
    exact .lookup (cacheLookup_fresh_iff allowStale) (cacheLookup_stale_iff allowStale)
  | begin key nowMs unknownKid cooldownMs =>
    have h' := h.begin key nowMs unknownKid cooldownMs
    simp only [CacheOp.apply]
    rcases cacheBeginRefresh_cases cache key nowMs unknownKid cooldownMs with
      ⟨hr, _, he, _⟩ | ⟨hr, entry, existing, hst⟩
    · rw [abstractCache_of_entries_eq he]
      exact .refused hr
    · rw [hr]
      exact .begun (hst.begins h h')
  | complete ticket c =>
    simp only [CacheOp.apply]
    cases hp : pendingKey cache ticket with
    | none =>
      rw [cacheCompleteRefresh_of_not_owns (pendingKey_eq_none_iff.mp hp) c]
      exact .unrecognised hp
    | some key =>
      obtain ⟨entry, ho, rfl⟩ := pendingKey_eq_some_iff.mp hp
      rw [(cacheCompleteRefresh_of_owns ho c).1]
      exact .completed (ho.completes h c)

theorem abstractCache_init {capacity : Nat} {cache : Cache} (h : cacheInit capacity = some cache) :
    abstractCache cache = State.empty := by
  unfold cacheInit at h
  split at h
  · simp at h
  · obtain rfl := Option.some.inj h
    unfold abstractCache State.empty cacheMap pendingKey
    congr 1
    · funext key
      rw [KeyedSlots.find_eq_none_iff.mpr]
      · rfl
      · intro i a ha
        rw [List.eq_of_mem_replicate (List.mem_of_getElem? ha)]
        simp [valueKey, CacheEntry.zero]
    · funext ticket
      cases ht : (List.replicate capacity CacheEntry.zero)[ticket.entryIndex]? with
      | none => simp
      | some entry =>
        have he := List.eq_of_mem_replicate (List.mem_of_getElem? ht)
        simp [he, pendingOf, CacheEntry.zero]

/-- A hit names a slot from which the whole value under the key is copied. -/
theorem cacheLookup_copy {cache : Cache} (h : cache.Inv) (key : Bytes) (nowMs : Int)
    (allowStale : Bool) (hit : (cacheLookup cache key nowMs allowStale).1 ≠ .miss) :
    ∃ i stored, (cacheLookup cache key nowMs allowStale).2.1 = some i ∧
      cacheMap cache key = some stored ∧ ∀ size, stored.value.length ≤ size →
        cacheCopyPayload (cacheLookup cache key nowMs allowStale).2.2 i size =
          (.ok, stored.value.length, stored.value) := by
  obtain ⟨_, ⟨_, hm, _⟩ | ⟨i, entry, hi, hslot, hf, _, _, _, _, he⟩⟩ :=
    cacheLookup_cases cache key nowMs allowStale
  · exact absurd hm hit
  · have hk : valueKey entry = some key := by simpa using List.find?_some hf
    have hv := valueKey_eq_some_iff.mp hk
    have ho := (ownerKey_eq_some_iff.mp hv.1).1
    refine ⟨i, storedOf entry, hi, (cacheMap_eq_some_iff h).mpr ⟨i, entry, hslot, hk, rfl⟩, ?_⟩
    intro size hsize
    have hlt := (List.getElem?_eq_some_iff.mp hslot).1
    have hs : ¬ size < entry.payload.length := Nat.not_lt.mpr hsize
    simp [cacheCopyPayload, he, List.getElem?_set_self hlt, ho, hv.2, hs, storedOf]

/-- Along a run every operation is a step of the model, and every hit copies
the value the model holds under the key. -/
def RefinesMap (cache : Cache) (ops : List CacheOp)
    (model : Nat → State Bytes CacheRefresh Bytes Int) : Prop :=
  ∀ n op, ops[n]? = some op →
    MapStep (model n) op (op.apply (stateAt cache ops n)).1 (model (n + 1)) ∧
    ∀ key nowMs allowStale, op = .lookup key nowMs allowStale →
      (cacheLookup (stateAt cache ops n) key nowMs allowStale).1 ≠ .miss →
      ∃ i stored, (cacheLookup (stateAt cache ops n) key nowMs allowStale).2.1 = some i ∧
        (model n).map key = some stored ∧ ∀ size, stored.value.length ≤ size →
          cacheCopyPayload (stateAt cache ops (n + 1)) i size =
            (.ok, stored.value.length, stored.value)

theorem cache_refines_expiring_map {capacity : Nat} {cache : Cache}
    (hinit : cacheInit capacity = some cache) (ops : List CacheOp) :
    ∃ model : Nat → State Bytes CacheRefresh Bytes Int,
      model 0 = State.empty ∧ RefinesMap cache ops model := by
  refine ⟨fun n => abstractCache (stateAt cache ops n), abstractCache_init hinit, ?_⟩
  intro n op hop
  have hinv := (Cache.Inv.init hinit).stateAt ops n
  simp only [stateAt_succ hop]
  refine ⟨mapStep_apply hinv op, ?_⟩
  rintro key nowMs allowStale rfl hit
  exact cacheLookup_copy hinv key nowMs allowStale hit

/-- One publication and the lookup that reads it back, on a single slot. -/
theorem cache_refines_expiring_map_publication :
    let cache : Cache := ⟨[.zero], ⟨1, {}⟩⟩
    let ops : List CacheOp :=
      [.begin [1] 0 false 0, .complete ⟨0, 1⟩ ⟨10, true, true, false, 20, 5, [7]⟩,
        .lookup [1] 15 false]
    cacheInit 1 = some cache ∧ answerAt cache ops 2 = some (.lookup .fresh (some 0)) ∧
      ∃ model : Nat → State Bytes CacheRefresh Bytes Int,
        model 0 = State.empty ∧ RefinesMap cache ops model :=
  ⟨rfl, by decide, @cache_refines_expiring_map 1 _ rfl _⟩

end OAuthValidator
