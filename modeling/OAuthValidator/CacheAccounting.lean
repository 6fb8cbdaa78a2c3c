import OAuthValidator.CacheRuns
import OAuthValidator.Tally

/-! What the counters of the cache count, and what becomes of refreshes and slots. A
counter shows how often its event has happened, up to the largest number it can
hold. Every refresh that was started has been released or is under way, and every
slot given to a key has been taken over, has been cleared or is occupied. -/

namespace OAuthValidator

open Tally

/-- A lookup with valid arguments that answers `result`. -/
def CacheOp.finds (result : CacheLookup) (cache : Cache) : CacheOp → Bool
  | .lookup key nowMs allowStale =>
    validKey key && decide (0 ≤ nowMs) && (cacheLookup cache key nowMs allowStale).1 == result
  | _ => false

def CacheOp.begins (result : CacheRefreshResult) (cache : Cache) : CacheOp → Bool
  | .begin key nowMs unknownKid cooldownMs =>
    (cacheBeginRefresh cache key nowMs unknownKid cooldownMs).1 == result
  | _ => false

/-- A refresh is started for a key that has no slot yet. -/
def CacheOp.claims (cache : Cache) (op : CacheOp) : Bool :=
  op.begins .started cache &&
    match op with
    | .begin key .. => !cache.entries.any (sameKey · key)
    | _ => false

/-- It is given a slot while none is free. -/
def CacheOp.evicts (cache : Cache) (op : CacheOp) : Bool :=
  op.claims cache && cache.entries.all (·.occupied)

/-- A completion whose ticket is recognised. -/
def CacheOp.releases (cache : Cache) : CacheOp → Bool
  | .complete ticket _ => (pendingKey cache ticket).isSome
  | _ => false

def CacheOp.fails (cache : Cache) (op : CacheOp) : Bool :=
  op.begins .capacity cache ||
    (op.releases cache &&
      match op with
      | .complete _ c => c.rejected || !c.success
      | _ => false)

/-- A completion after which the slot of its ticket is free. -/
def CacheOp.clears (cache : Cache) (op : CacheOp) : Bool :=
  op.releases cache &&
    match op with
    | .complete ticket c =>
      !((cacheCompleteRefresh cache ticket c).2.entries.getD ticket.entryIndex .zero).occupied
    | _ => false

/-- How often an event happens in a run. -/
def occurrences (cache : Cache) (ops : List CacheOp) (event : Cache → CacheOp → Bool) : Nat :=
  count (fun c op => (op.apply c).2) event cache ops

def counted (counter : Nat) (event : Bool) : Nat :=
  if event then increment counter else counter

theorem counted_eq_min {counter : Nat} (h : counter ≤ uint64Max) (event : Bool) :
    counted counter event = min (counter + event.toNat) uint64Max := by
  unfold counted increment
  cases event with
  | false => simp [h]
  | true =>
    by_cases hmax : counter = uint64Max
    · simp [hmax]
    · rw [if_pos rfl, if_pos hmax, Bool.toNat_true]
      omega

def CacheOp.suppressed (cache : Cache) (op : CacheOp) : Bool :=
  op.begins .inProgress cache || op.begins .suppressed cache

/-- The counters after one operation. -/
def CacheStats.after (stats : CacheStats) (cache : Cache) (op : CacheOp) : CacheStats where
  freshHits := counted stats.freshHits (op.finds .fresh cache)
  staleHits := counted stats.staleHits (op.finds .stale cache)
  misses := counted stats.misses (op.finds .miss cache)
  refreshes := counted stats.refreshes (op.begins .started cache)
  refreshSuppressions := counted stats.refreshSuppressions (op.suppressed cache)
  evictions := counted stats.evictions (op.evicts cache)
  failures := counted stats.failures (op.fails cache)

theorem stats_lookup (cache : Cache) (key : Bytes) (nowMs : Int) (allowStale : Bool) :
    (cacheLookup cache key nowMs allowStale).2.2.control.stats =
      cache.control.stats.after cache (.lookup key nowMs allowStale) := by
  by_cases hv : (!validKey key || decide (nowMs < 0)) = true
  · have hnone (result : CacheLookup) :
        (CacheOp.lookup key nowMs allowStale).finds result cache = false := by
      simp only [Bool.or_eq_true, Bool.not_eq_eq_eq_not, Bool.not_true, decide_eq_true_eq] at hv
      rcases hv with hk | hn
      · simp [CacheOp.finds, hk]
      · have : ¬ 0 ≤ nowMs := by omega
        simp [CacheOp.finds, this]
    simp only [cacheLookup, hv, if_true, CacheStats.after, hnone]
    rfl
  · have hfinds (result : CacheLookup) : (CacheOp.lookup key nowMs allowStale).finds result cache =
        ((lookupFrom key nowMs allowStale cache.entries 0).1 == result) := by
      simp only [Bool.or_eq_true, not_or, decide_eq_true_eq, Bool.not_eq_eq_eq_not, Bool.not_true] at hv
      have hk : validKey key = true := by simpa using hv.1
      have hn : 0 ≤ nowMs := by omega
      simp [CacheOp.finds, cacheLookup, hk, hn, hv.2]
    simp only [cacheLookup, hv, Bool.false_eq_true, if_false, CacheStats.after, hfinds, Cache.withStats]
    cases (lookupFrom key nowMs allowStale cache.entries 0).1 <;> rfl

section Chosen

variable {cache : Cache} {key : Bytes} {nowMs : Int} {i : Nat} {existing : Bool} {entry : CacheEntry}

theorem existing_eq_any (hf : findRefreshSlot cache key nowMs = (some i, existing)) :
    existing = cache.entries.any (sameKey · key) := by
  obtain ⟨e, hslot, hkept, htaken⟩ := findRefreshSlot_some hf
  cases existing with
  | true =>
    rw [eq_comm, List.any_eq_true]
    exact ⟨e, List.mem_of_getElem? hslot, sameKey_eq_true_iff.mpr (hkept rfl)⟩
  | false =>
    rw [eq_comm, List.any_eq_false]
    exact fun e' hm hs => (htaken rfl).1 e' hm (sameKey_eq_true_iff.mp hs)

/-- The slot for an absent key is occupied exactly when none is free. -/
theorem occupied_eq_all (hf : findRefreshSlot cache key nowMs = (some i, false))
    (he : cache.entries[i]? = some entry) : entry.occupied = cache.entries.all (·.occupied) := by
  have hmem := List.mem_of_getElem? he
  rcases findRefreshSlot_cases cache key nowMs with ⟨j, e, hf', -, -⟩ | ⟨slot, hf', -, hc⟩
  · simp [hf'] at hf
  · obtain ⟨rfl, -⟩ := Prod.mk.inj (hf'.symm.trans hf)
    cases hc with
    | free first =>
      obtain ⟨⟨e, hslot, hfree⟩, -⟩ := first
      obtain rfl := Option.some.inj (hslot.symm.trans he)
      rw [hfree, eq_comm, List.all_eq_false]
      exact ⟨e, hmem, by simp [hfree]⟩
    | expired full _ =>
      rw [full entry hmem, eq_comm, List.all_eq_true]
      exact full

theorem not_existing_and_occupied (hf : findRefreshSlot cache key nowMs = (some i, existing))
    (he : cache.entries[i]? = some entry) :
    (!existing && entry.occupied) =
      (!cache.entries.any (sameKey · key) && cache.entries.all (·.occupied)) := by
  rw [← existing_eq_any hf]
  cases existing with
  | true => rfl
  | false => rw [occupied_eq_all hf he]

end Chosen

theorem stats_begin (cache : Cache) (key : Bytes) (nowMs : Int) (unknownKid : Bool) (cooldownMs : Int) :
    (cacheBeginRefresh cache key nowMs unknownKid cooldownMs).2.2.control.stats =
      cache.control.stats.after cache (.begin key nowMs unknownKid cooldownMs) := by
  simp only [CacheStats.after, CacheOp.finds, CacheOp.suppressed, CacheOp.evicts, CacheOp.claims,
    CacheOp.fails, CacheOp.releases, CacheOp.begins, Bool.and_false, Bool.or_false]
  by_cases hv : (!validKey key || decide (nowMs < 0) || decide (cooldownMs < 0)) = true
  · simp only [cacheBeginRefresh, hv, if_true]
    rfl
  rcases hf : findRefreshSlot cache key nowMs with ⟨_ | i, existing⟩
  · simp only [cacheBeginRefresh, hv, hf]
    rfl
  obtain ⟨entry, he, -, -⟩ := findRefreshSlot_some hf
  have hget : cache.entries.getD i .zero = entry := by simp [List.getD, he]
  by_cases hp : (existing && entry.refreshing) = true
  · simp only [cacheBeginRefresh, hv, hf, hget, hp, if_true]
    rfl
  by_cases hs : (existing && unknownKid && entry.hasUnknownKidRefresh &&
      decide (nowMs - entry.lastUnknownKidRefreshMs < cooldownMs)) = true
  · simp only [cacheBeginRefresh, hv, hf, hget, hp, hs, if_true]
    rfl
  · simp only [cacheBeginRefresh, hv, hf, hget, hp, hs, Bool.false_eq_true, if_false]
    rw [not_existing_and_occupied hf he]
    rfl

theorem stats_complete (cache : Cache) (ticket : CacheRefresh) (c : Completion) :
    (cacheCompleteRefresh cache ticket c).2.control.stats =
      cache.control.stats.after cache (.complete ticket c) := by
  simp only [CacheStats.after, CacheOp.finds, CacheOp.suppressed, CacheOp.evicts, CacheOp.claims,
    CacheOp.fails, CacheOp.releases, CacheOp.begins, Bool.false_and, Bool.or_false, Bool.false_or]
  cases hp : pendingKey cache ticket with
  | none =>
    rw [cacheCompleteRefresh_of_not_owns (pendingKey_eq_none_iff.mp hp)]
    rfl
  | some key =>
    obtain ⟨entry, ho, -⟩ := pendingKey_eq_some_iff.mp hp
    have hi : ticket.entryIndex < cache.entries.length := (List.getElem?_eq_some_iff.mp ho.slot).1
    have hget : cache.entries.getD ticket.entryIndex .zero = entry := by simp [List.getD, ho.slot]
    have hb : (decide (ticket.entryIndex ≥ cache.entries.length) || decide (ticket.serial = 0)) =
        false := by simp [hi, ho.serial_ne]
    have hs : (!entry.occupied || !entry.refreshing ||
        decide (entry.refreshSerial ≠ ticket.serial)) = false := by
      simp [ho.occupied, ho.refreshing, ho.serial]
    simp only [cacheCompleteRefresh, hb, hget, hs, Bool.false_eq_true, if_false]
    cases c.rejected <;> cases c.success <;> cases c.cacheable <;> rfl

theorem stats_apply (cache : Cache) (op : CacheOp) :
    (op.apply cache).2.control.stats = cache.control.stats.after cache op := by
  cases op with
  | lookup key nowMs allowStale => exact stats_lookup cache key nowMs allowStale
  | begin key nowMs unknownKid cooldownMs => exact stats_begin cache key nowMs unknownKid cooldownMs
  | complete ticket c => exact stats_complete cache ticket c

theorem cacheBeginRefresh_found {cache : Cache} {key : Bytes} {nowMs : Int} {unknownKid : Bool}
    {cooldownMs : Int}
    (h : (cacheBeginRefresh cache key nowMs unknownKid cooldownMs).1 = .started) :
    ∃ existing, findRefreshSlot cache key nowMs =
      (some (cacheBeginRefresh cache key nowMs unknownKid cooldownMs).2.1.entryIndex, existing) := by
  unfold cacheBeginRefresh at h ⊢
  by_cases hv : (!validKey key || decide (nowMs < 0) || decide (cooldownMs < 0)) = true
  · simp [hv] at h
  rcases hf : findRefreshSlot cache key nowMs with ⟨_ | i, existing⟩
  · simp [hv, hf] at h
  simp only [hv, hf, Bool.false_eq_true, if_false] at h ⊢
  split at h
  · simp at h
  · split at h
    · simp at h
    · next hp hs => exact ⟨existing, by rw [if_neg hp, if_neg hs]⟩

/-- A level of the cache: how many slots are as `p` says. -/
def level (p : CacheEntry → Bool) (cache : Cache) : Nat := cache.entries.countP p

theorem level_lookup {p : CacheEntry → Bool} (hp : ∀ entry t, p { entry with lastUsedMs := t } = p entry)
    (cache : Cache) (key : Bytes) (nowMs : Int) (allowStale : Bool) :
    level p (cacheLookup cache key nowMs allowStale).2.2 = level p cache := by
  obtain ⟨-, ⟨-, -, hsame⟩ | ⟨i, entry, -, hslot, -, -, -, -, -, hset⟩⟩ :=
    cacheLookup_cases cache key nowMs allowStale
  · rw [level, hsame, level]
  · have := countP_set_add p hslot { entry with lastUsedMs := nowMs }
    rw [level, hset, level]
    rw [hp entry nowMs] at this
    omega

theorem level_begin {p : CacheEntry → Bool} {cache : Cache} {key : Bytes} {nowMs : Int}
    {unknownKid : Bool} {cooldownMs : Int}
    (h : (cacheBeginRefresh cache key nowMs unknownKid cooldownMs).1 ≠ .started) :
    level p (cacheBeginRefresh cache key nowMs unknownKid cooldownMs).2.2 = level p cache := by
  rcases cacheBeginRefresh_cases cache key nowMs unknownKid cooldownMs with
    ⟨-, -, hsame, -⟩ | ⟨hst, -⟩
  · rw [level, hsame, level]
  · exact absurd hst h

/-- A refresh comes under way when it is started and ends when its ticket is
recognised. -/
theorem refreshing_apply {cache : Cache} (h : cache.Inv) (op : CacheOp) :
    level (·.refreshing) (op.apply cache).2 + (op.releases cache).toNat =
      level (·.refreshing) cache + (op.begins .started cache).toNat := by
  cases op with
  | lookup key nowMs allowStale => exact level_lookup (fun _ _ => rfl) cache key nowMs allowStale
  | begin key nowMs unknownKid cooldownMs =>
    simp only [CacheOp.apply, CacheOp.releases, CacheOp.begins]
    rcases cacheBeginRefresh_cases cache key nowMs unknownKid cooldownMs with
      ⟨hne, -, -, -⟩ | ⟨hst, entry, existing, hs⟩
    · rw [level_begin hne, beq_false_of_ne hne]
    · have hset := countP_set_add (·.refreshing) hs.slot
        (startedEntry entry existing key nowMs unknownKid
          (cacheBeginRefresh cache key nowMs unknownKid cooldownMs).2.1.serial)
      rw [hs.not_refreshing h] at hset
      rw [level, hs.entries, hst]
      exact hset
  | complete ticket c =>
    simp only [CacheOp.apply, CacheOp.releases, CacheOp.begins]
    cases hp : pendingKey cache ticket with
    | none =>
      rw [cacheCompleteRefresh_of_not_owns (pendingKey_eq_none_iff.mp hp)]
      rfl
    | some key =>
      obtain ⟨entry, ho, -⟩ := pendingKey_eq_some_iff.mp hp
      have hset := countP_set_add (·.refreshing) ho.slot (completedEntry entry c)
      rw [ho.refreshing, completedEntry_not_refreshing] at hset
      rw [level, (cacheCompleteRefresh_of_owns ho c).2.1]
      exact hset

def CacheOp.vacates (cache : Cache) (op : CacheOp) : Bool :=
  op.evicts cache || op.clears cache

theorem occupied_begin (cache : Cache) (key : Bytes) (nowMs : Int) (unknownKid : Bool) (cooldownMs : Int) :
    level (·.occupied) (cacheBeginRefresh cache key nowMs unknownKid cooldownMs).2.2 +
        (CacheOp.evicts cache (.begin key nowMs unknownKid cooldownMs)).toNat =
      level (·.occupied) cache + (CacheOp.claims cache (.begin key nowMs unknownKid cooldownMs)).toNat := by
  simp only [CacheOp.evicts, CacheOp.claims, CacheOp.begins]
  rcases cacheBeginRefresh_cases cache key nowMs unknownKid cooldownMs with
    ⟨hne, -, -, -⟩ | ⟨hst, entry, existing, hs⟩
  · rw [level_begin hne, beq_false_of_ne hne]
    rfl
  · have hset := countP_set_add (·.occupied) hs.slot
      (startedEntry entry existing key nowMs unknownKid
        (cacheBeginRefresh cache key nowMs unknownKid cooldownMs).2.1.serial)
    have hnew := ownerKey_eq_some_iff.mp (@ownerKey_startedEntry entry existing key nowMs unknownKid
      (cacheBeginRefresh cache key nowMs unknownKid cooldownMs).2.1.serial fun hx => (hs.kept hx).1)
    rw [hnew.1] at hset
    obtain ⟨found, hf⟩ := cacheBeginRefresh_found hst
    rw [level, hs.entries, hst, ← existing_eq_any hf]
    cases found with
    | true =>
      -- The key keeps its slot.
      obtain ⟨e, hslot, hkept, -⟩ := findRefreshSlot_some hf
      obtain rfl := Option.some.inj (hslot.symm.trans hs.slot)
      rw [(ownerKey_eq_some_iff.mp (hkept rfl)).1] at hset
      exact Nat.add_right_cancel hset
    | false =>
      rw [occupied_eq_all hf hs.slot] at hset
      exact hset

theorem occupied_complete (cache : Cache) (ticket : CacheRefresh) (c : Completion) :
    level (·.occupied) (cacheCompleteRefresh cache ticket c).2 +
        (CacheOp.clears cache (.complete ticket c)).toNat = level (·.occupied) cache := by
  simp only [CacheOp.clears, CacheOp.releases]
  cases hp : pendingKey cache ticket with
  | none =>
    rw [cacheCompleteRefresh_of_not_owns (pendingKey_eq_none_iff.mp hp)]
    rfl
  | some key =>
    obtain ⟨entry, ho, -⟩ := pendingKey_eq_some_iff.mp hp
    have hlt := (List.getElem?_eq_some_iff.mp ho.slot).1
    have hset := countP_set_add (·.occupied) ho.slot (completedEntry entry c)
    rw [ho.occupied] at hset
    rw [level, (cacheCompleteRefresh_of_owns ho c).2.1, List.getD, List.getElem?_set_self hlt, level]
    simp only [Option.getD_some, Option.isSome_some, Bool.true_and]
    cases hocc : (completedEntry entry c).occupied <;> simp only [hocc] at hset <;> simpa using hset

/-- A slot is given to a key that has none. It is free again, or another key's, when
it is vacated. -/
theorem occupied_apply (cache : Cache) (op : CacheOp) :
    level (·.occupied) (op.apply cache).2 + (op.vacates cache).toNat =
      level (·.occupied) cache + (op.claims cache).toNat := by
  cases op with
  | lookup key nowMs allowStale => exact level_lookup (fun _ _ => rfl) cache key nowMs allowStale
  | begin key nowMs unknownKid cooldownMs =>
    have hclears : CacheOp.clears cache (.begin key nowMs unknownKid cooldownMs) = false := rfl
    rw [CacheOp.vacates, hclears, Bool.or_false]
    exact occupied_begin cache key nowMs unknownKid cooldownMs
  | complete ticket c =>
    have hclaims : CacheOp.claims cache (.complete ticket c) = false := rfl
    rw [CacheOp.vacates, CacheOp.evicts, hclaims, Bool.false_and, Bool.false_or]
    exact occupied_complete cache ticket c

theorem stateAt_length (cache : Cache) (ops : List CacheOp) :
    stateAt cache ops ops.length = ops.foldl (fun c op => (op.apply c).2) cache := by
  rw [stateAt, List.take_length]

section Runs

variable {capacity : Nat} {cache : Cache} (hinit : cacheInit capacity = some cache) (ops : List CacheOp)
include hinit

theorem cacheInit_eq : cache = ⟨List.replicate capacity .zero, ⟨1, {}⟩⟩ := by
  unfold cacheInit at hinit
  split at hinit
  · simp at hinit
  · exact (Option.some.inj hinit).symm

/-- One counter over a run. -/
theorem counter_run (field : CacheStats → Nat) (event : Cache → CacheOp → Bool)
    (hafter : ∀ stats c op, field (stats.after c op) = counted (field stats) (event c op))
    (hzero : field {} = 0) :
    field (stateAt cache ops ops.length).control.stats = min (occurrences cache ops event) uint64Max := by
  have hstep (c : Cache) (op : CacheOp) (hle : field c.control.stats ≤ uint64Max) :
      field (op.apply c).2.control.stats =
        min (field c.control.stats + (event c op).toNat) uint64Max := by
    rw [stats_apply, hafter, counted_eq_min hle]
  have hstart : field cache.control.stats = 0 := by rw [cacheInit_eq hinit, hzero]
  have hle : field cache.control.stats ≤ uint64Max := hstart ▸ Nat.zero_le _
  rw [stateAt_length, occurrences]
  simpa only [hstart, Nat.zero_add] using
    counter_eq_min (fun c op => (CacheOp.apply op c).2) (fun c => field c.control.stats) hstep hle ops

/-- The slots of one kind over a run. -/
theorem level_run (p : CacheEntry → Bool) (inflow outflow : Cache → CacheOp → Bool)
    (hstep : ∀ c op, Cache.Inv c →
      level p (CacheOp.apply op c).2 + (outflow c op).toNat = level p c + (inflow c op).toNat)
    (hzero : p .zero = false) :
    occurrences cache ops inflow =
      occurrences cache ops outflow + level p (stateAt cache ops ops.length) := by
  have hrun := level_add_count (fun c op => (CacheOp.apply op c).2) (level p)
    (fun _ op h => h.apply op) hstep (Cache.Inv.init hinit) ops
  have hempty : level p cache = 0 := by
    rw [cacheInit_eq hinit, level, List.countP_replicate, hzero]
    rfl
  rw [hempty, Nat.zero_add, ← stateAt_length] at hrun
  rw [occurrences, ← hrun, Nat.add_comm, occurrences]

end Runs

theorem occurrences_vacates (cache : Cache) (ops : List CacheOp) :
    occurrences cache ops CacheOp.vacates =
      occurrences cache ops CacheOp.evicts + occurrences cache ops CacheOp.clears := by
  unfold occurrences
  induction ops generalizing cache with
  | nil => rfl
  | cons op rest ih =>
    -- An operation that takes over a slot is a begin, one that clears a slot a completion.
    have hone : (op.vacates cache).toNat = (op.evicts cache).toNat + (op.clears cache).toNat := by
      have hnot : op.evicts cache = false ∨ op.clears cache = false := by
        cases op <;> simp [CacheOp.evicts, CacheOp.claims, CacheOp.begins, CacheOp.clears, CacheOp.releases]
      unfold CacheOp.vacates
      rcases hnot with h | h <;> simp [h]
    simp only [count, ih, hone]
    omega

/-- Over every run, a counter shows how often its event has happened, up to the
largest number it can hold. Refreshes and slots are never lost. -/
theorem cache_accounting {capacity : Nat} {cache : Cache} (hinit : cacheInit capacity = some cache)
    (ops : List CacheOp) :
    let last := stateAt cache ops ops.length
    let times := occurrences cache ops
    last.control.stats =
      { freshHits := min (times (CacheOp.finds .fresh)) uint64Max
        staleHits := min (times (CacheOp.finds .stale)) uint64Max
        misses := min (times (CacheOp.finds .miss)) uint64Max
        refreshes := min (times (CacheOp.begins .started)) uint64Max
        refreshSuppressions := min (times CacheOp.suppressed) uint64Max
        evictions := min (times CacheOp.evicts) uint64Max
        failures := min (times CacheOp.fails) uint64Max } ∧
    times (CacheOp.begins .started) = times CacheOp.releases + level (·.refreshing) last ∧
    times CacheOp.claims = times CacheOp.evicts + times CacheOp.clears + level (·.occupied) last := by
  intro last times
  refine ⟨?_, ?_, ?_⟩
  · simp only [times, last,
      ← counter_run hinit ops CacheStats.freshHits (CacheOp.finds .fresh) (fun _ _ _ => rfl) rfl,
      ← counter_run hinit ops CacheStats.staleHits (CacheOp.finds .stale) (fun _ _ _ => rfl) rfl,
      ← counter_run hinit ops CacheStats.misses (CacheOp.finds .miss) (fun _ _ _ => rfl) rfl,
      ← counter_run hinit ops CacheStats.refreshes (CacheOp.begins .started) (fun _ _ _ => rfl) rfl,
      ← counter_run hinit ops CacheStats.refreshSuppressions CacheOp.suppressed (fun _ _ _ => rfl) rfl,
      ← counter_run hinit ops CacheStats.evictions CacheOp.evicts (fun _ _ _ => rfl) rfl,
      ← counter_run hinit ops CacheStats.failures CacheOp.fails (fun _ _ _ => rfl) rfl]
  · exact level_run hinit ops (·.refreshing) _ _ (fun _ op h => refreshing_apply h op) rfl
  · rw [← occurrences_vacates]
    exact level_run hinit ops (·.occupied) _ _ (fun c op _ => occupied_apply c op) rfl

namespace Sample

def single : Cache := ⟨[.zero], ⟨1, {}⟩⟩

/-- One slot: a refresh that fails, a document, its hit, a key that finds no room and
takes the slot over once the document has expired. -/
def takeover : List CacheOp :=
  [.begin [1] 0 false 0, .complete ⟨0, 1⟩ ⟨0, false, false, false, 0, 0, []⟩, .begin [1] 1 false 0,
    .complete ⟨0, 2⟩ ⟨1, true, true, false, 10, 0, [7]⟩, .lookup [1] 5 false, .begin [2] 6 false 0,
    .begin [2] 20 false 0]

end Sample

theorem cache_accounting_takeover :
    let last := stateAt Sample.single Sample.takeover Sample.takeover.length
    last.control.stats = ⟨1, 0, 0, 3, 0, 1, 2⟩ ∧ level (·.refreshing) last = 1 ∧
      level (·.occupied) last = 1 := by
  obtain ⟨hstats, hrefreshes, hslots⟩ := @cache_accounting 1 Sample.single rfl Sample.takeover
  have hstarted : occurrences Sample.single Sample.takeover (CacheOp.begins .started) = 3 := by decide
  have hreleased : occurrences Sample.single Sample.takeover CacheOp.releases = 2 := by decide
  have hclaimed : occurrences Sample.single Sample.takeover CacheOp.claims = 3 := by decide
  have hevicted : occurrences Sample.single Sample.takeover CacheOp.evicts = 1 := by decide
  have hcleared : occurrences Sample.single Sample.takeover CacheOp.clears = 1 := by decide
  rw [hstarted, hreleased] at hrefreshes
  rw [hclaimed, hevicted, hcleared] at hslots
  exact ⟨hstats.trans (by decide), by omega, by omega⟩

end OAuthValidator
