import OAuthValidator.CacheInvariant
import OAuthValidator.ExpiringMap

/-! The fixed-slot cache refines an expiring map with tickets. -/

namespace OAuthValidator

open ExpiringMap

def storedOf (entry : CacheEntry) : Stored Bytes Int :=
  ⟨entry.payload, entry.freshUntilMs, entry.staleUntilMs⟩

def cacheMap (cache : Cache) (key : Bytes) : Option (Stored Bytes Int) :=
  (KeyedSlots.find valueKey cache.entries key).map storedOf

/-- The key a slot is being refreshed for under a ticket with this serial. -/
def pendingOf (entry : CacheEntry) (serial : Nat) : Option Bytes :=
  if entry.occupied && entry.refreshing && decide (entry.refreshSerial = serial) &&
      decide (serial ≠ 0) then
    some entry.key
  else none

def pendingKey (cache : Cache) (ticket : CacheRefresh) : Option Bytes :=
  cache.entries[ticket.entryIndex]?.bind fun entry => pendingOf entry ticket.serial

def abstractCache (cache : Cache) : State Bytes CacheRefresh Bytes Int :=
  ⟨cacheMap cache, pendingKey cache⟩

/-- The effect on its key of a completion whose ticket is pending. -/
def Completion.outcome (c : Completion) : Outcome Bytes Int :=
  if c.rejected || !c.success then .keep
  else if !c.cacheable then .drop
  else .put
    { value := c.payload
      freshUntil := min (c.nowMs + c.ttlMs) int64Max
      staleUntil :=
        if c.revalidationRequired then min (c.nowMs + c.ttlMs) int64Max
        else min (min (c.nowMs + c.ttlMs) int64Max + c.staleGraceMs) int64Max }

theorem Completion.outcome_put {c : Completion} {stored : Stored Bytes Int}
    (h : c.outcome = .put stored) : stored.value = c.payload := by
  unfold Completion.outcome at h
  split at h
  · simp at h
  · split at h
    · simp at h
    · obtain rfl := Outcome.put.inj h
      rfl

theorem pendingKey_eq_some_iff {cache : Cache} {ticket : CacheRefresh} {key : Bytes} :
    pendingKey cache ticket = some key ↔ ∃ entry, Owns cache ticket entry ∧ entry.key = key := by
  constructor
  · intro h
    obtain ⟨entry, he, hp⟩ := Option.bind_eq_some_iff.mp h
    unfold pendingOf at hp
    split at hp
    · next hc =>
      simp only [Bool.and_eq_true, decide_eq_true_eq] at hc
      exact ⟨entry, ⟨he, hc.1.1.1, hc.1.1.2, hc.1.2, hc.2⟩, Option.some.inj hp⟩
    · simp at hp
  · rintro ⟨entry, ho, rfl⟩
    simp [pendingKey, ho.slot, pendingOf, ho.occupied, ho.refreshing, ho.serial, ho.serial_ne]

theorem pendingKey_eq_none_iff {cache : Cache} {ticket : CacheRefresh} :
    pendingKey cache ticket = none ↔ ∀ entry, ¬ Owns cache ticket entry := by
  constructor
  · intro h entry ho
    have := pendingKey_eq_some_iff.mpr ⟨entry, ho, rfl⟩
    simp [h] at this
  · intro h
    cases hp : pendingKey cache ticket with
    | none => rfl
    | some key =>
      obtain ⟨entry, ho, _⟩ := pendingKey_eq_some_iff.mp hp
      exact absurd ho (h entry)

/-- A slot that is being refreshed has its ticket. -/
theorem Cache.Inv.pendingKey_of_refreshing {cache : Cache} (h : cache.Inv) {entry : CacheEntry}
    (hm : entry ∈ cache.entries) (hr : entry.refreshing = true) :
    ∃ ticket, pendingKey cache ticket = some entry.key := by
  obtain ⟨i, hi⟩ := List.getElem?_of_mem hm
  have hw := h.entries entry hm
  exact ⟨⟨i, entry.refreshSerial⟩, pendingKey_eq_some_iff.mpr
    ⟨entry, ⟨hi, hw.occupied_of_refreshing hr, hr, rfl, hw.serial hr⟩, rfl⟩⟩

theorem Owns.ownerKey {cache : Cache} {ticket : CacheRefresh} {entry : CacheEntry}
    (h : Owns cache ticket entry) : ownerKey entry = some entry.key :=
  ownerKey_eq_some_iff.mpr ⟨h.occupied, rfl⟩

/-- A slot that is not being refreshed has no ticket. -/
theorem Cache.Inv.pendingKey_ne {cache : Cache} (h : cache.Inv) {i : Nat} {entry : CacheEntry}
    (hslot : cache.entries[i]? = some entry) (hr : entry.refreshing = false) {key : Bytes}
    (hk : ownerKey entry = some key) (ticket : CacheRefresh) : pendingKey cache ticket ≠ some key := by
  intro hp
  obtain ⟨e, ho, rfl⟩ := pendingKey_eq_some_iff.mp hp
  have hi := h.distinct ho.slot hslot ho.ownerKey hk
  have he : e = entry := Option.some.inj (by rw [← ho.slot, hi, hslot])
  have hrefreshing := ho.refreshing
  rw [he, hr] at hrefreshing
  simp at hrefreshing

theorem Cache.Inv.valueDistinct {cache : Cache} (h : cache.Inv) :
    KeyedSlots.Distinct valueKey cache.entries :=
  h.distinct.mono fun _ _ _ hk => (valueKey_eq_some_iff.mp hk).1

theorem cacheMap_set {cache cache' : Cache} {i : Nat} {old entry : CacheEntry} (h : cache.Inv)
    (h' : cache'.Inv) (hentries : cache'.entries = cache.entries.set i entry)
    (hold : cache.entries[i]? = some old) (key : Bytes) :
    cacheMap cache' key =
      if valueKey entry = some key then some (storedOf entry)
      else if valueKey old = some key then none else cacheMap cache key := by
  have hd := h'.valueDistinct
  unfold cacheMap
  rw [hentries] at hd ⊢
  rw [KeyedSlots.find_set h.valueDistinct hd hold key]
  split
  · rfl
  · split <;> rfl

theorem pendingKey_set {cache cache' : Cache} {i : Nat} {old entry : CacheEntry}
    (hentries : cache'.entries = cache.entries.set i entry)
    (hold : cache.entries[i]? = some old) (ticket : CacheRefresh) :
    pendingKey cache' ticket =
      if ticket.entryIndex = i then pendingOf entry ticket.serial else pendingKey cache ticket := by
  have hi : i < cache.entries.length := (List.getElem?_eq_some_iff.mp hold).1
  unfold pendingKey
  rw [hentries]
  split
  · next ht => rw [ht, List.getElem?_set_self hi]; rfl
  · next ht => rw [List.getElem?_set_ne (Ne.symm ht)]

/-- Rewriting a slot without touching its key, value or refresh state is
invisible. -/
theorem abstractCache_set_same {cache cache' : Cache} {i : Nat} {old entry : CacheEntry}
    (h : cache.Inv) (h' : cache'.Inv) (hentries : cache'.entries = cache.entries.set i entry)
    (hold : cache.entries[i]? = some old) (hv : valueKey entry = valueKey old)
    (hs : storedOf entry = storedOf old) (hp : pendingOf entry = pendingOf old) :
    abstractCache cache' = abstractCache cache := by
  unfold abstractCache
  congr 1
  · funext key
    rw [cacheMap_set h h' hentries hold key, hv]
    split
    · next hk =>
      rw [hs]
      unfold cacheMap
      rw [KeyedSlots.find_of_getElem? h.valueDistinct hold hk]
      rfl
    · rfl
  · funext ticket
    rw [pendingKey_set hentries hold ticket]
    split
    · next ht => rw [hp, pendingKey, ht, hold]; rfl
    · rfl

theorem abstractCache_of_entries_eq {cache cache' : Cache} (h : cache'.entries = cache.entries) :
    abstractCache cache' = abstractCache cache := by
  unfold abstractCache cacheMap pendingKey
  rw [h]

theorem abstractCache_lookup {cache : Cache} (h : cache.Inv) (key : Bytes) (nowMs : Int)
    (allowStale : Bool) :
    abstractCache (cacheLookup cache key nowMs allowStale).2.2 = abstractCache cache := by
  obtain ⟨_, ⟨_, _, he⟩ | ⟨i, entry, _, hslot, _, _, _, _, _, he⟩⟩ :=
    cacheLookup_cases cache key nowMs allowStale
  · exact abstractCache_of_entries_eq he
  · exact abstractCache_set_same h (h.lookup key nowMs allowStale) he hslot rfl rfl rfl

theorem cacheMap_eq_some_iff {cache : Cache} (h : cache.Inv) {key : Bytes}
    {stored : Stored Bytes Int} :
    cacheMap cache key = some stored ↔ ∃ (i : Nat) (entry : CacheEntry),
      cache.entries[i]? = some entry ∧ valueKey entry = some key ∧ storedOf entry = stored := by
  unfold cacheMap
  rw [Option.map_eq_some_iff]
  constructor
  · rintro ⟨entry, hf, hs⟩
    obtain ⟨i, hi, hk⟩ := (KeyedSlots.find_eq_some_iff h.valueDistinct).mp hf
    exact ⟨i, entry, hi, hk, hs⟩
  · rintro ⟨i, entry, hi, hk, hs⟩
    exact ⟨entry, KeyedSlots.find_of_getElem? h.valueDistinct hi hk, hs⟩

/-- A slot without a value keeps its key out of the map. -/
theorem cacheMap_eq_none {cache : Cache} (h : cache.Inv) {i : Nat} {entry : CacheEntry}
    (hslot : cache.entries[i]? = some entry) (ho : entry.occupied = true)
    (hv : entry.hasValue = false) : cacheMap cache entry.key = none := by
  by_contra hne
  obtain ⟨stored, hm⟩ := Option.ne_none_iff_exists'.mp hne
  obtain ⟨j, e, hj, hk, _⟩ := (cacheMap_eq_some_iff h).mp hm
  have hke := valueKey_eq_some_iff.mp hk
  have hij := h.distinct hj hslot hke.1 (ownerKey_eq_some_iff.mpr ⟨ho, rfl⟩)
  subst hij
  rw [hslot] at hj
  obtain rfl := Option.some.inj hj
  simp [hv] at hke

theorem pendingOf_eq_none {entry : CacheEntry} (h : entry.refreshing = false) (serial : Nat) :
    pendingOf entry serial = none := by
  simp [pendingOf, h]

theorem valueKey_startedEntry_existing (entry : CacheEntry) (key : Bytes) (nowMs : Int)
    (unknownKid : Bool) (serial : Nat) :
    valueKey (startedEntry entry true key nowMs unknownKid serial) = valueKey entry ∧
      storedOf (startedEntry entry true key nowMs unknownKid serial) = storedOf entry := by
  cases unknownKid <;> exact ⟨rfl, rfl⟩

theorem valueKey_startedEntry_new (entry : CacheEntry) (key : Bytes) (nowMs : Int)
    (unknownKid : Bool) (serial : Nat) :
    valueKey (startedEntry entry false key nowMs unknownKid serial) = none := by
  cases unknownKid <;> rfl

section Begin

variable {cache cache' : Cache} {key : Bytes} {nowMs cooldownMs : Int} {unknownKid existing : Bool}
  {ticket : CacheRefresh} {entry : CacheEntry}

theorem Started.not_refreshing (h : cache.Inv)
    (hst : Started cache key nowMs unknownKid cooldownMs ticket cache' entry existing) :
    entry.refreshing = false := by
  cases existing with
  | true => exact (hst.kept rfl).2.1
  | false =>
    rcases (hst.taken rfl).2 with ho | hev
    · rw [(h.entries entry (List.mem_of_getElem? hst.slot)).clear ho]
      rfl
    · exact hev.2.1

theorem Started.idle (h : cache.Inv)
    (hst : Started cache key nowMs unknownKid cooldownMs ticket cache' entry existing)
    (t : CacheRefresh) : pendingKey cache t ≠ some key := by
  cases existing with
  | true => exact h.pendingKey_ne hst.slot (hst.not_refreshing h) (hst.kept rfl).1 t
  | false =>
    intro hp
    obtain ⟨e, ho, hk⟩ := pendingKey_eq_some_iff.mp hp
    exact (hst.taken rfl).1 e (List.mem_of_getElem? ho.slot) (hk ▸ ho.ownerKey)

theorem Started.pending (h : cache.Inv)
    (hst : Started cache key nowMs unknownKid cooldownMs ticket cache' entry existing) :
    pendingKey cache' = Function.update (pendingKey cache) ticket (some key) := by
  funext t
  rw [pendingKey_set hst.entries hst.slot t, Function.update_apply]
  have hk := ownerKey_eq_some_iff.mp (ownerKey_startedEntry nowMs unknownKid ticket.serial
    fun hx => (hst.kept hx).1)
  by_cases hi : t.entryIndex = ticket.entryIndex
  · rw [if_pos hi]
    by_cases hs : t.serial = ticket.serial
    · have ht : t = ticket := by
        cases t; cases ticket; simp_all
      have hne : ticket.serial ≠ 0 := hst.serial ▸ h.serial
      rw [if_pos ht, hs]
      simp only [pendingOf, hk.1, hk.2]
      simp [startedEntry, hne]
    · have ht : t ≠ ticket := fun he => hs (he ▸ rfl)
      rw [if_neg ht]
      have hold : pendingKey cache t = none := by
        rw [pendingKey, hi, hst.slot]
        exact pendingOf_eq_none (hst.not_refreshing h) _
      rw [hold]
      simp [pendingOf, startedEntry, Ne.symm hs]
  · have ht : t ≠ ticket := fun he => hi (he ▸ rfl)
    rw [if_neg hi, if_neg ht]

theorem Started.map_absent (h : cache.Inv) (h' : cache'.Inv)
    (hst : Started cache key nowMs unknownKid cooldownMs ticket cache' entry false) :
    MakesRoom (abstractCache cache) nowMs (cacheMap cache') := by
  have hnew := valueKey_startedEntry_new entry key nowMs unknownKid ticket.serial
  have hset := cacheMap_set h h' hst.entries hst.slot
  rw [hnew] at hset
  simp only [reduceCtorEq, if_false] at hset
  rcases (hst.taken rfl).2 with ho | hev
  · refine Or.inl (funext fun k => ?_)
    have hv : valueKey entry = none := by simp [valueKey, ho]
    rw [hset k, hv]
    rfl
  · have hw := h.entries entry (List.mem_of_getElem? hst.slot)
    have hval : entry.hasValue = true := by
      rcases hw.live hev.1 with hv | hr
      · exact hv
      · simp [hev.2.1] at hr
    have hv : valueKey entry = some entry.key :=
      valueKey_eq_some_iff.mpr ⟨ownerKey_eq_some_iff.mpr ⟨hev.1, rfl⟩, hval⟩
    have hidle := h.pendingKey_ne hst.slot hev.2.1 (ownerKey_eq_some_iff.mpr ⟨hev.1, rfl⟩)
    refine Or.inr ⟨entry.key, storedOf entry, ?_, hev.2.2, hidle, funext fun k => ?_⟩
    · exact (cacheMap_eq_some_iff h).mpr ⟨_, entry, hst.slot, hv, rfl⟩
    · rw [hset k, hv, Function.update_apply]
      by_cases hk : k = entry.key
      · simp [hk]
      · simp [hk, Ne.symm hk, abstractCache]

/-- A begin that answers STARTED begins a renewal of its key. -/
theorem Started.begins (h : cache.Inv) (h' : cache'.Inv)
    (hst : Started cache key nowMs unknownKid cooldownMs ticket cache' entry existing) :
    Begins (abstractCache cache) key nowMs ticket (abstractCache cache') := by
  have hunused : pendingKey cache ticket = none := by
    rw [pendingKey, hst.slot]
    exact pendingOf_eq_none (hst.not_refreshing h) _
  refine ⟨hst.idle h, hunused, hst.pending h, fun hm => ?_, fun hm => ?_⟩
  · cases existing with
    | true =>
      have hv := valueKey_startedEntry_existing entry key nowMs unknownKid ticket.serial
      funext k
      show cacheMap cache' k = cacheMap cache k
      rw [cacheMap_set h h' hst.entries hst.slot k, hv.1, hv.2]
      split
      · next hk => exact ((cacheMap_eq_some_iff h).mpr ⟨_, entry, hst.slot, hk, rfl⟩).symm
      · rfl
    | false =>
      obtain ⟨stored, hs⟩ := Option.ne_none_iff_exists'.mp hm
      obtain ⟨i, e, he, hk, _⟩ := (cacheMap_eq_some_iff h).mp hs
      exact absurd (valueKey_eq_some_iff.mp hk).1
        ((hst.taken rfl).1 e (List.mem_of_getElem? he))
  · cases existing with
    | true =>
      -- no slot is dead, so the key would have had a value
      have hkept := hst.kept rfl
      have hval := (h.entries entry (List.mem_of_getElem? hst.slot)).live
        (ownerKey_eq_some_iff.mp hkept.1).1
      simp only [hkept.2.1, Bool.false_eq_true, or_false] at hval
      have := (cacheMap_eq_some_iff h).mpr
        ⟨_, entry, hst.slot, valueKey_eq_some_iff.mpr ⟨hkept.1, hval⟩, rfl⟩
      simp only [abstractCache] at hm
      simp [hm] at this
    | false => exact hst.map_absent h h'

end Begin

theorem completedEntry_not_refreshing (entry : CacheEntry) (c : Completion) :
    (completedEntry entry c).refreshing = false := by
  unfold completedEntry releaseEntry
  split
  · split <;> rfl
  · split <;> rfl

theorem valueKey_releaseEntry (entry : CacheEntry) :
    valueKey (releaseEntry entry) = valueKey entry ∧
      (entry.hasValue = true → storedOf (releaseEntry entry) = storedOf entry) := by
  unfold releaseEntry
  split
  · exact ⟨rfl, fun _ => rfl⟩
  · next hv => exact ⟨by simp [valueKey, CacheEntry.zero, hv], fun h => absurd h hv⟩

theorem valueKey_publishEntry {entry : CacheEntry} (ho : entry.occupied = true) (c : Completion) :
    valueKey (publishEntry entry c) = some entry.key := by
  simp [valueKey, publishEntry, ho]

/-- The map after the slot of a ticket has been completed. -/
theorem Owns.map_completedEntry {cache : Cache} {ticket : CacheRefresh} {entry : CacheEntry}
    (h : cache.Inv) (ho : Owns cache ticket entry) (c : Completion) (k : Bytes) :
    (if valueKey (completedEntry entry c) = some k then some (storedOf (completedEntry entry c))
      else if valueKey entry = some k then none else cacheMap cache k) =
      c.outcome.apply entry.key (cacheMap cache) k := by
  have hother : k ≠ entry.key → valueKey entry ≠ some k := fun hk hv =>
    hk (ownerKey_eq_some_iff.mp (valueKey_eq_some_iff.mp hv).1).2.symm
  unfold completedEntry Completion.outcome
  by_cases hr : (c.rejected || !c.success) = true
  · rw [if_pos hr, if_pos hr, (valueKey_releaseEntry entry).1]
    by_cases hk : valueKey entry = some k
    · rw [if_pos hk, (valueKey_releaseEntry entry).2 (valueKey_eq_some_iff.mp hk).2]
      exact ((cacheMap_eq_some_iff h).mpr ⟨_, entry, ho.slot, hk, rfl⟩).symm
    · rw [if_neg hk, if_neg hk]
      rfl
  · rw [if_neg hr, if_neg hr]
    by_cases hc : (!c.cacheable) = true
    · rw [if_pos hc, if_pos hc]
      show (if valueKey entry = some k then none else cacheMap cache k) =
        Function.update (cacheMap cache) entry.key none k
      rw [Function.update_apply]
      by_cases hk : k = entry.key
      · rw [if_pos hk]
        split
        · rfl
        · next hv =>
          subst hk
          apply cacheMap_eq_none h ho.slot ho.occupied
          by_contra hne
          exact hv (valueKey_eq_some_iff.mpr ⟨ho.ownerKey, by simpa using hne⟩)
      · rw [if_neg hk, if_neg (hother hk)]
    · rw [if_neg hc, if_neg hc, valueKey_publishEntry ho.occupied]
      show _ = Function.update (cacheMap cache) entry.key _ k
      rw [Function.update_apply]
      by_cases hk : k = entry.key
      · rw [if_pos (hk ▸ rfl), if_pos hk]
        simp only [storedOf, publishEntry, boundedAdd_eq_min]
      · rw [if_neg (fun he => hk (Option.some.inj he).symm), if_neg hk, if_neg (hother hk)]

/-- A completion under a recognised ticket completes the renewal of the key
in the ticket's slot. -/
theorem Owns.completes {cache : Cache} {ticket : CacheRefresh} {entry : CacheEntry}
    (h : cache.Inv) (ho : Owns cache ticket entry) (c : Completion) :
    Completes (abstractCache cache) ticket entry.key c.outcome
      (abstractCache (cacheCompleteRefresh cache ticket c).2) := by
  obtain ⟨_, hentries, _⟩ := cacheCompleteRefresh_of_owns ho c
  have h' := h.complete ticket c
  refine ⟨pendingKey_eq_some_iff.mpr ⟨entry, ho, rfl⟩, funext fun t => ?_, funext fun k => ?_⟩
  · show pendingKey _ t = _
    rw [pendingKey_set hentries ho.slot t, Function.update_apply,
      pendingOf_eq_none (completedEntry_not_refreshing entry c)]
    by_cases hi : t.entryIndex = ticket.entryIndex
    · by_cases ht : t = ticket
      · rw [if_pos hi, if_pos ht]
      · have hs : t.serial ≠ ticket.serial := by
          intro hs
          apply ht
          cases t; cases ticket; simp_all
        rw [if_pos hi, if_neg ht]
        simp [abstractCache, pendingKey, hi, ho.slot, pendingOf, ho.serial, Ne.symm hs]
    · have ht : t ≠ ticket := fun he => hi (he ▸ rfl)
      rw [if_neg hi, if_neg ht]
      rfl
  · show cacheMap _ k = _
    rw [cacheMap_set h h' hentries ho.slot k]
    exact ho.map_completedEntry h c k

end OAuthValidator
