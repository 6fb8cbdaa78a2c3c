import OAuthValidator.CacheState
import OAuthValidator.KeyedSlots
import OAuthValidator.SlotScan
import Mathlib.Data.Int.Order.Basic

/-! What one cache operation can do. Every later invariant is derived from the
case analyses of this module and never unfolds an operation again. -/

namespace OAuthValidator

open SlotScan

/-- The key a slot is occupied by. -/
def ownerKey (entry : CacheEntry) : Option Bytes :=
  if entry.occupied then some entry.key else none

theorem ownerKey_eq_some_iff {entry : CacheEntry} {key : Bytes} :
    ownerKey entry = some key ↔ entry.occupied = true ∧ entry.key = key := by
  unfold ownerKey
  split <;> simp_all

theorem sameKey_eq_true_iff {entry : CacheEntry} {key : Bytes} :
    sameKey entry key = true ↔ ownerKey entry = some key := by
  simp [sameKey, ownerKey_eq_some_iff]

theorem sameKey_eq_false_iff {entry : CacheEntry} {key : Bytes} :
    sameKey entry key = false ↔ ownerKey entry ≠ some key := by
  rw [ne_eq, ← sameKey_eq_true_iff, Bool.not_eq_true]

/-- A slot that a refresh of another key may take over at `nowMs`. -/
def Evictable (entry : CacheEntry) (nowMs : Int) : Prop :=
  entry.occupied = true ∧ entry.refreshing = false ∧ entry.staleUntilMs ≤ nowMs

/-- A slot is taken for the key. -/
def Occupied (cache : Cache) (key : Bytes) : Prop :=
  ∃ entry ∈ cache.entries, ownerKey entry = some key

/-- What the scan for the slot of a refresh has found in the slots before. -/
structure Scanned (key : Bytes) (nowMs : Int) (scanned : List CacheEntry) (empty victim : Option Nat)
    (victimLastUsed : Int) : Prop where
  absent : ∀ entry ∈ scanned, ownerKey entry ≠ some key
  empty : FirstIn (fun entry : CacheEntry => entry.occupied = false) scanned empty
  victim : LeastIn (Evictable · nowMs) CacheEntry.lastUsedMs scanned victim victimLastUsed

theorem Scanned.start (key : Bytes) (nowMs lastUsed : Int) : Scanned key nowMs [] none none lastUsed :=
  ⟨by simp, by simp [FirstIn], by simp [LeastIn]⟩

section Scan

variable {key : Bytes} {nowMs lastUsed : Int} {scanned : List CacheEntry} {empty victim : Option Nat}
  {entry : CacheEntry}

theorem Scanned.absent_snoc (h : Scanned key nowMs scanned empty victim lastUsed)
    (hk : ownerKey entry ≠ some key) : ∀ e ∈ scanned ++ [entry], ownerKey e ≠ some key := by
  intro e he
  rcases List.mem_append.mp he with he | he
  · exact h.absent e he
  · rw [List.mem_singleton.mp he]
    exact hk

theorem Scanned.free (h : Scanned key nowMs scanned empty victim lastUsed)
    (hk : ownerKey entry ≠ some key) (hfree : entry.occupied = false) (hnone : empty = none) :
    Scanned key nowMs (scanned ++ [entry]) (some scanned.length) victim lastUsed := by
  subst hnone
  refine ⟨h.absent_snoc hk, h.empty.found hfree, h.victim.keep fun hev => ?_⟩
  have hoccupied := hev.1
  rw [hfree] at hoccupied
  simp at hoccupied

theorem Scanned.lower (h : Scanned key nowMs scanned empty victim lastUsed)
    (hk : ownerKey entry ≠ some key) (hev : Evictable entry nowMs)
    (hlt : victim ≠ none → entry.lastUsedMs < lastUsed) :
    Scanned key nowMs (scanned ++ [entry]) empty (some scanned.length) entry.lastUsedMs := by
  refine ⟨h.absent_snoc hk, h.empty.keep fun _ hfree => ?_, h.victim.lower hev hlt⟩
  rw [hev.1] at hfree
  simp at hfree

theorem Scanned.skip (h : Scanned key nowMs scanned empty victim lastUsed)
    (hk : ownerKey entry ≠ some key) (hfull : empty = none → entry.occupied = true)
    (hkept : Evictable entry nowMs → victim ≠ none ∧ lastUsed ≤ entry.lastUsedMs) :
    Scanned key nowMs (scanned ++ [entry]) empty victim lastUsed := by
  refine ⟨h.absent_snoc hk, h.empty.keep fun hnone hfree => ?_, h.victim.keep hkept⟩
  rw [hfull hnone] at hfree
  simp at hfree

/-- The scan stops at the key, or has looked at every slot. -/
theorem findRefreshSlotFrom_cases (rest : List CacheEntry)
    (h : Scanned key nowMs scanned empty victim lastUsed) :
    (∃ i entry, findRefreshSlotFrom key nowMs rest scanned.length empty victim lastUsed = (some i, true) ∧
      (scanned ++ rest)[i]? = some entry ∧ ownerKey entry = some key) ∨
    ∃ empty' victim' lastUsed', Scanned key nowMs (scanned ++ rest) empty' victim' lastUsed' ∧
      findRefreshSlotFrom key nowMs rest scanned.length empty victim lastUsed =
        (if empty'.isSome then empty' else victim', false) := by
  induction rest generalizing scanned empty victim lastUsed with
  | nil => exact Or.inr ⟨empty, victim, lastUsed, by simpa using h, rfl⟩
  | cons entry rest ih =>
    have hsplit : scanned ++ entry :: rest = scanned ++ [entry] ++ rest := by simp
    have hlength : scanned.length + 1 = (scanned ++ [entry]).length := by simp
    rw [findRefreshSlotFrom, hsplit, hlength]
    by_cases hs : sameKey entry key = true
    · rw [if_pos hs]
      have hslot : (scanned ++ [entry] ++ rest)[scanned.length]? = some entry := by simp
      exact Or.inl ⟨_, entry, rfl, hslot, sameKey_eq_true_iff.mp hs⟩
    rw [if_neg hs]
    have hk : ownerKey entry ≠ some key := sameKey_eq_false_iff.mp (by simpa using hs)
    split
    · next hfree =>
      simp only [Bool.and_eq_true, Bool.not_eq_eq_eq_not, Bool.not_true, Option.isNone_iff_eq_none] at hfree
      exact ih (h.free hk hfree.1 hfree.2)
    · next hfull =>
      have hfull' : empty = none → entry.occupied = true := by
        rintro rfl
        simpa using hfull
      split
      · next hev =>
        simp only [Bool.and_eq_true, Bool.not_eq_eq_eq_not, Bool.not_true, Bool.or_eq_true,
          Option.isNone_iff_eq_none, decide_eq_true_eq] at hev
        obtain ⟨⟨⟨ho, hr⟩, hexpired⟩, hlow⟩ := hev
        exact ih (h.lower hk ⟨ho, hr, hexpired⟩ fun hne => hlow.resolve_left hne)
      · next hnot =>
        refine ih (h.skip hk hfull' fun hev => ?_)
        simp only [hev.1, hev.2.1, Bool.not_false, Bool.and_true, Bool.true_and, Bool.and_eq_true,
          decide_eq_true_eq, Bool.or_eq_true, Option.isNone_iff_eq_none, not_and, not_or] at hnot
        have hkeep := hnot hev.2.2
        exact ⟨hkeep.1, by omega⟩

end Scan

/-- The slot that is chosen for an absent key: the first free one, or else the
expired one that was used least recently. -/
inductive SlotChosen (entries : List CacheEntry) (nowMs : Int) : Option Nat → Prop
  | free {i : Nat} (first : FirstIn (fun entry : CacheEntry => entry.occupied = false) entries (some i)) :
      SlotChosen entries nowMs (some i)
  | expired {i : Nat} {lastUsed : Int} (full : ∀ entry ∈ entries, entry.occupied = true)
      (least : LeftmostLeast (Evictable · nowMs) CacheEntry.lastUsedMs entries i lastUsed) :
      SlotChosen entries nowMs (some i)
  | none (full : ∀ entry ∈ entries, entry.occupied = true)
      (live : ∀ entry ∈ entries, ¬ Evictable entry nowMs) : SlotChosen entries nowMs none

theorem Scanned.chosen {key : Bytes} {nowMs lastUsed : Int} {entries : List CacheEntry}
    {empty victim : Option Nat} (h : Scanned key nowMs entries empty victim lastUsed) :
    SlotChosen entries nowMs (if empty.isSome then empty else victim) := by
  cases empty with
  | some i => exact .free h.empty
  | none =>
    have hfull : ∀ entry ∈ entries, entry.occupied = true := fun entry he => by
      simpa using h.empty entry he
    cases victim with
    | some i => exact .expired hfull h.victim
    | none => exact .none hfull h.victim

theorem SlotChosen.slot {entries : List CacheEntry} {nowMs : Int} {i : Nat}
    (h : SlotChosen entries nowMs (some i)) :
    ∃ entry, entries[i]? = some entry ∧ (entry.occupied = false ∨ Evictable entry nowMs) := by
  cases h with
  | free first =>
    obtain ⟨⟨entry, hslot, hfree⟩, _⟩ := first
    exact ⟨entry, hslot, Or.inl hfree⟩
  | expired _ least =>
    obtain ⟨entry, hslot, hev, _⟩ := least.slot
    exact ⟨entry, hslot, Or.inr hev⟩

/-- The scan finds the slot of the key, or the one chosen for it. -/
theorem findRefreshSlot_cases (cache : Cache) (key : Bytes) (nowMs : Int) :
    (∃ i entry, findRefreshSlot cache key nowMs = (some i, true) ∧ cache.entries[i]? = some entry ∧
      ownerKey entry = some key) ∨
    ∃ slot, findRefreshSlot cache key nowMs = (slot, false) ∧ ¬ Occupied cache key ∧
      SlotChosen cache.entries nowMs slot := by
  rcases findRefreshSlotFrom_cases cache.entries (Scanned.start key nowMs int64Max) with
    ⟨i, entry, hf, hslot, hk⟩ | ⟨empty, victim, lastUsed, hscan, hf⟩
  · exact Or.inl ⟨i, entry, hf, hslot, hk⟩
  · exact Or.inr ⟨_, hf, fun ⟨entry, he, hk⟩ => hscan.absent entry he hk, hscan.chosen⟩

/-- The slot written by a started refresh. -/
def startedEntry (entry : CacheEntry) (existing : Bool) (key : Bytes) (nowMs : Int)
    (unknownKid : Bool) (serial : Nat) : CacheEntry :=
  { noteUnknownKid (claimEntry entry existing key nowMs) unknownKid nowMs with
    refreshing := true, refreshSerial := serial }

/-- What a begin that answers STARTED has found and written. -/
structure Started (cache : Cache) (key : Bytes) (nowMs : Int) (unknownKid : Bool)
    (cooldownMs : Int) (ticket : CacheRefresh) (cache' : Cache) (entry : CacheEntry)
    (existing : Bool) : Prop where
  valid : validKey key = true
  now_nonneg : 0 ≤ nowMs
  cooldown_nonneg : 0 ≤ cooldownMs
  slot : cache.entries[ticket.entryIndex]? = some entry
  serial : ticket.serial = cache.control.nextRefreshSerial
  entries : cache'.entries = cache.entries.set ticket.entryIndex
    (startedEntry entry existing key nowMs unknownKid ticket.serial)
  next : cache'.control.nextRefreshSerial = advanceSerial cache.control.nextRefreshSerial
  kept : existing = true → ownerKey entry = some key ∧ entry.refreshing = false ∧
    (unknownKid = true → entry.hasUnknownKidRefresh = true →
      cooldownMs ≤ nowMs - entry.lastUnknownKidRefreshMs)
  taken : existing = false → (∀ e ∈ cache.entries, ownerKey e ≠ some key) ∧
    (entry.occupied = false ∨ Evictable entry nowMs)

theorem findRefreshSlot_some {cache : Cache} {key : Bytes} {nowMs : Int} {i : Nat} {existing : Bool}
    (h : findRefreshSlot cache key nowMs = (some i, existing)) :
    ∃ entry, cache.entries[i]? = some entry ∧
      (existing = true → ownerKey entry = some key) ∧
      (existing = false → (∀ e ∈ cache.entries, ownerKey e ≠ some key) ∧
        (entry.occupied = false ∨ Evictable entry nowMs)) := by
  rcases findRefreshSlot_cases cache key nowMs with ⟨j, entry, hf, hslot, hk⟩ | ⟨slot, hf, habsent, hc⟩
  · obtain ⟨hj, rfl⟩ := Prod.mk.inj (hf.symm.trans h)
    obtain rfl := Option.some.inj hj
    exact ⟨entry, hslot, fun _ => hk, by simp⟩
  · obtain ⟨rfl, rfl⟩ := Prod.mk.inj (hf.symm.trans h)
    obtain ⟨entry, hslot, hgone⟩ := hc.slot
    exact ⟨entry, hslot, by simp, fun _ => ⟨fun e he hk => habsent ⟨e, he, hk⟩, hgone⟩⟩

/-- A begin either starts a refresh or leaves every slot and the serial
counter as they were. -/
theorem cacheBeginRefresh_cases (cache : Cache) (key : Bytes) (nowMs : Int) (unknownKid : Bool)
    (cooldownMs : Int) :
    let result := cacheBeginRefresh cache key nowMs unknownKid cooldownMs
    (result.1 ≠ .started ∧ result.2.1 = noRefresh ∧ result.2.2.entries = cache.entries ∧
      result.2.2.control.nextRefreshSerial = cache.control.nextRefreshSerial) ∨
    (result.1 = .started ∧ ∃ entry existing,
      Started cache key nowMs unknownKid cooldownMs result.2.1 result.2.2 entry existing) := by
  intro result
  by_cases hv : (!validKey key || decide (nowMs < 0) || decide (cooldownMs < 0)) = true
  · left
    simp only [result, cacheBeginRefresh, hv, if_true]
    simp
  have hv' : validKey key = true ∧ 0 ≤ nowMs ∧ 0 ≤ cooldownMs := by
    simp only [Bool.or_eq_true, not_or, decide_eq_true_eq, Bool.not_eq_eq_eq_not, Bool.not_true] at hv
    exact ⟨by simpa using hv.1.1, by omega, by omega⟩
  rcases hf : findRefreshSlot cache key nowMs with ⟨_ | i, existing⟩
  · left
    simp only [result, cacheBeginRefresh, hv, hf]
    exact ⟨by simp, rfl, rfl, rfl⟩
  obtain ⟨entry, he, hkept, htaken⟩ := findRefreshSlot_some hf
  have hget : cache.entries.getD i .zero = entry := by simp [List.getD, he]
  by_cases hp : (existing && entry.refreshing) = true
  · left
    simp only [result, cacheBeginRefresh, hv, hf, hget, hp, if_true]
    exact ⟨by simp, rfl, rfl, rfl⟩
  by_cases hs : (existing && unknownKid && entry.hasUnknownKidRefresh &&
      decide (nowMs - entry.lastUnknownKidRefreshMs < cooldownMs)) = true
  · left
    simp only [result, cacheBeginRefresh, hv, hf, hget, hp, hs, if_true]
    exact ⟨by simp, rfl, rfl, rfl⟩
  · right
    simp only [result, cacheBeginRefresh, hv, hf, hget, hp, hs, Bool.false_eq_true, if_false]
    refine ⟨trivial, entry, existing, hv'.1, hv'.2.1, hv'.2.2, he, rfl, rfl, rfl, ?_, htaken⟩
    rintro rfl
    refine ⟨hkept rfl, by simpa using hp, fun hu hh => ?_⟩
    simp [hu, hh] at hs
    exact hs

/-- While no refresh is under way and a slot can be had, a begin is held back by
nothing but the cooldown. -/
theorem cacheBeginRefresh_idle {cache : Cache} {key : Bytes} {nowMs cooldownMs : Int}
    (unknownKid : Bool) (hk : validKey key = true) (hn : 0 ≤ nowMs) (hc : 0 ≤ cooldownMs)
    (hidle : ∀ entry ∈ cache.entries, entry.refreshing = false)
    (hslot : (findRefreshSlot cache key nowMs).1 ≠ none) :
    (cacheBeginRefresh cache key nowMs unknownKid cooldownMs).1 = .started ∨
      (unknownKid = true ∧
        (cacheBeginRefresh cache key nowMs unknownKid cooldownMs).1 = .suppressed) := by
  have hv : (!validKey key || decide (nowMs < 0) || decide (cooldownMs < 0)) = false := by
    simp [hk, hn, hc]
  rcases hf : findRefreshSlot cache key nowMs with ⟨_ | i, existing⟩
  · simp [hf] at hslot
  · obtain ⟨entry, he, _, _⟩ := findRefreshSlot_some hf
    have hget : cache.entries.getD i .zero = entry := by simp [List.getD, he]
    have hr : entry.refreshing = false := hidle entry (List.mem_of_getElem? he)
    simp only [cacheBeginRefresh, hv, hf, hget, hr, Bool.and_false, Bool.false_eq_true, if_false]
    split
    · next hs =>
      simp only [Bool.and_eq_true] at hs
      exact Or.inr ⟨hs.1.1.2, rfl⟩
    · exact Or.inl rfl

/-- A begin is suppressed for a key whose slot remembers a recent refresh. -/
theorem cacheBeginRefresh_suppressed {cache : Cache} {key : Bytes} {nowMs cooldownMs : Int}
    {unknownKid : Bool} (h : (cacheBeginRefresh cache key nowMs unknownKid cooldownMs).1 = .suppressed) :
    ∃ (i : Nat) (entry : CacheEntry), cache.entries[i]? = some entry ∧ ownerKey entry = some key ∧
      entry.hasUnknownKidRefresh = true ∧ nowMs - entry.lastUnknownKidRefreshMs < cooldownMs := by
  unfold cacheBeginRefresh at h
  simp only at h
  split at h
  · simp at h
  · split at h
    · simp at h
    · next i existing hf =>
      obtain ⟨entry, hslot, hkept, _⟩ := findRefreshSlot_some hf
      have hget : cache.entries.getD i .zero = entry := by simp [List.getD, hslot]
      rw [hget] at h
      split at h
      · simp at h
      · split at h
        · next hs =>
          simp only [Bool.and_eq_true, decide_eq_true_eq] at hs
          exact ⟨i, entry, hslot, hkept hs.1.1.1, hs.1.2, hs.2⟩
        · simp at h

/-- The slot a ticket gives the right to complete. -/
structure Owns (cache : Cache) (ticket : CacheRefresh) (entry : CacheEntry) : Prop where
  slot : cache.entries[ticket.entryIndex]? = some entry
  occupied : entry.occupied = true
  refreshing : entry.refreshing = true
  serial : entry.refreshSerial = ticket.serial
  serial_ne : ticket.serial ≠ 0

/-- The slot left behind by a completion whose ticket was recognised. -/
def completedEntry (entry : CacheEntry) (c : Completion) : CacheEntry :=
  if c.rejected || !c.success then releaseEntry entry
  else if !c.cacheable then .zero
  else publishEntry entry c

theorem cacheCompleteRefresh_of_owns {cache : Cache} {ticket : CacheRefresh} {entry : CacheEntry}
    (h : Owns cache ticket entry) (c : Completion) :
    (cacheCompleteRefresh cache ticket c).1 = !c.rejected ∧
      (cacheCompleteRefresh cache ticket c).2.entries =
        cache.entries.set ticket.entryIndex (completedEntry entry c) ∧
      (cacheCompleteRefresh cache ticket c).2.control.nextRefreshSerial =
        cache.control.nextRefreshSerial := by
  have hi : ticket.entryIndex < cache.entries.length :=
    (List.getElem?_eq_some_iff.mp h.slot).1
  have hget : cache.entries.getD ticket.entryIndex .zero = entry := by
    simp [List.getD, h.slot]
  have hb : (decide (ticket.entryIndex ≥ cache.entries.length) || decide (ticket.serial = 0)) =
      false := by simp [hi, h.serial_ne]
  have ho : (!entry.occupied || !entry.refreshing ||
      decide (entry.refreshSerial ≠ ticket.serial)) = false := by
    simp [h.occupied, h.refreshing, h.serial]
  cases hr : c.rejected with
  | true =>
    simp only [cacheCompleteRefresh, hb, hget, ho, hr, completedEntry, Bool.false_eq_true, if_false,
      if_true, Bool.true_or]
    exact ⟨rfl, rfl, rfl⟩
  | false =>
    cases hs : c.success <;> cases hc : c.cacheable <;>
      simp only [cacheCompleteRefresh, hb, hget, ho, hr, hs, hc, completedEntry, Bool.false_eq_true,
        if_false, if_true, Bool.false_or, Bool.not_false, Bool.not_true] <;>
      exact ⟨by trivial, rfl, rfl⟩

theorem cacheCompleteRefresh_of_not_owns {cache : Cache} {ticket : CacheRefresh}
    (h : ∀ entry, ¬ Owns cache ticket entry) (c : Completion) :
    cacheCompleteRefresh cache ticket c = (false, cache) := by
  by_cases hb : (decide (ticket.entryIndex ≥ cache.entries.length) ||
      decide (ticket.serial = 0)) = true
  · simp only [cacheCompleteRefresh, hb, if_true]
  · simp only [Bool.or_eq_true, not_or, decide_eq_true_eq, ge_iff_le,
      Nat.not_le] at hb
    obtain ⟨entry, hslot⟩ : ∃ entry, cache.entries[ticket.entryIndex]? = some entry :=
      ⟨_, List.getElem?_eq_getElem hb.1⟩
    have hget : cache.entries.getD ticket.entryIndex .zero = entry := by simp [List.getD, hslot]
    have ho : (!entry.occupied || !entry.refreshing ||
        decide (entry.refreshSerial ≠ ticket.serial)) = true := by
      by_contra hne
      simp only [Bool.or_eq_true, not_or, Bool.not_eq_eq_eq_not, Bool.not_true,
        Bool.not_eq_false, decide_eq_true_eq, not_not] at hne
      exact h _ ⟨hslot, hne.1.1, hne.1.2, hne.2, hb.2⟩
    have hb' : (decide (ticket.entryIndex ≥ cache.entries.length) || decide (ticket.serial = 0)) =
        false := by simp [hb.1, hb.2]
    simp only [cacheCompleteRefresh, hb', hget, ho, if_true, Bool.false_eq_true, if_false]

/-- The key under which a slot can answer a lookup. -/
def valueKey (entry : CacheEntry) : Option Bytes :=
  if entry.occupied && entry.hasValue then some entry.key else none

theorem valueKey_eq_some_iff {entry : CacheEntry} {key : Bytes} :
    valueKey entry = some key ↔ ownerKey entry = some key ∧ entry.hasValue = true := by
  rw [ownerKey_eq_some_iff]
  unfold valueKey
  split <;> simp_all

/-- The answer of a lookup that finds `entry` under its key. -/
def classify (entry : CacheEntry) (nowMs : Int) (allowStale : Bool) : CacheLookup :=
  if nowMs < entry.freshUntilMs then .fresh
  else if allowStale && decide (nowMs < entry.staleUntilMs) then .stale
  else .miss

theorem lookupFrom_spec (key : Bytes) (nowMs : Int) (allowStale : Bool) (l : List CacheEntry)
    (i : Nat) :
    (KeyedSlots.find valueKey l key = none ∧
      lookupFrom key nowMs allowStale l i = (.miss, none)) ∨
    ∃ n entry, l[n]? = some entry ∧ KeyedSlots.find valueKey l key = some entry ∧
      lookupFrom key nowMs allowStale l i = (classify entry nowMs allowStale,
        if classify entry nowMs allowStale = .miss then none else some (i + n)) := by
  induction l generalizing i with
  | nil => exact Or.inl ⟨rfl, rfl⟩
  | cons entry rest ih =>
    by_cases hk : valueKey entry = some key
    · right
      refine ⟨0, entry, rfl, by simp [KeyedSlots.find, hk], ?_⟩
      have hs := valueKey_eq_some_iff.mp hk
      have hc : (!sameKey entry key || !entry.hasValue) = false := by
        simp [sameKey_eq_true_iff.mpr hs.1, hs.2]
      simp only [lookupFrom, hc, Bool.false_eq_true, if_false, classify]
      split
      · rfl
      · split <;> rfl
    · have hc : (!sameKey entry key || !entry.hasValue) = true := by
        by_contra hne
        simp only [Bool.or_eq_true, not_or, Bool.not_eq_eq_eq_not, Bool.not_true,
          Bool.not_eq_false] at hne
        exact hk (valueKey_eq_some_iff.mpr ⟨sameKey_eq_true_iff.mp hne.1, hne.2⟩)
      have hf : KeyedSlots.find valueKey (entry :: rest) key = KeyedSlots.find valueKey rest key := by
        simp [KeyedSlots.find, hk]
      have hl : lookupFrom key nowMs allowStale (entry :: rest) i =
          lookupFrom key nowMs allowStale rest (i + 1) := by
        simp only [lookupFrom, hc, if_true]
      rcases ih (i + 1) with ⟨hn, hm⟩ | ⟨n, e, he, hfe, hr⟩
      · exact Or.inl ⟨hf ▸ hn, hl ▸ hm⟩
      · refine Or.inr ⟨n + 1, e, by simpa using he, hf ▸ hfe, ?_⟩
        rw [hl, hr, show i + 1 + n = i + (n + 1) by omega]

/-- A lookup changes at most the time of last use of the slot it returns. -/
theorem cacheLookup_cases (cache : Cache) (key : Bytes) (nowMs : Int) (allowStale : Bool) :
    let result := cacheLookup cache key nowMs allowStale
    result.2.2.control.nextRefreshSerial = cache.control.nextRefreshSerial ∧
      ((result.2.1 = none ∧ result.1 = .miss ∧ result.2.2.entries = cache.entries) ∨
        ∃ i entry, result.2.1 = some i ∧ cache.entries[i]? = some entry ∧
          KeyedSlots.find valueKey cache.entries key = some entry ∧
          validKey key = true ∧ 0 ≤ nowMs ∧
          result.1 = classify entry nowMs allowStale ∧ result.1 ≠ .miss ∧
          result.2.2.entries = cache.entries.set i { entry with lastUsedMs := nowMs }) := by
  intro result
  by_cases hv : (!validKey key || decide (nowMs < 0)) = true
  · simp only [result, cacheLookup, hv, if_true]
    exact ⟨trivial, Or.inl ⟨trivial, trivial, trivial⟩⟩
  have hv' : validKey key = true ∧ 0 ≤ nowMs := by
    simp only [Bool.or_eq_true, not_or, decide_eq_true_eq, Bool.not_eq_eq_eq_not, Bool.not_true] at hv
    exact ⟨by simpa using hv.1, by omega⟩
  rcases lookupFrom_spec key nowMs allowStale cache.entries 0 with
    ⟨_, hl⟩ | ⟨n, entry, he, hf, hl⟩
  · simp only [result, cacheLookup, hv, hl]
    exact ⟨rfl, Or.inl ⟨rfl, rfl, rfl⟩⟩
  · by_cases hm : classify entry nowMs allowStale = .miss
    · simp only [result, cacheLookup, hv, hl, hm, if_true]
      exact ⟨rfl, Or.inl ⟨rfl, rfl, rfl⟩⟩
    · simp only [hm, if_false, Nat.zero_add] at hl
      simp only [result, cacheLookup, hv, hl, Cache.touch, he, Bool.false_eq_true, if_false]
      exact ⟨rfl, Or.inr ⟨n, entry, rfl, he, hf, hv'.1, hv'.2, rfl, hm, rfl⟩⟩

end OAuthValidator
