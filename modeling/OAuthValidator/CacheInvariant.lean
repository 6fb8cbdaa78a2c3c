import OAuthValidator.CacheSteps

/-! The representation invariant of the cache, kept by every operation with
arbitrary arguments. -/

namespace OAuthValidator

structure CacheEntry.WellFormed (entry : CacheEntry) : Prop where
  clear : entry.occupied = false → entry = .zero
  valid : entry.occupied = true → validKey entry.key = true
  live : entry.occupied = true → entry.hasValue = true ∨ entry.refreshing = true
  payload : entry.hasValue = true →
    0 < entry.payload.length ∧ entry.payload.length ≤ cacheMaxPayloadSize
  times : entry.hasValue = true →
    0 ≤ entry.freshUntilMs ∧ entry.freshUntilMs ≤ entry.staleUntilMs
  serial : entry.refreshing = true → entry.refreshSerial ≠ 0

structure Cache.Inv (cache : Cache) : Prop where
  distinct : KeyedSlots.Distinct ownerKey cache.entries
  entries : ∀ entry ∈ cache.entries, entry.WellFormed
  serial : cache.control.nextRefreshSerial ≠ 0

theorem CacheEntry.WellFormed.zero : CacheEntry.zero.WellFormed :=
  ⟨fun _ => rfl, by simp [CacheEntry.zero], by simp [CacheEntry.zero], by simp [CacheEntry.zero],
    by simp [CacheEntry.zero], by simp [CacheEntry.zero]⟩

theorem ownerKey_zero : ownerKey .zero = none := rfl

theorem CacheEntry.WellFormed.occupied_of_hasValue {entry : CacheEntry} (h : entry.WellFormed)
    (hv : entry.hasValue = true) : entry.occupied = true := by
  by_contra ho
  rw [h.clear (by simpa using ho)] at hv
  simp [CacheEntry.zero] at hv

theorem CacheEntry.WellFormed.occupied_of_refreshing {entry : CacheEntry} (h : entry.WellFormed)
    (hr : entry.refreshing = true) : entry.occupied = true := by
  by_contra ho
  rw [h.clear (by simpa using ho)] at hr
  simp [CacheEntry.zero] at hr

theorem boundedAdd_nonneg {value duration : Int} (hv : 0 ≤ value) (hd : 0 ≤ duration) :
    0 ≤ boundedAdd value duration := by
  unfold boundedAdd int64Max
  split <;> omega

theorem le_boundedAdd {value duration : Int} (hd : 0 ≤ duration) (hv : value ≤ int64Max) :
    value ≤ boundedAdd value duration := by
  unfold boundedAdd
  split <;> omega

theorem boundedAdd_le_max (value duration : Int) : boundedAdd value duration ≤ int64Max := by
  unfold boundedAdd
  split <;> omega

theorem boundedAdd_eq_min (value duration : Int) :
    boundedAdd value duration = min (value + duration) int64Max := by
  unfold boundedAdd
  split <;> omega

theorem CacheEntry.WellFormed.touch {entry : CacheEntry} (h : entry.WellFormed)
    (ho : entry.occupied = true) (nowMs : Int) :
    CacheEntry.WellFormed { entry with lastUsedMs := nowMs } :=
  ⟨by simp [ho], h.valid, h.live, h.payload, h.times, h.serial⟩

theorem ownerKey_startedEntry {entry : CacheEntry} {existing : Bool} {key : Bytes} (nowMs : Int)
    (unknownKid : Bool) (serial : Nat) (h : existing = true → ownerKey entry = some key) :
    ownerKey (startedEntry entry existing key nowMs unknownKid serial) = some key := by
  rw [ownerKey_eq_some_iff]
  cases existing with
  | true =>
    have hk := ownerKey_eq_some_iff.mp (h rfl)
    cases unknownKid <;> simp [startedEntry, noteUnknownKid, claimEntry, hk.1, hk.2]
  | false => cases unknownKid <;> simp [startedEntry, noteUnknownKid, claimEntry]

theorem startedEntry_wellFormed {entry : CacheEntry} {existing : Bool} {key : Bytes} {nowMs : Int}
    {unknownKid : Bool} {serial : Nat} (hw : entry.WellFormed) (hkey : validKey key = true)
    (h : existing = true → ownerKey entry = some key) (hs : serial ≠ 0) :
    (startedEntry entry existing key nowMs unknownKid serial).WellFormed := by
  have hk := ownerKey_eq_some_iff.mp (ownerKey_startedEntry nowMs unknownKid serial h)
  refine ⟨by simp [hk.1], fun _ => by rw [hk.2]; exact hkey, fun _ => Or.inr rfl, ?_, ?_, fun _ => hs⟩
  · cases existing <;> cases unknownKid <;>
      simp [startedEntry, noteUnknownKid, claimEntry, CacheEntry.zero] <;> exact hw.payload
  · cases existing <;> cases unknownKid <;>
      simp [startedEntry, noteUnknownKid, claimEntry, CacheEntry.zero] <;> exact hw.times

theorem ownerKey_completedEntry {entry : CacheEntry} {c : Completion} {key : Bytes}
    (h : ownerKey (completedEntry entry c) = some key) : ownerKey entry = some key := by
  unfold completedEntry at h
  split at h
  · unfold releaseEntry at h
    split at h
    · exact h
    · simp [ownerKey_zero] at h
  · split at h
    · simp [ownerKey_zero] at h
    · exact h

theorem Completion.not_rejected {c : Completion} (h : c.rejected = false) :
    0 ≤ c.nowMs ∧ 0 ≤ c.ttlMs ∧ 0 ≤ c.staleGraceMs ∧
      (c.success = true → c.cacheable = true →
        0 < c.payload.length ∧ c.payload.length ≤ cacheMaxPayloadSize) := by
  simp only [Completion.rejected, Bool.or_eq_false_iff, decide_eq_false_iff_not,
    Int.not_lt] at h
  obtain ⟨⟨⟨hn, ht⟩, hg⟩, hp⟩ := h
  refine ⟨hn, ht, hg, fun hs hc => ?_⟩
  simp only [hs, hc, Bool.and_self, Bool.true_and, Bool.or_eq_false_iff, decide_eq_false_iff_not,
    gt_iff_lt, Nat.not_lt] at hp
  omega

theorem Completion.rejected_eq_false {c : Completion} (hn : 0 ≤ c.nowMs) (ht : 0 ≤ c.ttlMs)
    (hg : 0 ≤ c.staleGraceMs) (hp : c.payload ≠ []) (hl : c.payload.length ≤ cacheMaxPayloadSize) :
    c.rejected = false := by
  simp [Completion.rejected, hn, ht, hg, hp, hl]

theorem completedEntry_wellFormed {entry : CacheEntry} {c : Completion} (hw : entry.WellFormed)
    (ho : entry.occupied = true) : (completedEntry entry c).WellFormed := by
  unfold completedEntry
  split
  · unfold releaseEntry
    split
    · next hv => exact ⟨by simp [ho], hw.valid, fun _ => Or.inl hv, hw.payload, hw.times, by simp⟩
    · exact .zero
  · next hr =>
    simp only [Bool.or_eq_true, not_or, Bool.not_eq_true] at hr
    split
    · exact .zero
    · next hc =>
      have hok := Completion.not_rejected hr.1
      have hp := hok.2.2.2 (by simpa using hr.2) (by simpa using hc)
      refine ⟨by simp [publishEntry, ho], hw.valid, fun _ => Or.inl rfl, fun _ => hp, fun _ => ?_,
        by simp [publishEntry]⟩
      have hf := boundedAdd_nonneg hok.1 hok.2.1
      refine ⟨hf, ?_⟩
      simp only [publishEntry]
      split
      · exact Int.le_refl _
      · exact le_boundedAdd hok.2.2.1 (boundedAdd_le_max _ _)

theorem advanceSerial_ne_zero (serial : Nat) : advanceSerial serial ≠ 0 := by
  unfold advanceSerial
  split
  · decide
  · assumption

theorem Cache.Inv.init {capacity : Nat} {cache : Cache} (h : cacheInit capacity = some cache) :
    cache.Inv := by
  unfold cacheInit at h
  split at h
  · simp at h
  · obtain rfl := Option.some.inj h
    refine ⟨.replicate ownerKey_zero capacity, fun entry he => ?_, Nat.one_ne_zero⟩
    rw [List.eq_of_mem_replicate he]
    exact .zero

/-- Rewriting one slot keeps the invariant when the new contents are
well-formed and no other slot holds their key. -/
theorem Cache.Inv.set {cache cache' : Cache} {i : Nat} {entry : CacheEntry} (h : cache.Inv)
    (hentries : cache'.entries = cache.entries.set i entry)
    (hserial : cache'.control.nextRefreshSerial ≠ 0) (hw : entry.WellFormed)
    (hfree : ∀ j e k, cache.entries[j]? = some e → ownerKey e = some k →
      ownerKey entry = some k → j = i) : cache'.Inv := by
  refine ⟨hentries ▸ h.distinct.set hfree, fun e he => ?_, hserial⟩
  rw [hentries] at he
  rcases List.mem_or_eq_of_mem_set he with he | rfl
  · exact h.entries e he
  · exact hw

theorem Cache.Inv.lookup {cache : Cache} (h : cache.Inv) (key : Bytes) (nowMs : Int)
    (allowStale : Bool) : (cacheLookup cache key nowMs allowStale).2.2.Inv := by
  obtain ⟨hs, ⟨_, _, he⟩ | ⟨i, entry, _, hslot, hf, _, _, _, _, he⟩⟩ :=
    cacheLookup_cases cache key nowMs allowStale
  · exact ⟨he ▸ h.distinct, he ▸ h.entries, hs ▸ h.serial⟩
  · have hk := List.find?_some hf
    simp only [decide_eq_true_eq] at hk
    have ho := (ownerKey_eq_some_iff.mp (valueKey_eq_some_iff.mp hk).1).1
    exact h.set he (hs ▸ h.serial)
      ((h.entries entry (List.mem_of_getElem? hslot)).touch ho nowMs)
      (fun j e k hj hke hkt => h.distinct hj hslot hke hkt)

theorem Cache.Inv.begin {cache : Cache} (h : cache.Inv) (key : Bytes) (nowMs : Int)
    (unknownKid : Bool) (cooldownMs : Int) :
    (cacheBeginRefresh cache key nowMs unknownKid cooldownMs).2.2.Inv := by
  rcases cacheBeginRefresh_cases cache key nowMs unknownKid cooldownMs with
    ⟨_, _, he, hs⟩ | ⟨_, entry, existing, hst⟩
  · exact ⟨he ▸ h.distinct, he ▸ h.entries, hs ▸ h.serial⟩
  · have hown : existing = true → ownerKey entry = some key := fun hx => (hst.kept hx).1
    refine h.set hst.entries (hst.next ▸ advanceSerial_ne_zero _)
      (startedEntry_wellFormed (h.entries entry (List.mem_of_getElem? hst.slot)) hst.valid hown
        (hst.serial ▸ h.serial)) ?_
    intro j e k hj hke hk
    rw [ownerKey_startedEntry _ _ _ hown] at hk
    obtain rfl := Option.some.inj hk
    cases existing with
    | true => exact h.distinct hj hst.slot hke (hown rfl)
    | false => exact absurd hke ((hst.taken rfl).1 e (List.mem_of_getElem? hj))

theorem Cache.Inv.complete {cache : Cache} (h : cache.Inv) (ticket : CacheRefresh)
    (c : Completion) : (cacheCompleteRefresh cache ticket c).2.Inv := by
  by_cases ho : ∃ entry, Owns cache ticket entry
  · obtain ⟨entry, ho⟩ := ho
    obtain ⟨_, he, hs⟩ := cacheCompleteRefresh_of_owns ho c
    exact h.set he (hs ▸ h.serial)
      (completedEntry_wellFormed (h.entries entry (List.mem_of_getElem? ho.slot)) ho.occupied)
      (fun j e k hj hke hk => h.distinct hj ho.slot hke (ownerKey_completedEntry hk))
  · rw [cacheCompleteRefresh_of_not_owns (not_exists.mp ho) c]
    exact h

/-- With two slots and at most one other key in use, a slot can be had. -/
theorem Cache.Inv.findRefreshSlot_ne_none {cache : Cache} (h : cache.Inv) {key other : Bytes}
    (hroom : 2 ≤ cache.entries.length)
    (hkeys : ∀ entry ∈ cache.entries, ∀ k, ownerKey entry = some k → k = key ∨ k = other)
    (nowMs : Int) : (findRefreshSlot cache key nowMs).1 ≠ none := by
  intro hnone
  rcases findRefreshSlot_cases cache key nowMs with ⟨i, entry, hf, _⟩ | ⟨slot, hf, habsent, hc⟩
  · simp [hf] at hnone
  obtain rfl : slot = none := by simpa [hf] using hnone
  have hfull : ∀ entry ∈ cache.entries, entry.occupied = true := by
    cases hc with
    | none full _ => exact full
  -- every slot would be taken for the other key
  have hother : ∀ i : Nat, (hi : i < cache.entries.length) →
      ownerKey cache.entries[i] = some other := by
    intro i hi
    have hmem : cache.entries[i] ∈ cache.entries := List.getElem_mem hi
    have hown := ownerKey_eq_some_iff.mpr ⟨hfull _ hmem, rfl⟩
    rcases hkeys _ hmem _ hown with hk | hk
    · exact absurd ⟨_, hmem, hk ▸ hown⟩ habsent
    · exact hk ▸ hown
  have h01 := h.distinct (List.getElem?_eq_getElem (by omega : 0 < cache.entries.length))
    (List.getElem?_eq_getElem (by omega : 1 < cache.entries.length)) (hother 0 (by omega))
    (hother 1 (by omega))
  exact absurd h01 (by decide)

end OAuthValidator
