import OAuthValidator.CacheRuns

/-! Which slot a refresh takes. A key that has no slot gets the first free one, or
else the expired slot that was used least recently. A slot that is being refreshed
or can still be read is never given away. -/

namespace OAuthValidator

open SlotScan

section Outcomes

variable {cache : Cache} {key : Bytes} {nowMs cooldownMs : Int}

theorem beginArguments_valid (hk : validKey key = true) (hn : 0 ≤ nowMs) (hc : 0 ≤ cooldownMs) :
    (!validKey key || decide (nowMs < 0) || decide (cooldownMs < 0)) = false := by
  have hnow : ¬ nowMs < 0 := by omega
  have hcooldown : ¬ cooldownMs < 0 := by omega
  simp [hk, hnow, hcooldown]

theorem cacheBeginRefresh_full (unknownKid : Bool)
    (hv : (!validKey key || decide (nowMs < 0) || decide (cooldownMs < 0)) = false)
    (hf : findRefreshSlot cache key nowMs = (none, false)) :
    (cacheBeginRefresh cache key nowMs unknownKid cooldownMs).1 = .capacity ∧
      (cacheBeginRefresh cache key nowMs unknownKid cooldownMs).2.2.entries = cache.entries ∧
      (cacheBeginRefresh cache key nowMs unknownKid cooldownMs).2.2.control.stats.evictions =
        cache.control.stats.evictions := by
  simp only [cacheBeginRefresh, hv, hf, Bool.false_eq_true, if_false]
  exact ⟨trivial, rfl, rfl⟩

theorem cacheBeginRefresh_absent {i : Nat} {old : CacheEntry} (unknownKid : Bool)
    (hv : (!validKey key || decide (nowMs < 0) || decide (cooldownMs < 0)) = false)
    (hf : findRefreshSlot cache key nowMs = (some i, false)) (hslot : cache.entries[i]? = some old) :
    (cacheBeginRefresh cache key nowMs unknownKid cooldownMs).1 = .started ∧
      (cacheBeginRefresh cache key nowMs unknownKid cooldownMs).2.1 =
        ⟨i, cache.control.nextRefreshSerial⟩ ∧
      (cacheBeginRefresh cache key nowMs unknownKid cooldownMs).2.2.entries = cache.entries.set i
        (startedEntry old false key nowMs unknownKid cache.control.nextRefreshSerial) ∧
      (cacheBeginRefresh cache key nowMs unknownKid cooldownMs).2.2.control.stats.evictions =
        if old.occupied then increment cache.control.stats.evictions
        else cache.control.stats.evictions := by
  have hget : cache.entries.getD i .zero = old := by simp [List.getD, hslot]
  simp only [cacheBeginRefresh, hv, hf, hget, Bool.false_and, Bool.not_false, Bool.true_and,
    Bool.false_eq_true, if_false]
  exact ⟨trivial, trivial, rfl, trivial⟩

/-- With a slot of its own a key is never refused for lack of room and evicts
nothing. -/
theorem cacheBeginRefresh_present {i : Nat} {entry : CacheEntry} (unknownKid : Bool)
    (hv : (!validKey key || decide (nowMs < 0) || decide (cooldownMs < 0)) = false)
    (hf : findRefreshSlot cache key nowMs = (some i, true)) (hslot : cache.entries[i]? = some entry) :
    (cacheBeginRefresh cache key nowMs unknownKid cooldownMs).1 ≠ .capacity ∧
      (cacheBeginRefresh cache key nowMs unknownKid cooldownMs).2.2.control.stats.evictions =
        cache.control.stats.evictions := by
  have hget : cache.entries.getD i .zero = entry := by simp [List.getD, hslot]
  simp only [cacheBeginRefresh, hv, hf, hget, Bool.true_and, Bool.not_true, Bool.false_and,
    Bool.false_eq_true, if_false]
  split
  · exact ⟨by simp, rfl⟩
  · split
    · exact ⟨by simp, rfl⟩
    · exact ⟨by simp, rfl⟩

end Outcomes

theorem not_evictable_iff {entry : CacheEntry} {nowMs : Int} (ho : entry.occupied = true) :
    ¬ Evictable entry nowMs ↔ entry.refreshing = true ∨ nowMs < entry.staleUntilMs := by
  cases hr : entry.refreshing <;> simp [Evictable, ho, hr]

/-- A begin replaces a slot when its key had none and the slot it takes was
occupied. -/
def Replaces (cache : Cache) (key : Bytes) (result : CacheRefreshResult × CacheRefresh × Cache) : Prop :=
  result.1 = .started ∧ ¬ Occupied cache key ∧
    ∃ old, cache.entries[result.2.1.entryIndex]? = some old ∧ old.occupied = true

theorem begin_other_slots {cache : Cache} {key : Bytes} {nowMs cooldownMs : Int} {unknownKid : Bool} (i : Nat)
    (hi : (cacheBeginRefresh cache key nowMs unknownKid cooldownMs).1 = .started →
      i ≠ (cacheBeginRefresh cache key nowMs unknownKid cooldownMs).2.1.entryIndex) :
    (cacheBeginRefresh cache key nowMs unknownKid cooldownMs).2.2.entries[i]? = cache.entries[i]? := by
  rcases cacheBeginRefresh_cases cache key nowMs unknownKid cooldownMs with
    ⟨_, _, he, _⟩ | ⟨hstarted, entry, existing, hst⟩
  · rw [he]
  · have hne := hi hstarted
    rw [hst.entries, List.getElem?_set_ne hne.symm]

/-- The slot a begin takes, and what it evicts. No invariant is needed, so this
holds in every state a run can reach. -/
theorem refresh_slot_exact (cache : Cache) {key : Bytes} (hk : validKey key = true) {nowMs : Int}
    (hn : 0 ≤ nowMs) (unknownKid : Bool) {cooldownMs : Int} (hc : 0 ≤ cooldownMs) :
    let result := cacheBeginRefresh cache key nowMs unknownKid cooldownMs
    (result.1 = .capacity ↔ ¬ Occupied cache key ∧ ∀ entry ∈ cache.entries,
      entry.occupied = true ∧ (entry.refreshing = true ∨ nowMs < entry.staleUntilMs)) ∧
    (¬ Occupied cache key → result.1 ≠ .capacity → result.1 = .started ∧
      SlotChosen cache.entries nowMs (some result.2.1.entryIndex) ∧
      ∃ old, cache.entries[result.2.1.entryIndex]? = some old ∧
        result.2.2.entries[result.2.1.entryIndex]? =
          some (startedEntry old false key nowMs unknownKid cache.control.nextRefreshSerial)) ∧
    (∀ i : Nat, (result.1 = .started → i ≠ result.2.1.entryIndex) →
      result.2.2.entries[i]? = cache.entries[i]?) ∧
    (Replaces cache key result →
      result.2.2.control.stats.evictions = increment cache.control.stats.evictions) ∧
    (¬ Replaces cache key result →
      result.2.2.control.stats.evictions = cache.control.stats.evictions) := by
  intro result
  have hv := beginArguments_valid hk hn hc
  have hothers : ∀ i : Nat, (result.1 = .started → i ≠ result.2.1.entryIndex) →
      result.2.2.entries[i]? = cache.entries[i]? := begin_other_slots
  rcases findRefreshSlot_cases cache key nowMs with ⟨i, entry, hf, hslot, hown⟩ | ⟨slot, hf, habsent, hchosen⟩
  · obtain ⟨hne, hevictions⟩ := cacheBeginRefresh_present unknownKid hv hf hslot
    have hocc : Occupied cache key := ⟨entry, List.mem_of_getElem? hslot, hown⟩
    refine ⟨⟨fun h => absurd h hne, fun h => absurd hocc h.1⟩, fun h => absurd hocc h, hothers, ?_, ?_⟩
    · exact fun h => absurd hocc h.2.1
    · exact fun _ => hevictions
  · cases slot with
    | none =>
      obtain ⟨hcapacity, _, hevictions⟩ := cacheBeginRefresh_full unknownKid hv hf
      have hlive : ∀ entry ∈ cache.entries,
          entry.occupied = true ∧ (entry.refreshing = true ∨ nowMs < entry.staleUntilMs) := by
        cases hchosen with
        | none full live =>
          intro entry he
          exact ⟨full entry he, (not_evictable_iff (full entry he)).mp (live entry he)⟩
      have hnot : result.1 ≠ .started := by
        rw [show result.1 = .capacity from hcapacity]
        simp
      refine ⟨⟨fun _ => ⟨habsent, hlive⟩, fun _ => hcapacity⟩, fun _ h => absurd hcapacity h, hothers, ?_, ?_⟩
      · exact fun h => absurd h.1 hnot
      · exact fun _ => hevictions
    | some i =>
      obtain ⟨old, hslot, hgone⟩ := hchosen.slot
      obtain ⟨hstarted, hticket, hentries, hevictions⟩ :=
        cacheBeginRefresh_absent unknownKid hv hf hslot
      have hindex : result.2.1.entryIndex = i := congrArg CacheRefresh.entryIndex hticket
      have hlt := (List.getElem?_eq_some_iff.mp hslot).1
      refine ⟨⟨fun h => ?_, fun h => ?_⟩, fun _ _ => ⟨hstarted, ?_, ?_⟩, hothers, fun h => ?_, fun h => ?_⟩
      · rw [show result.1 = .started from hstarted] at h
        simp at h
      · -- the slot that was found is neither occupied for good nor kept
        obtain ⟨ho, hkept⟩ := h.2 old (List.mem_of_getElem? hslot)
        rcases hgone with hfree | hev
        · rw [ho] at hfree
          simp at hfree
        · exact absurd hev ((not_evictable_iff ho).mpr hkept)
      · rw [hindex]
        exact hchosen
      · refine ⟨old, ?_, ?_⟩
        · rw [hindex]
          exact hslot
        · rw [hindex, show result.2.2.entries = _ from hentries, List.getElem?_set_self hlt]
      · obtain ⟨_, _, old', hslot', ho⟩ := h
        rw [hindex, hslot] at hslot'
        obtain rfl := Option.some.inj hslot'
        rw [show result.2.2.control.stats.evictions = _ from hevictions, if_pos ho]
      · have hfree : old.occupied ≠ true := fun ho => h ⟨hstarted, habsent, old, by rw [hindex]; exact hslot, ho⟩
        rw [show result.2.2.control.stats.evictions = _ from hevictions, if_neg hfree]

/-- One slot is being refreshed, and two expired ones were last used at the same
time. The lower of them is given away. -/
theorem refresh_slot_exact_tie :
    let expired (key : UInt8) : CacheEntry :=
      { CacheEntry.zero with
        key := [key], payload := [7], freshUntilMs := 4, staleUntilMs := 5, lastUsedMs := 3,
        occupied := true, hasValue := true }
    let refreshing : CacheEntry :=
      { CacheEntry.zero with key := [1], refreshSerial := 3, occupied := true, refreshing := true }
    let cache : Cache := ⟨[refreshing, expired 2, expired 3], ⟨4, {}⟩⟩
    let result := cacheBeginRefresh cache [4] 5 false 0
    result.2.1.entryIndex = 1 ∧ SlotChosen cache.entries 5 (some 1) ∧
      result.2.2.control.stats.evictions = 1 := by
  intro expired refreshing cache result
  have habsent : ¬ Occupied cache [4] := by
    unfold Occupied
    decide
  have hindex : result.2.1.entryIndex = 1 := by decide
  have hexact := refresh_slot_exact cache (show validKey [4] = true by decide)
    (show (0 : Int) ≤ 5 by decide) false (show (0 : Int) ≤ 0 by decide)
  obtain ⟨_, hchosen, hevict⟩ := hexact
  obtain ⟨hstarted, hslot, _⟩ := hchosen habsent (by decide)
  refine ⟨hindex, ?_, hevict.2.1 ⟨hstarted, habsent, expired 2, rfl, rfl⟩⟩
  rw [← hindex]
  exact hslot

end OAuthValidator
