import OAuthValidator.CacheRuns

/-! Waking the backends that wait for a refresh. The shared cache broadcasts when
the state machine reports success, and the state machine also releases a refresh
whose completion it rejects. -/

namespace OAuthValidator

/-- `pg_oauth_shared_cache_complete_refresh`: what it returns, whether it broadcasts
the condition variable, and the cache it leaves. `attached` is the answer of
`pg_oauth_shared_cache_attach`, and a NULL ticket is `none`. -/
def sharedCompleteRefresh (attached : Bool) (cache : Cache) (refresh : Option CacheRefresh)
    (c : Completion) : Bool × Bool × Cache :=
  if !attached then (false, false, cache)
  else
    let result := match refresh with
      | none => (false, cache)
      | some ticket => cacheCompleteRefresh cache ticket c
    (result.1, result.1, result.2)

/-- Some key was being refreshed and is not any more. -/
def Released (cache cache' : Cache) : Prop :=
  ∃ key, cacheIsRefreshing cache key = true ∧ cacheIsRefreshing cache' key = false

section Release

variable {cache : Cache} {ticket : CacheRefresh} {entry : CacheEntry}

theorem cacheIsRefreshing_of_slot (h : cache.Inv) {i : Nat} (hslot : cache.entries[i]? = some entry)
    {key : Bytes} (hk : ownerKey entry = some key) : cacheIsRefreshing cache key = entry.refreshing := by
  have hown := ownerKey_eq_some_iff.mp hk
  have hvalid : validKey key = true := by
    rw [← hown.2]
    exact (h.entries entry (List.mem_of_getElem? hslot)).valid hown.1
  have hfind : KeyedSlots.find ownerKey cache.entries key = some entry :=
    KeyedSlots.find_of_getElem? h.distinct hslot hk
  have hsame : (fun e => sameKey e key) = fun e => decide (ownerKey e = some key) := by
    funext e
    rw [Bool.eq_iff_iff, sameKey_eq_true_iff, decide_eq_true_iff]
  rw [KeyedSlots.find] at hfind
  simp only [cacheIsRefreshing, hvalid, hsame, hfind, Bool.not_true, Bool.false_eq_true, if_false]

theorem cacheIsRefreshing_of_absent {key : Bytes} (h : ¬ Occupied cache key) :
    cacheIsRefreshing cache key = false := by
  have hfind : cache.entries.find? (sameKey · key) = none := by
    rw [List.find?_eq_none]
    intro e he hs
    exact h ⟨e, he, sameKey_eq_true_iff.mp hs⟩
  simp only [cacheIsRefreshing, hfind]
  split <;> rfl

/-- A completion under a ticket that is recognised releases the refresh, whether or
not it is accepted. -/
theorem Owns.released (h : cache.Inv) (ho : Owns cache ticket entry) (c : Completion) :
    Released cache (cacheCompleteRefresh cache ticket c).2 := by
  have hk := ho.ownerKey
  have hbefore := (cacheIsRefreshing_of_slot h ho.slot hk).trans ho.refreshing
  have hentries := (cacheCompleteRefresh_of_owns ho c).2.1
  have hlt := (List.getElem?_eq_some_iff.mp ho.slot).1
  have hslot : (cacheCompleteRefresh cache ticket c).2.entries[ticket.entryIndex]? =
      some (completedEntry entry c) := by
    rw [hentries, List.getElem?_set_self hlt]
  refine ⟨entry.key, hbefore, ?_⟩
  by_cases hkept : OAuthValidator.ownerKey (completedEntry entry c) = some entry.key
  · rw [cacheIsRefreshing_of_slot (h.complete ticket c) hslot hkept]
    exact completedEntry_not_refreshing entry c
  · -- the slot was cleared, and no other slot has the key
    refine cacheIsRefreshing_of_absent ?_
    rintro ⟨e, he, hown⟩
    obtain ⟨j, hj⟩ := List.mem_iff_getElem?.mp he
    rw [hentries] at hj
    rcases KeyedSlots.getElem?_set_cases hj with ⟨_, rfl, _⟩ | ⟨hne, hj⟩
    · exact hkept hown
    · exact hne (h.distinct hj ho.slot hown hk)

theorem not_released_self : ¬ Released cache cache := by
  rintro ⟨key, hbefore, hafter⟩
  rw [hbefore] at hafter
  simp at hafter

end Release

/-- The broadcast is missing exactly after a completion that is rejected under a
ticket that is recognised. -/
theorem completion_wakes_iff {capacity : Nat} {cache : Cache} (hinit : cacheInit capacity = some cache)
    (ops : List CacheOp) (n : Nat) (attached : Bool) (refresh : Option CacheRefresh) (c : Completion) :
    let result := sharedCompleteRefresh attached (stateAt cache ops n) refresh c
    (Released (stateAt cache ops n) result.2.2 → result.2.1 = true) ↔
      ¬ (attached = true ∧ c.rejected = true ∧
        ∃ ticket entry, refresh = some ticket ∧ Owns (stateAt cache ops n) ticket entry) := by
  have hinv := (Cache.Inv.init hinit).stateAt ops n
  cases attached with
  | false => simp [sharedCompleteRefresh, not_released_self]
  | true =>
    cases refresh with
    | none => simp [sharedCompleteRefresh, not_released_self]
    | some ticket =>
      simp only [sharedCompleteRefresh, Bool.not_true, Bool.false_eq_true, if_false, true_and,
        Option.some.injEq]
      by_cases ho : ∃ entry, Owns (stateAt cache ops n) ticket entry
      · obtain ⟨entry, ho⟩ := ho
        have hanswer := (cacheCompleteRefresh_of_owns ho c).1
        have hreleased := ho.released hinv c
        rw [hanswer]
        constructor
        · rintro hwake ⟨hrejected, _⟩
          have haccepted := hwake hreleased
          rw [hrejected] at haccepted
          simp at haccepted
        · intro hnot _
          have hrejected : c.rejected ≠ true := fun hr => hnot ⟨hr, ticket, entry, rfl, ho⟩
          simpa using hrejected
      · have hsame := cacheCompleteRefresh_of_not_owns (not_exists.mp ho) c
        rw [hsame]
        constructor
        · rintro _ ⟨_, ticket', entry, rfl, hown⟩
          exact ho ⟨entry, hown⟩
        · exact fun _ h => absurd h not_released_self

/-- A successful completion of a refresh wakes the backends that wait for it. -/
theorem completion_wakes_iff_published :
    let cache : Cache := ⟨[.zero], ⟨1, {}⟩⟩
    let ops : List CacheOp := [.begin [1] 0 false 0]
    let published : Completion := ⟨5, true, true, false, 10, 0, [7]⟩
    let result := sharedCompleteRefresh true (stateAt cache ops 1) (some ⟨0, 1⟩) published
    Released (stateAt cache ops 1) result.2.2 ∧ result.2.1 = true := by
  intro cache ops published result
  have hreleased : Released (stateAt cache ops 1) result.2.2 := ⟨[1], by decide, by decide⟩
  have hwakes := (@completion_wakes_iff 1 cache rfl ops 1 true (some ⟨0, 1⟩) published).mpr
    fun h => absurd h.2.1 (by decide)
  exact ⟨hreleased, hwakes hreleased⟩

/-- A completion with a negative time to live releases the refresh and wakes nobody. -/
theorem rejected_completion_wakes_nobody :
    ¬ ∀ (capacity : Nat) (cache : Cache) (ops : List CacheOp) (n : Nat) (attached : Bool)
      (refresh : Option CacheRefresh) (c : Completion), cacheInit capacity = some cache →
      Released (stateAt cache ops n)
          (sharedCompleteRefresh attached (stateAt cache ops n) refresh c).2.2 →
        (sharedCompleteRefresh attached (stateAt cache ops n) refresh c).2.1 = true := by
  intro hall
  have hwake := hall 1 ⟨[.zero], ⟨1, {}⟩⟩ [.begin [1] 0 false 0] 1 true (some ⟨0, 1⟩)
    ⟨5, true, true, false, -1, 0, [7]⟩ rfl ⟨[1], by decide, by decide⟩
  exact absurd hwake (by decide)

end OAuthValidator
