import OAuthValidator.Cooldown

/-! One call at a time. Between its operations the cache holds documents under
the keys the call works with, and at most one refresh is under way, so a begin is
never refused for want of a slot or of an owner. -/

namespace OAuthValidator

open ExpiringMap

/-- What holds of the cache between two operations, when only certain keys are
used and only certain documents are stored under them. -/
structure Holding (keys : Bytes → Prop) (source : Bytes → Bytes → Prop)
    (pending : CacheRefresh → Option Bytes) (s : Shared) : Prop where
  inv : s.cache.Inv
  room : 2 ≤ s.cache.entries.length
  pending : pendingKey s.cache = pending
  keys : ∀ key, Occupied s.cache key → keys key
  stored : ∀ key stored, cacheMap s.cache key = some stored → source key stored.value

namespace Holding

variable {keys : Bytes → Prop} {source : Bytes → Bytes → Prop} {pending : CacheRefresh → Option Bytes}
  {s s' : Shared}

/-- No refresh is under way. -/
abbrev Idle (keys : Bytes → Prop) (source : Bytes → Bytes → Prop) (s : Shared) : Prop :=
  Holding keys source (fun _ => none) s

/-- One refresh is under way. -/
abbrev Refreshing (keys : Bytes → Prop) (source : Bytes → Bytes → Prop) (ticket : CacheRefresh)
    (key : Bytes) (s : Shared) : Prop :=
  Holding keys source (Function.update (fun _ => none) ticket (some key)) s

theorem mono {source' : Bytes → Bytes → Prop} (h : Holding keys source pending s)
    (hsource : ∀ key value, source key value → source' key value) : Holding keys source' pending s :=
  ⟨h.inv, h.room, h.pending, h.keys, fun key stored hm => hsource key _ (h.stored key stored hm)⟩

theorem empty (hinv : s.cache.Inv) (room : 2 ≤ s.cache.entries.length)
    (hempty : ∀ entry ∈ s.cache.entries, entry.occupied = false) : Idle keys source s := by
  refine ⟨hinv, room, funext fun ticket => ?_, fun key ⟨entry, hm, hk⟩ => ?_, fun key stored hm => ?_⟩
  · refine pendingKey_eq_none_iff.mpr fun entry ho => ?_
    have hoccupied := ho.occupied
    simp [hempty entry (List.mem_of_getElem? ho.slot)] at hoccupied
  · simp [ownerKey, hempty entry hm] at hk
  · obtain ⟨i, entry, hslot, hk, _⟩ := (cacheMap_eq_some_iff hinv).mp hm
    have ho := (ownerKey_eq_some_iff.mp (valueKey_eq_some_iff.mp hk).1).1
    simp [hempty entry (List.mem_of_getElem? hslot)] at ho

/-- An operation that neither begins nor completes a refresh, be it a begin that
is held back. -/
theorem quiet {op : CallOp} {answer : op.Ans} (h : Holding keys source pending s)
    (hp : perform s op answer s') (habstract : abstractCache s'.cache = abstractCache s.cache)
    (hop : ∀ key nowMs unknownKid cooldownMs, op = .begin key nowMs unknownKid cooldownMs → keys key) :
    Holding keys source pending s' := by
  refine ⟨perform_inv h.inv hp, perform_length hp ▸ h.room,
    (congrArg State.pending habstract).trans h.pending, fun key ho => ?_, fun key stored hm => ?_⟩
  · rcases perform_occupied h.inv hp ho with hold | ⟨_, _, _, he⟩
    · exact h.keys key hold
    · exact hop _ _ _ _ he
  · have hmap := congrFun (congrArg State.map habstract) key
    exact h.stored key stored (hmap.symm.trans hm)

theorem not_refreshing (h : Idle keys source s) {entry : CacheEntry} (hm : entry ∈ s.cache.entries) :
    entry.refreshing = false := by
  cases hr : entry.refreshing with
  | false => rfl
  | true =>
    obtain ⟨ticket, hp⟩ := h.inv.pendingKey_of_refreshing hm hr
    rw [h.pending] at hp
    simp at hp

/-- With room for all the keys in use, a begin starts a refresh unless it is
held back for an unknown key id. -/
theorem begin {key other : Bytes} {nowMs cooldownMs : Int} {unknownKid : Bool} {r : CacheRefreshResult}
    {ticket : CacheRefresh} (h : Idle keys source s) (hk : keys key) (hvalid : validKey key = true)
    (hother : ∀ k, keys k → k = key ∨ k = other) (hn : 0 ≤ nowMs) (hc : 0 ≤ cooldownMs)
    (hp : perform s (.begin key nowMs unknownKid cooldownMs) (r, ticket) s') :
    (r = .started ∧ Refreshing keys source ticket key s') ∨
      (r = .suppressed ∧ unknownKid = true ∧ Idle keys source s') := by
  have hslot := h.inv.findRefreshSlot_ne_none h.room
    (fun entry hm k ho => hother k (h.keys k ⟨entry, hm, ho⟩)) nowMs
  have hr : r = (cacheBeginRefresh s.cache key nowMs unknownKid cooldownMs).1 := (Prod.mk.inj hp.1).1
  have hkey : ∀ k nowMs' unknownKid' cooldownMs', CallOp.begin key nowMs unknownKid cooldownMs =
      .begin k nowMs' unknownKid' cooldownMs' → keys k := by
    intro k _ _ _ he
    injection he with hk'
    exact hk' ▸ hk
  rcases MapStep.begin_cases (perform_effect h.inv hp) with ⟨hne, hsame⟩ | ⟨rfl, hb⟩
  · rcases cacheBeginRefresh_idle unknownKid hvalid hn hc (fun _ => h.not_refreshing) hslot with
      hstarted | ⟨hu, hs⟩
    · exact absurd (hr.trans hstarted) hne
    · exact Or.inr ⟨hr.trans hs, hu, h.quiet hp hsame hkey⟩
  · refine Or.inl ⟨rfl, perform_inv h.inv hp, perform_length hp ▸ h.room, ?_, fun k ho => ?_,
      fun k stored hm => h.stored k stored (hb.map_of_some hm)⟩
    · exact hb.pending.trans (by rw [show (abstractCache s.cache).pending = _ from h.pending])
    · rcases perform_occupied h.inv hp ho with hold | ⟨_, _, _, he⟩
      · exact h.keys k hold
      · exact hkey _ _ _ _ he

theorem complete {key : Bytes} {ticket : CacheRefresh} {comp : Completion} {accepted : Bool}
    (h : Refreshing keys source ticket key s) (hp : perform s (.complete ticket comp) accepted s')
    (hput : ∀ stored, comp.outcome = .put stored → source key stored.value) :
    accepted = !comp.rejected ∧ Idle keys source s' := by
  have hpending : pendingKey s.cache ticket = some key := by
    rw [h.pending, Function.update_self]
  rcases MapStep.complete_cases (perform_effect h.inv hp) with ⟨k, hacc, hc⟩ | ⟨_, hn, _⟩
  · obtain rfl : k = key := Option.some.inj (hc.pending.symm.trans hpending)
    refine ⟨hacc, perform_inv h.inv hp, perform_length hp ▸ h.room, ?_, fun k' ho => ?_,
      fun k' stored hm => ?_⟩
    · refine hc.released.trans ?_
      rw [show (abstractCache s.cache).pending = _ from h.pending, Function.update_idem,
        Function.update_eq_self_iff]
    · rcases perform_occupied h.inv hp ho with hold | ⟨_, _, _, he⟩
      · exact h.keys k' hold
      · simp at he
    · rcases hc.map_of_some hm with hold | ⟨rfl, ho⟩
      · exact h.stored k' stored hold
      · exact hput stored ho
  · have hnone : pendingKey s.cache ticket = none := hn
    simp [hpending] at hnone

end Holding

end OAuthValidator
