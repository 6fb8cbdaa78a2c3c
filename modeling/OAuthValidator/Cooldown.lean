import OAuthValidator.SharedCache

/-! The memory of unknown key ids. A slot remembers when such an id last
refreshed it, and forgets it when the slot is cleared or given to another key. -/

namespace OAuthValidator

open Interleaving

def unknownKidRefresh (entry : CacheEntry) : Option Int :=
  if entry.hasUnknownKidRefresh then some entry.lastUnknownKidRefreshMs else none

/-- What the slot of a key remembers, if the key has a slot. -/
def cooldownOf (cache : Cache) (key : Bytes) : Option (Option Int) :=
  (KeyedSlots.find ownerKey cache.entries key).map unknownKidRefresh

theorem cooldownOf_eq_none_iff {cache : Cache} {key : Bytes} :
    cooldownOf cache key = none ↔ ¬ Occupied cache key := by
  simp [cooldownOf, KeyedSlots.find, Occupied]

section Slots

variable {cache cache' : Cache} {i : Nat} {old entry : CacheEntry}

theorem cooldownOf_slot (h : cache.Inv) (hslot : cache.entries[i]? = some entry) {key : Bytes}
    (hk : ownerKey entry = some key) : cooldownOf cache key = some (unknownKidRefresh entry) := by
  unfold cooldownOf
  rw [KeyedSlots.find_of_getElem? h.distinct hslot hk]
  rfl

theorem cooldownOf_set (h : cache.Inv) (h' : cache'.Inv)
    (hentries : cache'.entries = cache.entries.set i entry) (hold : cache.entries[i]? = some old)
    (key : Bytes) :
    cooldownOf cache' key = if ownerKey entry = some key then some (unknownKidRefresh entry)
      else if ownerKey old = some key then none else cooldownOf cache key := by
  have hd := h'.distinct
  unfold cooldownOf
  rw [hentries] at hd ⊢
  rw [KeyedSlots.find_set h.distinct hd hold key]
  split
  · rfl
  · split <;> rfl

theorem cooldownOf_set_same (h : cache.Inv) (h' : cache'.Inv)
    (hentries : cache'.entries = cache.entries.set i entry) (hold : cache.entries[i]? = some old)
    (hk : ownerKey entry = ownerKey old) (hu : unknownKidRefresh entry = unknownKidRefresh old)
    (key : Bytes) : cooldownOf cache' key = cooldownOf cache key := by
  rw [cooldownOf_set h h' hentries hold key, hk, hu]
  split
  · next hkey => exact (cooldownOf_slot h hold hkey).symm
  · rfl

end Slots

section Begin

variable {cache cache' : Cache} {key : Bytes} {nowMs cooldownMs : Int} {unknownKid existing : Bool}
  {ticket : CacheRefresh} {entry : CacheEntry}

theorem Started.cooldown_self (h : cache.Inv) (h' : cache'.Inv)
    (hst : Started cache key nowMs unknownKid cooldownMs ticket cache' entry existing) :
    cooldownOf cache' key = some (if unknownKid then some nowMs else (cooldownOf cache key).join) ∧
      (unknownKid = true → ∀ last, cooldownOf cache key = some (some last) →
        last + cooldownMs ≤ nowMs) := by
  have hown := ownerKey_startedEntry nowMs unknownKid ticket.serial fun hx => (hst.kept hx).1
  rw [cooldownOf_set h h' hst.entries hst.slot, if_pos hown]
  cases existing with
  | true =>
    obtain ⟨hk, _, hgate⟩ := hst.kept rfl
    have hold := cooldownOf_slot h hst.slot hk
    refine ⟨?_, fun hu last hl => ?_⟩
    · rw [hold]
      cases unknownKid <;> rfl
    · have hlast : unknownKidRefresh entry = some last := Option.some.inj (hold.symm.trans hl)
      unfold unknownKidRefresh at hlast
      split at hlast
      · next hh =>
        have hle := hgate hu hh
        rw [Option.some.inj hlast] at hle
        omega
      · simp at hlast
  | false =>
    have hnone : cooldownOf cache key = none :=
      cooldownOf_eq_none_iff.mpr fun ⟨e, hm, hk⟩ => (hst.taken rfl).1 e hm hk
    refine ⟨?_, by simp [hnone]⟩
    rw [hnone]
    cases unknownKid <;> rfl

theorem Started.cooldown_other (h : cache.Inv) (h' : cache'.Inv)
    (hst : Started cache key nowMs unknownKid cooldownMs ticket cache' entry existing) {k : Bytes}
    (hk : k ≠ key) :
    cooldownOf cache' k = cooldownOf cache k ∨
      (cooldownOf cache' k = none ∧ ∀ t, pendingKey cache t ≠ some k) := by
  have hown := ownerKey_startedEntry nowMs unknownKid ticket.serial fun hx => (hst.kept hx).1
  have hne : ownerKey (startedEntry entry existing key nowMs unknownKid ticket.serial) ≠ some k := by
    rw [hown]
    exact fun he => hk (Option.some.inj he).symm
  rw [cooldownOf_set h h' hst.entries hst.slot, if_neg hne]
  split
  · next hold =>
    exact Or.inr ⟨rfl, h.pendingKey_ne hst.slot (hst.not_refreshing h) hold⟩
  · exact Or.inl rfl

end Begin

theorem Owns.cooldown {cache : Cache} {ticket : CacheRefresh} {entry : CacheEntry} (h : cache.Inv)
    (ho : Owns cache ticket entry) (c : Completion) (k : Bytes) :
    cooldownOf (cacheCompleteRefresh cache ticket c).2 k = cooldownOf cache k ∨
      (cooldownOf (cacheCompleteRefresh cache ticket c).2 k = none ∧
        pendingKey cache ticket = some k) := by
  have hentries := (cacheCompleteRefresh_of_owns ho c).2.1
  rw [cooldownOf_set h (h.complete ticket c) hentries ho.slot k]
  split
  · next hk =>
    left
    rw [cooldownOf_slot h ho.slot (ownerKey_completedEntry hk)]
    unfold completedEntry releaseEntry at hk ⊢
    split
    · split
      · rfl
      · next hr hv => simp [hr, hv, ownerKey_zero] at hk
    · split
      · next hr hc => simp [hr, hc, ownerKey_zero] at hk
      · rfl
  · split
    · next hk =>
      have hkey : entry.key = k := (ownerKey_eq_some_iff.mp hk).2
      exact Or.inr ⟨rfl, pendingKey_eq_some_iff.mpr ⟨entry, ho, hkey⟩⟩
    · exact Or.inl rfl

section Operations

variable {cache : Cache}

theorem cooldown_lookup (h : cache.Inv) (key : Bytes) (nowMs : Int) (allowStale : Bool) (k : Bytes) :
    cooldownOf (cacheLookup cache key nowMs allowStale).2.2 k = cooldownOf cache k := by
  obtain ⟨_, ⟨_, _, he⟩ | ⟨i, entry, _, hslot, _, _, _, _, _, he⟩⟩ :=
    cacheLookup_cases cache key nowMs allowStale
  · unfold cooldownOf
    rw [he]
  · exact cooldownOf_set_same h (h.lookup key nowMs allowStale) he hslot rfl rfl k

/-- A begin leaves the memory under a key alone, or starts a refresh of the key, or
takes its slot away. -/
theorem cooldown_begin (h : cache.Inv) (key : Bytes) (nowMs : Int) (unknownKid : Bool) (cooldownMs : Int)
    (k : Bytes) :
    let result := cacheBeginRefresh cache key nowMs unknownKid cooldownMs
    cooldownOf result.2.2 k = cooldownOf cache k ∨
    (k = key ∧ result.1 = .started ∧ 0 ≤ cooldownMs ∧ (∀ t, pendingKey cache t ≠ some k) ∧
      cooldownOf result.2.2 k = some (if unknownKid then some nowMs else (cooldownOf cache k).join) ∧
      (unknownKid = true → ∀ last, cooldownOf cache k = some (some last) →
        last + cooldownMs ≤ nowMs)) ∨
    (cooldownOf result.2.2 k = none ∧ ∀ t, pendingKey cache t ≠ some k) := by
  intro result
  have h' := h.begin key nowMs unknownKid cooldownMs
  rcases cacheBeginRefresh_cases cache key nowMs unknownKid cooldownMs with
    ⟨_, _, he, _⟩ | ⟨hstarted, entry, existing, hst⟩
  · left
    show (KeyedSlots.find ownerKey (cacheBeginRefresh _ _ _ _ _).2.2.entries k).map _ = _
    rw [he]
    rfl
  · by_cases hk : k = key
    · subst hk
      obtain ⟨hnew, hgate⟩ := hst.cooldown_self h h'
      exact Or.inr (Or.inl ⟨rfl, hstarted, hst.cooldown_nonneg, hst.idle h, hnew, hgate⟩)
    · rcases hst.cooldown_other h h' hk with hsame | hgone
      · exact Or.inl hsame
      · exact Or.inr (Or.inr hgone)

theorem cooldown_complete (h : cache.Inv) (ticket : CacheRefresh) (c : Completion) (k : Bytes) :
    cooldownOf (cacheCompleteRefresh cache ticket c).2 k = cooldownOf cache k ∨
      (cooldownOf (cacheCompleteRefresh cache ticket c).2 k = none ∧
        pendingKey cache ticket = some k) := by
  by_cases ho : ∃ entry, Owns cache ticket entry
  · obtain ⟨entry, ho⟩ := ho
    exact ho.cooldown h c k
  · rw [cacheCompleteRefresh_of_not_owns (not_exists.mp ho) c]
    exact Or.inl rfl

/-- A refresh for an unknown key id is remembered, and respects what was. -/
theorem cooldown_started (h : cache.Inv) {key : Bytes} {nowMs cooldownMs : Int}
    (hstarted : (cacheBeginRefresh cache key nowMs true cooldownMs).1 = .started) :
    cooldownOf (cacheBeginRefresh cache key nowMs true cooldownMs).2.2 key = some (some nowMs) ∧
      ∀ last, cooldownOf cache key = some (some last) → last + cooldownMs ≤ nowMs := by
  have h' := h.begin key nowMs true cooldownMs
  rcases cacheBeginRefresh_cases cache key nowMs true cooldownMs with
    ⟨hne, _⟩ | ⟨_, entry, existing, hst⟩
  · exact absurd hstarted hne
  · obtain ⟨hnew, hgate⟩ := hst.cooldown_self h h'
    exact ⟨hnew, hgate rfl⟩

/-- What is remembered is forgotten or moves to a later time. -/
theorem cooldown_apply_later (h : cache.Inv) (op : CacheOp) {k : Bytes} {last : Int}
    (hlast : cooldownOf cache k = some (some last)) (hslot : Occupied (op.apply cache).2 k) :
    ∃ last', last ≤ last' ∧ cooldownOf (op.apply cache).2 k = some (some last') := by
  have hkept : cooldownOf (op.apply cache).2 k ≠ none := fun hnone =>
    cooldownOf_eq_none_iff.mp hnone hslot
  cases op with
  | lookup key nowMs allowStale =>
    exact ⟨last, Int.le_refl _, (cooldown_lookup h key nowMs allowStale k).trans hlast⟩
  | begin key nowMs unknownKid cooldownMs =>
    rcases cooldown_begin h key nowMs unknownKid cooldownMs k with
      hsame | ⟨_, _, hnonneg, _, hnew, hgate⟩ | ⟨hnone, _⟩
    · exact ⟨last, Int.le_refl _, hsame.trans hlast⟩
    · cases unknownKid with
      | true =>
        have hle := hgate rfl last hlast
        exact ⟨nowMs, by omega, hnew⟩
      | false =>
        rw [hlast] at hnew
        exact ⟨last, Int.le_refl _, hnew⟩
    · exact absurd hnone hkept
  | complete ticket c =>
    rcases cooldown_complete h ticket c k with hsame | ⟨hnone, _⟩
    · exact ⟨last, Int.le_refl _, hsame.trans hlast⟩
    · exact absurd hnone hkept

/-- What is remembered was remembered before, or a refresh of the key was started at
that time. -/
theorem cooldown_apply_origin (h : cache.Inv) (op : CacheOp) {k : Bytes} {last : Int}
    (hlast : cooldownOf (op.apply cache).2 k = some (some last)) :
    cooldownOf cache k = some (some last) ∨
      ∃ cooldownMs ticket, op = .begin k last true cooldownMs ∧
        (op.apply cache).1 = .begin .started ticket := by
  cases op with
  | lookup key nowMs allowStale =>
    exact Or.inl ((cooldown_lookup h key nowMs allowStale k).symm.trans hlast)
  | begin key nowMs unknownKid cooldownMs =>
    have hlast : cooldownOf (cacheBeginRefresh cache key nowMs unknownKid cooldownMs).2.2 k =
      some (some last) := hlast
    rcases cooldown_begin h key nowMs unknownKid cooldownMs k with
      hsame | ⟨rfl, hstarted, _, _, hnew, _⟩ | ⟨hnone, _⟩
    · exact Or.inl (hsame.symm.trans hlast)
    · have hvalue := Option.some.inj (hnew.symm.trans hlast)
      cases unknownKid with
      | true =>
        obtain rfl := Option.some.inj hvalue
        exact Or.inr ⟨cooldownMs, _, rfl, by rw [CacheOp.apply, hstarted]⟩
      | false => exact Or.inl (by simpa using Option.join_eq_some_iff.mp hvalue)
    · rw [hnone] at hlast
      simp at hlast
  | complete ticket c =>
    have hlast : cooldownOf (cacheCompleteRefresh cache ticket c).2 k = some (some last) := hlast
    rcases cooldown_complete h ticket c k with hsame | ⟨hnone, _⟩
    · exact Or.inl (hsame.symm.trans hlast)
    · rw [hnone] at hlast
      simp at hlast

end Operations

section Perform

variable {s s' : Shared} {op : CallOp} {answer : op.Ans}

/-- What an operation of a call can do to the memory under a key: nothing, or a
refresh is begun under it, or its slot goes. -/
theorem perform_cooldown (h : s.cache.Inv) (hp : perform s op answer s') (k : Bytes) :
    cooldownOf s'.cache k = cooldownOf s.cache k ∨
    (∃ nowMs unknownKid cooldownMs, op = .begin k nowMs unknownKid cooldownMs ∧ 0 ≤ cooldownMs ∧
      (∀ t, pendingKey s.cache t ≠ some k) ∧
      cooldownOf s'.cache k = some (if unknownKid then some nowMs else (cooldownOf s.cache k).join) ∧
      (unknownKid = true → ∀ last, cooldownOf s.cache k = some (some last) →
        last + cooldownMs ≤ nowMs)) ∨
    (cooldownOf s'.cache k = none ∧ ((∀ t, pendingKey s.cache t ≠ some k) ∨
      ∃ t comp, op = .complete t comp ∧ pendingKey s.cache t = some k)) := by
  cases op with
  | lookup key nowMs allowStale outputSize =>
    obtain ⟨-, rfl⟩ := hp
    left
    show cooldownOf (sharedLookup s.cache key nowMs allowStale outputSize).2 k = _
    rw [sharedLookup_cache]
    exact cooldown_lookup h key nowMs allowStale k
  | begin key nowMs unknownKid cooldownMs =>
    obtain ⟨-, rfl⟩ := hp
    rcases cooldown_begin h key nowMs unknownKid cooldownMs k with
      hsame | ⟨rfl, _, hnonneg, hidle, hnew, hgate⟩ | ⟨hnone, hidle⟩
    · exact Or.inl hsame
    · exact Or.inr (Or.inl ⟨_, _, _, rfl, hnonneg, hidle, hnew, hgate⟩)
    · exact Or.inr (Or.inr ⟨hnone, Or.inl hidle⟩)
  | complete ticket comp =>
    obtain ⟨-, rfl⟩ := hp
    rcases cooldown_complete h ticket comp k with hsame | ⟨hnone, hheld⟩
    · exact Or.inl hsame
    · exact Or.inr (Or.inr ⟨hnone, Or.inr ⟨_, _, rfl, hheld⟩⟩)
  | _ =>
    obtain ⟨-, rfl⟩ := hp
    exact Or.inl rfl

/-- Only a begin takes a slot for a key. -/
theorem perform_occupied (h : s.cache.Inv) (hp : perform s op answer s') {k : Bytes}
    (ho : Occupied s'.cache k) :
    Occupied s.cache k ∨ ∃ nowMs unknownKid cooldownMs, op = .begin k nowMs unknownKid cooldownMs := by
  rcases perform_cooldown h hp k with hsame | ⟨nowMs, unknownKid, cooldownMs, he, _⟩ | ⟨hnone, _⟩
  · left
    by_contra hfree
    rw [cooldownOf_eq_none_iff.mpr hfree] at hsame
    exact cooldownOf_eq_none_iff.mp hsame ho
  · exact Or.inr ⟨nowMs, unknownKid, cooldownMs, he⟩
  · exact absurd ho (cooldownOf_eq_none_iff.mp hnone)

/-- While a refresh is under way the memory does not change, unless the
operation completes that refresh. -/
theorem perform_cooldown_held (h : s.cache.Inv) (hp : perform s op answer s') {k : Bytes}
    {t : CacheRefresh} (hk : pendingKey s.cache t = some k)
    (hop : ∀ t' comp, op = .complete t' comp → pendingKey s.cache t' ≠ some k) :
    cooldownOf s'.cache k = cooldownOf s.cache k := by
  rcases perform_cooldown h hp k with hsame | ⟨_, _, _, _, _, hidle, _⟩ | ⟨_, hidle | ⟨t', comp, he, hc⟩⟩
  · exact hsame
  · exact absurd hk (hidle t)
  · exact absurd hk (hidle t)
  · exact absurd hc (hop t' comp he)

theorem perform_apply (hp : perform s op answer s') :
    s'.cache = s.cache ∨ ∃ cacheOp : CacheOp, s'.cache = (cacheOp.apply s.cache).2 := by
  cases op with
  | lookup key nowMs allowStale outputSize =>
    obtain ⟨-, rfl⟩ := hp
    exact Or.inr ⟨.lookup key nowMs allowStale, sharedLookup_cache s.cache key nowMs allowStale outputSize⟩
  | begin key nowMs unknownKid cooldownMs =>
    obtain ⟨-, rfl⟩ := hp
    exact Or.inr ⟨.begin key nowMs unknownKid cooldownMs, rfl⟩
  | complete ticket comp =>
    obtain ⟨-, rfl⟩ := hp
    exact Or.inr ⟨.complete ticket comp, rfl⟩
  | _ =>
    obtain ⟨-, rfl⟩ := hp
    exact Or.inl rfl

theorem perform_cooldown_later (h : s.cache.Inv) (hp : perform s op answer s') {k : Bytes} {last : Int}
    (hlast : cooldownOf s.cache k = some (some last)) (hslot : Occupied s'.cache k) :
    ∃ last', last ≤ last' ∧ cooldownOf s'.cache k = some (some last') := by
  rcases perform_apply hp with hsame | ⟨cacheOp, happly⟩
  · exact ⟨last, Int.le_refl _, hsame ▸ hlast⟩
  · rw [happly] at hslot ⊢
    exact cooldown_apply_later h cacheOp hlast hslot

theorem perform_cooldown_begin {key : Bytes} {nowMs cooldownMs : Int} {ticket : CacheRefresh}
    (h : s.cache.Inv) (hp : perform s (.begin key nowMs true cooldownMs) (.started, ticket) s') :
    cooldownOf s'.cache key = some (some nowMs) ∧
      ∀ last, cooldownOf s.cache key = some (some last) → last + cooldownMs ≤ nowMs := by
  obtain ⟨ha, rfl⟩ := hp
  exact cooldown_started h (Prod.mk.inj ha).1.symm

end Perform

end OAuthValidator
