import OAuthValidator.TicketOwnership

/-! The representation invariant of the cache along every run, with the serials of
the refreshes under way. A refreshing slot has an outstanding ticket, so its serial
was handed out by one begin of the run. -/

namespace OAuthValidator

/-- What the slots and the counter of a cache always satisfy. -/
structure Cache.Represents (cache : Cache) : Prop where
  distinctKeys : ∀ (i j : Nat) (e e' : CacheEntry), cache.entries[i]? = some e →
    cache.entries[j]? = some e' → e.occupied = true → e'.occupied = true → e.key = e'.key → i = j
  clear : ∀ e ∈ cache.entries, e.occupied = false → e = .zero
  keys : ∀ e ∈ cache.entries, e.occupied = true → 1 ≤ e.key.length ∧ e.key.length ≤ cacheMaxKeySize
  live : ∀ e ∈ cache.entries, e.occupied = true → e.hasValue = true ∨ e.refreshing = true
  payloads : ∀ e ∈ cache.entries, e.hasValue = true →
    1 ≤ e.payload.length ∧ e.payload.length ≤ cacheMaxPayloadSize
  times : ∀ e ∈ cache.entries, e.hasValue = true → 0 ≤ e.freshUntilMs ∧ e.freshUntilMs ≤ e.staleUntilMs
  serials : ∀ e ∈ cache.entries, e.refreshing = true →
    e.refreshSerial ≠ 0 ∧ e.refreshSerial < cache.control.nextRefreshSerial
  distinctSerials : ∀ (i j : Nat) (e e' : CacheEntry), cache.entries[i]? = some e →
    cache.entries[j]? = some e' → e.refreshing = true → e'.refreshing = true →
    e.refreshSerial = e'.refreshSerial → i = j
  next : cache.control.nextRefreshSerial ≠ 0

section Runs

variable {capacity : Nat} {cache : Cache} {ops : List CacheOp} {n : Nat}

/-- The ticket of a refreshing slot is outstanding. -/
theorem outstanding_of_refreshing (hinit : cacheInit capacity = some cache) {i : Nat} {e : CacheEntry}
    (hslot : (stateAt cache ops n).entries[i]? = some e) (hr : e.refreshing = true) :
    Outstanding cache ops n ⟨i, e.refreshSerial⟩ e.key := by
  have hw := ((Cache.Inv.init hinit).stateAt ops n).entries e (List.mem_of_getElem? hslot)
  refine (outstanding_iff_pendingKey hinit ops n _ _).mpr (pendingKey_eq_some_iff.mpr ⟨e, ?_, rfl⟩)
  exact ⟨hslot, hw.occupied_of_refreshing hr, hr, rfl, hw.serial hr⟩

/-- No serial is handed out twice. -/
theorem started_serial_injective (hinit : cacheInit capacity = some cache)
    (hb : ops.countP CacheOp.isBegin < uint64Max) {m m' : Nat} {ticket ticket' : CacheRefresh}
    (ha : answerAt cache ops m = some (.begin .started ticket))
    (ha' : answerAt cache ops m' = some (.begin .started ticket'))
    (hs : ticket.serial = ticket'.serial) : ticket = ticket' := by
  rcases Nat.lt_trichotomy m m' with hlt | rfl | hgt
  · have hserial := started_serial_lt_started hinit hb ha ha' hlt
    omega
  · have hsame := Option.some.inj (ha.symm.trans ha')
    simpa using hsame
  · have hserial := started_serial_lt_started hinit hb ha' ha hgt
    omega

/-- Whatever the operations and their arguments, the cache keeps its representation
invariant. -/
theorem cache_representation (hinit : cacheInit capacity = some cache)
    (hb : ops.countP CacheOp.isBegin < uint64Max) (n : Nat) : (stateAt cache ops n).Represents := by
  have hinv := (Cache.Inv.init hinit).stateAt ops n
  refine
    { distinctKeys := fun i j e e' hi hj ho ho' hk => ?_
      clear := fun e hm => (hinv.entries e hm).clear
      keys := fun e hm ho => ?_
      live := fun e hm => (hinv.entries e hm).live
      payloads := fun e hm => (hinv.entries e hm).payload
      times := fun e hm => (hinv.entries e hm).times
      serials := fun e hm hr => ⟨(hinv.entries e hm).serial hr, ?_⟩
      distinctSerials := fun i j e e' hi hj hr hr' hs => ?_
      next := hinv.serial }
  · exact hinv.distinct hi hj (ownerKey_eq_some_iff.mpr ⟨ho, hk⟩) (ownerKey_eq_some_iff.mpr ⟨ho', rfl⟩)
  · have hvalid := (hinv.entries e hm).valid ho
    simpa [validKey, Nat.one_le_iff_ne_zero, Nat.pos_iff_ne_zero] using hvalid
  · obtain ⟨i, hslot⟩ := List.mem_iff_getElem?.mp hm
    obtain ⟨m, _, _, _, hmn, _, ha, _⟩ := outstanding_of_refreshing hinit hslot hr
    exact started_serial_lt hinit hb ha hmn
  · obtain ⟨m, _, _, _, _, _, ha, _⟩ := outstanding_of_refreshing hinit hi hr
    obtain ⟨m', _, _, _, _, _, ha', _⟩ := outstanding_of_refreshing hinit hj hr'
    exact congrArg CacheRefresh.entryIndex (started_serial_injective hinit hb ha ha' hs)

end Runs

/-- One slot is published and a second one is being refreshed. -/
theorem cache_representation_mixed :
    let cache : Cache := ⟨[.zero, .zero], ⟨1, {}⟩⟩
    let ops : List CacheOp :=
      [.begin [1] 0 false 0, .complete ⟨0, 1⟩ ⟨0, true, true, false, 10, 5, [7]⟩, .begin [2] 3 false 0]
    (stateAt cache ops 3).entries.map (fun e => (e.hasValue, e.refreshing, e.refreshSerial)) =
        [(true, false, 1), (false, true, 2)] ∧
      (stateAt cache ops 3).Represents := by
  intro cache ops
  exact ⟨by decide, @cache_representation 2 cache ops rfl (by decide) 3⟩

end OAuthValidator
