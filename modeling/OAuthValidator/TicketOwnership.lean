import OAuthValidator.CacheRuns

/-! Ownership of refresh tickets along a run. A ticket is outstanding from the
begin that returned it until the first completion that names it. -/

namespace OAuthValidator

open ExpiringMap

/-- Some earlier begin for `key` answered STARTED with `ticket`, and no
completion has named the ticket since. -/
def Outstanding (cache : Cache) (ops : List CacheOp) (n : Nat) (ticket : CacheRefresh)
    (key : Bytes) : Prop :=
  ∃ m nowMs unknownKid cooldownMs, m < n ∧
    ops[m]? = some (.begin key nowMs unknownKid cooldownMs) ∧
    answerAt cache ops m = some (.begin .started ticket) ∧
    ∀ j, m < j → j < n → ∀ c, ops[j]? ≠ some (.complete ticket c)

theorem MapStep.pending_iff {m m' : State Bytes CacheRefresh Bytes Int} {op : CacheOp}
    {answer : CacheAnswer} (h : MapStep m op answer m') (ticket : CacheRefresh) (key : Bytes) :
    m'.pending ticket = some key ↔
      (∃ nowMs unknownKid cooldownMs, op = .begin key nowMs unknownKid cooldownMs ∧
        answer = .begin .started ticket) ∨
      (m.pending ticket = some key ∧ ∀ c, op ≠ .complete ticket c) := by
  cases h with
  | lookup fresh stale => simp
  | refused hr => simp [hr]
  | @begun key' nowMs unknownKid cooldownMs ticket' _ hb =>
    rw [hb.pending, Function.update_apply]
    by_cases ht : ticket = ticket'
    · subst ht
      simp [hb.unused]
    · simp [ht, Ne.symm ht]
  | @completed ticket' key' c _ hc =>
    rw [hc.released, Function.update_apply]
    by_cases ht : ticket = ticket'
    · subst ht
      simp
    · simp [ht, Ne.symm ht]
  | @unrecognised ticket' c hn =>
    by_cases ht : ticket = ticket'
    · subst ht
      simp [hn]
    · simp [Ne.symm ht]

theorem outstanding_succ_iff {cache : Cache} {ops : List CacheOp} {n : Nat} {op : CacheOp}
    (hop : ops[n]? = some op) (ticket : CacheRefresh) (key : Bytes) :
    Outstanding cache ops (n + 1) ticket key ↔
      (∃ nowMs unknownKid cooldownMs, op = .begin key nowMs unknownKid cooldownMs ∧
        (op.apply (stateAt cache ops n)).1 = .begin .started ticket) ∨
      (Outstanding cache ops n ticket key ∧ ∀ c, op ≠ .complete ticket c) := by
  constructor
  · rintro ⟨m, nowMs, unknownKid, cooldownMs, hm, hb, ha, hfree⟩
    rcases Nat.lt_succ_iff_lt_or_eq.mp hm with hm | rfl
    · refine Or.inr ⟨⟨m, nowMs, unknownKid, cooldownMs, hm, hb, ha,
        fun j hmj hj => hfree j hmj (by omega)⟩, fun c hc => ?_⟩
      exact hfree n hm (by omega) c (hc ▸ hop)
    · rw [hop] at hb
      have hop' := Option.some.inj hb
      simp only [answerAt, hop, Option.map_some, Option.some.injEq] at ha
      exact Or.inl ⟨nowMs, unknownKid, cooldownMs, hop', ha⟩
  · rintro (⟨nowMs, unknownKid, cooldownMs, rfl, ha⟩ | ⟨⟨m, nowMs, u, cd, hm, hb, ha, hfree⟩, hne⟩)
    · exact ⟨n, nowMs, unknownKid, cooldownMs, by omega, hop, by simp [answerAt, hop, ha],
        fun j hn hj => by omega⟩
    · refine ⟨m, nowMs, u, cd, by omega, hb, ha, fun j hmj hj c hc => ?_⟩
      rcases Nat.lt_succ_iff_lt_or_eq.mp hj with hj | rfl
      · exact hfree j hmj hj c hc
      · exact hne c (Option.some.inj (hop.symm.trans hc))

/-- The tickets the cache recognises are the outstanding ones, each for the
key given to its begin. -/
theorem outstanding_iff_pendingKey {capacity : Nat} {cache : Cache}
    (hinit : cacheInit capacity = some cache) (ops : List CacheOp) (n : Nat)
    (ticket : CacheRefresh) (key : Bytes) :
    Outstanding cache ops n ticket key ↔ pendingKey (stateAt cache ops n) ticket = some key := by
  induction n with
  | zero =>
    have h0 : pendingKey cache ticket = none :=
      congrFun (congrArg State.pending (abstractCache_init hinit)) ticket
    have hs : stateAt cache ops 0 = cache := rfl
    rw [hs, h0]
    simp [Outstanding]
  | succ n ih =>
    cases hop : ops[n]? with
    | none =>
      rw [stateAt_succ_of_none hop, ← ih]
      have hge : ops.length ≤ n := List.getElem?_eq_none_iff.mp hop
      constructor
      · rintro ⟨m, nowMs, u, cd, hm, hb, ha, hfree⟩
        have hlt := (List.getElem?_eq_some_iff.mp hb).1
        exact ⟨m, nowMs, u, cd, by omega, hb, ha, fun j hmj hj => hfree j hmj (by omega)⟩
      · rintro ⟨m, nowMs, u, cd, hm, hb, ha, hfree⟩
        refine ⟨m, nowMs, u, cd, by omega, hb, ha, fun j hmj hj c hc => ?_⟩
        have hlt := (List.getElem?_eq_some_iff.mp hc).1
        exact hfree j hmj (by omega) c hc
    | some op =>
      have hstep := mapStep_apply ((Cache.Inv.init hinit).stateAt ops n) op
      rw [outstanding_succ_iff hop, ih, stateAt_succ hop]
      exact (hstep.pending_iff ticket key).symm

def CacheOp.isBegin : CacheOp → Bool
  | .begin _ _ _ _ => true
  | _ => false

theorem advanceSerial_eq {serial : Nat} (h : serial < uint64Max) :
    advanceSerial serial = serial + 1 := by
  unfold advanceSerial uint64Max at *
  rw [Nat.mod_eq_of_lt (by omega)]
  simp

/-- The serial counter moves only when a refresh starts. -/
theorem serial_apply (cache : Cache) (op : CacheOp) :
    ((op.apply cache).2.control.nextRefreshSerial = cache.control.nextRefreshSerial ∧
      ∀ ticket, (op.apply cache).1 ≠ .begin .started ticket) ∨
    (op.isBegin = true ∧
      (op.apply cache).2.control.nextRefreshSerial =
        advanceSerial cache.control.nextRefreshSerial ∧
      ∀ result ticket, (op.apply cache).1 = .begin result ticket →
        ticket.serial = cache.control.nextRefreshSerial) := by
  cases op with
  | lookup key nowMs allowStale =>
    exact Or.inl ⟨(cacheLookup_cases cache key nowMs allowStale).1, by simp [CacheOp.apply]⟩
  | begin key nowMs unknownKid cooldownMs =>
    rcases cacheBeginRefresh_cases cache key nowMs unknownKid cooldownMs with
      ⟨hr, _, _, hs⟩ | ⟨hr, entry, existing, hst⟩
    · refine Or.inl ⟨hs, fun ticket ha => hr ?_⟩
      simp only [CacheOp.apply, CacheAnswer.begin.injEq] at ha
      exact ha.1
    · refine Or.inr ⟨rfl, hst.next, fun result ticket ha => ?_⟩
      simp only [CacheOp.apply, CacheAnswer.begin.injEq] at ha
      exact ha.2 ▸ hst.serial
  | complete ticket c =>
    refine Or.inl ⟨?_, by simp [CacheOp.apply]⟩
    by_cases ho : ∃ entry, Owns cache ticket entry
    · obtain ⟨entry, ho⟩ := ho
      exact (cacheCompleteRefresh_of_owns ho c).2.2
    · simp only [CacheOp.apply, cacheCompleteRefresh_of_not_owns (not_exists.mp ho) c]

theorem begins_succ {ops : List CacheOp} {n : Nat} {op : CacheOp} (hop : ops[n]? = some op) :
    (ops.take (n + 1)).countP CacheOp.isBegin =
      (ops.take n).countP CacheOp.isBegin + if op.isBegin then 1 else 0 := by
  simp [List.take_add_one, hop, List.countP_append, List.countP_singleton]

theorem serial_le_begins {capacity : Nat} {cache : Cache} (hinit : cacheInit capacity = some cache)
    {ops : List CacheOp} (hb : ops.countP CacheOp.isBegin < uint64Max) (n : Nat) :
    (stateAt cache ops n).control.nextRefreshSerial ≤
      1 + (ops.take n).countP CacheOp.isBegin := by
  induction n with
  | zero =>
    unfold cacheInit at hinit
    split at hinit
    · simp at hinit
    · obtain rfl := Option.some.inj hinit
      simp [stateAt]
  | succ n ih =>
    cases hop : ops[n]? with
    | none =>
      have hge : ops.length ≤ n := List.getElem?_eq_none_iff.mp hop
      rw [stateAt_succ_of_none hop, List.take_of_length_le (by omega)]
      rwa [List.take_of_length_le hge] at ih
    | some op =>
      have hcount := begins_succ hop
      have hle := (List.take_sublist (n + 1) ops).countP_le (p := CacheOp.isBegin)
      rw [stateAt_succ hop, hcount]
      rcases serial_apply (stateAt cache ops n) op with ⟨hs, _⟩ | ⟨hbeg, hs, _⟩
      · rw [hs]
        omega
      · rw [hbeg, if_pos rfl] at hcount ⊢
        rw [hs, advanceSerial_eq (by omega)]
        omega

/-- Under the bound on begins a later STARTED answer carries a larger serial
than every earlier one. -/
theorem started_serial_lt {capacity : Nat} {cache : Cache} (hinit : cacheInit capacity = some cache)
    {ops : List CacheOp} (hb : ops.countP CacheOp.isBegin < uint64Max) {m : Nat}
    {ticket : CacheRefresh} (ha : answerAt cache ops m = some (.begin .started ticket)) {n : Nat}
    (hn : m < n) : ticket.serial < (stateAt cache ops n).control.nextRefreshSerial := by
  induction n with
  | zero => omega
  | succ n ih =>
    cases hop : ops[n]? with
    | none =>
      have hm : m < n := by
        rcases Nat.lt_succ_iff_lt_or_eq.mp hn with hm | rfl
        · exact hm
        · simp [answerAt, hop] at ha
      exact stateAt_succ_of_none hop ▸ ih hm
    | some op =>
      have hserial := serial_le_begins hinit hb n
      have hcount := begins_succ hop
      have hle := (List.take_sublist (n + 1) ops).countP_le (p := CacheOp.isBegin)
      rw [stateAt_succ hop]
      rcases serial_apply (stateAt cache ops n) op with ⟨hs, hne⟩ | ⟨hbeg, hs, ht⟩
      · rw [hs]
        rcases Nat.lt_succ_iff_lt_or_eq.mp hn with hm | rfl
        · exact ih hm
        · simp only [answerAt, hop, Option.map_some, Option.some.injEq] at ha
          exact absurd ha (hne ticket)
      · rw [hbeg, if_pos rfl] at hcount
        rw [hs, advanceSerial_eq (by omega)]
        rcases Nat.lt_succ_iff_lt_or_eq.mp hn with hm | rfl
        · have := ih hm
          omega
        · simp only [answerAt, hop, Option.map_some, Option.some.injEq] at ha
          have := ht _ _ ha
          omega

theorem started_serial_lt_started {capacity : Nat} {cache : Cache}
    (hinit : cacheInit capacity = some cache) {ops : List CacheOp}
    (hb : ops.countP CacheOp.isBegin < uint64Max) {m m' : Nat} {ticket ticket' : CacheRefresh}
    (ha : answerAt cache ops m = some (.begin .started ticket))
    (ha' : answerAt cache ops m' = some (.begin .started ticket')) (hm : m < m') :
    ticket.serial < ticket'.serial := by
  have hlt := started_serial_lt hinit hb ha hm
  obtain ⟨op, _, hanswer⟩ := Option.map_eq_some_iff.mp ha'
  rcases serial_apply (stateAt cache ops m') op with ⟨_, hne⟩ | ⟨_, _, ht⟩
  · exact absurd hanswer (hne _)
  · rw [ht _ _ hanswer]
    exact hlt

/-- A ticket named by a completion is not outstanding at any later time. -/
theorem not_outstanding_after_complete {capacity : Nat} {cache : Cache}
    (hinit : cacheInit capacity = some cache) {ops : List CacheOp}
    (hb : ops.countP CacheOp.isBegin < uint64Max) {n j : Nat} {ticket : CacheRefresh}
    {c : Completion} {key key' : Bytes} (hop : ops[n]? = some (.complete ticket c)) (hj : n < j)
    (hout : Outstanding cache ops n ticket key) : ¬ Outstanding cache ops j ticket key' := by
  rintro ⟨m', nowMs', u', cd', hm', hb', ha', hfree'⟩
  obtain ⟨m, _, _, _, hm, _, ha, _⟩ := hout
  -- the second begin cannot precede the completion, and after it the serial is taken
  rcases Nat.lt_trichotomy m' n with hlt | rfl | hgt
  · exact hfree' n hlt hj c hop
  · rw [hop] at hb'
    simp at hb'
  · exact Nat.lt_irrefl _ (started_serial_lt_started hinit hb ha ha' (by omega))

/-- A completion acts only under an outstanding ticket. Then the ticket's slot
still holds the key of its begin, the refresh is released whatever the other
arguments are, and the ticket is refused from then on. Under any other ticket
the call answers false and changes nothing. -/
theorem refresh_ticket_ownership {capacity : Nat} {cache : Cache}
    (hinit : cacheInit capacity = some cache) (ops : List CacheOp)
    (hb : ops.countP CacheOp.isBegin < uint64Max) (n : Nat) (ticket : CacheRefresh)
    (c : Completion) (hop : ops[n]? = some (.complete ticket c)) :
    (∀ key, Outstanding cache ops n ticket key →
      (∃ entry, (stateAt cache ops n).entries[ticket.entryIndex]? = some entry ∧
        entry.occupied = true ∧ entry.refreshing = true ∧ entry.key = key) ∧
      (∃ entry, (stateAt cache ops (n + 1)).entries[ticket.entryIndex]? = some entry ∧
        entry.refreshing = false) ∧
      ∀ j c', n < j → ops[j]? = some (.complete ticket c') →
        answerAt cache ops j = some (.complete false) ∧
          stateAt cache ops (j + 1) = stateAt cache ops j) ∧
    ((∀ key, ¬ Outstanding cache ops n ticket key) →
      answerAt cache ops n = some (.complete false) ∧
        stateAt cache ops (n + 1) = stateAt cache ops n) := by
  have refused (j : Nat) (c' : Completion) (hj : ops[j]? = some (.complete ticket c'))
      (hnone : ∀ key, ¬ Outstanding cache ops j ticket key) :
      answerAt cache ops j = some (.complete false) ∧
        stateAt cache ops (j + 1) = stateAt cache ops j := by
    have hp : pendingKey (stateAt cache ops j) ticket = none := by
      cases hp : pendingKey (stateAt cache ops j) ticket with
      | none => rfl
      | some key => exact absurd ((outstanding_iff_pendingKey hinit ops j ticket key).mpr hp) (hnone key)
    have hc := cacheCompleteRefresh_of_not_owns (pendingKey_eq_none_iff.mp hp) c'
    rw [stateAt_succ hj]
    simp [answerAt, hj, CacheOp.apply, hc]
  refine ⟨fun key hout => ?_, refused n c hop⟩
  obtain ⟨entry, ho, hk⟩ :=
    pendingKey_eq_some_iff.mp ((outstanding_iff_pendingKey hinit ops n ticket key).mp hout)
  have hlt := (List.getElem?_eq_some_iff.mp ho.slot).1
  refine ⟨⟨entry, ho.slot, ho.occupied, ho.refreshing, hk⟩, ⟨completedEntry entry c, ?_,
    completedEntry_not_refreshing entry c⟩, fun j c' hj hjop => ?_⟩
  · rw [stateAt_succ hop]
    simp only [CacheOp.apply]
    rw [(cacheCompleteRefresh_of_owns ho c).2.1, List.getElem?_set_self hlt]
  · exact refused j c' hjop fun key' => not_outstanding_after_complete hinit hb hop hj hout

/-- A ticket consumed by a failed completion, replayed while a second refresh
of the same slot is running. -/
theorem refresh_ticket_ownership_replay :
    let cache : Cache := ⟨[.zero], ⟨1, {}⟩⟩
    let failed : Completion := ⟨5, false, false, false, 0, 0, []⟩
    let ops : List CacheOp :=
      [.begin [1] 0 false 0, .complete ⟨0, 1⟩ failed, .begin [2] 6 false 0, .complete ⟨0, 1⟩ failed]
    Outstanding cache ops 1 ⟨0, 1⟩ [1] ∧
      (answerAt cache ops 3 = some (.complete false) ∧
        stateAt cache ops 4 = stateAt cache ops 3) := by
  intro cache failed ops
  have hout : Outstanding cache ops 1 ⟨0, 1⟩ [1] :=
    ⟨0, 0, false, 0, by decide, rfl, by decide, fun j h0 h1 => by omega⟩
  exact ⟨hout, ((@refresh_ticket_ownership 1 cache rfl ops (by decide) 1 ⟨0, 1⟩ failed rfl).1
    [1] hout).2.2 3 failed (by decide) rfl⟩

end OAuthValidator
