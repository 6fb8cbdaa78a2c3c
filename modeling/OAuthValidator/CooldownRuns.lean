import OAuthValidator.Cooldown

/-! The cooldown of unknown key ids along every run of cache operations. The time
that a slot remembers only grows while the slot stays with its key, and it is the
time of a refresh that the run has started. The times of the operations need not
grow. -/

namespace OAuthValidator

section Runs

variable {capacity : Nat} {cache : Cache} {ops : List CacheOp} {key : Bytes}

theorem answerAt_apply {n : Nat} {op : CacheOp} {answer : CacheAnswer} (hop : ops[n]? = some op)
    (ha : answerAt cache ops n = some answer) : (op.apply (stateAt cache ops n)).1 = answer := by
  simpa [answerAt, hop] using ha

/-- From a started refresh on, the slot remembers its time or a later one. -/
theorem remembered_since (hinit : cacheInit capacity = some cache) {m : Nat} {t c : Int}
    {ticket : CacheRefresh} (hop : ops[m]? = some (.begin key t true c))
    (ha : answerAt cache ops m = some (.begin .started ticket)) {n : Nat} (hn : m < n)
    (hslot : ∀ j, m < j → j ≤ n → Occupied (stateAt cache ops j) key) :
    ∃ last, t ≤ last ∧ cooldownOf (stateAt cache ops n) key = some (some last) := by
  induction n with
  | zero => omega
  | succ n ih =>
    have hinv := (Cache.Inv.init hinit).stateAt ops n
    by_cases hm : m < n
    · obtain ⟨last, hle, hlast⟩ := ih hm fun j hj hjn => hslot j hj (by omega)
      cases hnext : ops[n]? with
      | none =>
        rw [stateAt_succ_of_none hnext]
        exact ⟨last, hle, hlast⟩
      | some op =>
        have hheld := hslot (n + 1) hn (Nat.le_refl _)
        rw [stateAt_succ hnext] at hheld ⊢
        obtain ⟨last', hle', hlast'⟩ := cooldown_apply_later hinv op hlast hheld
        exact ⟨last', by omega, hlast'⟩
    · obtain rfl : m = n := by omega
      have hstarted := answerAt_apply hop ha
      simp only [CacheOp.apply, CacheAnswer.begin.injEq] at hstarted
      rw [stateAt_succ hop]
      exact ⟨t, Int.le_refl _, (cooldown_started hinv hstarted.1).1⟩

/-- A time that a slot remembers is the time of a refresh started before, and the
slot has been with its key ever since. -/
theorem remembered_origin (hinit : cacheInit capacity = some cache) {n : Nat} {last : Int}
    (hlast : cooldownOf (stateAt cache ops n) key = some (some last)) :
    ∃ m c ticket, m < n ∧ ops[m]? = some (.begin key last true c) ∧
      answerAt cache ops m = some (.begin .started ticket) ∧
      ∀ j, m < j → j ≤ n → Occupied (stateAt cache ops j) key := by
  have hoccupied {j : Nat} {value : Option Int} (h : cooldownOf (stateAt cache ops j) key = some value) :
      Occupied (stateAt cache ops j) key := by
    by_contra hfree
    rw [cooldownOf_eq_none_iff.mpr hfree] at h
    simp at h
  induction n with
  | zero =>
    have hclear : cooldownOf cache key = none := by
      refine cooldownOf_eq_none_iff.mpr ?_
      rintro ⟨entry, he, hk⟩
      unfold cacheInit at hinit
      split at hinit
      · simp at hinit
      · obtain rfl := Option.some.inj hinit
        rw [List.eq_of_mem_replicate he, ownerKey_zero] at hk
        simp at hk
    have hlast : cooldownOf cache key = some (some last) := hlast
    rw [hclear] at hlast
    simp at hlast
  | succ n ih =>
    have hinv := (Cache.Inv.init hinit).stateAt ops n
    have hnow := hoccupied hlast
    have hbefore (hold : cooldownOf (stateAt cache ops n) key = some (some last)) :
        ∃ m c ticket, m < n + 1 ∧ ops[m]? = some (.begin key last true c) ∧
          answerAt cache ops m = some (.begin .started ticket) ∧
          ∀ j, m < j → j ≤ n + 1 → Occupied (stateAt cache ops j) key := by
      obtain ⟨m, c, ticket, hm, hop, ha, hheld⟩ := ih hold
      refine ⟨m, c, ticket, by omega, hop, ha, fun j hj hjn => ?_⟩
      rcases Nat.lt_succ_iff_lt_or_eq.mp (Nat.lt_succ_of_le hjn) with hlt | rfl
      · exact hheld j hj (by omega)
      · exact hnow
    cases hnext : ops[n]? with
    | none => exact hbefore (stateAt_succ_of_none hnext ▸ hlast)
    | some op =>
      have hstep : stateAt cache ops (n + 1) = (op.apply (stateAt cache ops n)).2 := stateAt_succ hnext
      rw [hstep] at hlast
      rcases cooldown_apply_origin hinv op hlast with hold | ⟨c, ticket, rfl, hstarted⟩
      · exact hbefore hold
      · refine ⟨n, c, ticket, by omega, hnext, by simp [answerAt, hnext, hstarted], fun j hj hjn => ?_⟩
        obtain rfl : j = n + 1 := by omega
        exact hnow

theorem suppressed_remembers (hinit : cacheInit capacity = some cache) {n : Nat} {t c : Int}
    {ticket : CacheRefresh} (hop : ops[n]? = some (.begin key t true c))
    (ha : answerAt cache ops n = some (.begin .suppressed ticket)) :
    ∃ last, cooldownOf (stateAt cache ops n) key = some (some last) ∧ t - last < c := by
  have hinv := (Cache.Inv.init hinit).stateAt ops n
  have hanswer := answerAt_apply hop ha
  simp only [CacheOp.apply, CacheAnswer.begin.injEq] at hanswer
  obtain ⟨i, entry, hslot, hk, hflag, hrecent⟩ := cacheBeginRefresh_suppressed hanswer.1
  refine ⟨entry.lastUnknownKidRefreshMs, ?_, hrecent⟩
  rw [cooldownOf_slot hinv hslot hk, unknownKidRefresh, if_pos hflag]

/-- Two refreshes of a key for unknown key ids are the cooldown of the second apart
while the slot stays with the key. A refresh is suppressed only by one that was
started more recently than the cooldown allows. -/
theorem unknown_kid_refreshes_spaced (hinit : cacheInit capacity = some cache) (ops : List CacheOp)
    (key : Bytes) :
    (∀ m n t₁ c₁ ticket₁ t₂ c₂ ticket₂, m < n →
      ops[m]? = some (.begin key t₁ true c₁) → answerAt cache ops m = some (.begin .started ticket₁) →
      ops[n]? = some (.begin key t₂ true c₂) → answerAt cache ops n = some (.begin .started ticket₂) →
      (∀ j, m < j → j ≤ n → Occupied (stateAt cache ops j) key) → c₂ ≤ t₂ - t₁) ∧
    (∀ n t₂ c₂ ticket₂, ops[n]? = some (.begin key t₂ true c₂) →
      answerAt cache ops n = some (.begin .suppressed ticket₂) →
      ∃ m t c ticket, m < n ∧ ops[m]? = some (.begin key t true c) ∧
        answerAt cache ops m = some (.begin .started ticket) ∧
        (∀ j, m < j → j ≤ n → Occupied (stateAt cache ops j) key) ∧ t₂ - t < c₂) := by
  constructor
  · intro m n t₁ c₁ ticket₁ t₂ c₂ ticket₂ hmn hop₁ ha₁ hop₂ ha₂ hheld
    obtain ⟨last, hle, hlast⟩ := remembered_since hinit hop₁ ha₁ hmn hheld
    have hinv := (Cache.Inv.init hinit).stateAt ops n
    have hstarted := answerAt_apply hop₂ ha₂
    simp only [CacheOp.apply, CacheAnswer.begin.injEq] at hstarted
    have hgate := (cooldown_started hinv hstarted.1).2 last hlast
    omega
  · intro n t₂ c₂ ticket₂ hop ha
    obtain ⟨last, hlast, hrecent⟩ := suppressed_remembers hinit hop ha
    obtain ⟨m, c, ticket, hm, hopm, ham, hheld⟩ := remembered_origin hinit hlast
    exact ⟨m, last, c, ticket, hm, hopm, ham, hheld, hrecent⟩

end Runs

/-- Between two refreshes a completion publishes, and a begin with an earlier clock
is suppressed. -/
theorem unknown_kid_refreshes_spaced_backwards :
    let cache : Cache := ⟨[.zero], ⟨1, {}⟩⟩
    let ops : List CacheOp :=
      [.begin [1] 100 true 50, .complete ⟨0, 1⟩ ⟨110, true, true, false, 10, 0, [7]⟩,
        .begin [1] 40 true 50, .begin [1] 160 true 50]
    answerAt cache ops 2 = some (.begin .suppressed noRefresh) ∧
      answerAt cache ops 3 = some (.begin .started ⟨0, 2⟩) ∧ (50 : Int) ≤ 160 - 100 ∧
      ∃ m t c ticket, m < 2 ∧ ops[m]? = some (.begin [1] t true c) ∧
        answerAt cache ops m = some (.begin .started ticket) ∧
        (∀ j, m < j → j ≤ 2 → Occupied (stateAt cache ops j) [1]) ∧ 40 - t < 50 := by
  intro cache ops
  have hsuppressed : answerAt cache ops 2 = some (.begin .suppressed noRefresh) := by decide
  have hstarted : answerAt cache ops 3 = some (.begin .started ⟨0, 2⟩) := by decide
  have hheld : ∀ j, 0 < j → j ≤ 3 → Occupied (stateAt cache ops j) [1] := by
    intro j hj hle
    unfold Occupied
    obtain rfl | rfl | rfl : j = 1 ∨ j = 2 ∨ j = 3 := by omega
    all_goals decide
  obtain ⟨hspaced, horigin⟩ := @unknown_kid_refreshes_spaced 1 cache rfl ops [1]
  exact ⟨hsuppressed, hstarted,
    hspaced 0 3 100 50 ⟨0, 1⟩ 160 50 ⟨0, 2⟩ (by decide) rfl (by decide) rfl hstarted hheld,
    horigin 2 40 50 noRefresh rfl hsuppressed⟩

end OAuthValidator
