import OAuthValidator.Retention
import OAuthValidator.TicketOwnership

/-! What lookups read along a run of a cache with few slots. As long as no
refresh began later than a lookup, the number of slots does not show: the lookup
reads the last document published under its key, and every document that is
still of use is there. -/

namespace OAuthValidator

open ExpiringMap

/-- The last refresh of `key` to change what is stored under it published
`stored`. Refreshes that failed since have changed nothing. -/
def LastPublished (cache : Cache) (ops : List CacheOp) (n : Nat) (key : Bytes)
    (stored : Stored Bytes Int) : Prop :=
  ∃ m ticket c, m < n ∧ ops[m]? = some (.complete ticket c) ∧ Outstanding cache ops m ticket key ∧
    c.outcome = .put stored ∧
    ∀ j ticket' c', m < j → j < n → ops[j]? = some (.complete ticket' c') →
      Outstanding cache ops j ticket' key → c'.outcome = .keep

theorem lastPublished_succ_iff {cache : Cache} {ops : List CacheOp} {n : Nat} {op : CacheOp}
    (hop : ops[n]? = some op) (key : Bytes) (stored : Stored Bytes Int) :
    LastPublished cache ops (n + 1) key stored ↔
      (∃ ticket c, op = .complete ticket c ∧ Outstanding cache ops n ticket key ∧
        c.outcome = .put stored) ∨
      ((∀ ticket c, op = .complete ticket c → Outstanding cache ops n ticket key →
        c.outcome = .keep) ∧ LastPublished cache ops n key stored) := by
  constructor
  · rintro ⟨m, ticket, c, hm, hc, hout, hput, hlast⟩
    rcases Nat.lt_succ_iff_lt_or_eq.mp hm with hm | rfl
    · refine Or.inr ⟨fun ticket' c' he hout' => ?_, m, ticket, c, hm, hc, hout, hput,
        fun j ticket' c' hmj hj => hlast j ticket' c' hmj (by omega)⟩
      exact hlast n ticket' c' hm (by omega) (he ▸ hop) hout'
    · have he : op = .complete ticket c := Option.some.inj (hop.symm.trans hc)
      exact Or.inl ⟨ticket, c, he, hout, hput⟩
  · rintro (⟨ticket, c, rfl, hout, hput⟩ | ⟨hkeep, m, ticket, c, hm, hc, hout, hput, hlast⟩)
    · exact ⟨n, ticket, c, by omega, hop, hout, hput, fun j _ _ hn hj => by omega⟩
    · refine ⟨m, ticket, c, by omega, hc, hout, hput, fun j ticket' c' hmj hj hc' hout' => ?_⟩
      rcases Nat.lt_succ_iff_lt_or_eq.mp hj with hj | rfl
      · exact hlast j ticket' c' hmj hj hc' hout'
      · exact hkeep ticket' c' (Option.some.inj (hop.symm.trans hc')) hout'

/-- Only a completion under an outstanding ticket changes what was published
last. -/
theorem lastPublished_succ_of_unchanged {cache : Cache} {ops : List CacheOp} {n : Nat} {op : CacheOp}
    (hop : ops[n]? = some op)
    (hnone : ∀ ticket c key, op = .complete ticket c → ¬ Outstanding cache ops n ticket key) :
    LastPublished cache ops (n + 1) = LastPublished cache ops n := by
  funext key stored
  rw [lastPublished_succ_iff hop key stored]
  refine propext ⟨?_, fun h => Or.inr ⟨fun ticket c he hout => ?_, h⟩⟩
  · rintro (⟨ticket, c, he, hout, _⟩ | ⟨_, h⟩)
    · exact absurd hout (hnone ticket c key he)
    · exact h
  · exact absurd hout (hnone ticket c key he)

theorem lastPublished_succ_of_none {cache : Cache} {ops : List CacheOp} {n : Nat}
    (hop : ops[n]? = none) : LastPublished cache ops (n + 1) = LastPublished cache ops n := by
  have hge : ops.length ≤ n := List.getElem?_eq_none_iff.mp hop
  funext key stored
  refine propext ⟨?_, ?_⟩
  · rintro ⟨m, ticket, c, _, hc, hout, hput, hlast⟩
    have hlt := (List.getElem?_eq_some_iff.mp hc).1
    exact ⟨m, ticket, c, by omega, hc, hout, hput,
      fun j ticket' c' hmj hj => hlast j ticket' c' hmj (by omega)⟩
  · rintro ⟨m, ticket, c, hm, hc, hout, hput, hlast⟩
    refine ⟨m, ticket, c, by omega, hc, hout, hput, fun j ticket' c' hmj _ hc' => ?_⟩
    have hlt := (List.getElem?_eq_some_iff.mp hc').1
    exact hlast j ticket' c' hmj (by omega) hc'

/-- Every refresh that began among the first `n` operations began by `now`. -/
def BeganBy (ops : List CacheOp) (n : Nat) (now : Int) : Prop :=
  ∀ j key nowMs unknownKid cooldownMs, j < n →
    ops[j]? = some (.begin key nowMs unknownKid cooldownMs) → nowMs ≤ now

section Run

variable {capacity : Nat} {cache : Cache} {ops : List CacheOp} {n : Nat} {now : Int}

/-- Every slot is enough: the cache holds all publications that are of use. -/
theorem retains_lastPublished (hinit : cacheInit capacity = some cache) (hby : BeganBy ops n now) :
    (abstractCache (stateAt cache ops n)).Retains (LastPublished cache ops n) now := by
  induction n with
  | zero =>
    have hempty : abstractCache (stateAt cache ops 0) = State.empty := abstractCache_init hinit
    rw [hempty]
    refine .empty now fun key stored hlast => ?_
    obtain ⟨m, _, _, hm, _⟩ := hlast
    omega
  | succ n ih =>
    have hs := ih fun j key nowMs u cd hj => hby j key nowMs u cd (by omega)
    have hpending := outstanding_iff_pendingKey hinit ops n
    cases hop : ops[n]? with
    | none =>
      rw [stateAt_succ_of_none hop, lastPublished_succ_of_none hop]
      exact hs
    | some op =>
      have hstep := mapStep_apply ((Cache.Inv.init hinit).stateAt ops n) op
      rw [← stateAt_succ hop] at hstep
      generalize abstractCache (stateAt cache ops (n + 1)) = m' at hstep ⊢
      generalize (op.apply (stateAt cache ops n)).1 = answer at hstep
      cases hstep with
      | lookup =>
        rw [lastPublished_succ_of_unchanged hop (by simp)]
        exact hs
      | refused =>
        rw [lastPublished_succ_of_unchanged hop (by simp)]
        exact hs
      | @begun key nowMs unknownKid cooldownMs ticket _ hb =>
        rw [lastPublished_succ_of_unchanged hop (by simp)]
        exact hb.retains hs (hby n key nowMs unknownKid cooldownMs (by omega) hop)
      | @completed ticket key c _ hc =>
        -- the ticket stands for one key, so the completion of this key is the only one
        refine hc.retains hs fun j v => ?_
        have hkey {j : Bytes} : Outstanding cache ops n ticket j ↔ j = key := by
          rw [hpending]
          have hp : pendingKey (stateAt cache ops n) ticket = some key := hc.pending
          simp [hp, eq_comm]
        rw [lastPublished_succ_iff hop j v]
        simp only [CacheOp.complete.injEq, and_imp]
        constructor
        · rintro (⟨_, _, ⟨rfl, rfl⟩, hout, hput⟩ | ⟨hkeep, hlast⟩)
          · exact Or.inl ⟨hkey.mp hout, hput⟩
          · exact Or.inr ⟨fun hj => hkeep ticket c rfl rfl (hkey.mpr hj), hlast⟩
        · rintro (⟨hj, hput⟩ | ⟨hkeep, hlast⟩)
          · exact Or.inl ⟨ticket, c, ⟨rfl, rfl⟩, hkey.mpr hj, hput⟩
          · exact Or.inr ⟨fun _ _ ht hc' hout => hc' ▸ hkeep (hkey.mp (ht ▸ hout)), hlast⟩
      | @unrecognised ticket c hn =>
        rw [lastPublished_succ_of_unchanged hop]
        · exact hs
        · rintro ticket' c' key he hout
          obtain ⟨rfl, rfl⟩ := CacheOp.complete.inj he
          have hp : pendingKey (stateAt cache ops n) ticket = none := hn
          rw [hpending, hp] at hout
          simp at hout

end Run

/-- A published document stops being fresh before it stops being usable. -/
theorem Completion.outcome_put_times {c : Completion} {stored : Stored Bytes Int}
    (h : c.outcome = .put stored) : stored.freshUntil ≤ stored.staleUntil := by
  unfold Completion.outcome at h
  split at h
  · simp at h
  · next hr =>
    split at h
    · simp at h
    · obtain rfl := Outcome.put.inj h
      simp only [Bool.or_eq_true, not_or, Bool.not_eq_true] at hr
      have hgrace := (Completion.not_rejected hr.1).2.2.1
      dsimp only
      split <;> omega

theorem freshnessAt_eq_miss {stored : Stored Bytes Int} {nowMs : Int} (allowStale : Bool)
    (htimes : stored.freshUntil ≤ stored.staleUntil) (hexpired : stored.staleUntil ≤ nowMs) :
    freshnessAt stored nowMs allowStale = .miss := by
  have hfresh : ¬ nowMs < stored.freshUntil := by omega
  have hstale : ¬ nowMs < stored.staleUntil := by omega
  simp [freshnessAt, hfresh, hstale]

/-- What a valid lookup answers, from the document the cache holds. -/
theorem cacheLookup_of_map (cache : Cache) {key : Bytes} {nowMs : Int} (allowStale : Bool)
    (hk : validKey key = true) (hn : 0 ≤ nowMs) :
    (cacheLookup cache key nowMs allowStale).1 =
      ((cacheMap cache key).map (freshnessAt · nowMs allowStale)).getD .miss := by
  rw [cacheLookup_result cache allowStale hk hn]
  unfold cacheMap
  cases KeyedSlots.find valueKey cache.entries key with
  | none => rfl
  | some entry => rfl

theorem cacheLookup_index_of_miss {cache : Cache} {key : Bytes} {nowMs : Int} {allowStale : Bool}
    (h : (cacheLookup cache key nowMs allowStale).1 = .miss) :
    (cacheLookup cache key nowMs allowStale).2.1 = none := by
  obtain ⟨_, ⟨hi, _⟩ | ⟨i, entry, _, _, _, _, _, _, hne, _⟩⟩ :=
    cacheLookup_cases cache key nowMs allowStale
  · exact hi
  · exact absurd h hne

/-- A lookup reads the last publication of its key. It answers by that
document's lifetimes alone and copies it whole, whatever the number of slots and
whatever other keys were refreshed in between. -/
theorem lookup_reads_last_publication {capacity : Nat} {cache : Cache}
    (hinit : cacheInit capacity = some cache) (ops : List CacheOp) (n : Nat) (key : Bytes)
    (nowMs : Int) (allowStale : Bool) (hop : ops[n]? = some (.lookup key nowMs allowStale))
    (hk : validKey key = true) (hn : 0 ≤ nowMs) (hby : BeganBy ops n nowMs) :
    (∀ stored, LastPublished cache ops n key stored →
      ∃ index, answerAt cache ops n = some (.lookup (freshnessAt stored nowMs allowStale) index) ∧
        (freshnessAt stored nowMs allowStale ≠ .miss →
          ∃ i, index = some i ∧ ∀ size, stored.value.length ≤ size →
            cacheCopyPayload (stateAt cache ops (n + 1)) i size =
              (.ok, stored.value.length, stored.value))) ∧
    ((∀ stored, ¬ LastPublished cache ops n key stored) →
      answerAt cache ops n = some (.lookup .miss none)) := by
  have hinv := (Cache.Inv.init hinit).stateAt ops n
  have hretains := retains_lastPublished hinit hby
  have hanswer := cacheLookup_of_map (stateAt cache ops n) allowStale hk hn
  simp only [answerAt, stateAt_succ hop, hop, Option.map_some, CacheOp.apply, Option.some.injEq,
    CacheAnswer.lookup.injEq]
  constructor
  · intro stored hlast
    obtain ⟨_, _, c, _, _, _, hput, _⟩ := id hlast
    rcases hretains.kept hlast with hmap | ⟨hmap, hexpired⟩
    · have hfresh : (cacheLookup (stateAt cache ops n) key nowMs allowStale).1 =
          freshnessAt stored nowMs allowStale := by
        rw [hanswer, show cacheMap (stateAt cache ops n) key = some stored from hmap]
        rfl
      refine ⟨_, ⟨hfresh, rfl⟩, fun hit => ?_⟩
      obtain ⟨i, stored', hi, hmap', hcopy⟩ :=
        cacheLookup_copy hinv key nowMs allowStale (hfresh.trans_ne hit)
      obtain rfl : stored' = stored := Option.some.inj (hmap'.symm.trans hmap)
      exact ⟨i, hi, hcopy⟩
    · have hmiss := freshnessAt_eq_miss allowStale (Completion.outcome_put_times hput) hexpired
      have hnone : (cacheLookup (stateAt cache ops n) key nowMs allowStale).1 = .miss := by
        rw [hanswer, show cacheMap (stateAt cache ops n) key = none from hmap]
        rfl
      exact ⟨_, ⟨hnone.trans hmiss.symm, rfl⟩, fun hit => absurd hmiss hit⟩
  · intro hnever
    have hmap : cacheMap (stateAt cache ops n) key = none := by
      cases hm : cacheMap (stateAt cache ops n) key with
      | none => rfl
      | some stored => exact absurd (hretains.sound hm) (hnever stored)
    have hmiss : (cacheLookup (stateAt cache ops n) key nowMs allowStale).1 = .miss := by
      rw [hanswer, hmap]
      rfl
    exact ⟨hmiss, cacheLookup_index_of_miss hmiss⟩

/-- Both slots are taken. A third key evicts the document that has expired, and lookups
answer by the last publications of both keys: the one is stale, the other a miss. -/
theorem lookup_reads_last_publication_full :
    let cache : Cache := ⟨[.zero, .zero], ⟨1, {}⟩⟩
    let ops : List CacheOp :=
      [.begin [1] 0 false 0, .complete ⟨0, 1⟩ ⟨10, true, true, false, 20, 5, [7]⟩,
        .begin [2] 10 false 0, .complete ⟨1, 2⟩ ⟨12, true, true, false, 3, 0, [8]⟩,
        .begin [3] 20 false 0, .lookup [1] 32 true, .lookup [2] 32 true]
    answerAt cache ops 4 = some (.begin .started ⟨1, 3⟩) ∧
      (stateAt cache ops 5).control.stats.evictions = 1 ∧
      LastPublished cache ops 5 [1] ⟨[7], 30, 35⟩ ∧ LastPublished cache ops 6 [2] ⟨[8], 15, 15⟩ ∧
      (∃ index, answerAt cache ops 5 = some (.lookup .stale index)) ∧
      ∃ index, answerAt cache ops 6 = some (.lookup .miss index) := by
  intro cache ops
  have hout : Outstanding cache ops 1 ⟨0, 1⟩ [1] :=
    ⟨0, 0, false, 0, by decide, rfl, by decide, fun j h0 h1 => by omega⟩
  have hout' : Outstanding cache ops 3 ⟨1, 2⟩ [2] :=
    ⟨2, 10, false, 0, by decide, rfl, by decide, fun j h0 h1 => by omega⟩
  have hlast : LastPublished cache ops 5 [1] ⟨[7], 30, 35⟩ := by
    refine ⟨1, ⟨0, 1⟩, _, by decide, rfl, hout, by decide, fun j ticket c hj hj' hop hout'' => ?_⟩
    obtain rfl | rfl | rfl : j = 2 ∨ j = 3 ∨ j = 4 := by omega
    · simp [ops] at hop
    · -- this completes the other key
      obtain ⟨rfl, -⟩ := CacheOp.complete.inj (Option.some.inj hop)
      have hpending := (@outstanding_iff_pendingKey 2 cache rfl ops 3 ⟨1, 2⟩ [1]).mp hout''
      exact absurd hpending (by decide)
    · simp [ops] at hop
  have hlast' : LastPublished cache ops 6 [2] ⟨[8], 15, 15⟩ := by
    refine ⟨3, ⟨1, 2⟩, _, by decide, rfl, hout', by decide, fun j ticket c hj hj' hop => ?_⟩
    obtain rfl | rfl : j = 4 ∨ j = 5 := by omega
    · simp [ops] at hop
    · simp [ops] at hop
  have hby (n : Nat) : BeganBy ops n 32 := by
    intro j key nowMs unknownKid cooldownMs hj hop
    have hmem := List.mem_of_getElem? hop
    simp only [ops, List.mem_cons, CacheOp.begin.injEq, reduceCtorEq, List.not_mem_nil, or_false,
      false_or] at hmem
    rcases hmem with ⟨_, rfl, _⟩ | ⟨_, rfl, _⟩ | ⟨_, rfl, _⟩ <;> omega
  obtain ⟨index, hanswer, _⟩ :=
    (@lookup_reads_last_publication 2 cache rfl ops 5 [1] 32 true rfl (by decide) (by decide) (hby 5)).1 _ hlast
  obtain ⟨index', hanswer', _⟩ :=
    (@lookup_reads_last_publication 2 cache rfl ops 6 [2] 32 true rfl (by decide) (by decide) (hby 6)).1 _ hlast'
  exact ⟨by decide, by decide, hlast, hlast', ⟨index, hanswer⟩, index', hanswer'⟩

end OAuthValidator
