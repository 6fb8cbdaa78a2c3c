import Mathlib.Order.Basic
import Mathlib.Logic.Function.Basic

/-! Maps whose entries expire and are renewed under tickets. A renewal begins
for one key, is completed by its ticket, and at most one is under way for each
key. Time is any preorder and keys, tickets and values are arbitrary. -/

namespace ExpiringMap

/-- A value with the times at which it stops being fresh and being usable. -/
structure Stored (ν τ : Type*) where
  value : ν
  freshUntil : τ
  staleUntil : τ
deriving DecidableEq

/-- The stored values and the renewals under way. -/
structure State (κ ς ν τ : Type*) where
  map : κ → Option (Stored ν τ)
  pending : ς → Option κ

/-- What the completion of a renewal does to its key. -/
inductive Outcome (ν τ : Type*)
  | keep
  | drop
  | put (stored : Stored ν τ)
deriving DecidableEq

variable {κ ς ν τ : Type*}

def State.empty : State κ ς ν τ := ⟨fun _ => none, fun _ => none⟩

def State.FreshAt [LT τ] (s : State κ ς ν τ) (k : κ) (t : τ) : Prop :=
  ∃ stored, s.map k = some stored ∧ t < stored.freshUntil

def State.StaleAt [LE τ] [LT τ] (s : State κ ς ν τ) (k : κ) (t : τ) : Prop :=
  ∃ stored, s.map k = some stored ∧ stored.freshUntil ≤ t ∧ t < stored.staleUntil

/-- Renewals under way are for different keys. -/
def State.Exclusive (s : State κ ς ν τ) : Prop :=
  ∀ ⦃t t' k⦄, s.pending t = some k → s.pending t' = some k → t = t'

theorem State.exclusive_empty : (State.empty : State κ ς ν τ).Exclusive := by
  intro t t' k h
  simp [State.empty] at h

variable [DecidableEq κ] [DecidableEq ς]

def Outcome.apply (o : Outcome ν τ) (k : κ) (map : κ → Option (Stored ν τ)) :
    κ → Option (Stored ν τ) :=
  match o with
  | .keep => map
  | .drop => Function.update map k none
  | .put stored => Function.update map k (some stored)

/-- Making room at `now`: at most one value goes, and it is past its use and
not being renewed. -/
def MakesRoom [LE τ] (s : State κ ς ν τ) (now : τ) (map : κ → Option (Stored ν τ)) : Prop :=
  map = s.map ∨ ∃ k stored, s.map k = some stored ∧ stored.staleUntil ≤ now ∧
    (∀ t, s.pending t ≠ some k) ∧ map = Function.update s.map k none

/-- Beginning a renewal of `k` at `now` under the ticket `t`. -/
structure Begins [LE τ] (s : State κ ς ν τ) (k : κ) (now : τ) (t : ς) (s' : State κ ς ν τ) :
    Prop where
  idle : ∀ t', s.pending t' ≠ some k
  unused : s.pending t = none
  pending : s'.pending = Function.update s.pending t (some k)
  known : s.map k ≠ none → s'.map = s.map
  absent : s.map k = none → MakesRoom s now s'.map

/-- Completing the renewal of `k` that the ticket `t` stands for. -/
structure Completes (s : State κ ς ν τ) (t : ς) (k : κ) (o : Outcome ν τ) (s' : State κ ς ν τ) :
    Prop where
  pending : s.pending t = some k
  released : s'.pending = Function.update s.pending t none
  map : s'.map = o.apply k s.map

theorem Begins.exclusive [LE τ] {s s' : State κ ς ν τ} {k : κ} {now : τ} {t : ς}
    (h : Begins s k now t s') (hs : s.Exclusive) : s'.Exclusive := by
  intro a b j ha hb
  rw [h.pending, Function.update_apply] at ha hb
  split at ha <;> split at hb
  · next hat hbt => exact hat.trans hbt.symm
  · exact absurd (Option.some.inj ha ▸ hb) (h.idle b)
  · exact absurd (Option.some.inj hb ▸ ha) (h.idle a)
  · exact hs ha hb

theorem Completes.exclusive {s s' : State κ ς ν τ} {k : κ} {t : ς} {o : Outcome ν τ}
    (h : Completes s t k o s') (hs : s.Exclusive) : s'.Exclusive := by
  intro a b j ha hb
  rw [h.released, Function.update_apply] at ha hb
  split at ha <;> split at hb
  · simp at ha
  · simp at ha
  · simp at hb
  · exact hs ha hb

/-- Beginning a renewal stores nothing. -/
theorem Begins.map_of_some [LE τ] {s s' : State κ ς ν τ} {k : κ} {now : τ} {t : ς}
    (h : Begins s k now t s') {j : κ} {v : Stored ν τ} (hv : s'.map j = some v) :
    s.map j = some v := by
  by_cases hk : s.map k = none
  · rcases h.absent hk with he | ⟨gone, _, _, _, _, he⟩
    · exact he ▸ hv
    · rw [he, Function.update_apply] at hv
      split at hv
      · simp at hv
      · exact hv
  · exact h.known hk ▸ hv

/-- Beginning a renewal leaves the values under renewal alone. -/
theorem Begins.map_of_pending [LE τ] {s s' : State κ ς ν τ} {k : κ} {now : τ} {t : ς}
    (h : Begins s k now t s') {j : κ} (hj : s'.pending t = some j ∨ ∃ t', s.pending t' = some j) :
    s'.map j = s.map j := by
  by_cases hk : s.map k = none
  · rcases h.absent hk with he | ⟨gone, stored, hgone, _, hidle, he⟩
    · rw [he]
    · rw [he]
      have hne : j ≠ gone := by
        rintro rfl
        rcases hj with hnew | ⟨t', ht'⟩
        · rw [h.pending, Function.update_self] at hnew
          rw [← Option.some.inj hnew, hk] at hgone
          simp at hgone
        · exact hidle t' ht'
      exact Function.update_of_ne hne _ _
  · rw [h.known hk]

/-- A completion changes no other key. -/
theorem Completes.map_of_ne {s s' : State κ ς ν τ} {k : κ} {t : ς} {o : Outcome ν τ}
    (h : Completes s t k o s') {j : κ} (hj : j ≠ k) : s'.map j = s.map j := by
  rw [h.map]
  cases o with
  | keep => rfl
  | drop => exact Function.update_of_ne hj _ _
  | put stored => exact Function.update_of_ne hj _ _

/-- A value that is there after a completion was there before or was put. -/
theorem Completes.map_of_some {s s' : State κ ς ν τ} {k : κ} {t : ς} {o : Outcome ν τ}
    (h : Completes s t k o s') {j : κ} {v : Stored ν τ} (hv : s'.map j = some v) :
    s.map j = some v ∨ (j = k ∧ o = .put v) := by
  rw [h.map] at hv
  cases o with
  | keep => exact Or.inl hv
  | drop =>
    simp only [Outcome.apply, Function.update_apply] at hv
    split at hv
    · simp at hv
    · exact Or.inl hv
  | put stored =>
    simp only [Outcome.apply, Function.update_apply] at hv
    split at hv
    · next hj => exact Or.inr ⟨hj, by rw [Option.some.inj hv]⟩
    · exact Or.inl hv

/-- Beginning a renewal drops no value that is still fresh. -/
theorem Begins.freshAt_iff [Preorder τ] {s s' : State κ ς ν τ} {k : κ} {now : τ} {t : ς}
    (h : Begins s k now t s') (hordered : ∀ j v, s.map j = some v → v.freshUntil ≤ v.staleUntil) (j : κ) :
    s'.FreshAt j now ↔ s.FreshAt j now := by
  refine ⟨fun ⟨v, hv, hfresh⟩ => ⟨v, h.map_of_some hv, hfresh⟩, fun ⟨v, hv, hfresh⟩ => ⟨v, ?_, hfresh⟩⟩
  by_cases hk : s.map k = none
  · rcases h.absent hk with he | ⟨gone, stored, hgone, hexpired, _, he⟩
    · exact he ▸ hv
    · have hne : j ≠ gone := by
        rintro rfl
        obtain rfl := Option.some.inj (hv.symm.trans hgone)
        exact absurd hexpired (not_le_of_gt (lt_of_lt_of_le hfresh (hordered _ _ hv)))
      rw [he, Function.update_of_ne hne]
      exact hv
  · exact h.known hk ▸ hv

section Holders

variable {ι : Type*} [DecidableEq ι]

/-- The renewals under way are those that the holders hold, each ticket with
one holder. -/
structure State.HeldBy (s : State κ ς ν τ) (holder : ι → Option (κ × ς)) : Prop where
  pending : ∀ t k, s.pending t = some k ↔ ∃ i, holder i = some (k, t)
  unique : ∀ ⦃i j k k' t⦄, holder i = some (k, t) → holder j = some (k', t) → i = j

omit [DecidableEq κ] [DecidableEq ς] [DecidableEq ι] in
theorem State.HeldBy.empty : (State.empty : State κ ς ν τ).HeldBy (fun _ : ι => none) := by
  constructor <;> simp [State.empty]

theorem Begins.heldBy [LE τ] {s s' : State κ ς ν τ} {k : κ} {now : τ} {t : ς}
    {holder : ι → Option (κ × ς)} (h : Begins s k now t s') (hh : s.HeldBy holder) {i : ι}
    (hi : holder i = none) : s'.HeldBy (Function.update holder i (some (k, t))) := by
  have fresh : ∀ j k', holder j ≠ some (k', t) := fun j k' hj => by
    have hp := (hh.pending t k').mpr ⟨j, hj⟩
    rw [h.unused] at hp
    simp at hp
  constructor
  · intro t' k'
    rw [h.pending, Function.update_apply]
    by_cases ht : t' = t
    · subst ht
      rw [if_pos rfl]
      constructor
      · intro he
        obtain rfl := Option.some.inj he
        exact ⟨i, Function.update_self ..⟩
      · rintro ⟨j, hj⟩
        by_cases hji : j = i
        · subst hji
          rw [Function.update_self] at hj
          exact congrArg (Option.map Prod.fst) hj
        · rw [Function.update_of_ne hji] at hj
          exact absurd hj (fresh j k')
    · rw [if_neg ht, hh.pending]
      constructor
      · rintro ⟨j, hj⟩
        have hji : j ≠ i := fun he => by rw [he, hi] at hj; simp at hj
        exact ⟨j, by rw [Function.update_of_ne hji, hj]⟩
      · rintro ⟨j, hj⟩
        by_cases hji : j = i
        · subst hji
          rw [Function.update_self] at hj
          exact absurd (congrArg (fun p => p.map Prod.snd) hj) (by simpa using Ne.symm ht)
        · rw [Function.update_of_ne hji] at hj
          exact ⟨j, hj⟩
  · intro a b ka kb t' ha hb
    rw [Function.update_apply] at ha hb
    split at ha <;> split at hb
    · next hai hbi => exact hai.trans hbi.symm
    · obtain ⟨-, rfl⟩ := Prod.mk.inj (Option.some.inj ha)
      exact absurd hb (fresh b kb)
    · obtain ⟨-, rfl⟩ := Prod.mk.inj (Option.some.inj hb)
      exact absurd ha (fresh a ka)
    · exact hh.unique ha hb

theorem Completes.heldBy {s s' : State κ ς ν τ} {k : κ} {t : ς} {o : Outcome ν τ}
    {holder : ι → Option (κ × ς)} (h : Completes s t k o s') (hh : s.HeldBy holder) {i : ι} {k' : κ}
    (hi : holder i = some (k', t)) : s'.HeldBy (Function.update holder i none) := by
  constructor
  · intro t' j
    rw [h.released, Function.update_apply]
    by_cases ht : t' = t
    · subst ht
      simp only [if_true, reduceCtorEq, false_iff, not_exists]
      intro a ha
      by_cases hai : a = i
      · subst hai
        rw [Function.update_self] at ha
        simp at ha
      · rw [Function.update_of_ne hai] at ha
        exact hai (hh.unique ha hi)
    · rw [if_neg ht, hh.pending]
      constructor
      · rintro ⟨a, ha⟩
        have hai : a ≠ i := fun he => by
          rw [he, hi] at ha
          exact ht (Prod.mk.inj (Option.some.inj ha)).2.symm
        exact ⟨a, by rw [Function.update_of_ne hai, ha]⟩
      · rintro ⟨a, ha⟩
        by_cases hai : a = i
        · subst hai
          rw [Function.update_self] at ha
          simp at ha
        · rw [Function.update_of_ne hai] at ha
          exact ⟨a, ha⟩
  · intro a b ka kb t' ha hb
    rw [Function.update_apply] at ha hb
    split at ha <;> split at hb <;> first | simp at ha | simp at hb | exact hh.unique ha hb

omit [DecidableEq ι] in
/-- A holder completes the renewal of the key it holds. -/
theorem Completes.key_eq {s s' : State κ ς ν τ} {k : κ} {t : ς} {o : Outcome ν τ}
    {holder : ι → Option (κ × ς)} (h : Completes s t k o s') (hh : s.HeldBy holder) {i : ι} {k' : κ}
    (hi : holder i = some (k', t)) : k = k' := by
  have hp := (hh.pending t k').mpr ⟨i, hi⟩
  rw [h.pending] at hp
  exact Option.some.inj hp

omit [DecidableEq κ] [DecidableEq ς] [DecidableEq ι] in
/-- No two holders renew one key. -/
theorem State.HeldBy.key_unique {s : State κ ς ν τ} {holder : ι → Option (κ × ς)}
    (hh : s.HeldBy holder) (he : s.Exclusive) {i j : ι} {k : κ} {t t' : ς}
    (hi : holder i = some (k, t)) (hj : holder j = some (k, t')) : i = j := by
  have htt := he ((hh.pending t k).mpr ⟨i, hi⟩) ((hh.pending t' k).mpr ⟨j, hj⟩)
  exact hh.unique hi (htt ▸ hj)

end Holders

end ExpiringMap
