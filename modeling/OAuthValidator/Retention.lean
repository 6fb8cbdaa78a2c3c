import OAuthValidator.ExpiringMap

/-! What an expiring map keeps of the values that were put into it. Making room
loses values, but only those that nobody could read any more. -/

namespace ExpiringMap

variable {κ ς ν τ : Type*}

/-- The map holds the values that were written, except for some that are past
their use at `now`. -/
structure State.Retains [LE τ] (s : State κ ς ν τ) (written : κ → Stored ν τ → Prop) (now : τ) : Prop where
  sound : ∀ ⦃k v⦄, s.map k = some v → written k v
  kept : ∀ ⦃k v⦄, written k v → s.map k = some v ∨ (s.map k = none ∧ v.staleUntil ≤ now)

theorem State.Retains.empty [LE τ] {written : κ → Stored ν τ → Prop} (now : τ)
    (hnone : ∀ k v, ¬ written k v) : (State.empty : State κ ς ν τ).Retains written now :=
  ⟨fun k v hv => by simp [State.empty] at hv, fun k v hw => absurd hw (hnone k v)⟩

variable [Preorder τ] [DecidableEq κ] [DecidableEq ς] {s s' : State κ ς ν τ} {k : κ} {now : τ} {t : ς}
  {written written' : κ → Stored ν τ → Prop}

/-- A renewal that begins by the time `now` loses no value of use after it. -/
theorem Begins.retains {start : τ} (h : Begins s k start t s') (hs : s.Retains written now)
    (hle : start ≤ now) : s'.Retains written now := by
  refine ⟨fun j v hv => hs.sound (h.map_of_some hv), fun j v hw => ?_⟩
  have hbefore := hs.kept hw
  by_cases hk : s.map k = none
  · rcases h.absent hk with he | ⟨gone, stored, hgone, hexpired, _, he⟩
    · rwa [he]
    · rw [he, Function.update_apply]
      split
      · next hj =>
        subst hj
        rw [hgone] at hbefore
        have hv : stored = v := by simpa using hbefore
        exact Or.inr ⟨rfl, hv ▸ le_trans hexpired hle⟩
      · exact hbefore
  · rwa [h.known hk]

/-- A completion writes to its own key what its outcome says. -/
theorem Completes.retains {o : Outcome ν τ} (h : Completes s t k o s') (hs : s.Retains written now)
    (hw : ∀ j v, written' j v ↔ (j = k ∧ o = .put v) ∨ ((j = k → o = .keep) ∧ written j v)) :
    s'.Retains written' now := by
  have hother {j : κ} (hj : j ≠ k) : s'.map j = s.map j := by
    rw [h.map]
    cases o <;> simp [Outcome.apply, Function.update_of_ne hj]
  constructor
  · intro j v hv
    rw [hw]
    by_cases hj : j = k
    · subst hj
      rw [h.map] at hv
      cases o with
      | keep => exact Or.inr ⟨fun _ => rfl, hs.sound hv⟩
      | drop => simp [Outcome.apply] at hv
      | put stored =>
        have hv' : stored = v := by simpa [Outcome.apply] using hv
        exact Or.inl ⟨rfl, by rw [hv']⟩
    · exact Or.inr ⟨fun he => absurd he hj, hs.sound (hother hj ▸ hv)⟩
  · intro j v hv
    rcases (hw j v).mp hv with ⟨rfl, rfl⟩ | ⟨hkeep, hv⟩
    · rw [h.map]
      exact Or.inl (Function.update_self ..)
    · by_cases hj : j = k
      · have ho := hkeep hj
        subst ho
        rw [h.map]
        exact hs.kept hv
      · rw [hother hj]
        exact hs.kept hv

end ExpiringMap
