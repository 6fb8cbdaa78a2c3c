import Mathlib.Data.List.Basic
import Mathlib.Order.Basic

/-! Scans that remember a position. One pass over a list keeps the first position
with a property, or the leftmost position at which a measure is least among those
with a property. Each step extends the part already scanned by one element. -/

namespace SlotScan

variable {α τ : Type*} {p : α → Prop} {f : α → τ} {l : List α} {a : α}

/-- What is remembered of the first position with the property. -/
def FirstIn (p : α → Prop) (l : List α) : Option Nat → Prop
  | none => ∀ a ∈ l, ¬ p a
  | some i => (∃ a, l[i]? = some a ∧ p a) ∧ ∀ j a, j < i → l[j]? = some a → ¬ p a

/-- The measure is `t` at position `i`, not less anywhere, and greater before it. -/
structure LeftmostLeast [LE τ] [LT τ] (p : α → Prop) (f : α → τ) (l : List α) (i : Nat) (t : τ) :
    Prop where
  slot : ∃ a, l[i]? = some a ∧ p a ∧ f a = t
  least : ∀ (j : Nat) (a : α), l[j]? = some a → p a → t ≤ f a
  leftmost : ∀ (j : Nat) (a : α), j < i → l[j]? = some a → p a → t < f a

/-- What is remembered of the least position, with its measure. -/
def LeastIn [LE τ] [LT τ] (p : α → Prop) (f : α → τ) (l : List α) : Option Nat → τ → Prop
  | none, _ => ∀ a ∈ l, ¬ p a
  | some i, t => LeftmostLeast p f l i t

theorem getElem?_snoc_cases {j : Nat} {b : α} (h : (l ++ [a])[j]? = some b) :
    l[j]? = some b ∨ (j = l.length ∧ b = a) := by
  rw [List.getElem?_append] at h
  by_cases hj : j < l.length
  · rw [if_pos hj] at h
    exact Or.inl h
  · rw [if_neg hj] at h
    have hlast := List.getElem?_eq_some_iff.mp h
    obtain ⟨hlt, hb⟩ := hlast
    have hzero : j - l.length = 0 := by simpa using hlt
    refine Or.inr ⟨by omega, ?_⟩
    simpa [hzero] using hb.symm

theorem getElem?_snoc_left {j : Nat} {b : α} (h : l[j]? = some b) : (l ++ [a])[j]? = some b := by
  have hlt := (List.getElem?_eq_some_iff.mp h).1
  rw [List.getElem?_append_left hlt, h]

theorem getElem?_snoc_length : (l ++ [a])[l.length]? = some a := by
  simp

theorem not_snoc (h : ∀ b ∈ l, ¬ p b) (ha : ¬ p a) : ∀ b ∈ l ++ [a], ¬ p b := by
  intro b hb
  rcases List.mem_append.mp hb with hb | hb
  · exact h b hb
  · rw [List.mem_singleton.mp hb]
    exact ha

theorem FirstIn.keep {i : Option Nat} (h : FirstIn p l i) (ha : i = none → ¬ p a) :
    FirstIn p (l ++ [a]) i := by
  cases i with
  | none => exact not_snoc h (ha rfl)
  | some i =>
    obtain ⟨⟨b, hb, hp⟩, hbefore⟩ := h
    have hi := (List.getElem?_eq_some_iff.mp hb).1
    refine ⟨⟨b, getElem?_snoc_left hb, hp⟩, fun j c hj hc => ?_⟩
    rcases getElem?_snoc_cases hc with hc | ⟨hlast, _⟩
    · exact hbefore j c hj hc
    · omega

theorem FirstIn.found (h : FirstIn p l none) (ha : p a) : FirstIn p (l ++ [a]) (some l.length) := by
  refine ⟨⟨a, getElem?_snoc_length, ha⟩, fun j b hj hb => ?_⟩
  rcases getElem?_snoc_cases hb with hb | ⟨hlast, _⟩
  · exact h b (List.mem_of_getElem? hb)
  · omega

theorem LeastIn.keep [LE τ] [LT τ] {i : Option Nat} {t : τ} (h : LeastIn p f l i t)
    (ha : p a → i ≠ none ∧ t ≤ f a) : LeastIn p f (l ++ [a]) i t := by
  cases i with
  | none => exact not_snoc h fun hp => (ha hp).1 rfl
  | some i =>
    obtain ⟨⟨b, hb, hp, ht⟩, hleast, hleft⟩ := h
    have hi := (List.getElem?_eq_some_iff.mp hb).1
    refine ⟨⟨b, getElem?_snoc_left hb, hp, ht⟩, fun j c hc hpc => ?_, fun j c hj hc hpc => ?_⟩
    · rcases getElem?_snoc_cases hc with hc | ⟨_, rfl⟩
      · exact hleast j c hc hpc
      · exact (ha hpc).2
    · rcases getElem?_snoc_cases hc with hc | ⟨hlast, _⟩
      · exact hleft j c hj hc hpc
      · omega

theorem LeastIn.lower [Preorder τ] {i : Option Nat} {t : τ} (h : LeastIn p f l i t) (ha : p a)
    (hlt : i ≠ none → f a < t) : LeastIn p f (l ++ [a]) (some l.length) (f a) := by
  -- what was scanned before has a greater measure
  have hbefore (j : Nat) (b : α) (hb : l[j]? = some b) (hp : p b) : f a < f b := by
    cases i with
    | none => exact absurd hp (h b (List.mem_of_getElem? hb))
    | some i => exact lt_of_lt_of_le (hlt (by simp)) (h.least j b hb hp)
  refine ⟨⟨a, getElem?_snoc_length, ha, rfl⟩, fun j b hb hp => ?_, fun j b hj hb hp => ?_⟩
  · rcases getElem?_snoc_cases hb with hb | ⟨_, rfl⟩
    · exact le_of_lt (hbefore j b hb hp)
    · exact le_refl _
  · rcases getElem?_snoc_cases hb with hb | ⟨hlast, _⟩
    · exact hbefore j b hb hp
    · omega

end SlotScan
