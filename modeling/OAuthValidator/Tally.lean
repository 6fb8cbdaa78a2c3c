import Mathlib.Data.List.Basic
import Mathlib.Order.Basic

/-! Counting along a run. An event is read off the state before a step and the step.
A counter that stops at its maximum shows how often its event has happened, and a
level with an inflow and an outflow is the difference of the two. -/

namespace Tally

variable {σ ι : Type*} (step : σ → ι → σ)

/-- How often `event` happens in a run from `s`. -/
def count (event : σ → ι → Bool) : σ → List ι → Nat
  | _, [] => 0
  | s, i :: run => (event s i).toNat + count event (step s i) run

theorem counter_eq_min (counter : σ → Nat) {event : σ → ι → Bool} {limit : Nat}
    (hstep : ∀ s i, counter s ≤ limit →
      counter (step s i) = min (counter s + (event s i).toNat) limit)
    {s : σ} (hle : counter s ≤ limit) (run : List ι) :
    counter (run.foldl step s) = min (counter s + count step event s run) limit := by
  induction run generalizing s with
  | nil => simp [count, hle]
  | cons i run ih =>
    have hnext := hstep s i hle
    rw [List.foldl_cons, ih (by omega), hnext, count]
    omega

theorem level_add_count {Inv : σ → Prop} (level : σ → Nat) {inflow outflow : σ → ι → Bool}
    (hinv : ∀ s i, Inv s → Inv (step s i))
    (hstep : ∀ s i, Inv s →
      level (step s i) + (outflow s i).toNat = level s + (inflow s i).toNat)
    {s : σ} (hs : Inv s) (run : List ι) :
    level (run.foldl step s) + count step outflow s run = level s + count step inflow s run := by
  induction run generalizing s with
  | nil => rfl
  | cons i run ih =>
    have hnext := hstep s i hs
    have hrest := ih (hinv s i hs)
    rw [List.foldl_cons, count, count]
    omega

/-- Replacing one member of a list changes a count by what the two members add to it. -/
theorem countP_set_add {α : Type*} (p : α → Bool) {l : List α} {i : Nat} {old : α}
    (h : l[i]? = some old) (new : α) :
    (l.set i new).countP p + (p old).toNat = l.countP p + (p new).toNat := by
  obtain ⟨hi, rfl⟩ := List.getElem?_eq_some_iff.mp h
  have hpos : p l[i] = true → 0 < l.countP p := fun hp =>
    List.countP_pos_iff.mpr ⟨_, List.getElem_mem hi, hp⟩
  rw [List.countP_set hi]
  cases hold : p l[i] with
  | false => cases p new <;> simp
  | true =>
    have := hpos hold
    cases p new <;> simp <;> omega

end Tally
