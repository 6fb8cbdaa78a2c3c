import Mathlib.Data.List.Basic

/-! Codes whose words end where they say they do. Two values of one kind whose
words start the same stream are equal, and the streams continue alike, so a
sequence of such words is read back field by field. -/

namespace SelfDelimiting

variable {α β κ : Type*} {kind : α → κ} {valid : α → Prop} {code : α → List β}

/-- A valid value and the rest of the stream are determined by the stream and
the value's kind. -/
def Cancels (kind : α → κ) (valid : α → Prop) (code : α → List β) : Prop :=
  ∀ ⦃a b : α⦄ ⦃r t : List β⦄, kind a = kind b → valid a → valid b →
    code a ++ r = code b ++ t → a = b ∧ r = t

/-- A word that announces its own length. -/
theorem append_cancels_of_lengthPrefix {size : Nat → List β} {bound : Nat}
    (hsize : ∀ ⦃m n : Nat⦄ ⦃r t : List β⦄, m < bound → n < bound → size m ++ r = size n ++ t →
      m = n ∧ r = t)
    {v w r t : List β} (hv : v.length < bound) (hw : w.length < bound)
    (h : size v.length ++ v ++ r = size w.length ++ w ++ t) : v = w ∧ r = t := by
  rw [List.append_assoc, List.append_assoc] at h
  obtain ⟨hlen, hrest⟩ := hsize hv hw h
  exact List.append_inj hrest hlen

/-- Sequences of one shape are determined by the concatenation of their words. -/
theorem Cancels.flatMap_injective (h : Cancels kind valid code) {l m : List α}
    (hkind : l.map kind = m.map kind) (hl : ∀ a ∈ l, valid a) (hm : ∀ a ∈ m, valid a)
    (he : l.flatMap code = m.flatMap code) : l = m := by
  induction l generalizing m with
  | nil =>
    cases m with
    | nil => rfl
    | cons b m => simp at hkind
  | cons a l ih =>
    cases m with
    | nil => simp at hkind
    | cons b m =>
      simp only [List.map_cons, List.cons.injEq] at hkind
      simp only [List.flatMap_cons] at he
      obtain ⟨hab, hrest⟩ := h hkind.1 (hl a (by simp)) (hm b (by simp)) he
      have htail := ih hkind.2 (fun x hx => hl x (by simp [hx])) (fun x hx => hm x (by simp [hx])) hrest
      rw [hab, htail]

end SelfDelimiting
