import Mathlib.Data.List.Basic
import Mathlib.Logic.Function.Basic

/-! Tables of slots addressed by an optional key. A slot is live under at most
one key, and a table is proper when no two of its slots share one. -/

namespace KeyedSlots

variable {α κ : Type*} {key : α → Option κ} {l : List α}

/-- No two positions are live under the same key. -/
def Distinct (key : α → Option κ) (l : List α) : Prop :=
  ∀ ⦃i j : Nat⦄ ⦃a b : α⦄ ⦃k : κ⦄,
    l[i]? = some a → l[j]? = some b → key a = some k → key b = some k → i = j

theorem Distinct.mono {key' : α → Option κ} (h : Distinct key l)
    (hk : ∀ a ∈ l, ∀ k, key' a = some k → key a = some k) : Distinct key' l := by
  intro i j a b k ha hb hka hkb
  exact h ha hb (hk a (List.mem_of_getElem? ha) k hka) (hk b (List.mem_of_getElem? hb) k hkb)

theorem Distinct.replicate {a : α} (ha : key a = none) (n : Nat) :
    Distinct key (List.replicate n a) := by
  intro i j x y k hx _ hkx _
  have hx' := List.eq_of_mem_replicate (List.mem_of_getElem? hx)
  subst hx'
  simp [ha] at hkx

theorem getElem?_set_cases {i j : Nat} {a b : α} (h : (l.set i a)[j]? = some b) :
    (j = i ∧ b = a ∧ i < l.length) ∨ (j ≠ i ∧ l[j]? = some b) := by
  rw [List.getElem?_set] at h
  split at h
  · next hij =>
    split at h
    · next hi => exact Or.inl ⟨hij.symm, (Option.some.inj h).symm, hi⟩
    · simp at h
  · next hij => exact Or.inr ⟨Ne.symm hij, h⟩

/-- Writing a slot keeps the table proper when every slot sharing the new
key is the one being overwritten. -/
theorem Distinct.set {i : Nat} {a : α} (h : Distinct key l)
    (hfree : ∀ j b k, l[j]? = some b → key b = some k → key a = some k → j = i) :
    Distinct key (l.set i a) := by
  intro m n x y k hx hy hkx hky
  rcases getElem?_set_cases hx with ⟨rfl, rfl, _⟩ | ⟨hm, hx'⟩ <;>
    rcases getElem?_set_cases hy with ⟨rfl, rfl, _⟩ | ⟨hn, hy'⟩
  · rfl
  · exact absurd (hfree n y k hy' hky hkx) hn
  · exact absurd (hfree m x k hx' hkx hky) hm
  · exact h hx' hy' hkx hky

section Find

variable [DecidableEq κ]

/-- The first slot live under `k`. -/
def find (key : α → Option κ) (l : List α) (k : κ) : Option α :=
  l.find? fun a => decide (key a = some k)

theorem find_of_getElem? {i : Nat} {a : α} {k : κ} (h : Distinct key l)
    (ha : l[i]? = some a) (hk : key a = some k) : find key l k = some a := by
  cases hf : find key l k with
  | none =>
    have := List.find?_eq_none.mp hf a (List.mem_of_getElem? ha)
    simp [hk] at this
  | some b =>
    have hkb : key b = some k := by simpa using List.find?_some hf
    obtain ⟨j, hj⟩ := List.getElem?_of_mem (List.mem_of_find?_eq_some hf)
    have hij := h ha hj hk hkb
    subst hij
    rw [ha] at hj
    exact hj.symm

theorem find_eq_some_iff {a : α} {k : κ} (h : Distinct key l) :
    find key l k = some a ↔ ∃ i : Nat, l[i]? = some a ∧ key a = some k := by
  constructor
  · intro hf
    obtain ⟨j, hj⟩ := List.getElem?_of_mem (List.mem_of_find?_eq_some hf)
    exact ⟨j, hj, by simpa using List.find?_some hf⟩
  · rintro ⟨i, ha, hk⟩
    exact find_of_getElem? h ha hk

theorem find_eq_none_iff {k : κ} :
    find key l k = none ↔ ∀ (i : Nat) (a : α), l[i]? = some a → key a ≠ some k := by
  rw [find, List.find?_eq_none]
  constructor
  · intro h i a ha hk
    exact h a (List.mem_of_getElem? ha) (by simpa using hk)
  · intro h a ha hk
    obtain ⟨i, hi⟩ := List.getElem?_of_mem ha
    exact h i a hi (by simpa using hk)

/-- Writing one slot of a proper table changes the table at the old and the
new key of that slot only. -/
theorem find_set {i : Nat} {a old : α} (h : Distinct key l) (h' : Distinct key (l.set i a))
    (hold : l[i]? = some old) (k : κ) :
    find key (l.set i a) k =
      if key a = some k then some a else if key old = some k then none else find key l k := by
  have hi : i < l.length := (List.getElem?_eq_some_iff.mp hold).1
  split
  · next hk => exact find_of_getElem? h' (List.getElem?_set_self hi) hk
  · next hk =>
    split
    · next hko =>
      rw [find_eq_none_iff]
      intro j b hb hkb
      rcases getElem?_set_cases hb with ⟨rfl, rfl, _⟩ | ⟨hj, hb'⟩
      · exact hk hkb
      · exact hj (h hb' hold hkb hko)
    · next hko =>
      cases hf : find key l k with
      | none =>
        rw [find_eq_none_iff] at hf ⊢
        intro j b hb hkb
        rcases getElem?_set_cases hb with ⟨rfl, rfl, _⟩ | ⟨_, hb'⟩
        · exact hk hkb
        · exact hf j b hb' hkb
      | some b =>
        obtain ⟨j, hj, hkb⟩ := (find_eq_some_iff h).mp hf
        have hji : j ≠ i := by
          rintro rfl
          rw [hold] at hj
          exact hko (Option.some.inj hj ▸ hkb)
        exact find_of_getElem? h' (by rw [List.getElem?_set_ne hji.symm]; exact hj) hkb

end Find

end KeyedSlots
