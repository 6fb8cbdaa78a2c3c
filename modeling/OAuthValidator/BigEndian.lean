import Mathlib.Data.List.Induction
import Mathlib.Data.Nat.Size
import Mathlib.Tactic.Ring

/-! Numbers as byte strings, the most significant byte first. -/

namespace BigEndian

def value (data : List UInt8) : Nat :=
  data.foldl (fun n b => n * 256 + b.toNat) 0

/-- The bytes of a number without a leading zero byte. -/
structure Minimal (data : List UInt8) (n : Nat) : Prop where
  value_eq : value data = n
  head_ne : data.head? ≠ some 0

@[simp] theorem value_nil : value [] = 0 :=
  rfl

theorem value_concat (data : List UInt8) (b : UInt8) : value (data ++ [b]) = value data * 256 + b.toNat := by
  simp [value]

theorem value_cons (first : UInt8) (rest : List UInt8) :
    value (first :: rest) = first.toNat * 2 ^ (8 * rest.length) + value rest := by
  induction rest using List.reverseRecOn with
  | nil => simp [value]
  | append_singleton rest b ih =>
    rw [← List.cons_append, value_concat, value_concat, ih, List.length_append, List.length_singleton]
    ring

theorem value_lt (data : List UInt8) : value data < 2 ^ (8 * data.length) := by
  induction data using List.reverseRecOn with
  | nil => simp
  | append_singleton data b ih =>
    have hb := b.toNat_lt
    rw [value_concat, List.length_append, List.length_singleton, Nat.mul_add, Nat.pow_add]
    omega

theorem le_value {first : UInt8} (rest : List UInt8) (h : first ≠ 0) :
    2 ^ (8 * rest.length) ≤ value (first :: rest) := by
  have hpos : 0 < first.toNat := Nat.pos_of_ne_zero fun hzero => h (UInt8.toNat_inj.mp hzero)
  rw [value_cons]
  exact Nat.le_add_right_of_le (Nat.le_mul_of_pos_left _ hpos)

theorem le_value_of_top {first : UInt8} (rest : List UInt8) (h : 0x80 ≤ first) :
    2 ^ (7 + 8 * rest.length) ≤ value (first :: rest) := by
  have hfirst : 2 ^ 7 ≤ first.toNat := h
  rw [value_cons, Nat.pow_add]
  exact Nat.le_add_right_of_le (Nat.mul_le_mul_right _ hfirst)

theorem value_dropWhile (data : List UInt8) : value (data.dropWhile (· == 0)) = value data := by
  induction data with
  | nil => rfl
  | cons b data ih =>
    by_cases hb : b = 0
    · rw [List.dropWhile_cons_of_pos (by simp [hb]), ih, value_cons, hb]
      simp
    · rw [List.dropWhile_cons_of_neg (by simp [hb])]

/-- The binary length of a number is that of its first byte and eight for each other. -/
theorem size_value {first : UInt8} (rest : List UInt8) (h : first ≠ 0) :
    (value (first :: rest)).size = first.toNat.size + 8 * rest.length := by
  have hpos : 0 < first.toNat := Nat.pos_of_ne_zero fun hzero => h (UInt8.toNat_inj.mp hzero)
  have hsize : 0 < first.toNat.size := Nat.size_pos.mpr hpos
  have hhigh : first.toNat < 2 ^ first.toNat.size := Nat.lt_size_self _
  have hlow : 2 ^ (first.toNat.size - 1) ≤ first.toNat := Nat.lt_size.mp (by omega)
  have hrest := value_lt rest
  rw [value_cons]
  refine Nat.le_antisymm (Nat.size_le.mpr ?_) ?_
  · rw [Nat.pow_add]
    calc first.toNat * 2 ^ (8 * rest.length) + value rest
        < (first.toNat + 1) * 2 ^ (8 * rest.length) := by rw [Nat.add_mul, Nat.one_mul]; omega
      _ ≤ 2 ^ first.toNat.size * 2 ^ (8 * rest.length) := Nat.mul_le_mul_right _ hhigh
  · have hle : 2 ^ (first.toNat.size - 1 + 8 * rest.length) ≤
        first.toNat * 2 ^ (8 * rest.length) + value rest := by
      rw [Nat.pow_add]
      exact Nat.le_add_right_of_le (Nat.mul_le_mul_right _ hlow)
    have := Nat.lt_size.mpr hle
    omega

theorem Minimal.length_le {data : List UInt8} {n bits : Nat} (h : Minimal data n) (hn : n < 2 ^ bits) :
    data.length ≤ (bits + 7) / 8 := by
  cases data with
  | nil => simp
  | cons first rest =>
    have hfirst : first ≠ 0 := fun hzero => h.head_ne (by rw [hzero]; rfl)
    have hlt : 2 ^ (8 * rest.length) < 2 ^ bits :=
      Nat.lt_of_le_of_lt (le_value rest hfirst) (h.value_eq ▸ hn)
    have := (Nat.pow_lt_pow_iff_right (by decide)).mp hlt
    rw [List.length_cons]
    omega

end BigEndian
