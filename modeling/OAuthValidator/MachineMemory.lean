import Mathlib.Algebra.Group.Int.Defs
import Mathlib.Data.List.Basic

/-! Memory and integers as a machine has them. A buffer has a fixed size, and what
is written to it leaves the bytes behind it as they were. A read or a write beyond
the buffer, and a signed sum out of range, have no result. -/

namespace MachineMemory

/-- `n` bytes of memory. -/
structure Buffer (n : Nat) where
  bytes : List UInt8
  length_eq : bytes.length = n
deriving DecidableEq

namespace Buffer

variable {n : Nat} {data : List UInt8} {count : Nat}

def zero : Buffer n :=
  ⟨List.replicate n 0, List.length_replicate⟩

/-- The first bytes, as many as are asked for and there are. -/
def contents (b : Buffer n) (count : Nat) : List UInt8 :=
  b.bytes.take count

def read (b : Buffer n) (count : Nat) : Option (List UInt8) :=
  if count ≤ n then some (b.contents count) else none

def write (b : Buffer n) (data : List UInt8) : Option (Buffer n) :=
  if h : data.length ≤ n then
    some ⟨data ++ b.bytes.drop data.length, by simp [b.length_eq, h]⟩
  else none

theorem contents_length (b : Buffer n) (h : count ≤ n) : (b.contents count).length = count := by
  simp [contents, b.length_eq, h]

theorem read_of_le (b : Buffer n) (h : count ≤ n) : b.read count = some (b.contents count) := by
  simp [read, h]

/-- What was written can be read, whatever the buffer held before. -/
theorem write_of_le (b : Buffer n) (h : data.length ≤ n) :
    ∃ b', b.write data = some b' ∧ b'.contents data.length = data := by
  simp [write, h, contents]

end Buffer

/-! Signed sums. -/

def checkedAdd (a b : Int64) : Option Int64 :=
  if -2 ^ 63 ≤ a.toInt + b.toInt ∧ a.toInt + b.toInt < 2 ^ 63 then some (a + b) else none

def checkedSub (a b : Int64) : Option Int64 :=
  if -2 ^ 63 ≤ a.toInt - b.toInt ∧ a.toInt - b.toInt < 2 ^ 63 then some (a - b) else none

variable {a b : Int64}

theorem checkedAdd_of_range (hlow : -2 ^ 63 ≤ a.toInt + b.toInt) (hhigh : a.toInt + b.toInt < 2 ^ 63) :
    ∃ c, checkedAdd a b = some c ∧ c.toInt = a.toInt + b.toInt := by
  refine ⟨a + b, if_pos ⟨hlow, hhigh⟩, ?_⟩
  rw [Int64.toInt_add]
  exact Int.bmod_eq_of_le (by omega) (by omega)

/-- The difference of two numbers of one sign is in range. -/
theorem checkedSub_of_nonneg (ha : 0 ≤ a.toInt) (hb : 0 ≤ b.toInt) :
    ∃ c, checkedSub a b = some c ∧ c.toInt = a.toInt - b.toInt := by
  have ha' := a.toInt_lt
  have hb' := b.toInt_lt
  refine ⟨a - b, if_pos ⟨by omega, by omega⟩, ?_⟩
  rw [Int64.toInt_sub]
  exact Int.bmod_eq_of_le (by omega) (by omega)

end MachineMemory
