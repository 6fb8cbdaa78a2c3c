import Mathlib.Data.List.DropRight

/-! Machine limits, and byte strings as the C code reads them. A buffer with its
length is a list of bytes. A C string is the list of bytes before its terminator, and a pointer
that may be NULL is an `Option`. Character classes are those of the C locale. -/

namespace OAuthValidator

def int64Max : Int := 9223372036854775807
def uint64Max : Nat := 18446744073709551615
def sizeMax : Nat := 18446744073709551615

/-- Subtraction of `size_t`, which wraps around. -/
def sizeSub (a b : Nat) : Nat :=
  (a + (sizeMax + 1) - b) % (sizeMax + 1)

theorem sizeSub_of_le {a b : Nat} (hle : b ≤ a) (ha : a ≤ sizeMax) : sizeSub a b = a - b := by
  unfold sizeSub
  rw [show a + (sizeMax + 1) - b = a - b + (sizeMax + 1) by omega, Nat.add_mod_right,
    Nat.mod_eq_of_lt (by omega)]

abbrev Bytes := List UInt8

/-- What holds of 256 numbers holds of every byte. -/
theorem forall_byte {P : UInt8 → Prop} (h : ∀ n : Fin 256, P (.ofNat n)) (b : UInt8) : P b := by
  have hb := h ⟨b.toNat, b.toNat_lt⟩
  simpa using hb

/-- The bytes of a literal of the source, all of which are ASCII. -/
def ascii (text : String) : Bytes :=
  text.toList.map fun c => c.toNat.toUInt8

structure CString where
  bytes : Bytes
  nul_free : 0 ∉ bytes
deriving DecidableEq

namespace CString

def lit (text : String) : CString :=
  ⟨(ascii text).filter (· != 0), by simp⟩

def length (s : CString) : Nat :=
  s.bytes.length

def isEmpty (s : CString) : Bool :=
  s.bytes.isEmpty

theorem ext_bytes {s t : CString} (h : s.bytes = t.bytes) : s = t := by
  cases s
  cases t
  congr

end CString

def isspace (b : UInt8) : Bool :=
  b == 0x20 || (0x09 ≤ b && b ≤ 0x0d)

def iscntrl (b : UInt8) : Bool :=
  b < 0x20 || b == 0x7f

def isalnum (b : UInt8) : Bool :=
  (0x30 ≤ b && b ≤ 0x39) || (0x41 ≤ b && b ≤ 0x5a) || (0x61 ≤ b && b ≤ 0x7a)

/-- The two characters that the HTTP header code trims. -/
def isblank (b : UInt8) : Bool :=
  b == 0x20 || b == 0x09

def tolower (b : UInt8) : UInt8 :=
  if 0x41 ≤ b && b ≤ 0x5a then b + 0x20 else b

/-- `strcasecmp(a, b) == 0`, and `strncasecmp` on strings of one length. -/
def equalsIgnoreCase (a b : Bytes) : Bool :=
  a.map tolower == b.map tolower

def trimBy (blank : UInt8 → Bool) (text : Bytes) : Bytes :=
  (text.dropWhile blank).rdropWhile blank

def comma : UInt8 := 0x2c

/-- The loop over a comma-separated list. `visit` sees the text up to the next
comma and may return from the function. The loop ends at the terminator, where
some callers return `trailing` because a comma came just before. -/
def eachEntry {σ β : Type} (visit : σ → Bytes → Except β σ) (trailing : Option β) :
    σ → List Bytes → Except β σ
  | s, [] => .ok s
  | s, entry :: rest =>
    if entry.isEmpty && rest.isEmpty then .ok s
    else
      match visit s entry with
      | .error r => .error r
      | .ok s' =>
        match trailing with
        | some r => if rest == [[]] then .error r else eachEntry visit trailing s' rest
        | none => eachEntry visit trailing s' rest

/-- The loop leaves early only from an entry it visits or for a trailing comma. -/
theorem eachEntry_error {σ β : Type} {visit : σ → Bytes → Except β σ} {trailing : Option β} {s : σ}
    {entries : List Bytes} {r : β} (h : eachEntry visit trailing s entries = .error r) :
    trailing = some r ∨ ∃ s' entry, entry ∈ entries ∧ visit s' entry = .error r := by
  induction entries generalizing s with
  | nil => simp [eachEntry] at h
  | cons entry rest ih =>
    have hrest {s' : σ} (hs : eachEntry visit trailing s' rest = .error r) :
        trailing = some r ∨ ∃ s' entry', entry' ∈ entry :: rest ∧ visit s' entry' = .error r := by
      rcases ih hs with ht | ⟨s₁, e, he, hv⟩
      · exact Or.inl ht
      · exact Or.inr ⟨s₁, e, List.mem_cons_of_mem _ he, hv⟩
    unfold eachEntry at h
    split at h
    · simp at h
    · split at h
      · next e hv =>
        obtain rfl := Except.error.inj h
        exact Or.inr ⟨s, entry, List.mem_cons_self, hv⟩
      · split at h
        · split at h
          · exact Or.inl (congrArg some (Except.error.inj h))
          · exact hrest h
        · exact hrest h

/-- A loop that refuses a trailing comma visits every entry, if no visit accepts an
empty one. -/
theorem eachEntry_eq_foldlM {σ β : Type} {visit : σ → Bytes → Except β σ} {r : β} {s t : σ}
    {entries : List Bytes} (hempty : ∀ s s', visit s [] ≠ .ok s') (hne : entries ≠ [[]]) :
    eachEntry visit (some r) s entries = .ok t ↔ entries.foldlM visit s = .ok t := by
  induction entries generalizing s with
  | nil => rfl
  | cons entry rest ih =>
    have hlast : ¬ (entry.isEmpty && rest.isEmpty) = true := by
      intro h
      simp only [Bool.and_eq_true, List.isEmpty_iff] at h
      exact hne (by rw [h.1, h.2])
    rw [eachEntry, if_neg hlast, List.foldlM_cons]
    cases hv : visit s entry with
    | error e => simp [bind, Except.bind]
    | ok s' =>
      by_cases hrest : rest = [[]]
      · cases htrailing : visit s' [] with
        | error e => simp [hrest, htrailing, bind, Except.bind]
        | ok s'' => exact absurd htrailing (hempty s' s'')
      · simpa [hrest, bind, Except.bind] using ih hrest

/-- The entries that a loop visits which allows a trailing comma. -/
def visitedEntries (entries : List Bytes) : List Bytes :=
  if entries.getLast? = some [] then entries.dropLast else entries

theorem visitedEntries_cons {entry : Bytes} {rest : List Bytes} (h : rest ≠ []) :
    visitedEntries (entry :: rest) = entry :: visitedEntries rest := by
  obtain ⟨next, later, rfl⟩ := List.exists_cons_of_ne_nil h
  rw [visitedEntries, visitedEntries, List.getLast?_cons_cons, List.dropLast_cons_cons]
  split <;> rfl

theorem eachEntry_eq_visited {σ β : Type} {visit : σ → Bytes → Except β σ} {s : σ} {entries : List Bytes} :
    eachEntry visit none s entries = (visitedEntries entries).foldlM visit s := by
  induction entries generalizing s with
  | nil => rfl
  | cons entry rest ih =>
    by_cases hrest : rest = []
    · subst hrest
      by_cases hentry : entry = []
      · simp [eachEntry, visitedEntries, hentry, pure, Except.pure]
      · cases hv : visit s entry <;>
          simp [eachEntry, visitedEntries, hentry, hv, bind, Except.bind, pure, Except.pure]
    · rw [visitedEntries_cons hrest, eachEntry, if_neg (by simp [hrest]), List.foldlM_cons]
      cases hv : visit s entry with
      | error e => rfl
      | ok s' => exact ih

def scanList {σ β : Type} (visit : σ → Bytes → Except β σ) (trailing : Option β) (s : σ)
    (value : Bytes) : Except β σ :=
  eachEntry visit trailing s (value.splitOn comma)

/-- The entries of a comma-separated setting, without the space around them. -/
def listEntries (value : Bytes) : List Bytes :=
  (value.splitOn comma).map (trimBy isspace)

/-- `is_nonempty`, with the string behind the pointer. -/
def nonempty? (value : Option CString) : Option CString :=
  value.filter fun text => !text.isEmpty

theorem nonempty?_of_empty {text : CString} (h : text.bytes = []) : nonempty? (some text) = none := by
  simp [nonempty?, CString.isEmpty, h]

theorem nonempty?_of_ne {text : CString} (h : text.bytes ≠ []) : nonempty? (some text) = some text := by
  simp [nonempty?, CString.isEmpty, h]

/-! Functions that check one thing after another return the code of the first
check that fails. -/

section Checks

variable {ε α β : Type}

def require (check : Bool) (error : ε) : Except ε Unit :=
  if check then .ok () else .error error

def given (value : Option α) (error : ε) : Except ε α :=
  match value with
  | some a => .ok a
  | none => .error error

@[simp] theorem require_eq_ok {check : Bool} {error : ε} {u : Unit} :
    require check error = .ok u ↔ check = true := by
  cases check <;> simp [require]

@[simp] theorem given_eq_ok {value : Option α} {error : ε} {a : α} :
    given value error = .ok a ↔ value = some a := by
  cases value <;> simp [given]

@[simp] theorem except_bind_eq_ok {x : Except ε α} {f : α → Except ε β} {b : β} :
    (x >>= f) = .ok b ↔ ∃ a, x = .ok a ∧ f a = .ok b := by
  cases x <;> simp [bind, Except.bind]

@[simp] theorem except_pure_eq_ok {a b : α} : (pure a : Except ε α) = .ok b ↔ a = b := by
  simp [pure, Except.pure]

theorem require_eq_error {check : Bool} {error error' : ε} :
    require check error = .error error' ↔ check = false ∧ error = error' := by
  cases check <;> simp [require]

theorem given_eq_error {value : Option α} {error error' : ε} :
    given value error = .error error' ↔ value = none ∧ error = error' := by
  cases value <;> simp [given]

theorem except_bind_eq_error {x : Except ε α} {f : α → Except ε β} {error : ε} :
    (x >>= f) = .error error ↔ x = .error error ∨ ∃ a, x = .ok a ∧ f a = .error error := by
  cases x <;> simp [bind, Except.bind]

theorem ok_of_toOption {x : Except ε α} {a : α} (h : x.toOption = some a) : x = .ok a := by
  cases x with
  | error e => simp [Except.toOption] at h
  | ok b => simpa [Except.toOption] using h

theorem given_some_bind (a : α) (error : ε) (rest : α → Except ε β) :
    (given (some a) error >>= rest) = rest a :=
  rfl

theorem bind_ne_error {x : Except ε α} {rest : α → Except ε β} {error : ε} (hx : x ≠ .error error)
    (hrest : ∀ a, rest a ≠ .error error) : (x >>= rest) ≠ .error error := by
  cases x with
  | error e => exact fun h => hx (congrArg Except.error (Except.error.inj h))
  | ok a => exact hrest a

theorem require_ne_error {check : Bool} {error error' : ε} (h : error ≠ error') :
    require check error ≠ .error error' := by
  cases check <;> simp [require, h]

theorem given_ne_error {value : Option α} {error error' : ε} (h : error ≠ error') :
    given value error ≠ .error error' := by
  cases value <;> simp [given, h]

variable {ρ : Type} {success : ε} {empty : ρ} {fill : α → ρ} {result : Except ε α}

/-- The code and the record that a caller reads, for a function that fills the record
only when it succeeds. -/
def outcome (success : ε) (empty : ρ) (fill : α → ρ) : Except ε α → ε × ρ
  | .ok a => (success, fill a)
  | .error error => (error, empty)

theorem outcome_success (h : result ≠ .error success) :
    (outcome success empty fill result).1 = success ↔
      ∃ a, result = .ok a ∧ (outcome success empty fill result).2 = fill a := by
  cases result with
  | error error =>
    have hne : error ≠ success := fun heq => h (congrArg Except.error heq)
    simp [outcome, hne]
  | ok a => simp [outcome]

theorem outcome_failed (h : (outcome success empty fill result).1 ≠ success) :
    (outcome success empty fill result).2 = empty := by
  cases result with
  | error error => rfl
  | ok a => exact absurd rfl h

end Checks

end OAuthValidator
