import OAuthValidator.Allowlist
import OAuthValidator.CommaPointers

/-! The loops over the two allowlists as the code runs them. They trim an entry within
its length, and accept a list of distinct supported names and nothing else. -/

namespace OAuthValidator

namespace Pointer

/-- `while (length > 0 && isspace(*entry)) { entry++; length--; }`. -/
def skipWithin (blank : UInt8 → Bool) (text : Bytes) : Nat → Nat → Nat × Nat
  | entry, 0 => (entry, 0)
  | entry, length + 1 =>
    if blank (charAt text entry) then skipWithin blank text (entry + 1) length else (entry, length + 1)

/-- `while (length > 0 && isspace(entry[length - 1])) length--`. -/
def trimWithin (blank : UInt8 → Bool) (text : Bytes) (entry : Nat) : Nat → Nat
  | 0 => 0
  | length + 1 =>
    if blank (charAt text (entry + length)) then trimWithin blank text entry length else length + 1

section Names

variable {μ : Type} [DecidableEq μ] [AndOp μ] [OrOp μ] [OfNat μ 0] (named : Bytes → Option μ)

def visitName (text : Bytes) (result : μ) (entry stop : Nat) : Except Unit μ :=
  let skipped := skipWithin isspace text entry (stop - entry)
  let length := trimWithin isspace text skipped.1 skipped.2
  match named (between text skipped.1 (skipped.1 + length)) with
  | none => .error ()
  | some bit => if result &&& bit != 0 then .error () else .ok (result ||| bit)

def parseNames (text : Bytes) : Option μ :=
  match entryLoop (visitName named text) (some ()) text 0 0 with
  | .error _ => none
  | .ok result => if result != 0 then some result else none

end Names

def parseTokenTypes (value : Option CString) : Option UInt8 :=
  match nonempty? value with
  | none => none
  | some text => if 64 < text.length then none else parseNames tokenTypeBit text.bytes

def parseAlgorithms (value : Option CString) : Option UInt32 :=
  match nonempty? value with
  | none => none
  | some text => parseNames algorithmBit text.bytes

section Trimming

variable {blank : UInt8 → Bool} {pre mid : Bytes}

theorem skipWithin_eq (pre tail : Bytes) :
    skipWithin blank (pre ++ (mid ++ tail)) pre.length mid.length =
      (pre.length + (mid.takeWhile blank).length, (mid.dropWhile blank).length) := by
  induction mid generalizing pre with
  | nil => rfl
  | cons x mid ih =>
    have hnext := ih (pre ++ [x])
    simp only [List.append_assoc, List.singleton_append, List.length_append, List.length_singleton] at hnext
    rw [List.length_cons, skipWithin, charAt_append, List.cons_append, List.headD_cons]
    by_cases hx : blank x = true
    · rw [if_pos hx, hnext, List.takeWhile_cons_of_pos hx, List.dropWhile_cons_of_pos hx, List.length_cons]
      simp only [Prod.mk.injEq, and_true]
      omega
    · rw [if_neg hx, List.takeWhile_cons_of_neg hx, List.dropWhile_cons_of_neg hx]
      simp

theorem trimWithin_eq (tail : Bytes) :
    trimWithin blank (pre ++ (mid ++ tail)) pre.length mid.length = (mid.rdropWhile blank).length := by
  induction mid using List.reverseRecOn generalizing tail with
  | nil => rfl
  | append_singleton mid x ih =>
    rw [List.length_append, List.length_singleton, trimWithin, charAt_last]
    by_cases hx : blank x = true
    · rw [if_pos hx, List.rdropWhile_concat_pos _ _ _ hx, ← ih ([x] ++ tail), List.append_assoc]
    · rw [if_neg hx, List.rdropWhile_concat_neg _ _ _ hx, List.length_append, List.length_singleton]

theorem between_trimWithin (blank : UInt8 → Bool) (pre mid tail : Bytes) :
    let skipped := skipWithin blank (pre ++ (mid ++ tail)) pre.length mid.length
    between (pre ++ (mid ++ tail)) skipped.1
      (skipped.1 + trimWithin blank (pre ++ (mid ++ tail)) skipped.1 skipped.2) = trimBy blank mid := by
  have htext : pre ++ (mid ++ tail) =
      (pre ++ mid.takeWhile blank) ++ (mid.dropWhile blank ++ tail) := by
    rw [List.append_assoc, ← List.append_assoc (mid.takeWhile blank), List.takeWhile_append_dropWhile]
  simp only [skipWithin_eq]
  rw [← List.length_append, htext, trimWithin_eq]
  exact between_prefix (List.rdropWhile_prefix _ _)

end Trimming

section Names

variable {μ : Type} [DecidableEq μ] [AndOp μ] [OrOp μ] [OfNat μ 0] (named : Bytes → Option μ)

theorem parseNames_eq (text : CString) :
    parseNames named text.bytes = OAuthValidator.parseNames named text.bytes := by
  have hsees : Sees text.bytes (visitName named text.bytes) (fun result entry =>
      match named (trimBy isspace entry) with
      | none => .error ()
      | some bit => if result &&& bit != 0 then .error () else .ok (result ||| bit)) := by
    intro result pre mid tail htext _ _
    simp only [visitName, Nat.add_sub_cancel_left, htext, between_trimWithin]
  rw [parseNames, entryLoop_scanList text hsees]
  rfl

end Names

theorem parseTokenTypes_eq (value : Option CString) :
    parseTokenTypes value = OAuthValidator.parseTokenTypes value := by
  rw [parseTokenTypes, OAuthValidator.parseTokenTypes]
  cases nonempty? value with
  | none => rfl
  | some text => simp only [parseNames_eq]

theorem parseAlgorithms_eq (value : Option CString) :
    parseAlgorithms value = OAuthValidator.parseAlgorithms value := by
  rw [parseAlgorithms, OAuthValidator.parseAlgorithms]
  cases nonempty? value with
  | none => rfl
  | some text => simp only [parseNames_eq]

end Pointer

/-- Both allowlists are exact, the one of token types for settings of at most 64 bytes. -/
theorem allowlists_exact :
    ExactAllowlist supportedAlgorithms UInt32.toNat (fun _ => True)
      (fun value => Pointer.parseAlgorithms (some value)) ∧
    ExactAllowlist supportedTokenTypes UInt8.toNat (fun value => value.length ≤ 64)
      (fun value => Pointer.parseTokenTypes (some value)) := by
  constructor
  · refine exactAllowlist_of_accepts nameTable_algorithms fun value mask _ => ?_
    rw [Pointer.parseAlgorithms_eq, parseAlgorithms_eq_some]
    simp
  · refine exactAllowlist_of_accepts nameTable_tokenTypes fun value mask hlength => ?_
    rw [Pointer.parseTokenTypes_eq, parseTokenTypes_eq_some]
    simp [hlength]

end OAuthValidator
