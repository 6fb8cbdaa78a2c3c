import OAuthValidator.Text

/-! The authenticated identity, which is the identity claim byte for byte. -/

namespace OAuthValidator

inductive IdentityError
  | ok | invalidArgument | invalidSubject | tooLarge | allocationFailed
deriving DecidableEq, Repr

structure IdentityPolicy where
  maxSubjectSize : Nat
  maxAuthnIdSize : Nat
deriving DecidableEq

/-- A character of several bytes, from the bits of its first byte and the
continuation bytes. -/
def validUtf8Char (bits : UInt8) (continuation : Bytes) : Bool :=
  let codepoint := continuation.foldl (fun value b => value <<< 6 ||| (b &&& 0x3f).toNat) bits.toNat
  continuation.all (fun b => b &&& 0xc0 == 0x80) &&
    !((continuation.length == 2 && codepoint < 0x800) ||
      (continuation.length == 3 && codepoint < 0x10000) ||
      (0x80 ≤ codepoint && codepoint ≤ 0x9f) ||
      (0xd800 ≤ codepoint && codepoint ≤ 0xdfff) ||
      0x10ffff < codepoint)

def validUtf8 : Bytes → Bool
  | [] => true
  | first :: rest =>
    if first ≤ 0x7f then !(first < 0x20 || first == 0x7f) && validUtf8 rest
    else if 0xc2 ≤ first && first ≤ 0xdf then
      match rest with
      | b :: rest => validUtf8Char (first &&& 0x1f) [b] && validUtf8 rest
      | _ => false
    else if 0xe0 ≤ first && first ≤ 0xef then
      match rest with
      | b :: c :: rest => validUtf8Char (first &&& 0x0f) [b, c] && validUtf8 rest
      | _ => false
    else if 0xf0 ≤ first && first ≤ 0xf4 then
      match rest with
      | b :: c :: d :: rest => validUtf8Char (first &&& 0x07) [b, c, d] && validUtf8 rest
      | _ => false
    else false

def identityBuild (subject : Option Bytes) (policy : IdentityPolicy) : Except IdentityError Bytes := do
  let subject ← given subject .invalidArgument
  require (policy.maxSubjectSize != 0 && policy.maxAuthnIdSize != 0) .invalidArgument
  require (!subject.isEmpty && subject.length ≤ policy.maxSubjectSize &&
    subject.length ≤ policy.maxAuthnIdSize && !subject.contains 0 && validUtf8 subject) .invalidSubject
  require (subject.length != sizeMax) .tooLarge
  return subject

/-- An identity that is built is the subject itself. -/
theorem identityBuild_ok {subject : Option Bytes} {policy : IdentityPolicy} {identity : Bytes}
    (h : identityBuild subject policy = .ok identity) : subject = some identity ∧ 0 ∉ identity := by
  simp only [identityBuild, except_bind_eq_ok, given_eq_ok, require_eq_ok, except_pure_eq_ok,
    Bool.and_eq_true, Bool.not_eq_true', List.contains_eq_mem, decide_eq_false_iff_not] at h
  obtain ⟨_, hsubject, _, _, _, ⟨⟨_, hnul⟩, _⟩, _, _, rfl⟩ := h
  exact ⟨hsubject, hnul⟩

end OAuthValidator
