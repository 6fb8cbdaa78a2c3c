import OAuthValidator.Text

/-! JSON values and the libraries the validator calls. Jansson, libcurl,
OpenSSL and libjwt are not part of the repository, so each answer they give is
a field of `Externals`, an arbitrary function in every result. -/

namespace OAuthValidator

/-- A value that Jansson has read. Its strings hold no NUL byte, because
`json_loadb` refuses one unless told otherwise. -/
inductive Json
  | null
  | bool (value : Bool)
  | int (value : Int)
  | real
  | str (value : CString)
  | arr (items : List Json)
  | obj (members : List (CString × Json))

namespace Json

def isObject : Json → Bool
  | .obj _ => true
  | _ => false

/-- `json_object_get`, which answers NULL on a value that is not an object. -/
def get? (value : Json) (name : CString) : Option Json :=
  match value with
  | .obj members => (members.find? fun m => m.1 == name).map Prod.snd
  | _ => none

def str? : Option Json → Option CString
  | some (.str s) => some s
  | _ => none

def arr? : Option Json → Option (List Json)
  | some (.arr items) => some items
  | _ => none

def int? : Option Json → Option Int
  | some (.int n) => some n
  | _ => none

theorem str?_eq_some {value : Option Json} {text : CString} (h : str? value = some text) :
    value = some (.str text) := by
  unfold str? at h
  split at h
  · rw [Option.some.inj h]
  · simp at h

theorem str?_eq_some_iff {value : Option Json} {text : CString} :
    str? value = some text ↔ value = some (.str text) :=
  ⟨str?_eq_some, fun h => h ▸ rfl⟩

theorem arr?_eq_some {value : Option Json} {items : List Json} (h : arr? value = some items) :
    value = some (.arr items) := by
  unfold arr? at h
  split at h
  · rw [Option.some.inj h]
  · simp at h

theorem int?_eq_some {value : Option Json} {n : Int} (h : int? value = some n) :
    value = some (.int n) := by
  unfold int? at h
  split at h
  · rw [Option.some.inj h]
  · simp at h

mutual

/-- Equality of values can be decided, member by member. -/
def decEq : (a b : Json) → Decidable (a = b)
  | .null, b => match b with
    | .null => isTrue rfl
    | .bool _ | .int _ | .real | .str _ | .arr _ | .obj _ => isFalse nofun
  | .bool x, b => match b with
    | .bool y => decidable_of_iff (x = y) (by simp)
    | .null | .int _ | .real | .str _ | .arr _ | .obj _ => isFalse nofun
  | .int x, b => match b with
    | .int y => decidable_of_iff (x = y) (by simp)
    | .null | .bool _ | .real | .str _ | .arr _ | .obj _ => isFalse nofun
  | .real, b => match b with
    | .real => isTrue rfl
    | .null | .bool _ | .int _ | .str _ | .arr _ | .obj _ => isFalse nofun
  | .str x, b => match b with
    | .str y => decidable_of_iff (x = y) (by simp)
    | .null | .bool _ | .int _ | .real | .arr _ | .obj _ => isFalse nofun
  | .arr xs, b => match b with
    | .arr ys => have := decEqItems xs ys; decidable_of_iff (xs = ys) (by simp)
    | .null | .bool _ | .int _ | .real | .str _ | .obj _ => isFalse nofun
  | .obj xs, b => match b with
    | .obj ys => have := decEqMembers xs ys; decidable_of_iff (xs = ys) (by simp)
    | .null | .bool _ | .int _ | .real | .str _ | .arr _ => isFalse nofun

def decEqItems : (xs ys : List Json) → Decidable (xs = ys)
  | [], [] => isTrue rfl
  | [], _ :: _ | _ :: _, [] => isFalse nofun
  | x :: xs, y :: ys =>
    have := decEq x y
    have := decEqItems xs ys
    decidable_of_iff (x = y ∧ xs = ys) (by simp)

def decEqMembers : (xs ys : List (CString × Json)) → Decidable (xs = ys)
  | [], [] => isTrue rfl
  | [], _ :: _ | _ :: _, [] => isFalse nofun
  | (m, x) :: xs, (n, y) :: ys =>
    have := decEq x y
    have := decEqMembers xs ys
    decidable_of_iff ((m = n ∧ x = y) ∧ xs = ys) (by simp)

end

instance : DecidableEq Json := decEq

end Json

/-- `json_string_equals` of jwks.c and claims.c. -/
def jsonStringEquals (value : Option Json) (expected : CString) : Bool :=
  Json.str? value == some expected

theorem jsonStringEquals_eq_true {value : Option Json} {text : CString} :
    jsonStringEquals value text = true ↔ value = some (.str text) := by
  constructor
  · intro h
    exact Json.str?_eq_some (eq_of_beq h)
  · rintro rfl
    simp [jsonStringEquals, Json.str?]

/-- What libcurl's URL parser reports about a URL it accepts. -/
structure CurlUrl where
  host : Option CString
  hasUser : Bool
  hasPassword : Bool
  hasFragment : Bool
deriving DecidableEq

/-- `jwt_alg_t`, as far as the validator asks for one. -/
inductive JwtAlg
  | inval | rs256 | es256 | eddsa
deriving DecidableEq, Repr

structure Externals where
  /-- `json_loadb` with JSON_REJECT_DUPLICATES. -/
  jsonLoadb : Bytes → Option Json
  jsonDumps : Json → Option CString
  curlUrlSet : CString → Option CurlUrl
  /-- `curl_getdate`, with -1 for a date it cannot read. -/
  curlGetdate : CString → Int
  /-- OpenSSL accepts the affine coordinates as a finite point of P-256. -/
  ecPointOnCurve : Bytes → Bytes → Bool
  ed25519PublicKey : Bytes → Bool
  /-- libjwt imports the serialized key as a set of exactly one key. -/
  jwksCreate : CString → Bool
  /-- libjwt makes a checker for the algorithm and the imported key, with its own
  time checks turned off. -/
  jwtChecker : JwtAlg → CString → Bool
  /-- The checker accepts the token. -/
  jwtVerify : JwtAlg → CString → Bytes → Bool

end OAuthValidator
