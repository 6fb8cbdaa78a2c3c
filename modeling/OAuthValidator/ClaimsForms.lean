import OAuthValidator.ClaimsExact

/-! The forms a claim can take. A list of texts may come as a string or as an
array, and the items of an array in any order. The stage reads the same texts from
all of them, so its result does not depend on the form, as long as the claim is not
read under a second name that asks for a string. -/

namespace OAuthValidator

/-! Reading the texts of a claim. -/

/-- The texts of a claim that is a valid string or a valid array. -/
def claimEntries (valid : Bytes → Bool) (maximum : Nat) (value : Option Json) : Option (List Bytes) :=
  match value with
  | some (.str s) => if valid s.bytes then some [s.bytes] else none
  | some (.arr items) => arrayEntries valid maximum items
  | _ => none

/-- The scopes of a string. -/
def scopeStringEntries (maximum : Nat) (scopes : Bytes) : Option (List Bytes) :=
  if scopes.isEmpty || maximum < (scopes.splitOn space).length then none
  else distinctEntries validScopeToken [] ((scopes.splitOn space).map some)

/-- Both readings fail, or they find the same texts in some order. -/
def SameEntries (entries entries' : Option (List Bytes)) : Prop :=
  (entries = none ∧ entries' = none) ∨
    ∃ texts texts', entries = some texts ∧ entries' = some texts' ∧ texts.Perm texts'

theorem SameEntries.refl (entries : Option (List Bytes)) : SameEntries entries entries := by
  cases entries with
  | none => exact Or.inl ⟨rfl, rfl⟩
  | some texts => exact Or.inr ⟨texts, texts, rfl, rfl, .refl _⟩

theorem SameEntries.contains {entries entries' : Option (List Bytes)} (h : SameEntries entries entries')
    (text : Bytes) : entries.map (·.contains text) = entries'.map (·.contains text) := by
  rcases h with ⟨rfl, rfl⟩ | ⟨texts, texts', rfl, rfl, hperm⟩
  · rfl
  · simp [hperm.mem_iff]

theorem SameEntries.any {entries entries' : Option (List Bytes)} (h : SameEntries entries entries')
    (test : Bytes → Bool) : entries.any (·.any test) = entries'.any (·.any test) := by
  rcases h with ⟨rfl, rfl⟩ | ⟨texts, texts', rfl, rfl, hperm⟩
  · rfl
  · exact hperm.any_eq

theorem stringItems_iff_filterMap {items : List Json} {texts : List Bytes} :
    StringItems items texts ↔
      texts = items.filterMap Json.text? ∧ ∀ item ∈ items, (Json.text? item).isSome = true := by
  rw [← stringItems_iff]
  constructor
  · intro h
    refine ⟨?_, fun item hm => ?_⟩
    · have hstrings := congrArg (List.filterMap id) h
      simpa [List.filterMap_map] using hstrings.symm
    · have hmem : Json.text? item ∈ texts.map some := h ▸ List.mem_map_of_mem hm
      obtain ⟨text, _, htext⟩ := List.mem_map.mp hmem
      rw [← htext, Option.isSome_some]
  · rintro ⟨rfl, hstrings⟩
    induction items with
    | nil => rfl
    | cons item items ih =>
      obtain ⟨text, htext⟩ := Option.isSome_iff_exists.mp (hstrings item List.mem_cons_self)
      simp [htext, ih fun item hm => hstrings item (List.mem_cons_of_mem _ hm)]

theorem WellFormedTexts.perm {P : Bytes → Prop} {maximum : Nat} {texts texts' : List Bytes}
    (h : WellFormedTexts P maximum texts) (hperm : texts.Perm texts') : WellFormedTexts P maximum texts' where
  nonempty hnil := h.nonempty (List.perm_nil.mp (hnil ▸ hperm))
  length_le := hperm.length_eq ▸ h.length_le
  nodup := hperm.nodup_iff.mp h.nodup
  valid text ht := h.valid text (hperm.mem_iff.mpr ht)

theorem arrayEntries_perm_some {valid : Bytes → Bool} {maximum : Nat} {items items' : List Json}
    {texts : List Bytes} (hperm : items.Perm items') (h : arrayEntries valid maximum items = some texts) :
    ∃ texts', arrayEntries valid maximum items' = some texts' ∧ texts.Perm texts' := by
  have hvalid : ∀ text, valid text = true ↔ valid text = true := fun _ => Iff.rfl
  obtain ⟨hitems, hw⟩ := (arrayEntries_eq_some hvalid).mp h
  obtain ⟨rfl, hstrings⟩ := stringItems_iff_filterMap.mp hitems
  have htexts := hperm.filterMap Json.text?
  refine ⟨_, (arrayEntries_eq_some hvalid).mpr ⟨?_, hw.perm htexts⟩, htexts⟩
  exact stringItems_iff_filterMap.mpr ⟨rfl, fun item hm => hstrings item (hperm.mem_iff.mpr hm)⟩

theorem arrayEntries_perm (valid : Bytes → Bool) (maximum : Nat) {items items' : List Json}
    (hperm : items.Perm items') :
    SameEntries (arrayEntries valid maximum items) (arrayEntries valid maximum items') := by
  cases h : arrayEntries valid maximum items with
  | some texts =>
    obtain ⟨texts', h', htexts⟩ := arrayEntries_perm_some hperm h
    exact Or.inr ⟨texts, texts', rfl, h', htexts⟩
  | none =>
    cases h' : arrayEntries valid maximum items' with
    | none => exact Or.inl ⟨rfl, rfl⟩
    | some texts' =>
      obtain ⟨texts, hsome, _⟩ := arrayEntries_perm_some hperm.symm h'
      simp [h] at hsome

/-- An array of one string reads like the string. -/
theorem arrayEntries_singleton {valid : Bytes → Bool} {maximum : Nat} (hmax : 0 < maximum) (s : CString) :
    arrayEntries valid maximum [.str s] = if valid s.bytes then some [s.bytes] else none := by
  cases h : valid s.bytes <;>
    simp [arrayEntries, distinctEntries, Json.text?, Json.str?, Nat.not_lt.mpr hmax, h]

/-- An array of tokens reads like the string in which single spaces join them. -/
theorem scopeStringEntries_join {maximum : Nat} {tokens : List CString} {scopes : CString}
    (hfree : ∀ token ∈ tokens, space ∉ token.bytes)
    (hjoin : scopes.bytes = List.intercalate [space] (tokens.map CString.bytes)) :
    scopeStringEntries maximum scopes.bytes =
      arrayEntries validScopeToken maximum (tokens.map .str) := by
  cases tokens with
  | nil => simp [scopeStringEntries, arrayEntries, hjoin]
  | cons token rest =>
    have hsplit : scopes.bytes.splitOn space = (token :: rest).map CString.bytes := by
      rw [hjoin]
      exact List.splitOn_intercalate _ (by simpa using hfree) (by simp)
    have htexts : ((token :: rest).map Json.str).map Json.text? =
        (scopes.bytes.splitOn space).map some := by
      simp [hsplit, Json.text?, Json.str?]
    rw [scopeStringEntries, arrayEntries, htexts]
    cases hscopes : scopes.bytes with
    | nil =>
      -- the empty string is one empty token, which no list may hold
      simp [List.splitOn_nil, distinctEntries, validScopeToken]
    | cons b bytes =>
      rw [← hscopes, hsplit]
      simp [hscopes]

/-! The checks, in terms of the texts they read. -/

theorem audienceMatches_eq_entries (value : Option Json) (policy : ClaimsPolicy) (audiences : CString) :
    audienceMatches value policy audiences =
      (claimEntries (fun text => !text.isEmpty) policy.maxAudiences value).any
        (·.any fun text => configuredAudienceMatches audiences text policy.maxAudiences) := by
  rcases value with _ | value
  · rfl
  cases value <;> try rfl
  · rename_i s
    cases h : s.bytes <;> simp [audienceMatches, claimEntries, CString.isEmpty, h]
  · rename_i items
    simp only [audienceMatches, claimEntries]
    cases arrayEntries (fun text => !text.isEmpty) policy.maxAudiences items <;> rfl

/-- The texts of the scope claim. -/
def scopeEntries (maximum : Nat) (value : Option Json) : Option (List Bytes) :=
  match value with
  | some (.str scopes) => scopeStringEntries maximum scopes.bytes
  | some (.arr scopes) => arrayEntries validScopeToken maximum scopes
  | _ => none

theorem scopeStringContains_eq_entries (scopes required : Bytes) (maximum : Nat) :
    scopeStringContains scopes required maximum =
      (scopeStringEntries maximum scopes).map (·.contains required) := by
  simp only [scopeStringContains, scopeStringEntries]
  split <;> rfl

theorem validateScopes_eq_entries (payload : Json) (policy : ClaimsPolicy) (requiredScopes : CString)
    (value : Json) (hvalue : payload.get? (.lit "scope") = some value)
    (hform : (∃ s, value = .str s) ∨ ∃ items, value = .arr items) :
    validateScopes payload policy requiredScopes =
      requireScopes (fun r => (scopeEntries policy.maxScopes (some value)).map (·.contains r))
        policy.maxScopes 0 (requiredScopes.bytes.splitOn space) := by
  rcases hform with ⟨s, rfl⟩ | ⟨items, rfl⟩
  · simp only [validateScopes, hvalue, scopeStringContains_eq_entries, scopeEntries]
  · simp only [validateScopes, hvalue, scopeArrayContains, scopeEntries]

/-- The verdict on the requested role, given what the role claim lists. -/
def roleVerdict (policy : ClaimsPolicy) (roles : Option (List Bytes)) : Except ClaimsError Unit := do
  let requested ← given policy.requestedRole .invalidArgument
  require (!requested.isEmpty && requested.length ≤ policy.maxRoleSize) .invalidArgument
  let found ← given (roles.map (·.contains requested.bytes)) .invalidRoles
  require found .unauthorizedRole

theorem roleVerdict_congr (policy : ClaimsPolicy) {roles roles' : Option (List Bytes)}
    (h : SameEntries roles roles') : roleVerdict policy roles = roleVerdict policy roles' := by
  simp only [roleVerdict, h.contains]

theorem validateRequestedRole_eq_entries (payload : Json) (policy : ClaimsPolicy) (roleClaim : CString) :
    validateRequestedRole payload policy roleClaim =
      if roleClaim.isEmpty then .ok ()
      else roleVerdict policy (claimEntries (validRoleText policy.maxRoleSize) policy.maxRoles
        (payload.get? roleClaim)) := by
  unfold validateRequestedRole roleVerdict
  congr 1
  refine congrArg _ (funext fun requested => congrArg _ (funext fun _ => ?_))
  rcases payload.get? roleClaim with _ | value
  · rfl
  cases value with
  | str role =>
    have hequal : (role == requested) = [role.bytes].contains requested.bytes := by
      rw [Bool.eq_iff_iff, beq_iff_eq, List.contains_iff_mem, List.mem_singleton]
      exact ⟨fun h => h ▸ rfl, fun h => CString.ext_bytes h.symm⟩
    simp only [claimEntries, hequal]
    cases validRoleText policy.maxRoleSize role.bytes <;> rfl
  | arr items =>
    simp only [claimEntries]
    cases arrayEntries (validRoleText policy.maxRoleSize) policy.maxRoles items <;> rfl
  | _ => rfl

/-! Replacing the value of one claim. -/

/-- Two payloads that differ in the value of one claim. -/
structure Replaced (payload payload' : Json) (name : CString) (value value' : Json) : Prop where
  object : payload.isObject = true
  object' : payload'.isObject = true
  value : payload.get? name = some value
  value' : payload'.get? name = some value'
  others : ∀ other, other ≠ name → payload'.get? other = payload.get? other

/-- A string and an array that say the same, or two orders of an array. The string
form is not replaced in a claim that is also read as a string. -/
inductive SameClaim (identityClaim roleClaim : CString) : CString → Json → Json → Prop
  | scopes (tokens : List CString) (scopes : CString)
      (free : ∀ token ∈ tokens, space ∉ token.bytes)
      (join : scopes.bytes = List.intercalate [space] (tokens.map CString.bytes))
      (identity : identityClaim ≠ .lit "scope") (role : roleClaim ≠ .lit "scope") :
      SameClaim identityClaim roleClaim (.lit "scope") (.str scopes) (.arr (tokens.map .str))
  | audience (audience : CString) (identity : identityClaim ≠ .lit "aud") :
      SameClaim identityClaim roleClaim (.lit "aud") (.str audience) (.arr [.str audience])
  | role (role : CString) (identity : identityClaim ≠ roleClaim)
      (others : roleClaim ∉ [.lit "iss", .lit "sub", .lit "scope"]) :
      SameClaim identityClaim roleClaim roleClaim (.str role) (.arr [.str role])
  | reordered (name : CString) (items items' : List Json)
      (listed : name ∈ [.lit "aud", .lit "scope", roleClaim]) (perm : items.Perm items') :
      SameClaim identityClaim roleClaim name (.arr items) (.arr items')

theorem lit_scope_ne : CString.lit "scope" ≠ .lit "iss" ∧ CString.lit "scope" ≠ .lit "sub" ∧
    CString.lit "scope" ≠ .lit "aud" := by
  decide

theorem lit_aud_ne : CString.lit "aud" ≠ .lit "iss" ∧ CString.lit "aud" ≠ .lit "sub" ∧
    CString.lit "aud" ≠ .lit "scope" := by
  decide

section
variable {payload payload' value value' : Json} {name identityClaim roleClaim : CString}

theorem Replaced.read (h : Replaced payload payload' name value value') (read : Option Json → α)
    {other : CString} (hread : other = name → read (some value) = read (some value')) :
    read (payload.get? other) = read (payload'.get? other) := by
  by_cases hother : other = name
  · rw [hother, h.value, h.value', hread hother]
  · rw [h.others other hother]

/-- No form is a number. -/
theorem SameClaim.not_int (h : SameClaim identityClaim roleClaim name value value') :
    Json.int? (some value) = none ∧ Json.int? (some value') = none := by
  cases h <;> exact ⟨rfl, rfl⟩

/-- A claim that is read as a string only has its items reordered. -/
theorem SameClaim.not_str (h : SameClaim identityClaim roleClaim name value value')
    (hname : name ∈ [.lit "iss", .lit "sub", identityClaim]) :
    Json.str? (some value) = none ∧ Json.str? (some value') = none := by
  cases h with
  | scopes _ _ _ _ hidentity => simp [lit_scope_ne, hidentity.symm] at hname
  | audience _ hidentity => simp [lit_aud_ne, hidentity.symm] at hname
  | role _ hidentity hothers => simp_all [eq_comm]
  | reordered => exact ⟨rfl, rfl⟩

theorem SameClaim.same_claimEntries (h : SameClaim identityClaim roleClaim name value value')
    (hname : name ∈ [.lit "aud", roleClaim]) (valid : Bytes → Bool) {maximum : Nat} (hmax : 0 < maximum) :
    SameEntries (claimEntries valid maximum (some value)) (claimEntries valid maximum (some value')) := by
  cases h with
  | scopes _ _ _ _ _ hrole => simp [lit_scope_ne, hrole.symm] at hname
  | reordered _ _ _ _ hperm => exact arrayEntries_perm valid maximum hperm
  | _ =>
    simp only [claimEntries, arrayEntries_singleton hmax]
    exact .refl _

theorem SameClaim.same_scopeEntries (h : SameClaim identityClaim roleClaim name value value')
    (hname : name = .lit "scope") (maximum : Nat) :
    SameEntries (scopeEntries maximum (some value)) (scopeEntries maximum (some value')) := by
  cases h with
  | scopes _ _ hfree hjoin =>
    simp only [scopeEntries, scopeStringEntries_join hfree hjoin]
    exact .refl _
  | audience => simp [lit_aud_ne] at hname
  | role _ _ hothers => simp [hname] at hothers
  | reordered _ _ _ _ hperm => exact arrayEntries_perm validScopeToken maximum hperm

/-- A scope claim of either form is read as its texts. -/
theorem SameClaim.listed (h : SameClaim identityClaim roleClaim name value value') :
    ((∃ s, value = .str s) ∨ ∃ items, value = .arr items) ∧
      ((∃ s, value' = .str s) ∨ ∃ items, value' = .arr items) := by
  cases h <;> simp

theorem SameClaim.same_scopes (h : SameClaim identityClaim roleClaim name value value')
    (hreplaced : Replaced payload payload' name value value') (policy : ClaimsPolicy)
    (requiredScopes : CString) :
    validateScopes payload policy requiredScopes = validateScopes payload' policy requiredScopes := by
  by_cases hname : name = .lit "scope"
  · subst hname
    rw [validateScopes_eq_entries payload policy requiredScopes value hreplaced.value h.listed.1,
      validateScopes_eq_entries payload' policy requiredScopes value' hreplaced.value' h.listed.2]
    have hsame := h.same_scopeEntries rfl policy.maxScopes
    simp only [hsame.contains]
  · simp only [validateScopes, hreplaced.others _ (Ne.symm hname)]

theorem SameClaim.same_role (h : SameClaim identityClaim roleClaim name value value')
    (hreplaced : Replaced payload payload' name value value') (policy : ClaimsPolicy)
    (hmax : roleClaim.isEmpty = false → 0 < policy.maxRoles) :
    validateRequestedRole payload policy roleClaim = validateRequestedRole payload' policy roleClaim := by
  rw [validateRequestedRole_eq_entries, validateRequestedRole_eq_entries]
  cases hempty : roleClaim.isEmpty with
  | true => rfl
  | false =>
    refine roleVerdict_congr policy ?_
    by_cases hrole : roleClaim = name
    · rw [hrole, hreplaced.value, hreplaced.value']
      exact h.same_claimEntries (by simp [hrole]) _ (hmax hempty)
    · rw [hreplaced.others _ hrole]
      exact .refl _

theorem SameClaim.same_audience (h : SameClaim identityClaim roleClaim name value value')
    (hreplaced : Replaced payload payload' name value value') {policy : ClaimsPolicy}
    (hmax : 0 < policy.maxAudiences) (audiences : CString) :
    audienceMatches (payload.get? (.lit "aud")) policy audiences =
      audienceMatches (payload'.get? (.lit "aud")) policy audiences := by
  refine hreplaced.read (audienceMatches · policy audiences) fun hname => ?_
  rw [audienceMatches_eq_entries, audienceMatches_eq_entries]
  exact (h.same_claimEntries (by simp [← hname]) _ hmax).any _

theorem SameClaim.same_string (h : SameClaim identityClaim roleClaim name value value')
    (hreplaced : Replaced payload payload' name value value') {other : CString}
    (hother : other ∈ [.lit "iss", .lit "sub", identityClaim]) :
    Json.str? (payload.get? other) = Json.str? (payload'.get? other) := by
  refine hreplaced.read Json.str? fun hname => ?_
  obtain ⟨hvalue, hvalue'⟩ := h.not_str (hname ▸ hother)
  rw [hvalue, hvalue']

theorem SameClaim.same_date (h : SameClaim identityClaim roleClaim name value value')
    (hreplaced : Replaced payload payload' name value value') (policy : ClaimsPolicy)
    (other : CString) (invalid late : ClaimsError) :
    checkNotAfter (payload.get? other) policy invalid late =
      checkNotAfter (payload'.get? other) policy invalid late := by
  refine hreplaced.read (checkNotAfter · policy invalid late) fun _ => ?_
  simp only [checkNotAfter, h.not_int.1, h.not_int.2]

/-- The check of `exp`, which a token may not omit. -/
theorem SameClaim.same_expiry (h : SameClaim identityClaim roleClaim name value value')
    (hreplaced : Replaced payload payload' name value value') (rest : Int → Except ClaimsError α)
    (other : CString) (missing invalid : ClaimsError) :
    ((given (payload.get? other) missing).bind fun date =>
        (given (Json.int? (some date)) invalid).bind rest) =
      (given (payload'.get? other) missing).bind fun date =>
        (given (Json.int? (some date)) invalid).bind rest := by
  refine hreplaced.read (fun value => (given value missing).bind fun date =>
    (given (Json.int? (some date)) invalid).bind rest) fun _ => ?_
  simp only [given, Except.bind, h.not_int.1, h.not_int.2]

end

/-- The result of the stage does not depend on the form of a claim. -/
theorem claims_forms {payload payload' value value' : Json} {policy : ClaimsPolicy}
    {name identityClaim roleClaim : CString} (hpolicy : validPolicy policy = true)
    (hidentity : policy.identityClaim = some identityClaim) (hrole : policy.roleClaim = some roleClaim)
    (h : SameClaim identityClaim roleClaim name value value')
    (hreplaced : Replaced payload payload' name value value') :
    claimsValidate payload policy = claimsValidate payload' policy := by
  obtain ⟨_, hmax, hroles⟩ := validPolicy_bounds hpolicy
  have hiss := h.same_string hreplaced (by simp : CString.lit "iss" ∈ _)
  have hsub := h.same_string hreplaced (by simp : CString.lit "sub" ∈ _)
  have hid := h.same_string hreplaced (by simp : identityClaim ∈ _)
  simp only [claimsValidate, hidentity, hrole, given_some_bind, hreplaced.object, hreplaced.object',
    jsonStringEquals, validIdentityString, hiss, hsub, hid, h.same_audience hreplaced hmax,
    h.same_scopes hreplaced, h.same_role hreplaced policy (hroles roleClaim hrole),
    h.same_date hreplaced]
  -- what is left differs in the reading of `exp`
  refine bind_congr fun _ => bind_congr fun issuer => bind_congr fun audiences => bind_congr fun required =>
    bind_congr fun _ => bind_congr fun _ => ?_
  exact h.same_expiry hreplaced _ _ _ _

theorem get?_member {front back : List (CString × Json)} {name : CString} {value : Json}
    (hfresh : ∀ member ∈ front, member.1 ≠ name) :
    Json.get? (.obj (front ++ (name, value) :: back)) name = some value := by
  have hnone : front.find? (fun m => m.1 == name) = none :=
    List.find?_eq_none.mpr fun member hm => by simpa using hfresh member hm
  simp [Json.get?, hnone]

theorem Replaced.member {front back : List (CString × Json)} {name : CString}
    (hfresh : ∀ member ∈ front, member.1 ≠ name) (value value' : Json) :
    Replaced (.obj (front ++ (name, value) :: back)) (.obj (front ++ (name, value') :: back)) name
      value value' where
  object := rfl
  object' := rfl
  value := get?_member hfresh
  value' := get?_member hfresh
  others other hother := by simp [Json.get?, Ne.symm hother]

namespace Sample

/-- A policy that names users by the audience. -/
def audienceIdentityPolicy : ClaimsPolicy :=
  { claimsPolicy with identityClaim := some (.lit "aud"), roleClaim := some (.lit "") }

def payloadBefore : List (CString × Json) :=
  [(.lit "iss", .str (.lit "https://i"))]

def payloadAfter : List (CString × Json) :=
  [(.lit "exp", .int 1700000060), (.lit "sub", .str (.lit "u")), (.lit "scope", .str (.lit "read write")),
    (.lit "roles", .arr [.str (.lit "app")])]

def payloadWithAudience (audience : Json) : Json :=
  .obj (payloadBefore ++ (.lit "aud", audience) :: payloadAfter)

end Sample

/-- An audience that is also the identity must be a string. -/
theorem audience_forms_differ : ∃ (payload payload' : Json) (policy : ClaimsPolicy) (audience : CString),
    validPolicy policy = true ∧
      Replaced payload payload' (.lit "aud") (.str audience) (.arr [.str audience]) ∧
      (∃ claims, claimsValidate payload policy = .ok claims) ∧
      claimsValidate payload' policy = .error .invalidIdentity :=
  ⟨Sample.payloadWithAudience (.str (.lit "db")), Sample.payloadWithAudience (.arr [.str (.lit "db")]),
    Sample.audienceIdentityPolicy, .lit "db", by decide, .member (by decide) _ _,
    ⟨⟨.lit "db", 1700000060⟩, by decide⟩, by decide⟩

theorem claims_forms_audience :
    claimsValidate (Sample.payloadWithAudience (.str (.lit "db"))) Sample.claimsPolicy =
      claimsValidate (Sample.payloadWithAudience (.arr [.str (.lit "db")])) Sample.claimsPolicy :=
  claims_forms (by decide) rfl rfl (.audience (.lit "db") (by decide))
    (.member (by decide) _ _)

end OAuthValidator
