import OAuthValidator.Claims
import OAuthValidator.Policy

/-! The claims stage accepts exactly the payloads that its policy describes. Each
check is equated with what it says about the claim, and the whole stage with the
conjunction. -/

namespace OAuthValidator

/-! Texts of identities. -/

theorem containsC1Control_eq_false {text : Bytes} :
    containsC1Control text = false ↔ ∀ c : UInt8, 0x80 ≤ c → c ≤ 0x9f → ¬ [0xc2, c] <:+: text := by
  induction text with
  | nil => simp [containsC1Control]
  | cons a rest ih =>
    cases rest with
    | nil => simp [containsC1Control, List.infix_cons_iff, List.prefix_cons_iff]
    | cons b rest =>
      rw [containsC1Control, Bool.or_eq_false_iff, ih]
      constructor
      · rintro ⟨hhead, htail⟩ c hlow hhigh hin
        rcases List.infix_cons_iff.mp hin with hprefix | hrest
        · obtain ⟨tail, heq⟩ := hprefix
          obtain ⟨rfl, rfl, rfl⟩ : 0xc2 = a ∧ c = b ∧ tail = rest := by simpa using heq
          simp [hlow, hhigh] at hhead
        · exact htail c hlow hhigh hrest
      · intro h
        refine ⟨?_, fun c hlow hhigh hin => h c hlow hhigh (List.infix_cons hin)⟩
        by_contra hhead
        simp only [Bool.not_eq_false, Bool.and_eq_true, beq_iff_eq, decide_eq_true_eq] at hhead
        obtain ⟨⟨rfl, hlow⟩, hhigh⟩ := hhead
        exact h b hlow hhigh ⟨[], rest, rfl⟩

theorem validIdentityText_iff {maximum : Nat} {text : Bytes} :
    validIdentityText maximum text = true ↔ PrintableText maximum text := by
  simp only [validIdentityText, Bool.and_eq_true, Bool.not_eq_true', List.isEmpty_eq_false_iff,
    decide_eq_true_eq, List.any_eq_false, containsC1Control_eq_false]
  constructor
  · rintro ⟨⟨⟨hne, hlength⟩, hascii⟩, hc1⟩
    exact ⟨hne, hlength, fun b hb => by simpa using hascii b hb, hc1⟩
  · rintro ⟨hne, hlength, hascii, hc1⟩
    exact ⟨⟨⟨hne, hlength⟩, fun b hb => by simpa using hascii b hb⟩, hc1⟩

theorem validIdentityString_eq_some {value : Option Json} {maximum : Nat} {text : CString} :
    validIdentityString value maximum = some text ↔
      value = some (.str text) ∧ PrintableText maximum text.bytes := by
  rw [validIdentityString, Option.filter_eq_some_iff, validIdentityText_iff, Json.str?_eq_some_iff]

/-! Claims that list texts. -/

/-- A list of texts within its bound, none of which is invalid or occurs twice. -/
structure WellFormedTexts (valid : Bytes → Prop) (maximum : Nat) (texts : List Bytes) : Prop where
  nonempty : texts ≠ []
  length_le : texts.length ≤ maximum
  nodup : texts.Nodup
  valid : ∀ text ∈ texts, valid text

/-- The items of an array are strings with the given texts. -/
def StringItems (items : List Json) (texts : List Bytes) : Prop :=
  ∃ strings : List CString, items = strings.map .str ∧ texts = strings.map CString.bytes

/-- A claim that lists texts: one as a string, or any number in an array. -/
def ClaimTexts (value : Option Json) (texts : List Bytes) : Prop :=
  (∃ s : CString, value = some (.str s) ∧ texts = [s.bytes]) ∨
    ∃ items, value = some (.arr items) ∧ StringItems items texts

theorem text?_eq_some {item : Json} {text : Bytes} :
    Json.text? item = some text ↔ ∃ s : CString, item = .str s ∧ text = s.bytes := by
  rw [Json.text?, Option.map_eq_some_iff]
  constructor
  · rintro ⟨s, hs, rfl⟩
    exact ⟨s, Option.some.inj (Json.str?_eq_some hs), rfl⟩
  · rintro ⟨s, rfl, rfl⟩
    exact ⟨s, rfl, rfl⟩

theorem stringItems_iff {items : List Json} {texts : List Bytes} :
    items.map Json.text? = texts.map some ↔ StringItems items texts := by
  constructor
  · intro h
    induction items generalizing texts with
    | nil => exact ⟨[], rfl, by simpa using h.symm⟩
    | cons item items ih =>
      cases texts with
      | nil => simp at h
      | cons text texts =>
        obtain ⟨hitem, hrest⟩ := List.cons.inj h
        obtain ⟨s, rfl, rfl⟩ := text?_eq_some.mp hitem
        obtain ⟨strings, rfl, rfl⟩ := ih hrest
        exact ⟨s :: strings, rfl, rfl⟩
  · rintro ⟨strings, rfl, rfl⟩
    rw [List.map_map, List.map_map]
    rfl

/-- The entries that the loop accepts after those it has seen. -/
structure DistinctTexts (valid : Bytes → Bool) (seen texts : List Bytes) : Prop where
  nodup : texts.Nodup
  unseen : ∀ text ∈ texts, text ∉ seen
  valid : ∀ text ∈ texts, valid text = true

theorem distinctTexts_cons {valid : Bytes → Bool} {seen texts : List Bytes} {text : Bytes} :
    DistinctTexts valid seen (text :: texts) ↔
      valid text = true ∧ text ∉ seen ∧ DistinctTexts valid (seen ++ [text]) texts := by
  constructor
  · rintro ⟨hnodup, hunseen, hvalid⟩
    obtain ⟨hnew, hnodup⟩ := List.nodup_cons.mp hnodup
    refine ⟨hvalid text List.mem_cons_self, hunseen text List.mem_cons_self, hnodup, fun t ht => ?_,
      fun t ht => hvalid t (List.mem_cons_of_mem _ ht)⟩
    simp only [List.mem_append, List.mem_singleton, not_or]
    exact ⟨hunseen t (List.mem_cons_of_mem _ ht), fun he => hnew (he ▸ ht)⟩
  · rintro ⟨hvalid, hunseen, hrest⟩
    have hfresh : ∀ t ∈ texts, t ∉ seen ∧ t ≠ text := by
      intro t ht
      simpa [not_or] using hrest.unseen t ht
    refine ⟨List.nodup_cons.mpr ⟨fun ht => (hfresh text ht).2 rfl, hrest.nodup⟩, ?_, ?_⟩
    · exact List.forall_mem_cons.mpr ⟨hunseen, fun t ht => (hfresh t ht).1⟩
    · exact List.forall_mem_cons.mpr ⟨hvalid, hrest.valid⟩

theorem distinctEntries_eq_some {valid : Bytes → Bool} {seen out : List Bytes}
    {entries : List (Option Bytes)} : distinctEntries valid seen entries = some out ↔
      ∃ texts, entries = texts.map some ∧ out = seen ++ texts ∧ DistinctTexts valid seen texts := by
  induction entries generalizing seen with
  | nil =>
    constructor
    · intro h
      exact ⟨[], rfl, by simpa [distinctEntries] using h.symm, ⟨.nil, by simp, by simp⟩⟩
    · rintro ⟨texts, hmap, rfl, _⟩
      obtain rfl : texts = [] := by simpa using hmap.symm
      simp [distinctEntries]
  | cons entry rest ih =>
    cases entry with
    | none =>
      constructor
      · simp [distinctEntries]
      · rintro ⟨_ | ⟨text, texts⟩, hmap, _⟩ <;> simp at hmap
    | some text =>
      rw [distinctEntries]
      constructor
      · intro h
        split at h
        · simp at h
        · next hfresh =>
          obtain ⟨texts, rfl, rfl, hd⟩ := ih.mp h
          simp only [Bool.or_eq_true, Bool.not_eq_true', List.contains_iff_mem, not_or,
            Bool.not_eq_false] at hfresh
          exact ⟨text :: texts, rfl, by simp, distinctTexts_cons.mpr ⟨hfresh.1, hfresh.2, hd⟩⟩
      · rintro ⟨_ | ⟨text', texts⟩, hmap, rfl, hd⟩
        · simp at hmap
        · obtain ⟨hhead, rfl⟩ := List.cons.inj hmap
          obtain rfl := Option.some.inj hhead
          obtain ⟨hvalid, hunseen, hrest⟩ := distinctTexts_cons.mp hd
          rw [if_neg (by simp [hvalid, hunseen])]
          exact ih.mpr ⟨texts, rfl, by simp, hrest⟩

theorem arrayEntries_eq_some {valid : Bytes → Bool} {P : Bytes → Prop} {maximum : Nat}
    {items : List Json} {texts : List Bytes} (hvalid : ∀ text, valid text = true ↔ P text) :
    arrayEntries valid maximum items = some texts ↔
      StringItems items texts ∧ WellFormedTexts P maximum texts := by
  have hbounds (hitems : StringItems items texts) :
      (items.isEmpty || decide (maximum < items.length)) = false ↔ texts ≠ [] ∧ texts.length ≤ maximum := by
    obtain ⟨strings, rfl, rfl⟩ := hitems
    simp
  unfold arrayEntries
  constructor
  · intro h
    split at h
    · simp at h
    · next hsize =>
      obtain ⟨texts', hmap, htexts, hd⟩ := distinctEntries_eq_some.mp h
      obtain rfl : texts = texts' := by simpa using htexts
      have hitems := stringItems_iff.mp hmap
      obtain ⟨hne, hle⟩ := (hbounds hitems).mp (Bool.eq_false_iff.mpr hsize)
      exact ⟨hitems, hne, hle, hd.nodup, fun text ht => (hvalid text).mp (hd.valid text ht)⟩
  · rintro ⟨hitems, hne, hle, hnodup, hall⟩
    rw [if_neg (by rw [(hbounds hitems).mpr ⟨hne, hle⟩]; exact Bool.false_ne_true)]
    exact distinctEntries_eq_some.mpr ⟨texts, stringItems_iff.mpr hitems, by simp, hnodup, by simp,
      fun text ht => (hvalid text).mpr (hall text ht)⟩

theorem wellFormedTexts_singleton {P : Bytes → Prop} {maximum : Nat} {text : Bytes} (hmax : 0 < maximum) :
    WellFormedTexts P maximum [text] ↔ P text :=
  ⟨fun h => h.valid text List.mem_cons_self, fun h => ⟨by simp, hmax, by simp, by simpa using h⟩⟩

/-- A claim that is a string passes as the one text, and an array as its texts. -/
theorem exists_claimTexts {value : Option Json} {P : Bytes → Prop} {maximum : Nat}
    {Q : List Bytes → Prop} (hmax : 0 < maximum) :
    (∃ texts, ClaimTexts value texts ∧ WellFormedTexts P maximum texts ∧ Q texts) ↔
      (∃ s : CString, value = some (.str s) ∧ P s.bytes ∧ Q [s.bytes]) ∨
        ∃ items texts, value = some (.arr items) ∧ StringItems items texts ∧
          WellFormedTexts P maximum texts ∧ Q texts := by
  constructor
  · rintro ⟨texts, ⟨s, rfl, rfl⟩ | ⟨items, rfl, hitems⟩, hw, hq⟩
    · exact Or.inl ⟨s, rfl, (wellFormedTexts_singleton hmax).mp hw, hq⟩
    · exact Or.inr ⟨items, texts, rfl, hitems, hw, hq⟩
  · rintro (⟨s, rfl, hp, hq⟩ | ⟨items, texts, rfl, hitems, hw, hq⟩)
    · exact ⟨[s.bytes], Or.inl ⟨s, rfl, rfl⟩, (wellFormedTexts_singleton hmax).mpr hp, hq⟩
    · exact ⟨texts, Or.inr ⟨items, rfl, hitems⟩, hw, hq⟩

theorem isEmpty_iff_nonempty (text : Bytes) : (!text.isEmpty) = true ↔ text ≠ [] := by
  simp

theorem audienceMatches_iff {value : Option Json} {policy : ClaimsPolicy} {audiences : CString}
    (hmax : 0 < policy.maxAudiences) :
    audienceMatches value policy audiences = true ↔
      ∃ texts, ClaimTexts value texts ∧ WellFormedTexts (· ≠ []) policy.maxAudiences texts ∧
        ∃ text ∈ texts, configuredAudienceMatches audiences text policy.maxAudiences = true := by
  rw [exists_claimTexts hmax]
  unfold audienceMatches
  split
  · next s => simp [CString.isEmpty]
  · next items =>
    constructor
    · intro h
      split at h
      · simp at h
      · next texts htexts =>
        obtain ⟨hitems, hw⟩ := (arrayEntries_eq_some isEmpty_iff_nonempty).mp htexts
        exact Or.inr ⟨items, texts, rfl, hitems, hw, List.any_eq_true.mp h⟩
    · rintro (⟨s, hs, _⟩ | ⟨items', texts, heq, hitems, hw, hmatch⟩)
      · simp at hs
      · obtain rfl : items = items' := by simpa using heq
        rw [(arrayEntries_eq_some isEmpty_iff_nonempty).mpr ⟨hitems, hw⟩]
        exact List.any_eq_true.mpr hmatch
  · next hstr harr =>
    constructor
    · simp
    · rintro (⟨s, rfl, _⟩ | ⟨items, texts, rfl, _⟩)
      · exact absurd rfl (hstr s)
      · exact absurd rfl (harr items)

/-! Scopes. -/

/-- A scope token of RFC 6749. -/
def ScopeToken (text : Bytes) : Prop :=
  text ≠ [] ∧ ∀ b ∈ text, b = 0x21 ∨ (0x23 ≤ b ∧ b ≤ 0x5b) ∨ (0x5d ≤ b ∧ b ≤ 0x7e)

theorem validScopeToken_iff (text : Bytes) : validScopeToken text = true ↔ ScopeToken text := by
  simp [validScopeToken, ScopeToken, or_assoc]

/-- The scopes of a claim: between the spaces of a string, or the items of an array. -/
def ScopeTexts (value : Option Json) (texts : List Bytes) : Prop :=
  (∃ s : CString, value = some (.str s) ∧ texts = s.bytes.splitOn space) ∨
    ∃ items, value = some (.arr items) ∧ StringItems items texts

theorem scopeStringContains_eq_some {scopes required : Bytes} {maximum : Nat} {found : Bool} :
    scopeStringContains scopes required maximum = some found ↔
      WellFormedTexts ScopeToken maximum (scopes.splitOn space) ∧
        found = (scopes.splitOn space).contains required := by
  simp only [scopeStringContains]
  constructor
  · intro h
    split at h
    · simp at h
    · next hsize =>
      obtain ⟨seen, hseen, rfl⟩ := Option.map_eq_some_iff.mp h
      obtain ⟨texts, hmap, hout, hd⟩ := distinctEntries_eq_some.mp hseen
      have htexts : scopes.splitOn space = texts :=
        (List.map_inj_right fun _ _ he => Option.some.inj he).mp hmap
      obtain rfl : seen = texts := by simpa using hout
      simp only [Bool.or_eq_true, decide_eq_true_eq, not_or, Nat.not_lt] at hsize
      rw [htexts] at hsize ⊢
      exact ⟨⟨htexts ▸ List.splitOn_ne_nil _ _, hsize.2, hd.nodup,
        fun text ht => (validScopeToken_iff text).mp (hd.valid text ht)⟩, rfl⟩
  · rintro ⟨hw, rfl⟩
    have hne : scopes.isEmpty = false := by
      cases scopes with
      | nil => exact absurd rfl (hw.valid [] (by simp)).1
      | cons _ _ => rfl
    have hentries : distinctEntries validScopeToken [] ((scopes.splitOn space).map some) =
        some (scopes.splitOn space) :=
      distinctEntries_eq_some.mpr ⟨_, rfl, by simp, hw.nodup, by simp,
        fun text ht => (validScopeToken_iff text).mpr (hw.valid text ht)⟩
    rw [if_neg (by simp [hne, hw.length_le]), hentries]
    rfl

theorem scopeArrayContains_eq_some {scopes : List Json} {required : Bytes} {maximum : Nat} {found : Bool} :
    scopeArrayContains scopes required maximum = some found ↔
      ∃ texts, StringItems scopes texts ∧ WellFormedTexts ScopeToken maximum texts ∧
        found = texts.contains required := by
  rw [scopeArrayContains, Option.map_eq_some_iff]
  constructor
  · rintro ⟨texts, htexts, rfl⟩
    obtain ⟨hitems, hw⟩ := (arrayEntries_eq_some validScopeToken_iff).mp htexts
    exact ⟨texts, hitems, hw, rfl⟩
  · rintro ⟨texts, hitems, hw, rfl⟩
    exact ⟨texts, (arrayEntries_eq_some validScopeToken_iff).mpr ⟨hitems, hw⟩, rfl⟩

theorem requireScopes_eq_ok {contains : Bytes → Option Bool} {maximum count : Nat} {required : List Bytes}
    {u : Unit} (hcount : count ≤ maximum) : requireScopes contains maximum count required = .ok u ↔
      count + required.length ≤ maximum ∧
        ∀ scope ∈ required, ScopeToken scope ∧ contains scope = some true := by
  induction required generalizing count with
  | nil => simp [requireScopes, hcount]
  | cons scope rest ih =>
    simp only [requireScopes, except_bind_eq_ok, require_eq_ok, given_eq_ok, Bool.and_eq_true,
      decide_eq_true_eq, validScopeToken_iff, List.forall_mem_cons, List.length_cons]
    constructor
    · rintro ⟨_, ⟨hroom, hscope⟩, found, hfound, _, rfl, hrest⟩
      obtain ⟨hlen, hall⟩ := (ih hroom).mp hrest
      exact ⟨by omega, ⟨hscope, hfound⟩, hall⟩
    · rintro ⟨hlen, ⟨hscope, hfound⟩, hall⟩
      exact ⟨(), ⟨by omega, hscope⟩, true, hfound, (), rfl, (ih (by omega)).mpr ⟨by omega, hall⟩⟩

theorem StringItems.unique {items : List Json} {texts texts' : List Bytes} (h : StringItems items texts)
    (h' : StringItems items texts') : texts = texts' := by
  have hmap := (stringItems_iff.mpr h).symm.trans (stringItems_iff.mpr h')
  exact (List.map_inj_right fun _ _ he => Option.some.inj he).mp hmap

theorem ScopeTexts.unique {value : Option Json} {texts texts' : List Bytes} (h : ScopeTexts value texts)
    (h' : ScopeTexts value texts') : texts = texts' := by
  rcases h with ⟨s, rfl, rfl⟩ | ⟨items, rfl, hitems⟩
  · rcases h' with ⟨s', hs, rfl⟩ | ⟨_, hs, _⟩
    · obtain rfl : s = s' := by simpa using hs
      rfl
    · simp at hs
  · rcases h' with ⟨_, hs, _⟩ | ⟨items', hs, hitems'⟩
    · simp at hs
    · obtain rfl : items = items' := by simpa using hs
      exact hitems.unique hitems'

/-- A list of scopes that is well formed contains the one that is asked for. -/
def ScopeGranted (value : Option Json) (maximum : Nat) (scope : Bytes) : Prop :=
  ∃ granted, ScopeTexts value granted ∧ WellFormedTexts ScopeToken maximum granted ∧ scope ∈ granted

theorem scopeStringContains_iff {s : CString} {required : Bytes} {maximum : Nat} :
    scopeStringContains s.bytes required maximum = some true ↔
      ScopeGranted (some (.str s)) maximum required := by
  rw [scopeStringContains_eq_some]
  constructor
  · rintro ⟨hw, hmem⟩
    exact ⟨_, Or.inl ⟨s, rfl, rfl⟩, hw, by simpa using hmem.symm⟩
  · rintro ⟨granted, hgranted, hw, hmem⟩
    obtain rfl := hgranted.unique (Or.inl ⟨s, rfl, rfl⟩)
    exact ⟨hw, by simpa using hmem⟩

theorem scopeArrayContains_iff {items : List Json} {required : Bytes} {maximum : Nat} :
    scopeArrayContains items required maximum = some true ↔
      ScopeGranted (some (.arr items)) maximum required := by
  rw [scopeArrayContains_eq_some]
  constructor
  · rintro ⟨texts, hitems, hw, hmem⟩
    exact ⟨texts, Or.inr ⟨items, rfl, hitems⟩, hw, by simpa using hmem.symm⟩
  · rintro ⟨granted, ⟨_, hs, _⟩ | ⟨items', hs, hitems⟩, hw, hmem⟩
    · simp at hs
    · obtain rfl : items = items' := by simpa using hs
      exact ⟨granted, hitems, hw, by simpa using hmem⟩

theorem requireScopes_iff {value : Option Json} {contains : Bytes → Option Bool} {maximum : Nat}
    {required : List Bytes} {u : Unit} (hne : required ≠ [])
    (hcontains : ∀ scope, contains scope = some true ↔ ScopeGranted value maximum scope) :
    requireScopes contains maximum 0 required = .ok u ↔
      ∃ granted, ScopeTexts value granted ∧ WellFormedTexts ScopeToken maximum granted ∧
        required.length ≤ maximum ∧ ∀ scope ∈ required, ScopeToken scope ∧ scope ∈ granted := by
  rw [requireScopes_eq_ok (Nat.zero_le _), Nat.zero_add]
  simp only [hcontains]
  constructor
  · rintro ⟨hlen, hall⟩
    obtain ⟨first, hfirst⟩ := List.exists_mem_of_ne_nil _ hne
    obtain ⟨granted, htexts, hw, _⟩ := (hall first hfirst).2
    refine ⟨granted, htexts, hw, hlen, fun scope hs => ⟨(hall scope hs).1, ?_⟩⟩
    obtain ⟨granted', htexts', _, hmem⟩ := (hall scope hs).2
    exact htexts'.unique htexts ▸ hmem
  · rintro ⟨granted, htexts, hw, hlen, hall⟩
    exact ⟨hlen, fun scope hs => ⟨(hall scope hs).1, granted, htexts, hw, (hall scope hs).2⟩⟩

theorem validateScopes_eq_ok {payload : Json} {policy : ClaimsPolicy} {requiredScopes : CString}
    {u : Unit} : validateScopes payload policy requiredScopes = .ok u ↔
      ∃ granted, ScopeTexts (payload.get? (.lit "scope")) granted ∧
        WellFormedTexts ScopeToken policy.maxScopes granted ∧
        (requiredScopes.bytes.splitOn space).length ≤ policy.maxScopes ∧
        ∀ scope ∈ requiredScopes.bytes.splitOn space, ScopeToken scope ∧ scope ∈ granted := by
  have hne := List.splitOn_ne_nil space requiredScopes.bytes
  simp only [validateScopes]
  split
  · next s heq => exact heq ▸ requireScopes_iff hne fun scope => scopeStringContains_iff
  · next items heq => exact heq ▸ requireScopes_iff hne fun scope => scopeArrayContains_iff
  · next hstr harr =>
    constructor
    · simp
    · rintro ⟨granted, ⟨s, hs, _⟩ | ⟨items, hs, _⟩, _⟩
      · exact absurd hs (hstr s)
      · exact absurd hs (harr items)

/-! Roles and dates. -/

/-- A role name within its bound and without ASCII controls. -/
structure RoleText (maximum : Nat) (text : Bytes) : Prop where
  nonempty : text ≠ []
  length_le : text.length ≤ maximum
  no_control : ∀ b ∈ text, iscntrl b = false

theorem validRoleText_iff {maximum : Nat} (text : Bytes) :
    validRoleText maximum text = true ↔ RoleText maximum text := by
  simp only [validRoleText, Bool.and_eq_true, Bool.not_eq_true', List.isEmpty_eq_false_iff,
    decide_eq_true_eq, List.any_eq_false]
  constructor
  · rintro ⟨⟨hne, hlength⟩, hcontrol⟩
    exact ⟨hne, hlength, fun b hb => by simpa using hcontrol b hb⟩
  · rintro ⟨hne, hlength, hcontrol⟩
    exact ⟨⟨hne, hlength⟩, fun b hb => by simpa using hcontrol b hb⟩

theorem validateRequestedRole_eq_ok {payload : Json} {policy : ClaimsPolicy} {roleClaim : CString}
    {u : Unit} (hne : roleClaim.isEmpty = false) (hmax : 0 < policy.maxRoles) :
    validateRequestedRole payload policy roleClaim = .ok u ↔
      ∃ requested, policy.requestedRole = some requested ∧ requested.isEmpty = false ∧
        requested.length ≤ policy.maxRoleSize ∧
        ∃ texts, ClaimTexts (payload.get? roleClaim) texts ∧
          WellFormedTexts (RoleText policy.maxRoleSize) policy.maxRoles texts ∧ requested.bytes ∈ texts := by
  simp only [validateRequestedRole, hne, Bool.false_eq_true, if_false, except_bind_eq_ok, given_eq_ok,
    require_eq_ok, Bool.and_eq_true, Bool.not_eq_true', decide_eq_true_eq, exists_const, and_assoc]
  refine exists_congr fun requested => and_congr_right fun _ => and_congr_right fun _ =>
    and_congr_right fun _ => ?_
  rw [exists_claimTexts hmax]
  split
  · next s heq =>
    simp only [except_bind_eq_ok, require_eq_ok, validRoleText_iff, exists_const, beq_iff_eq]
    constructor
    · rintro ⟨hvalid, rfl⟩
      exact Or.inl ⟨s, heq, hvalid, List.mem_singleton_self _⟩
    · rintro (⟨s', hs, hvalid, hmem⟩ | ⟨items, texts, hs, _⟩)
      · obtain rfl : s = s' := by simpa using heq.symm.trans hs
        exact ⟨hvalid, (CString.ext_bytes (List.mem_singleton.mp hmem)).symm⟩
      · simp [heq] at hs
  · next items heq =>
    simp only [except_bind_eq_ok, given_eq_ok, require_eq_ok, List.contains_iff_mem,
      arrayEntries_eq_some validRoleText_iff]
    constructor
    · rintro ⟨texts, ⟨hitems, hw⟩, hmem⟩
      exact Or.inr ⟨items, texts, heq, hitems, hw, hmem⟩
    · rintro (⟨s, hs, _⟩ | ⟨items', texts, hs, hitems, hw, hmem⟩)
      · simp [heq] at hs
      · obtain rfl : items = items' := by simpa using heq.symm.trans hs
        exact ⟨texts, ⟨hitems, hw⟩, hmem⟩
  · next hstr harr =>
    constructor
    · simp
    · rintro (⟨s, hs, _⟩ | ⟨items, texts, hs, _⟩)
      · exact absurd hs (hstr s)
      · exact absurd hs (harr items)

theorem checkNotAfter_eq_ok {value : Option Json} {policy : ClaimsPolicy} {invalid late : ClaimsError}
    {u : Unit} : checkNotAfter value policy invalid late = .ok u ↔
      AbsentOrAtMost value (policy.currentTime + policy.clockSkewSeconds) := by
  unfold checkNotAfter
  split
  · exact ⟨fun _ => Or.inl rfl, fun _ => rfl⟩
  · next value =>
    simp only [except_bind_eq_ok, given_eq_ok, require_eq_ok, decide_eq_true_eq, Bool.not_eq_true',
      Bool.and_eq_false_iff, decide_eq_false_iff_not, exists_const]
    constructor
    · rintro ⟨date, hdate, hnonneg, hlimit⟩
      exact Or.inr ⟨date, Json.int?_eq_some hdate, hnonneg, by omega⟩
    · rintro (hnone | ⟨date, hdate, hnonneg, hlimit⟩)
      · simp at hnone
      · exact ⟨date, by rw [hdate]; rfl, hnonneg, by omega⟩

/-! The whole stage. -/

/-- The conditions of an accepted payload, and what is returned for it. `Configured`
says which audiences the policy names. -/
structure ClaimsAccepted (Configured : Bytes → Prop) (payload : Json) (policy : ClaimsPolicy)
    (claims : ValidatedClaims) : Prop where
  issuer : ∃ issuer, policy.issuer = some issuer ∧ payload.get? (.lit "iss") = some (.str issuer)
  audience : ∃ texts, ClaimTexts (payload.get? (.lit "aud")) texts ∧
    WellFormedTexts (· ≠ []) policy.maxAudiences texts ∧ ∃ text ∈ texts, Configured text
  expiry : payload.get? (.lit "exp") = some (.int claims.expiresAt)
  positive : 0 < claims.expiresAt
  unexpired : policy.currentTime < claims.expiresAt + policy.clockSkewSeconds
  notBefore : AbsentOrAtMost (payload.get? (.lit "nbf")) (policy.currentTime + policy.clockSkewSeconds)
  issuedAt : AbsentOrAtMost (payload.get? (.lit "iat")) (policy.currentTime + policy.clockSkewSeconds)
  subject : ∃ subject, payload.get? (.lit "sub") = some (.str subject) ∧
    PrintableText policy.maxSubjectSize subject.bytes
  identity : ∃ name, policy.identityClaim = some name ∧ payload.get? name = some (.str claims.identity)
  printable : PrintableText policy.maxIdentitySize claims.identity.bytes
  scopes : ∃ required granted, policy.requiredScopes = some required ∧
    ScopeTexts (payload.get? (.lit "scope")) granted ∧
    WellFormedTexts ScopeToken policy.maxScopes granted ∧
    (required.bytes.splitOn space).length ≤ policy.maxScopes ∧
    ∀ scope ∈ required.bytes.splitOn space, ScopeToken scope ∧ scope ∈ granted
  role : ∃ name, policy.roleClaim = some name ∧ (name.isEmpty = false →
    ∃ requested, policy.requestedRole = some requested ∧ requested.isEmpty = false ∧
      requested.length ≤ policy.maxRoleSize ∧
      ∃ texts, ClaimTexts (payload.get? name) texts ∧
        WellFormedTexts (RoleText policy.maxRoleSize) policy.maxRoles texts ∧ requested.bytes ∈ texts)

theorem validPolicy_bounds {policy : ClaimsPolicy} (h : validPolicy policy = true) :
    policy.maxSubjectSize ≤ 1024 ∧ 0 < policy.maxAudiences ∧
      ∀ name, policy.roleClaim = some name → name.isEmpty = false → 0 < policy.maxRoles := by
  simp only [validPolicy, Bool.and_eq_true, decide_eq_true_eq, Bool.or_eq_true,
    Option.isNone_iff_eq_none] at h
  refine ⟨h.1.1.1.1.1.2, h.1.1.1.1.2, fun name hname hne => ?_⟩
  rcases h.2 with hnone | hrole
  · simp [nonempty?, hname, hne] at hnone
  · exact hrole.1.1.2

theorem claimsValidate_eq_ok {payload : Json} {policy : ClaimsPolicy} {claims : ValidatedClaims}
    {audiences : CString} (hobject : payload.isObject = true) (hpolicy : validPolicy policy = true)
    (haudiences : policy.audiences = some audiences) :
    claimsValidate payload policy = .ok claims ↔ ClaimsAccepted
      (fun text => configuredAudienceMatches audiences text policy.maxAudiences = true)
      payload policy claims := by
  obtain ⟨_, hmax, hroles⟩ := validPolicy_bounds hpolicy
  simp only [claimsValidate, except_bind_eq_ok, given_eq_ok, require_eq_ok, except_pure_eq_ok,
    decide_eq_true_eq, Bool.not_eq_true', Bool.and_eq_false_iff, decide_eq_false_iff_not, haudiences,
    hobject, hpolicy, Bool.and_self, Option.some.injEq, exists_eq_left', exists_const, true_and,
    jsonStringEquals_eq_true, audienceMatches_iff hmax, checkNotAfter_eq_ok, validIdentityString_eq_some,
    validateScopes_eq_ok]
  constructor
  · rintro ⟨issuer, hissuer, required, hrequired, name, hname, roleName, hroleName, hiss, haud, value, hvalue,
      expiry, hexpiry, hpositive, hfresh, hnbf, hiat, subject, hsub, identity, ⟨hid, hprintable⟩,
      ⟨granted, hgranted⟩, _, hrole, rfl⟩
    exact {
      issuer := ⟨issuer, hissuer, hiss⟩
      audience := haud
      expiry := hvalue.trans (Json.int?_eq_some hexpiry)
      positive := hpositive
      unexpired := by
        show policy.currentTime < expiry + policy.clockSkewSeconds
        omega
      notBefore := hnbf
      issuedAt := hiat
      subject := ⟨subject, hsub⟩
      identity := ⟨name, hname, hid⟩
      printable := hprintable
      scopes := ⟨required, granted, hrequired, hgranted⟩
      role := ⟨roleName, hroleName, fun hne =>
        (validateRequestedRole_eq_ok hne (hroles roleName hroleName hne)).mp hrole⟩ }
  · intro h
    obtain ⟨issuer, hissuer, hiss⟩ := h.issuer
    obtain ⟨subject, hsub⟩ := h.subject
    obtain ⟨name, hname, hid⟩ := h.identity
    obtain ⟨required, granted, hrequired, hgranted⟩ := h.scopes
    obtain ⟨roleName, hroleName, hrole⟩ := h.role
    refine ⟨issuer, hissuer, required, hrequired, name, hname, roleName, hroleName, hiss, h.audience, _,
      h.expiry, claims.expiresAt, rfl, h.positive, ?_, h.notBefore, h.issuedAt, subject, hsub, claims.identity,
      ⟨hid, h.printable⟩, ⟨granted, hgranted⟩, (), ?_, rfl⟩
    · have hunexpired := h.unexpired
      omega
    · cases hne : roleName.isEmpty with
      | true => simp [validateRequestedRole, hne]
      | false => exact (validateRequestedRole_eq_ok hne (hroles roleName hroleName hne)).mpr (hrole hne)

/-! Configured audiences. -/

/-- One turn of the loop over the configured audiences. -/
def visitAudience (audience : Bytes) (maximum count : Nat) (entry : Bytes) : Except Bool Nat :=
  let text := trimBy isspace entry
  if text.isEmpty || maximum < count + 1 then .error false
  else if text == audience then .error true
  else .ok (count + 1)

theorem configuredAudienceMatches_eq (configured : CString) (audience : Bytes) (maximum : Nat) :
    configuredAudienceMatches configured audience maximum =
      match eachEntry (visitAudience audience maximum) none 0 (configured.bytes.splitOn comma) with
      | .error found => found
      | .ok _ => false := rfl

theorem configuredAudienceMatches_listed {configured : CString} {audience : Bytes} {maximum : Nat}
    (h : configuredAudienceMatches configured audience maximum = true) :
    audience ∈ listEntries configured.bytes := by
  rw [configuredAudienceMatches_eq] at h
  split at h
  · next found hscan =>
    subst h
    rcases eachEntry_error hscan with htrailing | ⟨count, entry, hentry, hvisit⟩
    · simp at htrailing
    · simp only [visitAudience] at hvisit
      split at hvisit
      · simp at hvisit
      · split at hvisit
        · next heq => exact eq_of_beq heq ▸ List.mem_map_of_mem hentry
        · simp at hvisit
  · simp at h

/-- A list of entries none of which is blank. -/
def NoBlank (entries : List Bytes) : Prop :=
  ∀ entry ∈ entries, trimBy isspace entry ≠ []

theorem isEmpty_of_not_blank {entry : Bytes} (h : trimBy isspace entry ≠ []) : entry.isEmpty = false := by
  cases entry with
  | nil => exact absurd rfl h
  | cons _ _ => rfl

/-- The loop over a list that is well formed finds every entry. -/
theorem eachEntry_visitAudience {audience : Bytes} {maximum count : Nat} {entries : List Bytes}
    (hblank : NoBlank entries) (hcount : count + entries.length ≤ maximum)
    (hmem : audience ∈ entries.map (trimBy isspace)) :
    eachEntry (visitAudience audience maximum) none count entries = .error true := by
  induction entries generalizing count with
  | nil => simp at hmem
  | cons entry rest ih =>
    have hentry := hblank entry List.mem_cons_self
    rw [List.length_cons] at hcount
    rw [List.map_cons, List.mem_cons] at hmem
    have hroom : ¬ maximum < count + 1 := by omega
    have hvisit : visitAudience audience maximum count entry =
        if trimBy isspace entry = audience then .error true else .ok (count + 1) := by
      simp [visitAudience, hentry, hroom]
    rw [eachEntry, if_neg (by simp [isEmpty_of_not_blank hentry]), hvisit]
    by_cases htext : trimBy isspace entry = audience
    · simp [htext]
    · rw [if_neg htext]
      exact ih (fun e he => hblank e (List.mem_cons_of_mem _ he)) (by omega)
        (hmem.resolve_left fun he => htext he.symm)

theorem configuredAudienceMatches_iff {configured : CString} {audience : Bytes} {maximum : Nat}
    (hblank : NoBlank (configured.bytes.splitOn comma))
    (hcount : (listEntries configured.bytes).length ≤ maximum) :
    configuredAudienceMatches configured audience maximum = true ↔
      audience ∈ listEntries configured.bytes := by
  refine ⟨configuredAudienceMatches_listed, fun hmem => ?_⟩
  have hlength : 0 + (configured.bytes.splitOn comma).length ≤ maximum := by
    simpa [listEntries] using hcount
  rw [configuredAudienceMatches_eq, eachEntry_visitAudience hblank hlength hmem]

/-- What is known of the pieces of a list that the counting check has passed. -/
structure EntriesCounted (maximum : Nat) (valid : Bytes → Bool) (count count' : Nat) (entries : List Bytes) :
    Prop where
  noBlank : NoBlank entries
  valid : ∀ entry ∈ entries, valid (trimBy isspace entry) = true
  count_eq : count' = count + entries.length
  count_le : entries ≠ [] → count' ≤ maximum

theorem eachEntry_countEntries {maximum count count' : Nat} {valid : Bytes → Bool} {entries : List Bytes}
    (h : eachEntry (countEntries maximum valid) (some ()) count entries = .ok count') :
    (entries = [[]] ∧ count' = count) ∨ EntriesCounted maximum valid count count' entries := by
  induction entries generalizing count with
  | nil =>
    obtain rfl := Except.ok.inj h
    exact Or.inr ⟨by simp [NoBlank], by simp, rfl, by simp⟩
  | cons entry rest ih =>
    rw [eachEntry] at h
    split at h
    · next hempty =>
      simp only [Bool.and_eq_true, List.isEmpty_iff] at hempty
      exact Or.inl ⟨by rw [hempty.1, hempty.2], (Except.ok.inj h).symm⟩
    · split at h
      · simp at h
      · next count₁ hvisit =>
        simp only [countEntries, Bool.or_eq_true, List.isEmpty_iff, decide_eq_true_eq, Bool.not_eq_eq_eq_not,
          Bool.not_true] at hvisit
        split_ifs at hvisit with hbad
        simp only [not_or, Nat.not_lt, Bool.not_eq_false] at hbad
        obtain rfl := Except.ok.inj hvisit
        simp only at h
        split at h
        · simp at h
        · next hrest =>
          -- a single empty entry would be what follows a trailing comma
          rcases ih h with ⟨hsingle, _⟩ | hcounted
          · simp [hsingle] at hrest
          · refine Or.inr ⟨List.forall_mem_cons.mpr ⟨hbad.1.1, hcounted.noBlank⟩,
              List.forall_mem_cons.mpr ⟨hbad.2, hcounted.valid⟩, ?_, fun _ => ?_⟩
            · rw [hcounted.count_eq, List.length_cons]
              omega
            · by_cases hlast : rest = []
              · rw [hcounted.count_eq, hlast]
                exact hbad.1.2
              · exact hcounted.count_le hlast

theorem validateAudiences_counted {audiences : CString} (h : validateAudiences audiences = true) :
    ∃ count, EntriesCounted maxAudiences (fun text => !text.any iscntrl) 0 count
      (audiences.bytes.splitOn comma) := by
  unfold validateAudiences at h
  split at h
  · simp at h
  · next count hcount =>
    rcases eachEntry_countEntries hcount with ⟨_, rfl⟩ | hcounted
    · simp at h
    · exact ⟨count, hcounted⟩

theorem ClaimsAccepted.mono {P Q : Bytes → Prop} {payload : Json} {policy : ClaimsPolicy}
    {claims : ValidatedClaims} (h : ClaimsAccepted P payload policy claims) (hpq : ∀ text, P text → Q text) :
    ClaimsAccepted Q payload policy claims := by
  obtain ⟨texts, htexts, hw, text, ht, hp⟩ := h.audience
  exact { h with audience := ⟨texts, htexts, hw, text, ht, hpq text hp⟩ }

/-- The claims stage accepts a payload exactly if it meets the policy, and returns
its identity and its expiry. -/
theorem claims_accepted_iff {payload : Json} {policy : ClaimsPolicy} {audiences : CString}
    (hobject : payload.isObject = true) (hpolicy : validPolicy policy = true)
    (haudiences : policy.audiences = some audiences) (hvalid : validateAudiences audiences = true)
    (hcount : (listEntries audiences.bytes).length ≤ policy.maxAudiences) (claims : ValidatedClaims) :
    claimsValidate payload policy = .ok claims ↔
      ClaimsAccepted (· ∈ listEntries audiences.bytes) payload policy claims := by
  obtain ⟨count, hcounted⟩ := validateAudiences_counted hvalid
  have hmatch (text : Bytes) : configuredAudienceMatches audiences text policy.maxAudiences = true ↔
    text ∈ listEntries audiences.bytes :=
      configuredAudienceMatches_iff hcounted.noBlank hcount
  rw [claimsValidate_eq_ok hobject hpolicy haudiences]
  exact ⟨fun h => h.mono fun text => (hmatch text).mp, fun h => h.mono fun text => (hmatch text).mpr⟩

namespace Sample

def claimsPolicy : ClaimsPolicy where
  issuer := some (.lit "https://i")
  audiences := some (.lit "web, db")
  requiredScopes := some (.lit "read")
  identityClaim := some (.lit "sub")
  roleClaim := some (.lit "roles")
  requestedRole := some (.lit "app")
  currentTime := 1700000119
  clockSkewSeconds := 60
  maxIdentitySize := 63
  maxSubjectSize := 1024
  maxAudiences := 16
  maxScopes := 64
  maxRoles := 64
  maxRoleSize := 63

def claimsPayload : Json :=
  .obj [(.lit "iss", .str (.lit "https://i")), (.lit "aud", .arr [.str (.lit "x"), .str (.lit "db")]),
    (.lit "exp", .int 1700000060), (.lit "sub", .str (.lit "u")), (.lit "scope", .str (.lit "read write")),
    (.lit "roles", .arr [.str (.lit "app")])]

end Sample

theorem claims_accepted_iff_delegated :
    ClaimsAccepted (· ∈ listEntries (CString.lit "web, db").bytes) Sample.claimsPayload Sample.claimsPolicy
      ⟨.lit "u", 1700000060⟩ :=
  (claims_accepted_iff (by decide) (by decide) rfl (by decide) (by decide) ⟨.lit "u", 1700000060⟩).mp
    (by decide)

/-! What an accepted payload grants. -/

theorem StringItems.mem {items : List Json} {texts : List Bytes} {text : Bytes} (h : StringItems items texts)
    (ht : text ∈ texts) : ∃ s : CString, .str s ∈ items ∧ s.bytes = text := by
  obtain ⟨strings, rfl, rfl⟩ := h
  obtain ⟨s, hs, rfl⟩ := List.mem_map.mp ht
  exact ⟨s, List.mem_map_of_mem hs, rfl⟩

theorem ClaimTexts.names {value : Option Json} {texts : List Bytes} {text : Bytes}
    (h : ClaimTexts value texts) (ht : text ∈ texts) : Json.Names value text := by
  rcases h with ⟨s, rfl, rfl⟩ | ⟨items, rfl, hitems⟩
  · exact ⟨s, (List.mem_singleton.mp ht).symm, Or.inl rfl⟩
  · obtain ⟨s, hs, hbytes⟩ := hitems.mem ht
    exact ⟨s, hbytes, Or.inr ⟨items, rfl, hs⟩⟩

theorem ScopeTexts.grants {value : Option Json} {texts : List Bytes} {text : Bytes}
    (h : ScopeTexts value texts) (ht : text ∈ texts) : GrantsScope value text := by
  rcases h with ⟨s, rfl, rfl⟩ | ⟨items, rfl, hitems⟩
  · exact Or.inl ⟨s, rfl, ht⟩
  · obtain ⟨s, hs, hbytes⟩ := hitems.mem ht
    exact Or.inr ⟨items, s, rfl, hs, hbytes⟩

/-- What is accepted meets every condition. -/
theorem claimsValidate_accepted {payload : Json} {policy : ClaimsPolicy} {claims : ValidatedClaims}
    (h : claimsValidate payload policy = .ok claims) :
    validPolicy policy = true ∧ ∃ audiences, policy.audiences = some audiences ∧ ClaimsAccepted
      (fun text => configuredAudienceMatches audiences text policy.maxAudiences = true) payload policy claims := by
  obtain ⟨⟨hobject, hpolicy⟩, audiences, haudiences⟩ : (payload.isObject = true ∧ validPolicy policy = true) ∧
      ∃ audiences, policy.audiences = some audiences := by
    simp only [claimsValidate, except_bind_eq_ok, require_eq_ok, given_eq_ok, Bool.and_eq_true] at h
    obtain ⟨_, hvalid, _, _, audiences, haudiences, _⟩ := h
    exact ⟨hvalid, audiences, haudiences⟩
  exact ⟨hpolicy, audiences, haudiences, (claimsValidate_eq_ok hobject hpolicy haudiences).mp h⟩

theorem claimsValidate_ok {payload : Json} {policy : ClaimsPolicy} {claims : ValidatedClaims}
    {issuer audiences requiredScopes identityClaim roleClaim : CString}
    (h : claimsValidate payload policy = .ok claims) (hissuer : policy.issuer = some issuer)
    (haudiences : policy.audiences = some audiences)
    (hscopes : policy.requiredScopes = some requiredScopes)
    (hidentityClaim : policy.identityClaim = some identityClaim)
    (hroleClaim : policy.roleClaim = some roleClaim) :
    TokenGrants payload issuer audiences requiredScopes identityClaim roleClaim policy.requestedRole
      policy.currentTime policy.clockSkewSeconds claims.identity := by
  obtain ⟨hpolicy, _, hfound, ha⟩ := claimsValidate_accepted h
  obtain rfl := Option.some.inj (haudiences.symm.trans hfound)
  have hsize := (validPolicy_bounds hpolicy).1
  obtain ⟨texts, htexts, _, text, ht, hmatch⟩ := ha.audience
  obtain ⟨subject, hsubject, hprintable⟩ := ha.subject
  refine {
    issuer := ?_
    audience := ⟨text, configuredAudienceMatches_listed hmatch, htexts.names ht⟩
    expiry := ⟨claims.expiresAt, ha.expiry, ha.positive, ha.unexpired⟩
    notBefore := ha.notBefore
    issuedAt := ha.issuedAt
    subject := ⟨subject, hsubject, { hprintable with length_le := hprintable.length_le.trans hsize }⟩
    identity := ?_
    scopes := fun scope hs => ?_
    role := fun hne => ?_ }
  · obtain ⟨_, hi, hiss⟩ := ha.issuer
    rwa [← Option.some.inj (hissuer.symm.trans hi)] at hiss
  · obtain ⟨_, hn, hid⟩ := ha.identity
    rwa [← Option.some.inj (hidentityClaim.symm.trans hn)] at hid
  · obtain ⟨_, granted, hr, hgranted, _, _, hall⟩ := ha.scopes
    obtain rfl := Option.some.inj (hscopes.symm.trans hr)
    exact hgranted.grants (hall scope hs).2
  · obtain ⟨_, hn, hrole⟩ := ha.role
    obtain rfl := Option.some.inj (hroleClaim.symm.trans hn)
    obtain ⟨requested, hrequested, hempty, _, texts, htexts, _, hmem⟩ := hrole hne
    exact ⟨requested, hrequested, hempty, htexts.names hmem⟩

end OAuthValidator
