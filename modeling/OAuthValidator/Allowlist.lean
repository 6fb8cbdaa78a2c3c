import OAuthValidator.Policy

/-! The allowlists of signing algorithms and of token types. A setting is accepted when
its entries are distinct names of a table, and its mask then holds their bits. -/

namespace OAuthValidator

/-! What an exact allowlist is. -/

section Allowlists

variable {μ : Type} {toNat : μ → Nat} {table : List (Bytes × μ)} {names : List Bytes} {mask : μ}

/-- The entries of a list are distinct names of the table, and the mask holds their bits. -/
structure ExactlyNames (table : List (Bytes × μ)) (toNat : μ → Nat) (names : List Bytes) (mask : μ) : Prop where
  nonempty : names ≠ []
  distinct : names.Nodup
  supported : ∀ name ∈ names, ∃ bit, (name, bit) ∈ table
  bits : ∀ i, (toNat mask).testBit i = true ↔
    ∃ name ∈ names, ∃ bit, (name, bit) ∈ table ∧ (toNat bit).testBit i = true

/-- An entry that a list must not hold. -/
inductive Unacceptable (table : List (Bytes × μ)) (names : List Bytes) (name : Bytes) : Prop
  | empty (h : name = [])
  | unknown (h : ∀ bit, (name, bit) ∉ table)
  | repeated (h : 1 < names.count name)
  | cased (known : Bytes) (bit : μ) (hknown : (known, bit) ∈ table) (hne : name ≠ known)
      (h : equalsIgnoreCase name known = true)

/-- A parser of allowlists that is exact on its domain: what it accepts and the mask it
returns follow from the set of names alone. -/
structure ExactAllowlist (table : List (Bytes × μ)) (toNat : μ → Nat) (domain : CString → Prop)
    (parse : CString → Option μ) : Prop where
  accepts : ∀ value mask, domain value →
    (parse value = some mask ↔ ExactlyNames table toNat (listEntries value.bytes) mask)
  independent : ∀ value value', domain value → domain value' →
    (listEntries value.bytes).Perm (listEntries value'.bytes) → parse value = parse value'
  refuses : ∀ value, domain value → ∀ name ∈ listEntries value.bytes,
    Unacceptable table (listEntries value.bytes) name → parse value = none

theorem ExactlyNames.perm (h : ExactlyNames table toNat names mask) {names' : List Bytes}
    (hperm : names.Perm names') : ExactlyNames table toNat names' mask where
  nonempty hnil := h.nonempty (hnil ▸ hperm).eq_nil
  distinct := hperm.nodup_iff.mp h.distinct
  supported name hmem := h.supported name (hperm.mem_iff.mpr hmem)
  bits i := by
    rw [h.bits i]
    simp only [hperm.mem_iff]

variable [AndOp μ] [OfNat μ 0] {named : Bytes → Option μ}

/-- The names a setting may hold, each with its bit. -/
structure NameTable (named : Bytes → Option μ) (table : List (Bytes × μ)) : Prop where
  lookup : ∀ name bit, named name = some bit ↔ (name, bit) ∈ table
  disjoint : ∀ x ∈ table, ∀ y ∈ table, x.2 &&& y.2 = 0 ↔ x.1 ≠ y.1
  nonempty : ∀ x ∈ table, x.1 ≠ []
  caseless : ∀ x ∈ table, ∀ y ∈ table, equalsIgnoreCase x.1 y.1 = true → x.1 = y.1

theorem ExactlyNames.acceptable (h : ExactlyNames table toNat names mask) (htable : NameTable named table)
    {name : Bytes} (hmem : name ∈ names) : ¬ Unacceptable table names name := by
  obtain ⟨bit, hbit⟩ := h.supported name hmem
  intro hbad
  cases hbad with
  | empty hempty => exact htable.nonempty _ hbit hempty
  | unknown hunknown => exact hunknown bit hbit
  | repeated hcount =>
    have hone := List.nodup_iff_count.mp h.distinct name
    omega
  | cased known other hknown hne hcase => exact hne (htable.caseless _ hbit _ hknown hcase)

theorem exactAllowlist_of_accepts {domain : CString → Prop} {parse : CString → Option μ}
    (htable : NameTable named table)
    (haccepts : ∀ value mask, domain value →
      (parse value = some mask ↔ ExactlyNames table toNat (listEntries value.bytes) mask)) :
    ExactAllowlist table toNat domain parse where
  accepts := haccepts
  independent value value' hvalue hvalue' hperm := by
    refine Option.ext fun mask => ?_
    rw [haccepts value mask hvalue, haccepts value' mask hvalue']
    exact ⟨fun h => h.perm hperm, fun h => h.perm hperm.symm⟩
  refuses value hvalue name hmem hbad := by
    refine Option.eq_none_iff_forall_ne_some.mpr fun mask hmask => ?_
    exact ((haccepts value mask hvalue).mp hmask).acceptable htable hmem hbad

end Allowlists

/-! Masks. A machine word is the set of its bits. -/

section Masks

variable {μ : Type} [AndOp μ] [OrOp μ] [OfNat μ 0]

structure Word (toNat : μ → Nat) : Prop where
  injective : ∀ a b, toNat a = toNat b → a = b
  zero : toNat 0 = 0
  and : ∀ a b, toNat (a &&& b) = toNat a &&& toNat b
  or : ∀ a b, toNat (a ||| b) = toNat a ||| toNat b

theorem word_uint8 : Word UInt8.toNat :=
  ⟨fun _ _ => UInt8.toNat_inj.mp, rfl, UInt8.toNat_and, UInt8.toNat_or⟩

theorem word_uint32 : Word UInt32.toNat :=
  ⟨fun _ _ => UInt32.toNat_inj.mp, rfl, UInt32.toNat_and, UInt32.toNat_or⟩

variable {toNat : μ → Nat}

theorem Word.eq_zero_iff (hword : Word toNat) {a : μ} : a = 0 ↔ ∀ i, (toNat a).testBit i = false := by
  constructor
  · rintro rfl i
    rw [hword.zero, Nat.zero_testBit]
  · intro h
    refine hword.injective a 0 (Nat.eq_of_testBit_eq fun i => ?_)
    rw [h i, hword.zero, Nat.zero_testBit]

theorem Word.and_eq_zero_iff (hword : Word toNat) {a b : μ} :
    a &&& b = 0 ↔ ∀ i, (toNat a).testBit i = true → (toNat b).testBit i = false := by
  rw [hword.eq_zero_iff]
  refine forall_congr' fun i => ?_
  rw [hword.and, Nat.testBit_and]
  cases (toNat a).testBit i <;> simp

theorem Word.or_and_eq_zero (hword : Word toNat) {a b c : μ} :
    (a ||| b) &&& c = 0 ↔ a &&& c = 0 ∧ b &&& c = 0 := by
  simp only [hword.eq_zero_iff, hword.and, hword.or, Nat.testBit_and, Nat.testBit_or, ← forall_and]
  refine forall_congr' fun i => ?_
  cases (toNat a).testBit i <;> cases (toNat b).testBit i <;> cases (toNat c).testBit i <;> simp

/-- The loop body, on an entry that is already trimmed. -/
def addName [DecidableEq μ] (named : Bytes → Option μ) (result : μ) (name : Bytes) : Except Unit μ :=
  match named name with
  | none => .error ()
  | some bit => if result &&& bit != 0 then .error () else .ok (result ||| bit)

def maskOf (named : Bytes → Option μ) (result : μ) (names : List Bytes) : μ :=
  names.foldl (fun mask name => mask ||| (named name).getD 0) result

variable {named : Bytes → Option μ} {table : List (Bytes × μ)} {names : List Bytes} {result mask : μ}

theorem testBit_maskOf (hword : Word toNat) {i : Nat} :
    (toNat (maskOf named result names)).testBit i = true ↔ (toNat result).testBit i = true ∨
      ∃ name ∈ names, ∃ bit, named name = some bit ∧ (toNat bit).testBit i = true := by
  induction names generalizing result with
  | nil => simp [maskOf]
  | cons name rest ih =>
    have hstep : maskOf named result (name :: rest) = maskOf named (result ||| (named name).getD 0) rest := rfl
    rw [hstep, ih, hword.or, Nat.testBit_or, Bool.or_eq_true, or_assoc]
    refine or_congr Iff.rfl ?_
    cases hname : named name with
    | none => simp [hword.zero, hname]
    | some bit => simp [hname]

/-- A later name meets the bits of an earlier one only if it is the same name. -/
theorem NameTable.clear_or (htable : NameTable named table) (hword : Word toNat) {name : Bytes} {bit : μ}
    (hname : named name = some bit) :
    (∀ later ∈ names, ∃ b, named later = some b ∧ (result ||| bit) &&& b = 0) ↔
      (∀ later ∈ names, ∃ b, named later = some b ∧ result &&& b = 0) ∧ name ∉ names := by
  have hmeets {later : Bytes} {b : μ} (hlater : named later = some b) : bit &&& b = 0 ↔ name ≠ later :=
    htable.disjoint (name, bit) ((htable.lookup name bit).mp hname) (later, b) ((htable.lookup later b).mp hlater)
  constructor
  · intro h
    refine ⟨fun later hlater => ?_, fun hmem => ?_⟩
    · obtain ⟨b, hb, hclear⟩ := h later hlater
      exact ⟨b, hb, (hword.or_and_eq_zero.mp hclear).1⟩
    · obtain ⟨b, hb, hclear⟩ := h name hmem
      exact (hmeets hb).mp (hword.or_and_eq_zero.mp hclear).2 rfl
  · rintro ⟨h, hnot⟩ later hlater
    obtain ⟨b, hb, hclear⟩ := h later hlater
    have hne : name ≠ later := fun heq => hnot (heq ▸ hlater)
    exact ⟨b, hb, hword.or_and_eq_zero.mpr ⟨hclear, (hmeets hb).mpr hne⟩⟩

theorem maskOf_ne_zero (htable : NameTable named table) (hword : Word toNat) (hne : names ≠ [])
    (hsupported : ∀ name ∈ names, ∃ bit, named name = some bit) : maskOf named 0 names ≠ 0 := by
  obtain ⟨name, rest, rfl⟩ := List.exists_cons_of_ne_nil hne
  obtain ⟨bit, hbit⟩ := hsupported name List.mem_cons_self
  have hmem := (htable.lookup name bit).mp hbit
  have hself : bit &&& bit ≠ 0 := fun h => (htable.disjoint _ hmem _ hmem).mp h rfl
  intro hzero
  refine hself (hword.eq_zero_iff.mpr fun i => ?_)
  have hbits := hword.eq_zero_iff.mp hzero i
  rw [← Bool.not_eq_true, testBit_maskOf hword, not_or] at hbits
  have hclear : (toNat bit).testBit i = false :=
    Bool.eq_false_iff.mpr fun h => hbits.2 ⟨name, List.mem_cons_self, bit, hbit, h⟩
  rw [hword.and, Nat.testBit_and, hclear, Bool.false_and]

/-- The mask has no bit that no name of the table has. -/
theorem ExactlyNames.and_eq_zero (h : ExactlyNames table toNat names mask) (hword : Word toNat) {other : μ}
    (hother : ∀ x ∈ table, x.2 &&& other = 0) : mask &&& other = 0 := by
  refine hword.and_eq_zero_iff.mpr fun i hi => ?_
  obtain ⟨name, _, bit, hbit, hset⟩ := (h.bits i).mp hi
  exact hword.and_eq_zero_iff.mp (hother (name, bit) hbit) i hset

/-- A name whose bit is in the mask is one of the list. -/
theorem ExactlyNames.mem_of_and_ne_zero (h : ExactlyNames table toNat names mask) (hword : Word toNat)
    (htable : NameTable named table) {name : Bytes} {bit : μ} (hname : (name, bit) ∈ table)
    (hmask : mask &&& bit ≠ 0) : name ∈ names := by
  by_contra hnot
  refine hmask (hword.and_eq_zero_iff.mpr fun i hi => ?_)
  obtain ⟨listed, hlisted, other, hother, hset⟩ := (h.bits i).mp hi
  have hne : listed ≠ name := fun heq => hnot (heq ▸ hlisted)
  exact hword.and_eq_zero_iff.mp ((htable.disjoint _ hother _ hname).mpr hne) i hset

variable [DecidableEq μ]

theorem foldlM_addName (htable : NameTable named table) (hword : Word toNat) :
    names.foldlM (addName named) result = .ok mask ↔
      (∀ name ∈ names, ∃ bit, named name = some bit ∧ result &&& bit = 0) ∧ names.Nodup ∧
        mask = maskOf named result names := by
  induction names generalizing result with
  | nil => simp [maskOf, pure, Except.pure, eq_comm]
  | cons name rest ih =>
    rw [List.foldlM_cons, List.forall_mem_cons, List.nodup_cons]
    cases hname : named name with
    | none => simp [addName, hname, bind, Except.bind]
    | some bit =>
      by_cases hclear : result &&& bit = 0
      · have hadd : addName named result name = .ok (result ||| bit) := by simp [addName, hname, hclear]
        have hmask : maskOf named result (name :: rest) = maskOf named (result ||| bit) rest := by
          rw [maskOf, List.foldl_cons, hname]
          rfl
        have hfirst : ∃ b, some bit = some b ∧ result &&& b = 0 := ⟨bit, rfl, hclear⟩
        rw [hadd, hmask, and_iff_right hfirst]
        have hrest : rest.foldlM (addName named) (result ||| bit) = .ok mask ↔ _ := ih
        refine hrest.trans ?_
        rw [htable.clear_or hword hname]
        tauto
      · simp [addName, hname, hclear, bind, Except.bind]

theorem exactlyNames_iff (htable : NameTable named table) (hword : Word toNat) (hne : names ≠ []) :
    ExactlyNames table toNat names mask ↔ names.foldlM (addName named) 0 = .ok mask ∧ mask ≠ 0 := by
  have hzero (bit : μ) : (0 : μ) &&& bit = 0 :=
    hword.eq_zero_iff.mpr fun i => by rw [hword.and, hword.zero, Nat.zero_and, Nat.zero_testBit]
  have hbits {i : Nat} : (toNat (maskOf named 0 names)).testBit i = true ↔
      ∃ name ∈ names, ∃ bit, (name, bit) ∈ table ∧ (toNat bit).testBit i = true := by
    rw [testBit_maskOf hword, hword.zero, Nat.zero_testBit]
    simp only [Bool.false_eq_true, false_or, htable.lookup]
  rw [foldlM_addName htable hword]
  simp only [hzero, and_true]
  constructor
  · intro h
    have hmask : mask = maskOf named 0 names :=
      hword.injective _ _ (Nat.eq_of_testBit_eq fun i => Bool.eq_iff_iff.mpr ((h.bits i).trans hbits.symm))
    have hsupported : ∀ name ∈ names, ∃ bit, named name = some bit := by
      simpa only [htable.lookup] using h.supported
    exact ⟨⟨hsupported, h.distinct, hmask⟩, hmask ▸ maskOf_ne_zero htable hword hne hsupported⟩
  · rintro ⟨⟨hsupported, hdistinct, rfl⟩, _⟩
    exact ⟨hne, hdistinct, by simpa only [htable.lookup] using hsupported, fun i => hbits⟩

theorem parseNames_eq_some (htable : NameTable named table) (hword : Word toNat) {value : Bytes} :
    parseNames named value = some mask ↔ ExactlyNames table toNat (listEntries value) mask := by
  have hblank : named [] = none := by
    cases h : named [] with
    | none => rfl
    | some bit => exact absurd rfl (htable.nonempty _ ((htable.lookup [] bit).mp h))
  have hentries : listEntries value ≠ [] := by simp [listEntries, List.splitOn_ne_nil]
  rw [exactlyNames_iff htable hword hentries]
  by_cases hvalue : value.splitOn comma = [[]]
  · -- the empty setting has one entry, which no name is
    have hnone : listEntries value = [[]] := by rw [listEntries, hvalue]; rfl
    simp [parseNames, scanList, hvalue, eachEntry, hnone, addName, hblank, bind, Except.bind]
  · have hscan : eachEntry (fun result entry => addName named result (trimBy isspace entry)) (some ()) 0
        (value.splitOn comma) = .ok mask ↔ (listEntries value).foldlM (addName named) 0 = .ok mask := by
      rw [listEntries, List.foldlM_map]
      exact eachEntry_eq_foldlM (by simp [addName, trimBy, hblank]) hvalue
    rw [← hscan]
    generalize hparsed : eachEntry (fun result entry => addName named result (trimBy isspace entry)) (some ()) 0
      (value.splitOn comma) = parsed
    simp only [parseNames, scanList]
    split
    · next e h =>
      obtain rfl : parsed = .error e := hparsed.symm.trans h
      simp
    · next result h =>
      obtain rfl : parsed = .ok result := hparsed.symm.trans h
      by_cases hresult : result = 0
      · simp +contextual [hresult, eq_comm]
      · simp only [bne_iff_ne, ne_eq, hresult, not_false_eq_true, if_true, Option.some.injEq, Except.ok.injEq]
        exact ⟨fun h => ⟨h, h ▸ hresult⟩, And.left⟩

end Masks

def supportedAlgorithms : List (Bytes × UInt32) :=
  [(ascii "RS256", algorithmRs256), (ascii "ES256", algorithmEs256), (ascii "EdDSA", algorithmEddsa)]

def supportedTokenTypes : List (Bytes × UInt8) :=
  [(ascii "at+jwt", tokenTypeAtJwt), (ascii "application/at+jwt", tokenTypeApplicationAtJwt)]

theorem nameTable_algorithms : NameTable algorithmBit supportedAlgorithms where
  lookup name bit := by
    constructor
    · intro h
      rcases algorithmBit_cases h with ⟨rfl, rfl⟩ | ⟨rfl, rfl⟩ | ⟨rfl, rfl⟩ <;> simp [supportedAlgorithms]
    · intro h
      have hall : ∀ entry ∈ supportedAlgorithms, algorithmBit entry.1 = some entry.2 := by decide
      exact hall (name, bit) h
  disjoint := by decide
  nonempty := by decide
  caseless := by decide

theorem nameTable_tokenTypes : NameTable tokenTypeBit supportedTokenTypes where
  lookup name bit := by
    constructor
    · intro h
      unfold tokenTypeBit at h
      split at h
      · next hname => simp [supportedTokenTypes, eq_of_beq hname, ← Option.some.inj h]
      · split at h
        · next hname => simp [supportedTokenTypes, eq_of_beq hname, ← Option.some.inj h]
        · simp at h
    · intro h
      have hall : ∀ entry ∈ supportedTokenTypes, tokenTypeBit entry.1 = some entry.2 := by decide
      exact hall (name, bit) h
  disjoint := by decide
  nonempty := by decide
  caseless := by decide

theorem parseNames_nil {μ : Type} [DecidableEq μ] [AndOp μ] [OrOp μ] [OfNat μ 0] (named : Bytes → Option μ) :
    parseNames named [] = none := by
  simp [parseNames, scanList, eachEntry]

theorem parseAlgorithms_eq_some {value : Option CString} {mask : UInt32} :
    parseAlgorithms value = some mask ↔
      ∃ text, value = some text ∧ ExactlyNames supportedAlgorithms UInt32.toNat (listEntries text.bytes) mask := by
  cases value with
  | none => simp [parseAlgorithms, nonempty?]
  | some text =>
    simp only [Option.some.injEq, exists_eq_left', ← parseNames_eq_some nameTable_algorithms word_uint32]
    by_cases hempty : text.bytes = []
    · simp [parseAlgorithms, nonempty?_of_empty hempty, hempty, parseNames_nil]
    · simp [parseAlgorithms, nonempty?_of_ne hempty]

theorem parseTokenTypes_eq_some {value : Option CString} {mask : UInt8} :
    parseTokenTypes value = some mask ↔ ∃ text, value = some text ∧ text.length ≤ 64 ∧
      ExactlyNames supportedTokenTypes UInt8.toNat (listEntries text.bytes) mask := by
  cases value with
  | none => simp [parseTokenTypes, nonempty?]
  | some text =>
    simp only [Option.some.injEq, exists_eq_left', ← parseNames_eq_some nameTable_tokenTypes word_uint8]
    by_cases hempty : text.bytes = []
    · simp [parseTokenTypes, nonempty?_of_empty hempty, hempty, parseNames_nil]
    · by_cases hlong : 64 < text.length
      · simp [parseTokenTypes, nonempty?_of_ne hempty, hlong, Nat.not_le.mpr hlong]
      · simp [parseTokenTypes, nonempty?_of_ne hempty, hlong, Nat.not_lt.mp hlong]

/-- An algorithm in the mask is one that the administrator has written down. -/
theorem parseAlgorithms_listed {value : Option CString} {mask algorithm : UInt32}
    (h : parseAlgorithms value = some mask) (ha : algorithm ∈ algorithmBits)
    (hin : mask &&& algorithm ≠ 0) :
    ∃ text, value = some text ∧ ∃ name ∈ listEntries text.bytes, algorithmBit name = some algorithm := by
  obtain ⟨text, hvalue, hexact⟩ := parseAlgorithms_eq_some.mp h
  have hbits : algorithmBits = supportedAlgorithms.map Prod.snd := rfl
  rw [hbits] at ha
  obtain ⟨⟨name, _⟩, hentry, rfl⟩ := List.mem_map.mp ha
  exact ⟨text, hvalue, name, hexact.mem_of_and_ne_zero word_uint32 nameTable_algorithms hentry hin,
    (nameTable_algorithms.lookup name _).mpr hentry⟩

end OAuthValidator
