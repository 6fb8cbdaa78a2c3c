import OAuthValidator.HttpFreshness

/-! One directive of Cache-Control at a time: which items are accepted, and what each
adds to the values read so far. -/

namespace OAuthValidator

/-! Decimal numbers. -/

def appendDigit (value : Int) (b : UInt8) : Int :=
  value * 10 + (b.toNat - 0x30)

/-- The number that a string of digits denotes. -/
def digitsValue (text : Bytes) : Int :=
  text.foldl appendDigit 0

def isdigit (b : UInt8) : Bool :=
  0x30 ≤ b && b ≤ 0x39

theorem digit_bounds {b : UInt8} (h : isdigit b = true) :
    0 ≤ (b.toNat - 0x30 : Int) ∧ (b.toNat - 0x30 : Int) ≤ 9 := by
  simp only [isdigit, Bool.and_eq_true, decide_eq_true_eq, UInt8.le_iff_toNat_le] at h
  have hlow : 48 ≤ b.toNat := h.1
  have hhigh : b.toNat ≤ 57 := h.2
  omega

theorem decimalDigit_eq_some {parsed value : Int} {b : UInt8} :
    decimalDigit parsed b = some value ↔
      isdigit b = true ∧ appendDigit parsed b = value ∧ value ≤ int64Max := by
  have hdigit : (b < 0x30 || 0x39 < b) = !isdigit b := by
    simp [isdigit, ← UInt8.not_le]
  rw [decimalDigit, hdigit]
  cases isdigit b with
  | false => simp
  | true =>
    simp only [Bool.not_true, Bool.false_eq_true, if_false, true_and, appendDigit]
    split
    · next hlarge =>
      refine iff_of_false (by simp) ?_
      rintro ⟨rfl, hle⟩
      omega
    · next hsmall =>
      rw [Option.some.injEq]
      refine (and_iff_left_of_imp ?_).symm
      rintro rfl
      omega

theorem le_foldl_appendDigit {text : Bytes} {parsed : Int} (hdigits : ∀ b ∈ text, isdigit b = true)
    (hnonneg : 0 ≤ parsed) : parsed ≤ text.foldl appendDigit parsed := by
  induction text generalizing parsed with
  | nil => exact Int.le_refl _
  | cons b rest ih =>
    obtain ⟨hb, hrest⟩ := List.forall_mem_cons.mp hdigits
    have hgrows : parsed ≤ appendDigit parsed b := by
      have hdigit := digit_bounds hb
      rw [appendDigit]
      omega
    exact Int.le_trans hgrows (ih hrest (Int.le_trans hnonneg hgrows))

theorem foldlM_decimalDigit {text : Bytes} {parsed value : Int} (hnonneg : 0 ≤ parsed)
    (hparsed : parsed ≤ int64Max) :
    text.foldlM decimalDigit parsed = some value ↔
      (∀ b ∈ text, isdigit b = true) ∧ text.foldl appendDigit parsed = value ∧ value ≤ int64Max := by
  induction text generalizing parsed with
  | nil =>
    simp only [List.foldlM_nil, List.foldl_nil, List.not_mem_nil, false_implies, implies_true, true_and]
    exact ⟨fun h => Option.some.inj h ▸ ⟨rfl, hparsed⟩, fun h => congrArg some h.1⟩
  | cons b rest ih =>
    rw [List.foldlM_cons, List.foldl_cons, List.forall_mem_cons]
    simp only [Option.bind_eq_bind, Option.bind_eq_some_iff, decimalDigit_eq_some]
    have hnext (hb : isdigit b = true) : 0 ≤ appendDigit parsed b := by
      have hdigit := digit_bounds hb
      rw [appendDigit]
      omega
    constructor
    · rintro ⟨next, ⟨hb, rfl, hle⟩, hrest⟩
      obtain ⟨hdigits, hvalue⟩ := (ih (hnext hb) hle).mp hrest
      exact ⟨⟨hb, hdigits⟩, hvalue⟩
    · rintro ⟨⟨hb, hdigits⟩, hvalue, hle⟩
      -- the value only grows, so its bound at the end is one on the way
      have hbound : appendDigit parsed b ≤ int64Max :=
        Int.le_trans (le_foldl_appendDigit hdigits (hnext hb)) (hvalue ▸ hle)
      exact ⟨_, ⟨hb, rfl, hbound⟩, (ih (hnext hb) hbound).mpr ⟨hdigits, hvalue, hle⟩⟩

theorem decimal_eq_some {text : Bytes} {value : Int} :
    decimal text = some value ↔
      text ≠ [] ∧ (∀ b ∈ text, isdigit b = true) ∧ digitsValue text = value ∧ value ≤ int64Max := by
  unfold decimal
  split
  · next h =>
    obtain rfl := List.isEmpty_iff.mp h
    simp
  · next h =>
    have hne : text ≠ [] := by simpa using h
    rw [foldlM_decimalDigit (Int.le_refl 0) (by decide), and_iff_right hne]
    rfl

/-! Directives. -/

def directiveName (entry : Bytes) : Bytes :=
  ((trimBy isblank entry).takeWhile (· != 0x3d)).rdropWhile isblank

def directiveArgument (entry : Bytes) : Bytes :=
  unquote (trimBy isblank (((trimBy isblank entry).dropWhile (· != 0x3d)).drop 1))

def isDirective (name : String) (entry : Bytes) : Bool :=
  equalsIgnoreCase (directiveName entry) (ascii name)

/-- The number of seconds in a max-age directive. -/
def maxAgeOf (entry : Bytes) : Option Int :=
  if isDirective "max-age" entry then some (digitsValue (directiveArgument entry)) else none

def directiveNames : List String :=
  ["no-store", "no-cache", "must-revalidate", "max-age"]

/-- An entry is one directive only: the names differ, also without regard to case. -/
theorem isDirective_eq {name : String} {entry : Bytes} (h : isDirective name entry = true)
    (hname : name ∈ directiveNames) :
    ∀ other ∈ directiveNames, isDirective other entry = (name == other) := by
  have hall : ∀ name ∈ directiveNames, ∀ other ∈ directiveNames,
      equalsIgnoreCase (ascii name) (ascii other) = (name == other) := by
    decide
  intro other hother
  rw [← hall name hname other hother]
  simp only [isDirective, equalsIgnoreCase, beq_iff_eq] at h ⊢
  rw [h]

/-! Items. -/

/-- The text after the sign of an item, without the blanks around it. -/
def itemArgument (item : Bytes) : Bytes :=
  trimBy isblank (((trimBy isblank item).dropWhile (· != 0x3d)).drop 1)

/-- A number of seconds, which may stand in quotes. -/
def DecimalArgument (argument : Bytes) (seconds : Int) : Prop :=
  ∃ digits, (argument = digits ∨ argument = 0x22 :: (digits ++ [0x22])) ∧ digits ≠ [] ∧
    (∀ b ∈ digits, isdigit b = true) ∧ digitsValue digits = seconds ∧ seconds ≤ int64Max

theorem unquote_quoted (digits : Bytes) : unquote (0x22 :: (digits ++ [0x22])) = digits := by
  have hlast : (0x22 :: (digits ++ [0x22])).getLast? = some 0x22 := by rw [← List.cons_append, List.getLast?_concat]
  rw [unquote, hlast, if_pos (by simp)]
  simp

theorem unquote_cases (argument : Bytes) :
    unquote argument = argument ∨ argument = 0x22 :: (unquote argument ++ [0x22]) := by
  by_cases hquoted : (2 ≤ argument.length && argument.head? == some 0x22 && argument.getLast? == some 0x22) = true
  · simp only [Bool.and_eq_true, decide_eq_true_eq, beq_iff_eq] at hquoted
    obtain ⟨⟨hlength, hhead⟩, hlast⟩ := hquoted
    obtain ⟨rest, rfl⟩ := List.head?_eq_some_iff.mp hhead
    have hrest : rest ≠ [] := fun hnil => by simp [hnil] at hlength
    obtain ⟨middle, b, rfl⟩ := (List.eq_nil_or_concat' rest).resolve_left hrest
    rw [← List.cons_append, List.getLast?_concat] at hlast
    obtain rfl := Option.some.inj hlast
    rw [unquote_quoted]
    exact Or.inr rfl
  · exact Or.inl (by rw [unquote, if_neg hquoted])

theorem decimal_unquote {argument : Bytes} {seconds : Int} :
    decimal (unquote argument) = some seconds ↔ DecimalArgument argument seconds := by
  rw [decimal_eq_some]
  constructor
  · rintro ⟨hne, hdigits, hvalue⟩
    refine ⟨unquote argument, ?_, hne, hdigits, hvalue⟩
    exact (unquote_cases argument).imp_left Eq.symm
  · rintro ⟨digits, hform, hne, hdigits, hvalue⟩
    have hunquoted : unquote argument = digits := by
      rcases hform with rfl | rfl
      · rcases unquote_cases argument with h | h
        · exact h
        · -- a digit is no quote
          have hquote := hdigits 0x22 (by rw [h]; exact List.mem_cons_self)
          exact absurd hquote (by decide)
      · exact unquote_quoted digits
    rw [hunquoted]
    exact ⟨hne, hdigits, hvalue⟩

theorem DecimalArgument.value_eq {item : Bytes} {seconds : Int} (h : DecimalArgument (itemArgument item) seconds) :
    digitsValue (directiveArgument item) = seconds :=
  (decimal_eq_some.mp (decimal_unquote.mpr h)).2.2.1

/-- An item of the list, with the blanks around it. -/
structure WellFormedItem (item : Bytes) : Prop where
  nonempty : trimBy isblank item ≠ []
  printable : ∀ b ∈ trimBy isblank item, 0x20 ≤ b ∧ b ≤ 0x7e
  named : directiveName item ≠ []
  bare : isDirective "no-store" item = true ∨ isDirective "must-revalidate" item = true →
    0x3d ∉ trimBy isblank item
  seconds : isDirective "max-age" item = true →
    0x3d ∈ trimBy isblank item ∧ ∃ seconds, DecimalArgument (itemArgument item) seconds

/-- What a list of items adds to the values before it. -/
def addItems (parsed : CacheControlValues) (items : List Bytes) : CacheControlValues where
  maxAgeSeconds := (items.findSome? maxAgeOf).getD parsed.maxAgeSeconds
  hasMaxAge := parsed.hasMaxAge || items.any (isDirective "max-age")
  noStore := parsed.noStore || items.any (isDirective "no-store")
  noCache := parsed.noCache || items.any (isDirective "no-cache")
  mustRevalidate := parsed.mustRevalidate || items.any (isDirective "must-revalidate")

theorem printable_iff {text : Bytes} :
    (text.any fun b => b < 0x20 || 0x7f ≤ b) = false ↔ ∀ b ∈ text, 0x20 ≤ b ∧ b ≤ 0x7e := by
  simp only [List.any_eq_false, Bool.or_eq_true, decide_eq_true_eq, not_or, UInt8.not_lt, UInt8.not_le]
  refine forall₂_congr fun b _ => and_congr Iff.rfl ?_
  rw [UInt8.lt_iff_toNat_lt, UInt8.le_iff_toNat_le]
  exact Nat.lt_succ_iff

theorem addItems_singleton (parsed : CacheControlValues) (item : Bytes) :
    addItems parsed [item] =
      ⟨(maxAgeOf item).getD parsed.maxAgeSeconds, parsed.hasMaxAge || isDirective "max-age" item,
        parsed.noStore || isDirective "no-store" item, parsed.noCache || isDirective "no-cache" item,
        parsed.mustRevalidate || isDirective "must-revalidate" item⟩ := by
  simp only [addItems, List.any_cons, List.any_nil, Bool.or_false]
  cases h : maxAgeOf item <;> simp [h]

/-- The branches over the name, once an item has one. -/
theorem cacheControlDirective_named {parsed : CacheControlValues} {item : Bytes} (hempty : trimBy isblank item ≠ [])
    (hbytes : ((trimBy isblank item).any fun b => b < 0x20 || 0x7f ≤ b) = false) (hname : directiveName item ≠ []) :
    cacheControlDirective parsed item =
      if isDirective "no-store" item then
        if (trimBy isblank item).contains 0x3d then .error () else .ok { parsed with noStore := true }
      else if isDirective "no-cache" item then .ok { parsed with noCache := true }
      else if isDirective "must-revalidate" item then
        if (trimBy isblank item).contains 0x3d then .error () else .ok { parsed with mustRevalidate := true }
      else if isDirective "max-age" item then
        if parsed.hasMaxAge || !(trimBy isblank item).contains 0x3d then .error ()
        else
          match decimal (unquote (itemArgument item)) with
          | none => .error ()
          | some seconds => .ok { parsed with maxAgeSeconds := seconds, hasMaxAge := true }
      else .ok parsed := by
  rw [cacheControlDirective]
  simp only [hbytes]
  rw [if_neg (by simpa using hempty), if_neg (by simp), if_neg (by simpa [directiveName] using hname)]
  rfl

/-- A directive that takes no argument, and the flag that it sets. -/
theorem bareDirective_eq_ok {control flagged : CacheControlValues} {item : Bytes} :
    (if (trimBy isblank item).contains 0x3d then Except.error () else .ok flagged) = .ok control ↔
      0x3d ∉ trimBy isblank item ∧ control = flagged := by
  by_cases hequals : 0x3d ∈ trimBy isblank item
  · simp [hequals]
  · simp [hequals, eq_comm]

theorem maxAgeDirective_eq_ok {parsed control : CacheControlValues} {item : Bytes} :
    (if parsed.hasMaxAge || !(trimBy isblank item).contains 0x3d then Except.error ()
      else
        match decimal (unquote (itemArgument item)) with
        | none => .error ()
        | some seconds => .ok { parsed with maxAgeSeconds := seconds, hasMaxAge := true }) = .ok control ↔
      (0x3d ∈ trimBy isblank item ∧ ∃ seconds, DecimalArgument (itemArgument item) seconds) ∧
        parsed.hasMaxAge = false ∧
        control = { parsed with maxAgeSeconds := digitsValue (directiveArgument item), hasMaxAge := true } := by
  simp only [← decimal_unquote]
  by_cases hequals : 0x3d ∈ trimBy isblank item
  · cases hfirst : parsed.hasMaxAge with
    | true => simp
    | false =>
      cases hdecimal : decimal (unquote (itemArgument item)) with
      | none => simp [hequals]
      | some seconds =>
        have hvalue : digitsValue (directiveArgument item) = seconds := (decimal_eq_some.mp hdecimal).2.2.1
        simp [hequals, hvalue, eq_comm (b := control)]
  · simp [hequals]

theorem cacheControlDirective_eq_ok {parsed control : CacheControlValues} {item : Bytes} :
    cacheControlDirective parsed item = .ok control ↔
      WellFormedItem item ∧ (isDirective "max-age" item = true → parsed.hasMaxAge = false) ∧
        control = addItems parsed [item] := by
  by_cases hempty : trimBy isblank item = []
  · exact iff_of_false (by simp [cacheControlDirective, hempty]) fun h => h.1.nonempty hempty
  cases hbytes : (trimBy isblank item).any fun b => b < 0x20 || 0x7f ≤ b with
  | true =>
    refine iff_of_false (by simp [cacheControlDirective, hempty, hbytes]) fun h => ?_
    rw [printable_iff.mpr h.1.printable] at hbytes
    simp at hbytes
  | false =>
  have hprintable := printable_iff.mp hbytes
  by_cases hname : directiveName item = []
  · refine iff_of_false ?_ fun h => h.1.named hname
    rw [directiveName] at hname
    simp [cacheControlDirective, hempty, hbytes, hname]
  have hwell : WellFormedItem item ↔
      (isDirective "no-store" item = true ∨ isDirective "must-revalidate" item = true →
        0x3d ∉ trimBy isblank item) ∧
      (isDirective "max-age" item = true →
        0x3d ∈ trimBy isblank item ∧ ∃ seconds, DecimalArgument (itemArgument item) seconds) :=
    ⟨fun h => ⟨h.bare, h.seconds⟩, fun h => ⟨hempty, hprintable, hname, h.1, h.2⟩⟩
  rw [cacheControlDirective_named hempty hbytes hname, hwell, addItems_singleton, maxAgeOf]
  by_cases hstore : isDirective "no-store" item = true
  · have hothers := isDirective_eq hstore (by decide)
    simp only [directiveNames, List.forall_mem_cons] at hothers
    obtain ⟨_, hcache, hrevalidate, hage, _⟩ := hothers
    rw [if_pos hstore, bareDirective_eq_ok]
    simp [hstore, hcache, hrevalidate, hage]
  rw [if_neg hstore]
  by_cases hcache : isDirective "no-cache" item = true
  · have hothers := isDirective_eq hcache (by decide)
    simp only [directiveNames, List.forall_mem_cons] at hothers
    obtain ⟨_, _, hrevalidate, hage, _⟩ := hothers
    rw [if_pos hcache, Except.ok.injEq, eq_comm (b := control)]
    simp [hstore, hcache, hrevalidate, hage]
  rw [if_neg hcache]
  by_cases hrevalidate : isDirective "must-revalidate" item = true
  · have hothers := isDirective_eq hrevalidate (by decide)
    simp only [directiveNames, List.forall_mem_cons] at hothers
    obtain ⟨_, _, _, hage, _⟩ := hothers
    rw [if_pos hrevalidate, bareDirective_eq_ok]
    simp [hstore, hcache, hrevalidate, hage]
  rw [if_neg hrevalidate]
  by_cases hage : isDirective "max-age" item = true
  · rw [if_pos hage, maxAgeDirective_eq_ok]
    simp [hstore, hcache, hrevalidate, hage]
  · rw [if_neg hage, Except.ok.injEq, eq_comm (b := control)]
    simp [hstore, hcache, hrevalidate, hage]

theorem addItems_cons (parsed : CacheControlValues) {item : Bytes} {rest : List Bytes}
    (h : isDirective "max-age" item = true → rest.countP (isDirective "max-age") = 0) :
    addItems (addItems parsed [item]) rest = addItems parsed (item :: rest) := by
  have hseconds : (rest.findSome? maxAgeOf).getD ((maxAgeOf item).getD parsed.maxAgeSeconds) =
      ((item :: rest).findSome? maxAgeOf).getD parsed.maxAgeSeconds := by
    rw [List.findSome?_cons]
    cases hitem : maxAgeOf item with
    | none => rfl
    | some seconds =>
      have hage : isDirective "max-age" item = true := by
        by_contra hnot
        simp [maxAgeOf, hnot] at hitem
      have hnone : rest.findSome? maxAgeOf = none := by
        rw [List.findSome?_eq_none_iff]
        intro other hother
        have hnot := List.countP_eq_zero.mp (h hage) other hother
        simp [maxAgeOf, hnot]
      rw [hnone]
      rfl
  rw [addItems_singleton, addItems, addItems, hseconds]
  simp only [List.any_cons, Bool.or_assoc]

theorem foldlM_directives {items : List Bytes} {parsed control : CacheControlValues} :
    items.foldlM cacheControlDirective parsed = .ok control ↔
      (∀ item ∈ items, WellFormedItem item) ∧
        items.countP (isDirective "max-age") + parsed.hasMaxAge.toNat ≤ 1 ∧ control = addItems parsed items := by
  induction items generalizing parsed with
  | nil =>
    have hnil : addItems parsed [] = parsed := by simp [addItems]
    have hbool := Bool.toNat_le parsed.hasMaxAge
    simp [hnil, hbool, pure, Except.pure, eq_comm]
  | cons item rest ih =>
    have honce : (isDirective "max-age" item = true → parsed.hasMaxAge = false) ∧
        rest.countP (isDirective "max-age") + (addItems parsed [item]).hasMaxAge.toNat ≤ 1 ↔
        (item :: rest).countP (isDirective "max-age") + parsed.hasMaxAge.toNat ≤ 1 := by
      rw [addItems_singleton, List.countP_cons]
      cases parsed.hasMaxAge <;> cases isDirective "max-age" item <;> simp
    have hcons (h : (item :: rest).countP (isDirective "max-age") + parsed.hasMaxAge.toNat ≤ 1) :
        addItems (addItems parsed [item]) rest = addItems parsed (item :: rest) := by
      refine addItems_cons parsed fun hage => ?_
      rw [List.countP_cons, if_pos hage] at h
      omega
    rw [List.foldlM_cons, except_bind_eq_ok, List.forall_mem_cons]
    simp only [cacheControlDirective_eq_ok, ih]
    constructor
    · rintro ⟨_, ⟨hitem, hfirst, rfl⟩, hrest, hcount, rfl⟩
      have hall := honce.mp ⟨hfirst, hcount⟩
      exact ⟨⟨hitem, hrest⟩, hall, hcons hall⟩
    · rintro ⟨⟨hitem, hrest⟩, hall, rfl⟩
      obtain ⟨hfirst, hcount⟩ := honce.mpr hall
      exact ⟨_, ⟨hitem, hfirst, rfl⟩, hrest, hcount, (hcons hall).symm⟩

end OAuthValidator
