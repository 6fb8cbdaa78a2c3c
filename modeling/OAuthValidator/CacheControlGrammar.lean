import OAuthValidator.CacheControl
import OAuthValidator.CommaPointers

/-! Cache-Control as the code scans it, with pointers into the value, and the grammar
of the values that it accepts. The directives of a value may come in any order. -/

namespace OAuthValidator

namespace Pointer

/-- `while (*start < *end && blank(**start)) (*start)++`. -/
def trimStart (blank : UInt8 → Bool) (text : Bytes) (start stop : Nat) : Nat :=
  if start < stop ∧ blank (charAt text start) = true then trimStart blank text (start + 1) stop else start
termination_by stop - start

/-- `memchr(start, c, stop - start)`. -/
def memchr (text : Bytes) (c : UInt8) (start stop : Nat) : Option Nat :=
  if start < stop then if charAt text start = c then some start else memchr text c (start + 1) stop else none
termination_by stop - start

/-- The argument of max-age, from `start` to `stop` with the blanks around it. -/
def maxAgeSeconds (text : Bytes) (start stop : Nat) : Option Int :=
  let numberStart := trimStart isblank text start stop
  let numberEnd := trimEnd isblank text numberStart stop
  if 2 ≤ numberEnd - numberStart && charAt text numberStart == 0x22 && charAt text (numberEnd - 1) == 0x22 then
    decimal (between text (numberStart + 1) (numberEnd - 1))
  else decimal (between text numberStart numberEnd)

/-- One item without the blanks around it. -/
def cacheControlItem (text : Bytes) (parsed : CacheControlValues) (first itemEnd : Nat) :
    Except Unit CacheControlValues :=
  if first = itemEnd then .error ()
  else if (between text first itemEnd).any fun b => b < 0x20 || 0x7f ≤ b then .error ()
  else
    let equals := memchr text 0x3d first itemEnd
    let nameEnd := trimEnd isblank text first (equals.getD itemEnd)
    let isName (name : String) := equalsIgnoreCase (between text first nameEnd) (ascii name)
    if nameEnd = first then .error ()
    else if isName "no-store" then
      if equals.isSome then .error () else .ok { parsed with noStore := true }
    else if isName "no-cache" then .ok { parsed with noCache := true }
    else if isName "must-revalidate" then
      if equals.isSome then .error () else .ok { parsed with mustRevalidate := true }
    else if isName "max-age" then
      match equals with
      | none => .error ()
      | some sign =>
        if parsed.hasMaxAge then .error ()
        else
          match maxAgeSeconds text (sign + 1) itemEnd with
          | none => .error ()
          | some seconds => .ok { parsed with maxAgeSeconds := seconds, hasMaxAge := true }
    else .ok parsed

/-- The body of the loop, from `entry` to the comma or terminator at `stop`. -/
def cacheControlEntry (text : Bytes) (parsed : CacheControlValues) (entry stop : Nat) :
    Except Unit CacheControlValues :=
  let first := trimStart isblank text entry stop
  cacheControlItem text parsed first (trimEnd isblank text first stop)

def parseCacheControl (value : Option CString) : Option CacheControlValues :=
  match nonempty? value with
  | none => some ⟨0, false, false, false, false⟩
  | some text =>
    match entryLoop (cacheControlEntry text.bytes) none text.bytes ⟨0, false, false, false, false⟩ 0 with
    | .error () => none
    | .ok parsed => some parsed

section Strings

variable {pre mid tail : Bytes} {blank : UInt8 → Bool} {c : UInt8}

theorem trimStart_eq (pre tail : Bytes) :
    trimStart blank (pre ++ (mid ++ tail)) pre.length (pre.length + mid.length) =
      pre.length + (mid.takeWhile blank).length := by
  induction mid generalizing pre with
  | nil => rw [trimStart, if_neg (by simp)]; rfl
  | cons x mid ih =>
    have hnext := ih (pre ++ [x])
    simp only [List.append_assoc, List.singleton_append, List.length_append, List.length_singleton] at hnext
    rw [trimStart, charAt_append, List.cons_append, List.headD_cons, List.length_cons]
    by_cases hx : blank x = true
    · rw [if_pos ⟨by omega, hx⟩, List.takeWhile_cons_of_pos hx, List.length_cons,
        (by omega : pre.length + (mid.length + 1) = pre.length + 1 + mid.length), hnext]
      omega
    · rw [if_neg (fun h => hx h.2), List.takeWhile_cons_of_neg hx]
      rfl

/-- Trimming moves the two pointers to the ends of the trimmed text. -/
theorem trim_span (blank : UInt8 → Bool) (pre mid tail : Bytes) :
    ∃ pre' tail', pre ++ (mid ++ tail) = pre' ++ (trimBy blank mid ++ tail') ∧
      trimStart blank (pre ++ (mid ++ tail)) pre.length (pre.length + mid.length) = pre'.length ∧
      trimEnd blank (pre ++ (mid ++ tail)) pre'.length (pre.length + mid.length) =
        pre'.length + (trimBy blank mid).length := by
  have hsplit : mid.takeWhile blank ++ mid.dropWhile blank = mid := List.takeWhile_append_dropWhile
  have hlength := congrArg List.length hsplit
  rw [List.length_append] at hlength
  obtain ⟨dropped, hdropped⟩ := List.rdropWhile_prefix blank (mid.dropWhile blank)
  have htext : pre ++ (mid ++ tail) = (pre ++ mid.takeWhile blank) ++ (mid.dropWhile blank ++ tail) := by
    rw [List.append_assoc, ← List.append_assoc (mid.takeWhile blank), hsplit]
  have hend : pre.length + mid.length = (pre ++ mid.takeWhile blank).length + (mid.dropWhile blank).length := by
    rw [List.length_append]
    omega
  refine ⟨pre ++ mid.takeWhile blank, dropped ++ tail, ?_, ?_, ?_⟩
  · rw [htext, trimBy, ← List.append_assoc (List.rdropWhile blank _), hdropped]
  · rw [trimStart_eq, List.length_append]
  · rw [hend, htext, trimEnd_eq, trimBy]

theorem memchr_eq (pre tail : Bytes) :
    memchr (pre ++ (mid ++ tail)) c pre.length (pre.length + mid.length) =
      if mid.contains c then some (pre.length + (mid.takeWhile (· != c)).length) else none := by
  induction mid generalizing pre with
  | nil => rw [memchr, if_neg (by simp)]; rfl
  | cons x mid ih =>
    have hnext := ih (pre ++ [x])
    simp only [List.append_assoc, List.singleton_append, List.length_append, List.length_singleton] at hnext
    rw [memchr, if_pos (by simp), charAt_append, List.cons_append, List.headD_cons, List.length_cons,
      (by omega : pre.length + (mid.length + 1) = pre.length + 1 + mid.length), hnext]
    by_cases hx : x = c
    · simp [hx]
    · have hne : c ≠ x := Ne.symm hx
      simp only [if_neg hx, List.contains_cons, beq_eq_false_iff_ne.mpr hne, Bool.false_or]
      rw [List.takeWhile_cons_of_pos (by simpa using hx), List.length_cons]
      split
      · congr 1
        omega
      · rfl

theorem between_eq (pre mid tail : Bytes) : between (pre ++ (mid ++ tail)) pre.length (pre.length + mid.length) = mid :=
  between_prefix (List.prefix_refl mid)

/-- The quotes are read at the two ends of the number. -/
theorem unquote_eq (pre number tail : Bytes) :
    (if 2 ≤ pre.length + number.length - pre.length &&
        charAt (pre ++ (number ++ tail)) pre.length == 0x22 &&
        charAt (pre ++ (number ++ tail)) (pre.length + number.length - 1) == 0x22 then
      decimal (between (pre ++ (number ++ tail)) (pre.length + 1) (pre.length + number.length - 1))
    else decimal (between (pre ++ (number ++ tail)) pre.length (pre.length + number.length))) =
      decimal (unquote number) := by
  rw [between_eq, Nat.add_sub_cancel_left]
  by_cases hlength : 2 ≤ number.length
  · -- a number of two characters or more has a first and a last one
    obtain ⟨a, rest, rfl⟩ := List.exists_cons_of_ne_nil (List.ne_nil_of_length_pos (by omega : 0 < number.length))
    have hrest : rest ≠ [] := fun hnil => by simp [hnil] at hlength
    obtain ⟨middle, b, rfl⟩ := (List.eq_nil_or_concat' rest).resolve_left hrest
    have hfirst : charAt (pre ++ (a :: (middle ++ [b]) ++ tail)) pre.length = a := charAt_append _ _
    have hlast : charAt (pre ++ (a :: (middle ++ [b]) ++ tail))
        (pre.length + (a :: (middle ++ [b])).length - 1) = b := by
      have := charAt_last pre (a :: middle) tail b
      simpa [Nat.add_assoc] using this
    have hinner : between (pre ++ (a :: (middle ++ [b]) ++ tail)) (pre.length + 1)
        (pre.length + (a :: (middle ++ [b])).length - 1) = middle := by
      have := between_eq (pre ++ [a]) middle (b :: tail)
      simpa [Nat.add_assoc, Nat.add_comm 1] using this
    have hgetLast : (a :: (middle ++ [b])).getLast? = some b := by rw [← List.cons_append, List.getLast?_concat]
    have hdrop : (List.drop 1 (a :: (middle ++ [b]))).dropLast = middle := by simp
    rw [hfirst, hlast, hinner, unquote, hgetLast, hdrop, List.head?_cons, Option.some_beq_some,
      Option.some_beq_some]
    split <;> rfl
  · simp [unquote, hlength]

theorem maxAgeSeconds_eq (pre argument tail : Bytes) :
    maxAgeSeconds (pre ++ (argument ++ tail)) pre.length (pre.length + argument.length) =
      decimal (unquote (trimBy isblank argument)) := by
  obtain ⟨pre', tail', htext, hstart, hend⟩ := trim_span isblank pre argument tail
  simp only [maxAgeSeconds, hstart, hend]
  rw [htext]
  exact unquote_eq pre' _ tail'

/-- The name ends before the sign, or with the item. -/
theorem nameEnd_eq (pre item tail : Bytes) :
    trimEnd isblank (pre ++ (item ++ tail)) pre.length
        ((memchr (pre ++ (item ++ tail)) 0x3d pre.length (pre.length + item.length)).getD (pre.length + item.length)) =
      pre.length + ((item.takeWhile (· != 0x3d)).rdropWhile isblank).length := by
  have htext : pre ++ (item ++ tail) =
      pre ++ (item.takeWhile (· != 0x3d) ++ (item.dropWhile (· != 0x3d) ++ tail)) := by
    rw [← List.append_assoc (item.takeWhile _), List.takeWhile_append_dropWhile]
  have hsign : (memchr (pre ++ (item ++ tail)) 0x3d pre.length (pre.length + item.length)).getD
      (pre.length + item.length) = pre.length + (item.takeWhile (· != 0x3d)).length := by
    rw [memchr_eq]
    by_cases hequals : item.contains 0x3d = true
    · rw [if_pos hequals, Option.getD_some]
    · have hall : item.takeWhile (· != 0x3d) = item := by
        rw [List.takeWhile_eq_self_iff]
        intro b hb
        rw [bne_iff_ne]
        rintro rfl
        exact hequals (by simpa using hb)
      rw [if_neg hequals, Option.getD_none, hall]
  rw [hsign, htext, trimEnd_eq]

theorem argument_eq (pre item tail : Bytes) (hequals : item.contains 0x3d = true) :
    maxAgeSeconds (pre ++ (item ++ tail)) (pre.length + (item.takeWhile (· != 0x3d)).length + 1)
        (pre.length + item.length) =
      decimal (unquote (trimBy isblank ((item.dropWhile (· != 0x3d)).drop 1))) := by
  obtain ⟨name, argument, rfl, hname⟩ :=
    List.eq_append_cons_of_mem (by simpa using hequals : (0x3d : UInt8) ∈ item)
  have hplain : ∀ b ∈ name, (b != 0x3d) = true := fun b hb => bne_iff_ne.mpr fun heq => hname (heq ▸ hb)
  have htake : (name ++ 0x3d :: argument).takeWhile (· != 0x3d) = name := by
    rw [List.takeWhile_append_of_pos hplain, List.takeWhile_cons_of_neg (by simp), List.append_nil]
  have hdrop : (name ++ 0x3d :: argument).dropWhile (· != 0x3d) = 0x3d :: argument := by
    rw [List.dropWhile_append_of_pos hplain, List.dropWhile_cons_of_neg (by simp)]
  rw [htake, hdrop, List.drop_succ_cons, List.drop_zero, ← maxAgeSeconds_eq (pre ++ name ++ [0x3d]) argument tail]
  simp [Nat.add_assoc, Nat.add_comm 1]

theorem cacheControlItem_eq (pre tail : Bytes) (parsed : CacheControlValues) (mid : Bytes) :
    cacheControlItem (pre ++ (trimBy isblank mid ++ tail)) parsed pre.length
      (pre.length + (trimBy isblank mid).length) = cacheControlDirective parsed mid := by
  rw [cacheControlDirective]
  generalize trimBy isblank mid = item
  have hprefix : (item.takeWhile (· != 0x3d)).rdropWhile isblank <+: item :=
    (List.rdropWhile_prefix _ _).trans (List.takeWhile_prefix _)
  have hempty : pre.length = pre.length + item.length ↔ item.isEmpty = true := by simp
  have hunnamed : pre.length + ((item.takeWhile (· != 0x3d)).rdropWhile isblank).length = pre.length ↔
      ((item.takeWhile (· != 0x3d)).rdropWhile isblank).isEmpty = true := by simp
  simp only [cacheControlItem, nameEnd_eq, between_prefix hprefix, between_eq, hempty, hunnamed]
  rw [memchr_eq]
  cases hequals : item.contains 0x3d with
  | false => simp only [Bool.false_eq_true, if_false, Option.isSome_none, Bool.not_false, Bool.or_true, if_true]
  | true =>
    have hargument := argument_eq pre item tail hequals
    generalize decimal (unquote (trimBy isblank ((item.dropWhile (· != 0x3d)).drop 1))) = seconds at hargument ⊢
    cases parsed.hasMaxAge <;> cases seconds <;> simp [hargument]

theorem sees_cacheControlEntry (text : Bytes) : Sees text (cacheControlEntry text) cacheControlDirective := by
  intro parsed pre mid tail htext _ _
  subst htext
  obtain ⟨pre', tail', htext, hstart, hend⟩ := trim_span isblank pre mid tail
  simp only [cacheControlEntry, hstart, hend]
  rw [htext]
  exact cacheControlItem_eq pre' tail' parsed mid

end Strings

theorem parseCacheControl_eq (value : Option CString) :
    parseCacheControl value = OAuthValidator.parseCacheControl value := by
  cases value with
  | none => rfl
  | some text =>
    by_cases hempty : text.bytes = []
    · have hnone := nonempty?_of_empty hempty
      rw [parseCacheControl, hnone]
      simp [OAuthValidator.parseCacheControl, hempty, scanList, eachEntry]
    · have hsome := nonempty?_of_ne hempty
      rw [parseCacheControl, hsome]
      simp only [entryLoop_scanList text (sees_cacheControlEntry text.bytes)]
      rfl

end Pointer

/-! The grammar. -/

/-- The items of a value. A comma at its very end adds none. -/
def cacheItems (value : Bytes) : List Bytes :=
  visitedEntries (value.splitOn comma)

structure CacheControlText (items : List Bytes) : Prop where
  wellFormed : ∀ item ∈ items, WellFormedItem item
  maxAge_once : items.countP (isDirective "max-age") ≤ 1

/-- The values that a list of items states. -/
structure CacheControlRead (items : List Bytes) (control : CacheControlValues) : Prop where
  noStore : control.noStore = true ↔ ∃ item ∈ items, isDirective "no-store" item = true
  noCache : control.noCache = true ↔ ∃ item ∈ items, isDirective "no-cache" item = true
  mustRevalidate : control.mustRevalidate = true ↔ ∃ item ∈ items, isDirective "must-revalidate" item = true
  hasMaxAge : control.hasMaxAge = true ↔ ∃ item ∈ items, isDirective "max-age" item = true
  maxAge : ∀ item ∈ items, isDirective "max-age" item = true →
    DecimalArgument (itemArgument item) control.maxAgeSeconds
  maxAge_absent : control.hasMaxAge = false → control.maxAgeSeconds = 0

/-- Two records that a list states alike are equal. -/
theorem CacheControlRead.unique {items : List Bytes} {control control' : CacheControlValues}
    (h : CacheControlRead items control) (h' : CacheControlRead items control') : control = control' := by
  have hmaxAge : control.hasMaxAge = control'.hasMaxAge :=
    Bool.eq_iff_iff.mpr (h.hasMaxAge.trans h'.hasMaxAge.symm)
  have hseconds : control.maxAgeSeconds = control'.maxAgeSeconds := by
    cases hhas : control.hasMaxAge with
    | false => rw [h.maxAge_absent hhas, h'.maxAge_absent (hmaxAge ▸ hhas)]
    | true =>
      obtain ⟨item, hitem, hage⟩ := h.hasMaxAge.mp hhas
      rw [← (h.maxAge item hitem hage).value_eq, ← (h'.maxAge item hitem hage).value_eq]
  have hstore := Bool.eq_iff_iff.mpr (h.noStore.trans h'.noStore.symm)
  have hcache := Bool.eq_iff_iff.mpr (h.noCache.trans h'.noCache.symm)
  have hrevalidate := Bool.eq_iff_iff.mpr (h.mustRevalidate.trans h'.mustRevalidate.symm)
  cases control
  cases control'
  simp_all

theorem findSome?_maxAgeOf {items : List Bytes} {item : Bytes} (honce : items.countP (isDirective "max-age") ≤ 1)
    (hitem : item ∈ items) (hage : isDirective "max-age" item = true) :
    items.findSome? maxAgeOf = some (digitsValue (directiveArgument item)) := by
  induction items with
  | nil => simp at hitem
  | cons other rest ih =>
    rw [List.countP_cons] at honce
    by_cases hother : isDirective "max-age" other = true
    · rw [if_pos hother] at honce
      have hfirst : item = other := by
        rcases List.mem_cons.mp hitem with h | h
        · exact h
        · have hpositive := List.countP_pos_iff.mpr ⟨item, h, hage⟩
          omega
      rw [List.findSome?_cons, maxAgeOf, if_pos hother, hfirst]
    · rw [if_neg hother] at honce
      have hrest : item ∈ rest := (List.mem_cons.mp hitem).resolve_left fun h => hother (h ▸ hage)
      rw [List.findSome?_cons, maxAgeOf, if_neg hother]
      exact ih honce hrest

theorem CacheControlText.read {items : List Bytes} (h : CacheControlText items) :
    CacheControlRead items (addItems ⟨0, false, false, false, false⟩ items) where
  noStore := by simp [addItems]
  noCache := by simp [addItems]
  mustRevalidate := by simp [addItems]
  hasMaxAge := by simp [addItems]
  maxAge item hitem hage := by
    obtain ⟨_, seconds, hseconds⟩ := (h.wellFormed item hitem).seconds hage
    rw [addItems, findSome?_maxAgeOf h.maxAge_once hitem hage, Option.getD_some, hseconds.value_eq]
    exact hseconds
  maxAge_absent habsent := by
    have hnone : items.findSome? maxAgeOf = none := by
      rw [List.findSome?_eq_none_iff]
      intro item hitem
      simp only [addItems, Bool.false_or, List.any_eq_false] at habsent
      rw [maxAgeOf, if_neg (habsent item hitem)]
    rw [addItems, hnone]
    rfl

theorem parseCacheControl_eq_some {text : CString} {control : CacheControlValues} :
    Pointer.parseCacheControl (some text) = some control ↔
      CacheControlText (cacheItems text.bytes) ∧ CacheControlRead (cacheItems text.bytes) control := by
  have hparse : OAuthValidator.parseCacheControl (some text) = some control ↔
      (cacheItems text.bytes).foldlM cacheControlDirective ⟨0, false, false, false, false⟩ = .ok control := by
    rw [cacheItems, ← eachEntry_eq_visited, parseCacheControl, scanList]
    cases eachEntry cacheControlDirective none ⟨0, false, false, false, false⟩ (text.bytes.splitOn comma) <;> simp
  rw [Pointer.parseCacheControl_eq, hparse, foldlM_directives]
  constructor
  · rintro ⟨hitems, honce, rfl⟩
    have htext : CacheControlText (cacheItems text.bytes) := ⟨hitems, honce⟩
    exact ⟨htext, htext.read⟩
  · rintro ⟨htext, hread⟩
    exact ⟨htext.wellFormed, htext.maxAge_once, hread.unique htext.read⟩

section Order

variable {items items' : List Bytes} {control : CacheControlValues}

theorem CacheControlText.perm (h : CacheControlText items) (hperm : items.Perm items') : CacheControlText items' :=
  ⟨fun item hitem => h.wellFormed item (hperm.mem_iff.mpr hitem), hperm.countP_eq _ ▸ h.maxAge_once⟩

theorem CacheControlRead.perm (h : CacheControlRead items control) (hperm : items.Perm items') :
    CacheControlRead items' control where
  noStore := by simpa only [hperm.mem_iff] using h.noStore
  noCache := by simpa only [hperm.mem_iff] using h.noCache
  mustRevalidate := by simpa only [hperm.mem_iff] using h.mustRevalidate
  hasMaxAge := by simpa only [hperm.mem_iff] using h.hasMaxAge
  maxAge item hitem := h.maxAge item (hperm.mem_iff.mpr hitem)
  maxAge_absent := h.maxAge_absent

/-- Where no entry is blank, every one is visited. -/
theorem visitedEntries_eq_self (h : ∀ item ∈ items, trimBy isblank item ≠ []) : visitedEntries items = items := by
  rw [visitedEntries, if_neg]
  intro hlast
  exact h [] (List.mem_of_getLast? hlast) rfl

end Order

/-- A value is accepted when it is empty or its items are well formed, and the record
then holds what the items state, in whatever order they come. -/
theorem cache_control_grammar :
    (∀ text : CString, (Pointer.parseCacheControl (some text)).isSome = true ↔
      text.bytes = [] ∨ CacheControlText (cacheItems text.bytes)) ∧
    (∀ (text : CString) control, Pointer.parseCacheControl (some text) = some control →
      CacheControlRead (cacheItems text.bytes) control) ∧
    ∀ text text' : CString, (text.bytes.splitOn comma).Perm (text'.bytes.splitOn comma) →
      (∀ item ∈ text.bytes.splitOn comma, trimBy isblank item ≠ []) →
      Pointer.parseCacheControl (some text) = Pointer.parseCacheControl (some text') := by
  refine ⟨fun text => ?_, fun text control h => (parseCacheControl_eq_some.mp h).2, fun text text' hperm hblank => ?_⟩
  · have hempty : text.bytes = [] → CacheControlText (cacheItems text.bytes) := by
      intro h
      rw [h]
      exact ⟨by simp [cacheItems, visitedEntries], by simp [cacheItems, visitedEntries]⟩
    rw [or_iff_right_of_imp hempty, Option.isSome_iff_exists]
    constructor
    · rintro ⟨control, h⟩
      exact (parseCacheControl_eq_some.mp h).1
    · intro h
      exact ⟨_, parseCacheControl_eq_some.mpr ⟨h, h.read⟩⟩
  · have hitems : (cacheItems text.bytes).Perm (cacheItems text'.bytes) := by
      rw [cacheItems, cacheItems, visitedEntries_eq_self hblank,
        visitedEntries_eq_self fun item hitem => hblank item (hperm.mem_iff.mpr hitem)]
      exact hperm
    refine Option.ext fun control => ?_
    rw [parseCacheControl_eq_some, parseCacheControl_eq_some]
    exact ⟨fun h => ⟨h.1.perm hitems, h.2.perm hitems⟩, fun h => ⟨h.1.perm hitems.symm, h.2.perm hitems.symm⟩⟩

end OAuthValidator
