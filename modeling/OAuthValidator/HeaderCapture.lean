import OAuthValidator.HttpTransport

/-! The freshness headers of a response are captured line by line, and repeated
lines are joined by commas. The room left is computed in `size_t`, so the bound on
a captured value holds as long as no line arrives for a value that is exactly full. -/

namespace OAuthValidator

/-- One call of the header callback. Where the product overflows the callback reads
no contents. -/
structure HeaderLine where
  size : Nat
  count : Nat
  contents : Bytes
  length_eq : size * count ≤ sizeMax → contents.length = size * count

def HeaderLine.overflows (line : HeaderLine) : Bool :=
  line.size != 0 && decide (sizeMax / line.size < line.count)

def captureLine (headers : HeaderBuffer) (line : HeaderLine) : Bool × HeaderBuffer :=
  if line.overflows then (false, { headers with tooLarge := true })
  else captureHeader headers line.contents

/-- The header that a line sets and its trimmed value. -/
def headerField (contents : Bytes) : Option (FreshnessHeader × Bytes) :=
  if !contents.contains 0x3a then none
  else
    (headerTarget (contents.takeWhile (· != 0x3a))).map fun target =>
      (target, (((contents.dropWhile (· != 0x3a)).drop 1).dropWhile isblank).rdropWhile fun b =>
        b == 0x0d || b == 0x0a || isblank b)

def HeaderLine.field (line : HeaderLine) : Option (FreshnessHeader × Bytes) :=
  if line.overflows then none else headerField line.contents

def joinValue (text value : Bytes) : Bytes :=
  if text = [] then value else text ++ comma :: value

/-- The values joined by commas, where a comma follows only a nonempty text. -/
def joinValues (values : List Bytes) : Bytes :=
  values.foldl joinValue []

def HeaderBuffer.text (headers : HeaderBuffer) (name : FreshnessHeader) : Bytes :=
  ((headers.get name).map CString.bytes).getD []

/-- The captured headers, with the values accepted so far. -/
structure Capture where
  headers : HeaderBuffer
  accepted : FreshnessHeader → List Bytes

namespace Capture

def start : Capture :=
  ⟨.empty, fun _ => []⟩

def accept (accepted : FreshnessHeader → List Bytes) (field : Option (FreshnessHeader × Bytes))
    (name : FreshnessHeader) : List Bytes :=
  match field with
  | none => accepted name
  | some (target, value) => if target = name then accepted name ++ [value] else accepted name

theorem accept_none (accepted : FreshnessHeader → List Bytes) : accept accepted none = accepted := rfl

theorem accept_some (accepted : FreshnessHeader → List Bytes) (target name : FreshnessHeader) (value : Bytes) :
    accept accepted (some (target, value)) name =
      if target = name then accepted name ++ [value] else accepted name := rfl

def step (c : Capture) (line : HeaderLine) : Capture :=
  let taken := captureLine c.headers line
  ⟨taken.2, if taken.1 then accept c.accepted line.field else c.accepted⟩

def run (lines : List HeaderLine) : Capture :=
  lines.foldl step start

structure Exact (c : Capture) : Prop where
  joined : ∀ name, c.headers.text name = joinValues (c.accepted name)
  bounded : ∀ name, (c.headers.text name).length ≤ maxFreshnessHeaderSize

end Capture

def TooLong (headers : HeaderBuffer) (line : HeaderLine) : Prop :=
  line.overflows = true ∨ ∃ target value, line.field = some (target, value) ∧
    maxFreshnessHeaderSize < (joinValue (headers.text target) value).length

/-- A line with too long a value is refused and changes no captured value. -/
def RefusesTooLong (headers : HeaderBuffer) (line : HeaderLine) : Prop :=
  TooLong headers line → captureLine headers line = (false, { headers with tooLarge := true })

/-- The header of the line is not exactly full, and a value that fits has no NUL. -/
def LineSafe (headers : HeaderBuffer) (line : HeaderLine) : Prop :=
  ∀ target value, line.field = some (target, value) →
    (headers.text target).length ≠ maxFreshnessHeaderSize ∧
    (0 ∈ value → maxFreshnessHeaderSize < (joinValue (headers.text target) value).length)

section Append

variable {target : Option CString} {value : Bytes}

theorem joinValue_length (text value : Bytes) :
    (joinValue text value).length = text.length + (if 0 < text.length then 1 else 0) + value.length := by
  unfold joinValue
  by_cases h : text = []
  · simp [h]
  · have hpos := List.length_pos_iff.mpr h
    rw [if_neg h, if_pos hpos, List.length_append, List.length_cons]
    omega

theorem append_separator (text value : Bytes) :
    text ++ (if 0 < text.length then [comma] else []) ++ value = joinValue text value := by
  unfold joinValue
  by_cases h : text = []
  · simp [h]
  · rw [if_neg h, if_pos (List.length_pos_iff.mpr h), List.append_assoc, List.singleton_append]

theorem appendHeaderValue_fits (value : Bytes) {text : Bytes} (htext : (target.map CString.bytes).getD [] = text)
    (hlength : text.length < maxFreshnessHeaderSize) :
    appendHeaderValue target value =
      if maxFreshnessHeaderSize < (joinValue text value).length then none
      else some (CString.ofBuffer (joinValue text value)) := by
  have hlimit : maxFreshnessHeaderSize ≤ sizeMax := by decide
  have hroom : sizeSub (sizeSub maxFreshnessHeaderSize text.length)
      (if 0 < text.length then [comma] else []).length < value.length ↔
      maxFreshnessHeaderSize < (joinValue text value).length := by
    rw [joinValue_length, sizeSub_of_le (by omega) hlimit]
    by_cases h : 0 < text.length
    · rw [if_pos h, if_pos h, List.length_singleton, sizeSub_of_le (by omega) (by omega)]
      omega
    · rw [if_neg h, if_neg h, List.length_nil, sizeSub_of_le (by omega) (by omega)]
      omega
  simp only [appendHeaderValue, htext, append_separator, hroom]

-- The room wraps around to the largest `size_t`.
theorem appendHeaderValue_full {text : Bytes} (htext : (target.map CString.bytes).getD [] = text)
    (hlength : text.length = maxFreshnessHeaderSize) (hvalue : value.length ≤ sizeMax) :
    appendHeaderValue target value = some (CString.ofBuffer (joinValue text value)) := by
  have hroom : ¬ sizeSub (sizeSub maxFreshnessHeaderSize text.length)
      (if 0 < text.length then [comma] else []).length < value.length := by
    have hwrap : sizeSub (sizeSub maxFreshnessHeaderSize maxFreshnessHeaderSize) 1 = sizeMax := by decide
    have hpos : 0 < text.length := by
      rw [hlength]
      decide
    rw [if_pos hpos, List.length_singleton, hlength, hwrap]
    omega
  simp only [appendHeaderValue, htext, append_separator, hroom, if_false]

end Append

section Step

variable {c : Capture} {line : HeaderLine} {headers : HeaderBuffer} {target name : FreshnessHeader} {value : Bytes}

theorem HeaderBuffer.text_set (s : CString) :
    (headers.set (some s) target).text name = if target = name then s.bytes else headers.text name := by
  cases target <;> cases name <;> rfl

/-- What one call of the callback can do. -/
inductive Captured (headers : HeaderBuffer) (line : HeaderLine) : Bool × HeaderBuffer → Prop
  | overflow (hover : line.overflows = true) : Captured headers line (false, { headers with tooLarge := true })
  | other (hover : line.overflows = false) (hfield : line.field = none) : Captured headers line (true, headers)
  | taken (target : FreshnessHeader) (value : Bytes) (text : CString)
      (hfield : line.field = some (target, value))
      (happend : appendHeaderValue (headers.get target) value = some text) :
      Captured headers line (true, headers.set (some text) target)
  | refused (target : FreshnessHeader) (value : Bytes) (hfield : line.field = some (target, value))
      (happend : appendHeaderValue (headers.get target) value = none)
      (hlong : (headers.get target).isSome = true ∨ maxFreshnessHeaderSize < value.length) :
      Captured headers line (false, { headers with tooLarge := true })
  | outOfMemory (target : FreshnessHeader) (value : Bytes) (hfield : line.field = some (target, value))
      (happend : appendHeaderValue (headers.get target) value = none)
      (hshort : ¬ ((headers.get target).isSome = true ∨ maxFreshnessHeaderSize < value.length)) :
      Captured headers line (false, { headers with outOfMemory := true })

theorem captureLine_cases (headers : HeaderBuffer) (line : HeaderLine) :
    Captured headers line (captureLine headers line) := by
  by_cases hover : line.overflows = true
  · rw [captureLine, if_pos hover]
    exact .overflow hover
  · have hfield : line.field = headerField line.contents := by rw [HeaderLine.field, if_neg hover]
    have hfits : line.overflows = false := by simpa using hover
    rw [captureLine, if_neg hover]
    fun_cases captureHeader headers line.contents with
    | case1 hcolon => exact .other hfits (by rw [hfield, headerField, if_pos hcolon])
    | case2 hcolon htarget => exact .other hfits (by rw [hfield, headerField, if_neg hcolon, htarget]; rfl)
    | case3 hcolon target htarget _ value text happend =>
      exact .taken target value text (by rw [hfield, headerField, if_neg hcolon, htarget]; rfl) happend
    | case4 hcolon target htarget _ value happend hlong =>
      exact .refused target value (by rw [hfield, headerField, if_neg hcolon, htarget]; rfl) happend
        (by simpa using hlong)
    | case5 hcolon target htarget _ value happend hshort =>
      exact .outOfMemory target value (by rw [hfield, headerField, if_neg hcolon, htarget]; rfl) happend
        (by simpa using hshort)

theorem HeaderLine.contents_length (hover : line.overflows = false) : line.contents.length ≤ sizeMax := by
  have hproduct : line.size * line.count ≤ sizeMax := by
    rw [HeaderLine.overflows, Bool.and_eq_false_iff] at hover
    rcases hover with hzero | hcount
    · have hsize : line.size = 0 := by simpa using hzero
      rw [hsize, Nat.zero_mul]
      exact Nat.zero_le _
    · have hle : line.count ≤ sizeMax / line.size := by simpa using hcount
      calc line.size * line.count ≤ line.size * (sizeMax / line.size) := Nat.mul_le_mul_left _ hle
        _ ≤ sizeMax := Nat.mul_div_le _ _
  rw [line.length_eq hproduct]
  exact hproduct

theorem HeaderLine.value_length (hfield : line.field = some (target, value)) : value.length ≤ sizeMax := by
  rw [HeaderLine.field] at hfield
  split_ifs at hfield with hover
  rw [headerField] at hfield
  split_ifs at hfield with hcolon
  obtain ⟨found, htarget, heq⟩ := Option.map_eq_some_iff.mp hfield
  obtain ⟨rfl, rfl⟩ := Prod.mk.inj heq
  refine Nat.le_trans ?_ (line.contents_length (by simpa using hover))
  calc _ ≤ _ := (List.rdropWhile_prefix _ _).length_le
    _ ≤ _ := (List.dropWhile_suffix _).length_le
    _ ≤ _ := (List.drop_suffix _ _).length_le
    _ ≤ line.contents.length := (List.dropWhile_suffix _).length_le

theorem joinValues_append (values : List Bytes) (value : Bytes) :
    joinValues (values ++ [value]) = joinValue (joinValues values) value := by
  simp [joinValues]

theorem nul_not_mem_text (headers : HeaderBuffer) (name : FreshnessHeader) : 0 ∉ headers.text name := by
  unfold HeaderBuffer.text
  cases headers.get name with
  | none => simp
  | some text => exact text.nul_free

theorem nul_not_mem_joinValue {text : Bytes} (htext : 0 ∉ text) (hvalue : 0 ∉ value) :
    0 ∉ joinValue text value := by
  unfold joinValue
  split_ifs
  · exact hvalue
  · simp [htext, hvalue, comma]

theorem refusesTooLong_of_safe (h : c.Exact) (hsafe : LineSafe c.headers line) :
    RefusesTooLong c.headers line := by
  intro hlong
  have hcases := captureLine_cases c.headers line
  rcases hlong with hover | ⟨target, value, hfield, hlength⟩
  · rw [captureLine, if_pos hover]
  · have hroom : (c.headers.text target).length < maxFreshnessHeaderSize :=
      Nat.lt_of_le_of_ne (h.bounded target) (hsafe target value hfield).1
    have happend := appendHeaderValue_fits value (rfl : _ = c.headers.text target) hroom
    rw [if_pos hlength] at happend
    generalize captureLine c.headers line = taken at hcases
    cases hcases with
    | overflow hover => rfl
    | other hover hnone => simp [hnone] at hfield
    | taken target' value' text hfield' happend' =>
      obtain ⟨rfl, rfl⟩ := Prod.mk.inj (Option.some.inj (hfield'.symm.trans hfield))
      simp [happend] at happend'
    | refused target' value' hfield' happend' hlong => rfl
    | outOfMemory target' value' hfield' happend' hshort =>
      obtain ⟨rfl, rfl⟩ := Prod.mk.inj (Option.some.inj (hfield'.symm.trans hfield))
      rw [not_or, Bool.not_eq_true, Option.isSome_eq_false_iff, Option.isNone_iff_eq_none] at hshort
      have htext : c.headers.text target' = [] := by rw [HeaderBuffer.text, hshort.1]; rfl
      rw [htext, joinValue, if_pos rfl] at hlength
      exact absurd hlength hshort.2

theorem Capture.Exact.step (h : c.Exact) (hsafe : LineSafe c.headers line) : (c.step line).Exact := by
  have hcases := captureLine_cases c.headers line
  have hframe {headers : HeaderBuffer} (htext : ∀ name, headers.text name = c.headers.text name) :
      Exact ⟨headers, c.accepted⟩ :=
    ⟨fun name => (htext name).trans (h.joined name), fun name => htext name ▸ h.bounded name⟩
  unfold Capture.step
  generalize captureLine c.headers line = taken at hcases
  cases hcases with
  | overflow hover => exact hframe fun name => by cases name <;> rfl
  | other hover hfield => simpa only [if_true, hfield, accept_none] using h
  | taken target value text hfield happend =>
    have hroom : (c.headers.text target).length < maxFreshnessHeaderSize :=
      Nat.lt_of_le_of_ne (h.bounded target) (hsafe target value hfield).1
    rw [appendHeaderValue_fits _ (rfl : _ = c.headers.text target) hroom] at happend
    split_ifs at happend with hlong
    obtain rfl := Option.some.inj happend
    have hvalue : 0 ∉ value := fun hnul => hlong ((hsafe target value hfield).2 hnul)
    have htext := CString.bytes_ofBuffer (nul_not_mem_joinValue (nul_not_mem_text c.headers target) hvalue)
    simp only [if_true, hfield]
    constructor
    · intro name
      change (c.headers.set _ target).text name = joinValues (accept c.accepted (some (target, value)) name)
      rw [HeaderBuffer.text_set, htext, accept_some]
      by_cases hname : target = name
      · subst hname
        rw [if_pos rfl, if_pos rfl, joinValues_append, h.joined]
      · rw [if_neg hname, if_neg hname, h.joined]
    · intro name
      rw [HeaderBuffer.text_set, htext]
      split_ifs
      · exact Nat.not_lt.mp hlong
      · exact h.bounded name
  | refused target value hfield happend hlong => exact hframe fun name => by cases name <;> rfl
  | outOfMemory target value hfield happend hshort => exact hframe fun name => by cases name <;> rfl

theorem captureLine_appended {text : CString} (hfield : line.field = some (target, value))
    (happend : appendHeaderValue (headers.get target) value = some text) :
    captureLine headers line = (true, headers.set (some text) target) := by
  have hcases := captureLine_cases headers line
  generalize captureLine headers line = taken at hcases
  cases hcases with
  | overflow hover => simp [HeaderLine.field, hover] at hfield
  | other hover hnone => simp [hnone] at hfield
  | taken target' value' text' hfield' happend' =>
    obtain ⟨rfl, rfl⟩ := Prod.mk.inj (Option.some.inj (hfield'.symm.trans hfield))
    rw [Option.some.inj (happend'.symm.trans happend)]
  | refused target' value' hfield' happend' _ =>
    obtain ⟨rfl, rfl⟩ := Prod.mk.inj (Option.some.inj (hfield'.symm.trans hfield))
    simp [happend] at happend'
  | outOfMemory target' value' hfield' happend' _ =>
    obtain ⟨rfl, rfl⟩ := Prod.mk.inj (Option.some.inj (hfield'.symm.trans hfield))
    simp [happend] at happend'

theorem lineSafe_of_exact (hnext : (c.step line).Exact) (hrefuses : RefusesTooLong c.headers line) :
    LineSafe c.headers line := by
  intro target value hfield
  have hlength := joinValue_length (c.headers.text target) value
  by_cases hlong : maxFreshnessHeaderSize < (joinValue (c.headers.text target) value).length
  · refine ⟨fun hfull => ?_, fun _ => hlong⟩
    have happend := appendHeaderValue_full (rfl : _ = c.headers.text target) hfull (line.value_length hfield)
    have htaken := captureLine_appended hfield happend
    rw [hrefuses (Or.inr ⟨target, value, hfield, hlong⟩)] at htaken
    simp at htaken
  · have hpos : 0 < maxFreshnessHeaderSize := by decide
    have hroom : (c.headers.text target).length < maxFreshnessHeaderSize := by
      split_ifs at hlength <;> omega
    refine ⟨Nat.ne_of_lt hroom, fun hnul => ?_⟩
    -- the stored string ends at the NUL, the joined values do not
    have happend := appendHeaderValue_fits value (rfl : _ = c.headers.text target) hroom
    rw [if_neg hlong] at happend
    have hjoined := hnext.joined target
    have hclean := nul_not_mem_text (c.step line).headers target
    rw [hjoined] at hclean
    have haccepted : (c.step line).accepted target = c.accepted target ++ [value] := by
      simp only [Capture.step, captureLine_appended hfield happend, if_true, hfield, Capture.accept_some]
    rw [haccepted, joinValues_append, joinValue] at hclean
    split_ifs at hclean <;> simp [hnul] at hclean

end Step

/-- The captured headers after each part of a sequence of lines are the joined values
within the bound, and no line exceeds it. -/
def CapturedWithin (lines : List HeaderLine) : Prop :=
  ∀ done, done <+: lines →
    (Capture.run done).Exact ∧
    ∀ line, done ++ [line] <+: lines → RefusesTooLong (Capture.run done).headers line

/-- The bound holds throughout a response exactly if every line of it is safe where it
arrives. -/
theorem captured_header_bound_iff (lines : List HeaderLine) :
    CapturedWithin lines ↔
      ∀ done line, done ++ [line] <+: lines → LineSafe (Capture.run done).headers line := by
  have hrun (done : List HeaderLine) (line : HeaderLine) :
      Capture.run (done ++ [line]) = (Capture.run done).step line := by
    rw [Capture.run, List.foldl_append]
    rfl
  constructor
  · intro hall done line hnext
    have hdone := hall done ((List.prefix_append _ _).trans hnext)
    have hafter := (hall _ hnext).1
    rw [hrun] at hafter
    exact lineSafe_of_exact hafter (hdone.2 line hnext)
  · intro hsafe
    have hexact : ∀ done, done <+: lines → (Capture.run done).Exact := by
      intro done
      induction done using List.reverseRecOn with
      | nil => exact fun _ => ⟨fun name => by cases name <;> rfl, fun name => by cases name <;> exact Nat.zero_le _⟩
      | append_singleton done line ih =>
        intro hprefix
        rw [hrun]
        exact (ih ((List.prefix_append _ _).trans hprefix)).step (hsafe done line hprefix)
    exact fun done hdone => ⟨hexact done hdone, fun line hnext =>
      refusesTooLong_of_safe (hexact done hdone) (hsafe done line hnext)⟩

section Lines

variable {headers headers' : HeaderBuffer} {line : Bytes} {lines : List Bytes}

/-- The value that a line has for a header. -/
def lineValue (name : FreshnessHeader) (line : Bytes) : Option Bytes :=
  (headerField line).bind fun field => if field.1 = name then some field.2 else none

/-- A value after what there is of its header. A NUL ends the text. -/
def appendValue (current : Option CString) (value : Bytes) : Option CString :=
  some (.ofBuffer (joinValue ((current.map CString.bytes).getD []) value))

/-- A header as all the lines of a response give it, in their order and whatever
stands between them. -/
def joinedHeader (name : FreshnessHeader) (lines : List Bytes) : Option CString :=
  (lines.filterMap (lineValue name)).foldl appendValue none

theorem appendHeaderValue_eq_some {target : Option CString} {value : Bytes} {text : CString}
    (h : appendHeaderValue target value = some text) : appendValue target value = some text := by
  simp only [appendHeaderValue, append_separator, Option.ite_none_left_eq_some] at h
  exact h.2

theorem HeaderBuffer.get_set (value : Option CString) (target name : FreshnessHeader) :
    (headers.set value target).get name = if target = name then value else headers.get name := by
  cases target <;> cases name <;> rfl

/-- A line that is taken adds its value to its header and changes no other. -/
theorem captureHeader_get (name : FreshnessHeader) :
    (captureHeader headers line).1 = true → (captureHeader headers line).2.get name =
      (lineValue name line).elim (headers.get name) (appendValue (headers.get name)) := by
  fun_cases captureHeader headers line with
  | case1 hcolon =>
    intro _
    have hfield : headerField line = none := by rw [headerField, if_pos hcolon]
    rw [lineValue, hfield]
    rfl
  | case2 hcolon htarget =>
    intro _
    have hfield : headerField line = none := by rw [headerField, if_neg hcolon, htarget]; rfl
    rw [lineValue, hfield]
    rfl
  | case3 hcolon target htarget _ value text happend =>
    intro _
    have hfield : headerField line = some (target, value) := by
      rw [headerField, if_neg hcolon, htarget]
      rfl
    rw [HeaderBuffer.get_set, lineValue, hfield, Option.bind_some]
    by_cases hname : target = name
    · subst hname
      rw [if_pos rfl, if_pos rfl]
      exact (appendHeaderValue_eq_some happend).symm
    · rw [if_neg hname, if_neg hname]
      rfl
  | case4 => exact fun hrefused => absurd hrefused Bool.false_ne_true
  | case5 => exact fun hrefused => absurd hrefused Bool.false_ne_true

theorem feed_captureHeader_get (h : feed captureHeader headers lines = (true, headers'))
    (name : FreshnessHeader) :
    headers'.get name = (lines.filterMap (lineValue name)).foldl appendValue (headers.get name) := by
  induction lines generalizing headers with
  | nil =>
    obtain ⟨-, rfl⟩ := Prod.mk.inj h
    rfl
  | cons line rest ih =>
    unfold feed at h
    split at h
    · next taken hline =>
      have hget := captureHeader_get name (congrArg Prod.fst hline)
      rw [hline] at hget
      rw [ih h, hget, List.filterMap_cons]
      cases lineValue name line <;> rfl
    · simp at h

/-- The freshness headers of an accepted response are those of all its header lines. -/
theorem finishTransfer_header {policy : HttpPolicy} {transfer : Transfer} {response : HttpResponse}
    (h : finishTransfer policy transfer = .ok response) (name : FreshnessHeader) :
    response.header name = joinedHeader name transfer.headerLines := by
  obtain ⟨headers, buffer, status, hheaders, _, rfl⟩ := finishTransfer_ok h
  have hget := feed_captureHeader_get hheaders name
  cases name <;> exact hget

end Lines

namespace Sample

def fullLine : HeaderLine :=
  ⟨1, 4100, ascii "Age:" ++ List.replicate 4096 0x31, fun _ => by decide +kernel⟩

def nextLine : HeaderLine :=
  ⟨1, 5, ascii "Age:2", fun _ => by decide⟩

end Sample

/-- A value of exactly 4096 bytes and one more line for the same header. -/
theorem full_header_grows :
    (captureLine (Capture.run [Sample.fullLine]).headers Sample.nextLine).1 = true ∧
    ((Capture.run [Sample.fullLine]).headers.text .age).length = 4096 ∧
    ((Capture.run [Sample.fullLine, Sample.nextLine]).headers.text .age).length = 4098 := by
  decide +kernel

end OAuthValidator
