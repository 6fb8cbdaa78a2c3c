import OAuthValidator.HttpTransport
import OAuthValidator.Policy
import OAuthValidator.Claims

/-! The loops over comma-separated settings as the code runs them, with pointers
into the string. A pointer is an index, and the terminator is read at the length.
Each loop is the loop over the split and trimmed list that the other modules use. -/

namespace OAuthValidator

/-- `text[p]`, the terminator included. -/
def charAt (text : Bytes) (p : Nat) : UInt8 :=
  text.getD p 0

theorem charAt_append (pre rest : Bytes) : charAt (pre ++ rest) pre.length = rest.headD 0 := by
  cases rest <;> simp [charAt]

theorem charAt_last (pre mid tail : Bytes) (x : UInt8) :
    charAt (pre ++ (mid ++ [x] ++ tail)) (pre.length + mid.length) = x := by
  have := charAt_append (pre ++ mid) ([x] ++ tail)
  simpa using this

theorem lt_length_of_charAt {text : Bytes} {p : Nat} (h : charAt text p ≠ 0) : p < text.length := by
  by_contra hlt
  exact h (by simp [charAt, List.getElem?_eq_none (Nat.not_lt.mp hlt)])

def strchr (text : Bytes) (c : UInt8) (p : Nat) : Option Nat :=
  if charAt text p = c then some p
  else if charAt text p = 0 then none
  else strchr text c (p + 1)
termination_by text.length - p
decreasing_by
  have hlt := lt_length_of_charAt ‹_›
  omega

theorem strchr_le {text : Bytes} {c : UInt8} {p q : Nat} (h : strchr text c p = some q) : p ≤ q := by
  fun_induction strchr text c p with
  | case1 => exact Nat.le_of_eq (Option.some.inj h)
  | case2 => simp at h
  | case3 _ _ _ ih => exact Nat.le_of_succ_le (ih h)

/-- `while (*p != '\0' && blank(*p)) p++`. -/
def skipBlank (blank : UInt8 → Bool) (text : Bytes) (p : Nat) : Nat :=
  if charAt text p ≠ 0 ∧ blank (charAt text p) = true then skipBlank blank text (p + 1) else p
termination_by text.length - p
decreasing_by
  have hlt := lt_length_of_charAt (And.left ‹_›)
  omega

/-- `while (q > entry && blank(q[-1])) q--`. -/
def trimEnd (blank : UInt8 → Bool) (text : Bytes) (entry : Nat) : Nat → Nat
  | 0 => 0
  | q + 1 => if entry < q + 1 ∧ blank (charAt text q) = true then trimEnd blank text entry q else q + 1

def between (text : Bytes) (p q : Nat) : Bytes :=
  (text.drop p).take (q - p)

section Strings

variable {pre mid tail : Bytes} {c : UInt8}

theorem strchr_found (pre tail : Bytes) (hc : c ∉ mid) (hnul : 0 ∉ mid) :
    strchr (pre ++ (mid ++ c :: tail)) c pre.length = some (pre.length + mid.length) := by
  induction mid generalizing pre with
  | nil => simp [strchr, charAt_append]
  | cons x mid ih =>
    rw [List.mem_cons, not_or] at hc hnul
    have hnext := ih (pre ++ [x]) hc.2 hnul.2
    rw [strchr, charAt_append, List.cons_append, List.headD_cons, if_neg (Ne.symm hc.1),
      if_neg (Ne.symm hnul.1)]
    simp only [List.append_assoc, List.singleton_append, List.length_append, List.length_singleton] at hnext
    rw [hnext, List.length_cons]
    congr 1
    omega

theorem strchr_missing (pre : Bytes) (hc : c ∉ mid) (hc0 : c ≠ 0) (hnul : 0 ∉ mid) :
    strchr (pre ++ mid) c pre.length = none := by
  induction mid generalizing pre with
  | nil => simp [strchr, charAt, hc0.symm]
  | cons x mid ih =>
    rw [List.mem_cons, not_or] at hc hnul
    have hnext := ih (pre ++ [x]) hc.2 hnul.2
    rw [strchr, charAt_append, List.headD_cons, if_neg (Ne.symm hc.1), if_neg (Ne.symm hnul.1)]
    simpa only [List.append_assoc, List.singleton_append, List.length_append, List.length_singleton] using hnext

variable {blank : UInt8 → Bool}

-- The skip is not told where the entry ends; it stops there because the separator is not blank.
theorem skipBlank_eq (pre : Bytes) (hnul : 0 ∉ mid) (htail : tail.headD 0 = 0 ∨ blank (tail.headD 0) = false) :
    skipBlank blank (pre ++ (mid ++ tail)) pre.length = pre.length + (mid.takeWhile blank).length := by
  induction mid generalizing pre with
  | nil =>
    rw [skipBlank, charAt_append, List.nil_append, if_neg ?_]
    · simp
    · rintro ⟨hne, hblank⟩
      rcases htail with h | h
      · exact hne h
      · rw [h] at hblank
        simp at hblank
  | cons x mid ih =>
    rw [List.mem_cons, not_or] at hnul
    have hnext := ih (pre ++ [x]) hnul.2
    rw [skipBlank, charAt_append, List.cons_append, List.headD_cons]
    by_cases hx : blank x = true
    · rw [if_pos ⟨Ne.symm hnul.1, hx⟩, List.takeWhile_cons_of_pos hx, List.length_cons]
      simp only [List.append_assoc, List.singleton_append, List.length_append, List.length_singleton] at hnext
      omega
    · rw [if_neg (fun h => hx h.2), List.takeWhile_cons_of_neg hx]
      simp

theorem trimEnd_eq (tail : Bytes) :
    trimEnd blank (pre ++ (mid ++ tail)) pre.length (pre.length + mid.length) =
      pre.length + (mid.rdropWhile blank).length := by
  induction mid using List.reverseRecOn generalizing tail with
  | nil =>
    cases hp : pre.length with
    | zero => simp [trimEnd]
    | succ n => simp [trimEnd]
  | append_singleton mid x ih =>
    have hnext := ih ([x] ++ tail)
    rw [List.length_append, List.length_singleton, ← Nat.add_assoc, trimEnd, charAt_last]
    by_cases hx : blank x = true
    · rw [if_pos ⟨by omega, hx⟩, List.rdropWhile_concat_pos _ _ _ hx]
      simpa only [List.append_assoc] using hnext
    · rw [if_neg (fun h => hx h.2), List.rdropWhile_concat_neg _ _ _ hx]
      simp [Nat.add_assoc]

theorem between_prefix {text : Bytes} (h : mid <+: text) :
    between (pre ++ (text ++ tail)) pre.length (pre.length + mid.length) = mid := by
  obtain ⟨rest, rfl⟩ := h
  simp [between]

theorem between_trimmed (blank : UInt8 → Bool) (pre tail : Bytes) (hnul : 0 ∉ mid)
    (htail : tail.headD 0 = 0 ∨ blank (tail.headD 0) = false) :
    between (pre ++ (mid ++ tail)) (skipBlank blank (pre ++ (mid ++ tail)) pre.length)
      (trimEnd blank (pre ++ (mid ++ tail)) (skipBlank blank (pre ++ (mid ++ tail)) pre.length)
        (pre.length + mid.length)) = trimBy blank mid := by
  have hsplit : mid.takeWhile blank ++ mid.dropWhile blank = mid := List.takeWhile_append_dropWhile
  have hlength := congrArg List.length hsplit
  rw [List.length_append] at hlength
  have htext : pre ++ (mid ++ tail) =
      (pre ++ mid.takeWhile blank) ++ (mid.dropWhile blank ++ tail) := by
    rw [List.append_assoc, ← List.append_assoc (mid.takeWhile blank), hsplit]
  have hfirst := skipBlank_eq pre hnul htail
  rw [← List.length_append] at hfirst
  have hend : pre.length + mid.length = (pre ++ mid.takeWhile blank).length + (mid.dropWhile blank).length := by
    rw [List.length_append]
    omega
  rw [hfirst, hend, htext, trimEnd_eq]
  exact between_prefix (List.rdropWhile_prefix _ _)

end Strings

/-- The loop over the entries of a list. The visit is given the start of an entry and
the comma or terminator after it: `end != NULL ? end : entry + strlen(entry)` is
`stop.getD text.length`, since the terminator is the only NUL. -/
def entryLoop {σ β : Type} (visit : σ → Nat → Nat → Except β σ) (trailing : Option β) (text : Bytes) (s : σ)
    (entry : Nat) : Except β σ :=
  if charAt text entry = 0 then .ok s
  else
    let stop := strchr text comma entry
    match visit s entry (stop.getD text.length) with
    | .error r => .error r
    | .ok s' =>
      match _hstop : stop with
      | none => .ok s'
      | some p =>
        match trailing with
        | some r => if charAt text (p + 1) = 0 then .error r else entryLoop visit trailing text s' (p + 1)
        | none => entryLoop visit trailing text s' (p + 1)
termination_by text.length - entry
decreasing_by
  all_goals
    have hlt := lt_length_of_charAt ‹¬ charAt text entry = 0›
    have hle := strchr_le _hstop
    omega

/-- The loop with a visit that trims its entry and then reads it. -/
def pointerLoop {σ β : Type} (blank : UInt8 → Bool) (visit : σ → Bytes → Except β σ) (trailing : Option β)
    (text : Bytes) (s : σ) (entry : Nat) : Except β σ :=
  if charAt text entry = 0 then .ok s
  else
    let stop := strchr text comma entry
    let first := skipBlank blank text entry
    let trimmedEnd := trimEnd blank text first (stop.getD text.length)
    match visit s (between text first trimmedEnd) with
    | .error r => .error r
    | .ok s' =>
      match _hstop : stop with
      | none => .ok s'
      | some p =>
        match trailing with
        | some r => if charAt text (p + 1) = 0 then .error r else pointerLoop blank visit trailing text s' (p + 1)
        | none => pointerLoop blank visit trailing text s' (p + 1)
termination_by text.length - entry
decreasing_by
  all_goals
    have hlt := lt_length_of_charAt ‹¬ charAt text entry = 0›
    have hle := strchr_le _hstop
    omega

section Loop

variable {σ β : Type} {visit : σ → Nat → Nat → Except β σ} {seen : σ → Bytes → Except β σ}
  {trailing : Option β} {pre mid rest : Bytes} {s : σ}

/-- The visit reads the entry between its two indices as `seen` does. -/
def Sees (text : Bytes) (visit : σ → Nat → Nat → Except β σ) (seen : σ → Bytes → Except β σ) : Prop :=
  ∀ s pre mid tail, text = pre ++ (mid ++ tail) → 0 ∉ mid → (tail.headD 0 = 0 ∨ tail.headD 0 = comma) →
    visit s pre.length (pre.length + mid.length) = seen s mid

theorem entryLoop_last (hsees : Sees (pre ++ mid) visit seen) (hmid : mid ≠ []) (hcomma : comma ∉ mid)
    (hnul : 0 ∉ mid) : entryLoop visit trailing (pre ++ mid) s pre.length = seen s mid := by
  have hstop := strchr_missing pre hcomma (by decide) hnul
  have hvisit := hsees s pre mid [] (by simp) hnul (Or.inl rfl)
  rw [← List.length_append] at hvisit
  have hchar : charAt (pre ++ mid) pre.length ≠ 0 := by
    cases mid with
    | nil => exact absurd rfl hmid
    | cons x mid =>
      rw [charAt_append]
      exact fun h => hnul (h ▸ List.mem_cons_self)
  have hend : (strchr (pre ++ mid) comma pre.length).getD (pre ++ mid).length = (pre ++ mid).length := by
    rw [hstop, Option.getD_none]
  rw [entryLoop, if_neg hchar]
  simp only [hend, hvisit]
  cases seen s mid with
  | error r => rfl
  | ok s' =>
    dsimp only
    split
    · rfl
    · next p hp => simp [hp] at hstop

theorem entryLoop_step (hsees : Sees (pre ++ (mid ++ comma :: rest)) visit seen) (hcomma : comma ∉ mid)
    (hnul : 0 ∉ mid) :
    entryLoop visit trailing (pre ++ (mid ++ comma :: rest)) s pre.length =
      match seen s mid with
      | .error r => .error r
      | .ok s' =>
        match trailing with
        | some r =>
          if rest.headD 0 = 0 then .error r
          else entryLoop visit trailing (pre ++ mid ++ [comma] ++ rest) s' (pre ++ mid ++ [comma]).length
        | none => entryLoop visit trailing (pre ++ mid ++ [comma] ++ rest) s' (pre ++ mid ++ [comma]).length := by
  have hstop := strchr_found pre rest hcomma hnul
  have hvisit := hsees s pre mid (comma :: rest) rfl hnul (Or.inr rfl)
  have hchar : charAt (pre ++ (mid ++ comma :: rest)) pre.length ≠ 0 := by
    cases mid with
    | nil => simp [charAt_append, comma]
    | cons x mid =>
      rw [charAt_append]
      exact fun h => hnul (h ▸ List.mem_cons_self)
  have hnext := charAt_append (pre ++ mid ++ [comma]) rest
  simp only [List.append_assoc, List.length_append, List.length_singleton, List.singleton_append,
    ← Nat.add_assoc] at hnext ⊢
  have hend : (strchr (pre ++ (mid ++ comma :: rest)) comma pre.length).getD (pre ++ (mid ++ comma :: rest)).length =
      pre.length + mid.length := by
    rw [hstop, Option.getD_some]
  rw [entryLoop, if_neg hchar]
  simp only [hend, hvisit]
  cases seen s mid with
  | error r => rfl
  | ok s' =>
    dsimp only
    split
    · next hp => simp [hp] at hstop
    · next p hp =>
      obtain rfl := Option.some.inj (hp.symm.trans hstop)
      rw [hnext]

-- A comma just before the terminator is the one case where the last piece is empty.
theorem splitOn_eq_nil_iff (hnul : 0 ∉ rest) : rest.headD 0 = 0 ↔ (rest.splitOn comma == [[]]) = true := by
  rw [beq_iff_eq]
  cases rest with
  | nil => simp
  | cons x rest =>
    constructor
    · intro h
      exact absurd (h ▸ List.mem_cons_self) hnul
    · intro h
      have hjoin : [comma].intercalate ((x :: rest).splitOn comma) = x :: rest := List.intercalate_splitOn comma
      rw [h] at hjoin
      simp at hjoin

theorem entryLoop_eq (pre : Bytes) (hsees : Sees (pre ++ rest) visit seen) (hnul : 0 ∉ rest) :
    entryLoop visit trailing (pre ++ rest) s pre.length = eachEntry seen trailing s (rest.splitOn comma) := by
  induction hn : rest.length using Nat.strongRecOn generalizing pre rest s with
  | ind n ih =>
  by_cases hcomma : comma ∈ rest
  · obtain ⟨mid, tail, rfl, hmid⟩ := List.eq_append_cons_of_mem hcomma
    simp only [List.mem_append, List.mem_cons, not_or] at hnul
    have htail : tail.length < n := by simp at hn; omega
    have hsees' : Sees (pre ++ mid ++ [comma] ++ tail) visit seen := by simpa using hsees
    have hnext := fun s' => ih _ htail (pre ++ mid ++ [comma]) (s := s') hsees' hnul.2.2 rfl
    rw [entryLoop_step hsees hmid hnul.1, List.splitOn_append_cons_self_of_not_mem hmid, eachEntry,
      if_neg (by simp [List.splitOn_ne_nil])]
    simp only [hnext]
    cases seen s mid with
    | error r => rfl
    | ok s' =>
      cases trailing with
      | none => rfl
      | some r => exact if_congr (splitOn_eq_nil_iff hnul.2.2) rfl rfl
  · rw [List.splitOn_eq_singleton hcomma]
    cases rest with
    | nil => rw [entryLoop, if_pos (by simp [charAt])]; simp [eachEntry]
    | cons x mid =>
      rw [entryLoop_last hsees (by simp) hcomma hnul]
      cases hv : seen s (x :: mid) <;> cases trailing <;> simp [eachEntry, hv]

theorem entryLoop_scanList (text : CString) (hsees : Sees text.bytes visit seen) :
    entryLoop visit trailing text.bytes s 0 = scanList seen trailing s text.bytes :=
  entryLoop_eq [] hsees text.nul_free

variable {visit : σ → Bytes → Except β σ}

theorem pointerLoop_eq_entryLoop (blank : UInt8 → Bool) (text : Bytes) (entry : Nat) :
    pointerLoop blank visit trailing text s entry =
      entryLoop (fun s entry stop => visit s (between text (skipBlank blank text entry)
        (trimEnd blank text (skipBlank blank text entry) stop))) trailing text s entry := by
  induction hn : text.length - entry using Nat.strongRecOn generalizing entry s with
  | ind n ih =>
  rw [pointerLoop, entryLoop]
  by_cases hchar : charAt text entry = 0
  · rw [if_pos hchar, if_pos hchar]
  rw [if_neg hchar, if_neg hchar]
  dsimp only
  cases visit s (between text (skipBlank blank text entry)
    (trimEnd blank text (skipBlank blank text entry) ((strchr text comma entry).getD text.length))) with
  | error r => rfl
  | ok s' =>
    dsimp only
    split
    · rfl
    · next p hstop =>
      have hlt := lt_length_of_charAt hchar
      have hle := strchr_le hstop
      have hnext := ih (text.length - (p + 1)) (by omega) (s := s') (p + 1) rfl
      rw [hnext]

theorem pointerLoop_scanList (blank : UInt8 → Bool) (hblank : blank comma = false) (text : CString) :
    pointerLoop blank visit trailing text.bytes s 0 =
      scanList (fun s entry => visit s (trimBy blank entry)) trailing s text.bytes := by
  rw [pointerLoop_eq_entryLoop]
  refine entryLoop_scanList text ?_
  intro s pre mid tail htext hnul htail
  have hend : tail.headD 0 = 0 ∨ blank (tail.headD 0) = false :=
    htail.imp_right fun h => (congrArg blank h).trans hblank
  simp only [htext, between_trimmed blank pre tail hnul hend]

end Loop

namespace Pointer

def countEntry (maximum : Nat) (valid : Bytes → Bool) (count : Nat) (text : Bytes) : Except Unit Nat :=
  if text.isEmpty || maximum < count + 1 || !valid text then .error () else .ok (count + 1)

def validateAudiences (value : CString) : Bool :=
  match pointerLoop isspace (countEntry maxAudiences fun text => !text.any iscntrl) (some ()) value.bytes 0 0 with
  | .error _ => false
  | .ok count => 0 < count

def validateJwksHosts (value : Option CString) : Bool :=
  match nonempty? value with
  | none => true
  | some text =>
    match pointerLoop isspace (countEntry maxJwksHosts validHostText) (some ()) text.bytes 0 0 with
    | .error _ => false
    | .ok _ => true

def configuredAudienceMatches (configured : CString) (token : Bytes) (maximum : Nat) : Bool :=
  let visit (count : Nat) (text : Bytes) : Except Bool Nat :=
    if text.isEmpty || maximum < count + 1 then .error false
    else if text.length == token.length && text == token then .error true
    else .ok (count + 1)
  match pointerLoop isspace visit none configured.bytes 0 0 with
  | .error found => found
  | .ok _ => false

def hostInList (host : CString) (list : Option CString) : Bool :=
  match nonempty? list with
  | none => false
  | some list =>
    let visit (_ : Unit) (text : Bytes) : Except Bool Unit :=
      if text.length == host.length && equalsIgnoreCase text host.bytes then .error true else .ok ()
    match pointerLoop isblank visit none list.bytes () 0 with
    | .error found => found
    | .ok () => false

theorem validateAudiences_eq (value : CString) :
    validateAudiences value = OAuthValidator.validateAudiences value := by
  rw [validateAudiences, pointerLoop_scanList isspace rfl]
  rfl

theorem validateJwksHosts_eq (value : Option CString) :
    validateJwksHosts value = OAuthValidator.validateJwksHosts value := by
  rw [validateJwksHosts, OAuthValidator.validateJwksHosts]
  cases nonempty? value with
  | none => rfl
  | some text =>
    simp only [pointerLoop_scanList isspace rfl]
    rfl

theorem configuredAudienceMatches_eq (configured : CString) (token : Bytes) (maximum : Nat) :
    configuredAudienceMatches configured token maximum =
      OAuthValidator.configuredAudienceMatches configured token maximum := by
  have hlength (text : Bytes) : (text.length == token.length && text == token) = (text == token) := by
    by_cases h : text = token <;> simp [h]
  rw [configuredAudienceMatches]
  simp only [pointerLoop_scanList isspace rfl, hlength]
  rfl

theorem hostInList_eq (host : CString) (list : Option CString) :
    hostInList host list = OAuthValidator.hostInList host list := by
  cases list with
  | none => rfl
  | some list =>
    by_cases hempty : list.bytes = []
    · have hnone := nonempty?_of_empty hempty
      rw [hostInList, hnone]
      simp [OAuthValidator.hostInList, hempty, scanList, eachEntry]
    · have hsome := nonempty?_of_ne hempty
      rw [hostInList, hsome]
      simp only [pointerLoop_scanList isblank rfl]
      rfl

end Pointer

end OAuthValidator
