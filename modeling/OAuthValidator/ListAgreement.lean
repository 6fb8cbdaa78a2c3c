import OAuthValidator.CommaPointers
import OAuthValidator.ClaimsExact

/-! A list setting is read twice, once when it is checked and once when it is used.
For audiences both readings see the same entries. For JWKS hosts they do so as long
as no line break stands around an entry. -/

namespace OAuthValidator

section Pieces

variable {α : Type} [DecidableEq α] {sep b : α} {text piece : List α}

theorem sep_not_mem_piece (h : piece ∈ text.splitOn sep) : sep ∉ piece := by
  induction text generalizing piece with
  | nil => simp_all
  | cons x text ih =>
    rw [List.splitOn_cons_eq_if_modifyHead] at h
    split_ifs at h with hx
    · rcases List.mem_cons.mp h with rfl | h
      · simp
      · exact ih h
    · obtain ⟨first, rest, hsplit⟩ := List.exists_cons_of_ne_nil (List.splitOn_ne_nil sep text)
      rw [hsplit] at h ih
      rcases List.mem_cons.mp h with rfl | h
      · have hfirst := ih List.mem_cons_self
        simpa [hfirst] using Ne.symm (by simpa using hx)
      · exact ih (List.mem_cons_of_mem _ h)

theorem mem_piece_iff (hb : b ≠ sep) : (∃ piece ∈ text.splitOn sep, b ∈ piece) ↔ b ∈ text := by
  induction text with
  | nil => simp
  | cons x text ih =>
    rw [List.splitOn_cons_eq_if_modifyHead]
    split_ifs with hx
    · have hne : b ≠ x := by
        rw [eq_of_beq hx]
        exact hb
      simpa [hne] using ih
    · obtain ⟨first, rest, hsplit⟩ := List.exists_cons_of_ne_nil (List.splitOn_ne_nil sep text)
      rw [hsplit] at ih ⊢
      simp only [List.modifyHead_cons, List.mem_cons, exists_eq_or_imp] at ih ⊢
      rw [← ih]
      tauto

end Pieces

section Trimming

variable {p q : UInt8 → Bool} {text : Bytes} {b : UInt8}

theorem mem_of_mem_trimBy (h : b ∈ trimBy p text) : b ∈ text :=
  (List.dropWhile_suffix p).subset ((List.rdropWhile_prefix p _).subset h)

theorem mem_trimBy_of_not (hb : b ∈ text) (hp : p b = false) : b ∈ trimBy p text := by
  have hdrop {l : Bytes} (h : b ∈ l) : b ∈ l.dropWhile p := by
    rw [← List.takeWhile_append_dropWhile (p := p) (l := l), List.mem_append] at h
    refine h.resolve_left fun htake => ?_
    have := List.mem_takeWhile_imp htake
    simp [hp] at this
  rw [trimBy, List.rdropWhile, List.mem_reverse]
  exact hdrop (List.mem_reverse.mpr (hdrop hb))

theorem dropWhile_congr {l : Bytes} (h : ∀ b ∈ l, p b = q b) : l.dropWhile p = l.dropWhile q := by
  induction l with
  | nil => rfl
  | cons x l ih =>
    rw [List.forall_mem_cons] at h
    rw [List.dropWhile_cons, List.dropWhile_cons, h.1, ih h.2]

theorem trimBy_congr (h : ∀ b ∈ text, p b = q b) : trimBy p text = trimBy q text := by
  rw [trimBy, trimBy, dropWhile_congr h, List.rdropWhile, List.rdropWhile]
  rw [dropWhile_congr fun b hb => h b ((List.dropWhile_suffix q).subset (List.mem_reverse.mp hb))]

theorem trimBy_head (h : (trimBy p text).head? = some b) : p b = false := by
  obtain ⟨rest, hrest⟩ := List.rdropWhile_prefix p (text.dropWhile p)
  have hhead : (text.dropWhile p).head? = some b := by
    rw [← hrest, List.head?_append, ← trimBy, h]
    rfl
  have hnot := List.head?_dropWhile_not p text
  rw [hhead] at hnot
  simpa using hnot

theorem trimBy_getLast (h : (trimBy p text).getLast? = some b) : p b = false := by
  have hne : trimBy p text ≠ [] := by
    intro hnil
    simp [hnil] at h
  have hnot := List.rdropWhile_last_not p (text.dropWhile p) hne
  rw [List.getLast?_eq_some_getLast hne] at h
  obtain rfl := Option.some.inj h
  exact Bool.eq_false_iff.mpr hnot

end Trimming

/-- The white space at either end of an entry, or a comma in it. -/
def Unlistable (text : Bytes) : Prop :=
  comma ∈ text ∨ (∃ b, text.head? = some b ∧ isspace b = true) ∨ ∃ b, text.getLast? = some b ∧ isspace b = true

theorem not_unlistable {value text : Bytes} (h : text ∈ listEntries value) : ¬ Unlistable text := by
  obtain ⟨piece, hpiece, rfl⟩ := List.mem_map.mp h
  rintro (hcomma | ⟨b, hhead, hb⟩ | ⟨b, hlast, hb⟩)
  · exact sep_not_mem_piece hpiece (mem_of_mem_trimBy hcomma)
  · simp [trimBy_head hhead] at hb
  · simp [trimBy_getLast hlast] at hb

/-- At its use an accepted list of audiences stands for its entries. -/
theorem audience_list_agrees {audiences : CString} (haccepted : Pointer.validateAudiences audiences = true) :
    (∀ entry ∈ listEntries audiences.bytes, entry ≠ [] ∧ ∀ b ∈ entry, iscntrl b = false) ∧
    ∀ audience : CString,
      (Pointer.configuredAudienceMatches audiences audience.bytes maxAudiences = true ↔
        audience.bytes ∈ listEntries audiences.bytes) ∧
      (Unlistable audience.bytes →
        Pointer.configuredAudienceMatches audiences audience.bytes maxAudiences = false) := by
  rw [Pointer.validateAudiences_eq] at haccepted
  obtain ⟨count, hcounted⟩ := validateAudiences_counted haccepted
  refine ⟨fun entry hentry => ?_, fun audience => ?_⟩
  · obtain ⟨piece, hpiece, rfl⟩ := List.mem_map.mp hentry
    have hvalid := hcounted.valid piece hpiece
    exact ⟨hcounted.noBlank piece hpiece, by simpa using hvalid⟩
  · have hcount : (listEntries audiences.bytes).length ≤ maxAudiences := by
      have hle := hcounted.count_le (List.splitOn_ne_nil _ _)
      rw [hcounted.count_eq, Nat.zero_add] at hle
      rwa [listEntries, List.length_map]
    have hmatch : configuredAudienceMatches audiences audience.bytes maxAudiences = true ↔
        audience.bytes ∈ listEntries audiences.bytes := configuredAudienceMatches_iff hcounted.noBlank hcount
    rw [Pointer.configuredAudienceMatches_eq]
    refine ⟨hmatch, fun hunlistable => ?_⟩
    rw [← Bool.not_eq_true, hmatch]
    exact fun hmem => not_unlistable hmem hunlistable

theorem audience_list_agrees_spaced :
    Pointer.configuredAudienceMatches (.lit " web ,\tdb") (ascii "db") maxAudiences = true ∧
    Pointer.configuredAudienceMatches (.lit " web ,\tdb") (ascii "web ,\tdb") maxAudiences = false := by
  have haccepted : Pointer.validateAudiences (.lit " web ,\tdb") = true := by decide +kernel
  have hagree := (audience_list_agrees haccepted).2
  refine ⟨(hagree (.lit "db")).1.mpr (by decide), (hagree (.lit "web ,\tdb")).2 (Or.inl (by decide))⟩

/-! `host_in_list` trims spaces and tabs, the check of the setting trims the line
breaks too. -/

/-- Line feed, vertical tab, form feed and carriage return. -/
def isbreak (b : UInt8) : Bool :=
  0x0a ≤ b && b ≤ 0x0d

theorem isspace_eq_isblank {b : UInt8} (h : isbreak b = false) : isspace b = isblank b := by
  grind [isbreak, isspace, isblank]

theorem isblank_of_isbreak {b : UInt8} (h : isbreak b = true) : isblank b = false := by
  grind [isbreak, isblank]

theorem tolower_of_isbreak {b : UInt8} (h : isbreak b = true) : tolower b = b := by
  grind [isbreak, tolower]

theorem tolower_host_not_isbreak {b : UInt8} (h : (isalnum b || b == 0x2e || b == 0x2d) = true) :
    isbreak (tolower b) = false := by
  grind [isbreak, tolower, isalnum]

theorem equalsIgnoreCase_iff {a b : Bytes} :
    equalsIgnoreCase a b = true ↔ a.map tolower = b.map tolower := by
  rw [equalsIgnoreCase, beq_iff_eq]

theorem eachEntry_search {found : Bytes → Bool} (hnil : found [] = false) (entries : List Bytes) :
    eachEntry (fun (_ : Unit) entry => if found entry then Except.error true else .ok ()) none () entries =
      if entries.any found then .error true else .ok () := by
  induction entries with
  | nil => rfl
  | cons entry rest ih =>
    rw [eachEntry, List.any_cons]
    by_cases hlast : (entry.isEmpty && rest.isEmpty) = true
    · rw [if_pos hlast]
      simp only [Bool.and_eq_true, List.isEmpty_iff] at hlast
      simp [hlast.1, hlast.2, hnil]
    · rw [if_neg hlast]
      by_cases hentry : found entry = true
      · simp [hentry]
      · simp [hentry, ih]

theorem hostInList_pieces {host list : CString} (hne : host.bytes ≠ []) :
    Pointer.hostInList host (some list) = true ↔
      ∃ piece ∈ list.bytes.splitOn comma, equalsIgnoreCase host.bytes (trimBy isblank piece) = true := by
  let found (entry : Bytes) : Bool :=
    (trimBy isblank entry).length == host.length && equalsIgnoreCase (trimBy isblank entry) host.bytes
  have hfound (entry : Bytes) :
      found entry = true ↔ equalsIgnoreCase host.bytes (trimBy isblank entry) = true := by
    simp only [found, Bool.and_eq_true, beq_iff_eq, equalsIgnoreCase_iff]
    constructor
    · exact fun h => h.2.symm
    · intro h
      have hlength := congrArg List.length h
      simp only [List.length_map] at hlength
      exact ⟨hlength.symm, h.symm⟩
  have hnil : found [] = false := by
    rw [← Bool.not_eq_true, hfound, equalsIgnoreCase_iff]
    simpa [trimBy] using hne
  have hscan := eachEntry_search hnil (list.bytes.splitOn comma)
  rw [Pointer.hostInList_eq, hostInList, scanList, hscan]
  simp only [← hfound]
  cases hany : (list.bytes.splitOn comma).any found with
  | true => simpa using hany
  | false => simpa using hany

theorem validateJwksHosts_counted {list : CString} (h : Pointer.validateJwksHosts (some list) = true) :
    list.bytes = [] ∨ ∃ count, EntriesCounted maxJwksHosts validHostText 0 count (list.bytes.splitOn comma) := by
  by_cases hempty : list.bytes = []
  · exact Or.inl hempty
  · have hsome := nonempty?_of_ne hempty
    rw [Pointer.validateJwksHosts_eq, validateJwksHosts, hsome] at h
    simp only at h
    split at h
    · simp at h
    · next count hcount =>
      rcases eachEntry_countEntries hcount with ⟨hsingle, _⟩ | hcounted
      · have hjoin : [comma].intercalate (list.bytes.splitOn comma) = list.bytes := List.intercalate_splitOn comma
        rw [hsingle] at hjoin
        exact absurd hjoin.symm hempty
      · exact Or.inr ⟨count, hcounted⟩

def Broken (piece : Bytes) : Prop :=
  ∃ b ∈ piece, isbreak b = true

theorem trimBy_isspace_of_not_broken {piece : Bytes} (h : ¬ Broken piece) :
    trimBy isspace piece = trimBy isblank piece :=
  trimBy_congr fun b hb => isspace_eq_isblank (Bool.eq_false_iff.mpr fun hbreak => h ⟨b, hb, hbreak⟩)

/-- A host of an accepted list, as the check of the setting reads the list. -/
def ListsHost (list host : CString) : Prop :=
  ∃ entry ∈ listEntries list.bytes, equalsIgnoreCase host.bytes entry = true

def SameAtUse (list host : CString) : Prop :=
  Pointer.hostInList host (some list) = true ↔ ListsHost list host

/-- No piece with a line break matters for the host: it is not what `host_in_list`
compares with the host, and if the host is its entry then it is also the entry of a
piece without line breaks. -/
def BreaksIrrelevant (list host : CString) : Prop :=
  ∀ piece ∈ list.bytes.splitOn comma, Broken piece →
    equalsIgnoreCase host.bytes (trimBy isblank piece) = false ∧
    (equalsIgnoreCase host.bytes (trimBy isspace piece) = true →
      ∃ other ∈ list.bytes.splitOn comma, ¬ Broken other ∧
        equalsIgnoreCase host.bytes (trimBy isspace other) = true)

theorem listsHost_pieces {list host : CString} :
    ListsHost list host ↔
      ∃ piece ∈ list.bytes.splitOn comma, equalsIgnoreCase host.bytes (trimBy isspace piece) = true := by
  simp [ListsHost, listEntries]

section Accepted

variable {list host : CString} (haccepted : Pointer.validateJwksHosts (some list) = true)

include haccepted

theorem not_listsHost_of_broken (hne : host.bytes ≠ []) {piece : Bytes} (hbroken : Broken piece)
    (hmatch : equalsIgnoreCase host.bytes (trimBy isblank piece) = true) : ¬ ListsHost list host := by
  rw [listsHost_pieces]
  rintro ⟨other, hother, hsame⟩
  rw [equalsIgnoreCase_iff] at hmatch hsame
  rcases validateJwksHosts_counted haccepted with hempty | ⟨count, hcounted⟩
  · rw [hempty] at hother
    simp only [List.splitOn_nil, List.mem_singleton] at hother
    rw [hother] at hsame
    exact hne (List.map_eq_nil_iff.mp hsame)
  · obtain ⟨b, hb, hbreak⟩ := hbroken
    have hmem : tolower b ∈ (trimBy isblank piece).map tolower :=
      List.mem_map_of_mem (mem_trimBy_of_not hb (isblank_of_isbreak hbreak))
    rw [← hmatch, hsame, tolower_of_isbreak hbreak] at hmem
    obtain ⟨c, hc, rfl⟩ := List.mem_map.mp hmem
    have hvalid := hcounted.valid other hother
    simp only [validHostText, Bool.and_eq_true, List.all_eq_true] at hvalid
    rw [tolower_host_not_isbreak (hvalid.2 c hc)] at hbreak
    simp at hbreak

theorem sameAtUse_iff (hne : host.bytes ≠ []) : SameAtUse list host ↔ BreaksIrrelevant list host := by
  rw [SameAtUse, hostInList_pieces hne]
  constructor
  · intro hsame piece hpiece hbroken
    have hskipped {other : Bytes} (hother : other ∈ list.bytes.splitOn comma) (hb : Broken other) :
        ¬ equalsIgnoreCase host.bytes (trimBy isblank other) = true := fun hmatch =>
      not_listsHost_of_broken haccepted hne hb hmatch (hsame.mp ⟨other, hother, hmatch⟩)
    refine ⟨Bool.eq_false_iff.mpr (hskipped hpiece hbroken), fun hentry => ?_⟩
    obtain ⟨other, hother, hmatch⟩ := hsame.mpr (listsHost_pieces.mpr ⟨piece, hpiece, hentry⟩)
    have hclean : ¬ Broken other := fun hb => hskipped hother hb hmatch
    exact ⟨other, hother, hclean, by rwa [trimBy_isspace_of_not_broken hclean]⟩
  · intro hclear
    rw [listsHost_pieces]
    constructor
    · rintro ⟨piece, hpiece, hmatch⟩
      have hclean : ¬ Broken piece := fun hb => by simp [(hclear piece hpiece hb).1] at hmatch
      exact ⟨piece, hpiece, by rwa [trimBy_isspace_of_not_broken hclean]⟩
    · rintro ⟨piece, hpiece, hentry⟩
      by_cases hb : Broken piece
      · obtain ⟨other, hother, hclean, hmatch⟩ := (hclear piece hpiece hb).2 hentry
        exact ⟨other, hother, by rwa [← trimBy_isspace_of_not_broken hclean]⟩
      · exact ⟨piece, hpiece, by rwa [← trimBy_isspace_of_not_broken hb]⟩

/-- An accepted list of hosts keeps its meaning for a host exactly if its line breaks
are irrelevant for the host, and for every host exactly if it has none. -/
theorem host_list_agrees_iff :
    (∀ host : CString, host.bytes ≠ [] → (SameAtUse list host ↔ BreaksIrrelevant list host)) ∧
    ((∀ host : CString, host.bytes ≠ [] → SameAtUse list host) ↔ ∀ b ∈ list.bytes, isbreak b = false) := by
  refine ⟨fun host hne => sameAtUse_iff haccepted hne, ?_, ?_⟩
  · intro hall b hb
    by_contra hnot
    have hbreak : isbreak b = true := by simpa using hnot
    have hcomma : b ≠ comma := by
      rintro rfl
      exact hnot rfl
    obtain ⟨piece, hpiece, hmem⟩ := (mem_piece_iff hcomma).mpr hb
    have hbroken : Broken piece := ⟨b, hmem, hbreak⟩
    -- the piece as `host_in_list` trims it is a host on which the readings differ
    have hnul : 0 ∉ trimBy isblank piece := fun h0 =>
      list.nul_free ((mem_piece_iff (by decide)).mp ⟨piece, hpiece, mem_of_mem_trimBy h0⟩)
    have hne : trimBy isblank piece ≠ [] :=
      List.ne_nil_of_mem (mem_trimBy_of_not hmem (isblank_of_isbreak hbreak))
    have hclear : BreaksIrrelevant list ⟨_, hnul⟩ := (sameAtUse_iff haccepted hne).mp (hall ⟨_, hnul⟩ hne)
    have hself := (hclear piece hpiece hbroken).1
    simp [equalsIgnoreCase] at hself
  · intro hnone host hne
    refine (sameAtUse_iff haccepted hne).mpr fun piece hpiece hbroken => ?_
    obtain ⟨b, hb, hbreak⟩ := hbroken
    have hcomma : b ≠ comma := by
      rintro rfl
      exact sep_not_mem_piece hpiece hb
    rw [hnone b ((mem_piece_iff hcomma).mp ⟨piece, hpiece, hb⟩)] at hbreak
    simp at hbreak

end Accepted

theorem host_list_agrees_iff_plain :
    Pointer.hostInList (.lit "B") (some (.lit "a, b\t")) = true := by
  have haccepted : Pointer.validateJwksHosts (some (.lit "a, b\t")) = true := by decide +kernel
  have hagree := (host_list_agrees_iff haccepted).2
  have hsame := hagree.mpr (by decide +kernel) (.lit "B") (by decide)
  exact hsame.mpr ⟨ascii "b", by decide, by decide⟩

/-- A line feed before an entry is let through and then hides the entry. -/
theorem newline_hides_host :
    Pointer.validateJwksHosts (some (.lit "a,\nb")) = true ∧ ListsHost (.lit "a,\nb") (.lit "b") ∧
    Pointer.hostInList (.lit "b") (some (.lit "a,\nb")) = false :=
  ⟨by decide +kernel, ⟨ascii "b", by decide, by decide⟩, by decide +kernel⟩

end OAuthValidator
