import StateKnot.Integrations.Catalog
import StateKnot.Lib.Paging

/-!
# Complete and caller-bound pagination

A reader that follows the cursors of a listing gets every entry visible to it once and in
the order of the catalog: the server accepts every cursor that it issues, and the position in
it moves on by a page.

A cursor is bound to its reader by the tag, the digest of the reader's subject and scopes.
The subject stands in front of the scopes without its length.  It holds no control
character, and the length in front of a scope begins with a zero byte, so the subject ends at
the first zero byte.
-/

namespace StateKnot

open Lib

/-! ## Parts of a cursor -/

/-- A text that a dot does not cut. -/
def Undotted (text : String) : Prop := '.' ∉ text.toList

instance (text : String) : Decidable (Undotted text) := inferInstanceAs (Decidable (¬ _))

variable {n : Nat} {kind : ListingKind} {digest tag : String}

theorem hexDigit_ne (hn : n < 16) : Digest.hexDigit n ≠ '.' ∧ Digest.hexDigit n ≠ 'p' := by
  have hall : ∀ m < 16, Digest.hexDigit m ≠ '.' ∧ Digest.hexDigit m ≠ 'p' := by decide
  exact hall n hn

theorem undotted_hex (digest : Digest) : Undotted digest.hex := by
  intro hdot
  obtain ⟨n, hn, hc⟩ := Digest.exists_of_mem_hex hdot
  exact (hexDigit_ne hn).1 hc.symm

theorem utf8ByteSize_hex (digest : Digest) : digest.hex.utf8ByteSize = 2 * digest.bytes.length := by
  have hall : ∀ m < 16, (Digest.hexDigit m).utf8Size = 1 := by decide
  rw [utf8ByteSize_of_ascii, Digest.length_hex]
  intro c hc
  obtain ⟨n, hn, rfl⟩ := Digest.exists_of_mem_hex hc
  exact hall n hn

theorem utf8_toString (n : Nat) : utf8 (toString n).toList = printed n := by
  show utf8 (String.ofList (Nat.toDigits 10 n)).toList = printed n
  rw [String.toList_ofList]
  rfl

theorem undotted_toString (n : Nat) : Undotted (toString n) := by
  intro hdot
  have hbyte : (46 : UInt8) ∈ printed n := by
    rw [← utf8_toString]
    exact List.mem_flatMap.mpr ⟨'.', hdot, by decide⟩
  have hdigit := (shortest_printed n).1.allDigits 46 hbyte
  exact absurd hdigit (by decide)

theorem parseUsize_printed (hn : n ≤ 18446744073709551615) : parseUsize (printed n) = some n := by
  obtain ⟨hshortest, hvalue, _⟩ := shortest_printed n
  have hdigits := hshortest.allDigits
  have hnonempty := hshortest.nonempty
  have hstrip : stripPlus (printed n) = printed n := by
    unfold stripPlus
    split
    · -- the plus sign is no digit
      rename_i heq
      rw [heq] at hdigits
      exact absurd (hdigits 43 List.mem_cons_self) (by decide)
    · rfl
  have hany : (printed n).any (fun byte => !isDigit byte) = false := by
    simpa [AllDigits] using hdigits
  unfold parseUsize
  dsimp only
  rw [hstrip, if_neg (by simp [hnonempty, hany]), hvalue, if_neg (by omega)]

theorem undotted_scopeTag (E : Encoding) (cacheScope : McpServerCacheScope)
    (principal : McpServerPrincipal) : Undotted (scopeTag E cacheScope principal) := by
  cases cacheScope with
  | publicScope =>
    show Undotted "public"
    decide
  | privateScope => exact undotted_hex _

/-- A cursor is cut into the parts it was joined from. -/
theorem splitOn_pageCursor (hdigest : Undotted digest) (htag : Undotted tag) (offset : Nat) :
    (pageCursor kind digest tag offset).toList.splitOn '.' =
      (cursorHead kind digest tag).map String.toList ++ [(toString offset).toList] := by
  have hparts : ∀ part ∈ cursorHead kind digest tag ++ [toString offset], Undotted part := by
    have hkind : ∀ part ∈ kind.segment, Undotted part := by cases kind <;> decide
    intro part hpart
    simp only [cursorHead, List.cons_append, List.mem_cons, List.mem_append, List.not_mem_nil,
      or_false] at hpart
    rcases hpart with rfl | (hpart | rfl | rfl) | rfl
    · decide
    · exact hkind part hpart
    · exact hdigest
    · exact htag
    · exact undotted_toString offset
  rw [pageCursor, String.toList_intercalate]
  show List.splitOn '.' (['.'].intercalate _) = _
  rw [List.splitOn_intercalate]
  · rw [List.map_append]
    rfl
  · intro part hpart
    obtain ⟨text, htext, rfl⟩ := List.mem_map.mp hpart
    exact hparts text htext
  · simp [cursorHead]

theorem utf8ByteSize_toString (n : Nat) : (toString n).utf8ByteSize = (printed n).length := by
  rw [utf8ByteSize_eq_length, ← utf8_toList, utf8_toString]

theorem utf8ByteSize_pageCursor (kind : ListingKind) (digest tag : String) (offset : Nat) :
    (pageCursor kind digest tag offset).utf8ByteSize ≤
      15 + digest.utf8ByteSize + tag.utf8ByteSize + (printed offset).length := by
  have hdot : ".".utf8ByteSize = 1 := rfl
  have hversion : "v1".utf8ByteSize = 2 := rfl
  have hoffset := utf8ByteSize_toString offset
  cases kind with
  | tools =>
    show ("v1" ++ "." ++ digest ++ "." ++ tag ++ "." ++ toString offset).utf8ByteSize ≤ _
    simp only [String.utf8ByteSize_append]
    omega
  | resources =>
    have hkind : "resources".utf8ByteSize = 9 := rfl
    show ("v1" ++ "." ++ "resources" ++ "." ++ digest ++ "." ++ tag ++ "." ++
      toString offset).utf8ByteSize ≤ _
    simp only [String.utf8ByteSize_append]
    omega
  | templates =>
    have hkind : "templates".utf8ByteSize = 9 := rfl
    show ("v1" ++ "." ++ "templates" ++ "." ++ digest ++ "." ++ tag ++ "." ++
      toString offset).utf8ByteSize ≤ _
    simp only [String.utf8ByteSize_append]
    omega

/-- What an accepted cursor is made of. -/
theorem parseCursor_eq_ok {cursor : String} {offset : Nat} :
    parseCursor kind digest tag cursor = .ok offset ↔
      cursor.utf8ByteSize ≤ kind.maxCursorBytes ∧
      ∃ part, cursor.toList.splitOn '.' =
          (cursorHead kind digest tag).map String.toList ++ [part] ∧
        parseUsize (utf8 part) = some offset := by
  simp only [parseCursor, bind_eq_ok, reject_eq_ok, okOr_eq_ok, exists_const]
  set parts := cursor.toList.splitOn '.'
  set head := (cursorHead kind digest tag).map String.toList
  constructor
  · rintro ⟨hsize, hvalid, hoffset⟩
    obtain ⟨part, hpart, hparse⟩ := Option.bind_eq_some_iff.mp hoffset
    obtain ⟨hlt, hget⟩ := List.getElem?_eq_some_iff.mp hpart
    simp only [hoffset, Bool.not_eq_true', decide_eq_false_iff_not, reduceCtorEq, false_or, not_or,
      not_not, not_lt] at hvalid
    refine ⟨by omega, part, ?_, hparse⟩
    -- the head, the position and nothing more
    rw [← hvalid.1, ← hget, List.take_append_getElem hlt, List.take_of_length_le hvalid.2]
  · rintro ⟨hsize, part, hparts, hparse⟩
    have hpart : parts[head.length]? = some part := by
      rw [hparts, List.getElem?_append_right (Nat.le_refl _), Nat.sub_self,
        List.getElem?_cons_zero]
    have hoffset :
        (parts[head.length]?).bind (fun part => parseUsize (utf8 part)) = some offset := by
      rw [hpart, Option.bind_some, hparse]
    have htake : parts.take head.length = head := by
      rw [hparts, List.take_left]
    have hlength : parts.length = head.length + 1 := by
      rw [hparts, List.length_append, List.length_singleton]
    refine ⟨by omega, ?_, hoffset⟩
    rw [hoffset, htake, hlength]
    simp

theorem parseCursor_pageCursor {offset : Nat}
    (hdigest : Undotted digest) (htag : Undotted tag) (hdigestSize : digest.utf8ByteSize ≤ 64)
    (htagSize : tag.utf8ByteSize ≤ 64) (hoffset : offset ≤ 18446744073709551615) :
    parseCursor kind digest tag (pageCursor kind digest tag offset) = .ok offset := by
  have hsize := utf8ByteSize_pageCursor kind digest tag offset
  have hprinted := length_printed_le_width (by decide : 0 < 20)
    (show offset < 10 ^ 20 by omega)
  have hmaximum : 192 ≤ kind.maxCursorBytes := by cases kind <;> decide
  refine parseCursor_eq_ok.mpr ⟨by omega, _, splitOn_pageCursor hdigest htag offset, ?_⟩
  rw [utf8_toString]
  exact parseUsize_printed hoffset

/-! ## Complete listings -/

theorem McpServerPrincipal.hasScope_iff (principal : McpServerPrincipal) (scope : String) :
    principal.hasScope scope = true ↔ scope ∈ principal.scopes := by
  rw [hasScope, Option.isSome_iff_exists]
  have hfound : ∀ found, binarySearchBy (fun candidate => compare candidate scope)
      principal.scopes = some found ↔ found ∈ principal.scopes ∧ found = scope := by
    intro found
    exact binarySearchBy_eq_some principal.sorted
  constructor
  · intro ⟨found, hsome⟩
    obtain ⟨hmem, rfl⟩ := (hfound found).mp hsome
    exact hmem
  · intro hmem
    exact ⟨scope, (hfound scope).mpr ⟨hmem, rfl⟩⟩

/-- The principal holds the scopes. -/
def McpServerPrincipal.Holds (principal : McpServerPrincipal) (scopes : List String) : Prop :=
  ∀ scope ∈ scopes, scope ∈ principal.scopes

instance (principal : McpServerPrincipal) (scopes : List String) :
    Decidable (principal.Holds scopes) := inferInstanceAs (Decidable (∀ scope ∈ scopes, _))

/-- Following the cursors from the first page ends, and the pages together are the entries. -/
def ListsExactly {α : Type} (page : Option String → Except ErrorData (List α × Option String))
    (entries : List α) : Prop :=
  (∃ pages, Walk page none pages) ∧ ∀ pages, Walk page none pages → pages.flatten = entries

namespace Listing

variable {α : Type} {listing : Listing α} {E : Encoding} {principal : McpServerPrincipal}

/-- The entries that the principal sees, in the order of the catalog. -/
def visible (listing : Listing α) (principal : McpServerPrincipal) : List α :=
  listing.entries.filter fun entry => principal.Holds (listing.requiredScopes entry)

theorem filter_isVisible (listing : Listing α) (principal : McpServerPrincipal) :
    listing.entries.filter (listing.isVisible principal) = listing.visible principal := by
  apply List.filter_congr
  intro entry _
  rw [isVisible, Bool.eq_iff_iff, List.all_eq_true, decide_eq_true_eq]
  simp only [principal.hasScope_iff]
  rfl

/-- A page is the stretch of the visible entries at its position. -/
theorem page_eq_ok {cursor : Option String} {start : Nat}
    (hbounded : listing.entries.length ≤ 4096)
    (hcursor : listing.startOf E principal cursor = .ok start)
    (hstart : start ≤ (listing.visible principal).length) :
    listing.page E principal cursor = .ok (pageAt
      (pageCursor listing.kind listing.digest.hex (listing.tag E principal))
      (listing.visible principal) listing.options.pageSize start) := by
  have hlength : (listing.visible principal).length ≤ 4096 :=
    (List.length_filter_le _ _).trans hbounded
  have hpositive := listing.options.pageSize_positive
  have hstop : min (min (start + listing.options.pageSize) 18446744073709551615)
      (listing.visible principal).length =
      min (start + listing.options.pageSize) (listing.visible principal).length := by omega
  unfold page
  rw [filter_isVisible, bind_eq_ok]
  refine ⟨start, hcursor, ?_⟩
  rw [bind_eq_ok]
  refine ⟨(), reject_eq_ok.mpr (by omega), ?_⟩
  dsimp only
  rw [hstop]
  show Except.ok _ = Except.ok _
  congr 1
  refine Prod.ext ?_ ?_
  · -- the stretch ends with the entries or after a page
    show ((listing.visible principal).drop start).take _ =
      ((listing.visible principal).drop start).take _
    rcases Nat.le_total (start + listing.options.pageSize) (listing.visible principal).length with
      hfull | hrest
    · rw [Nat.min_eq_left hfull, Nat.add_sub_cancel_left]
    · rw [Nat.min_eq_right hrest, ← List.length_drop, List.take_length, List.take_of_length_le]
      rw [List.length_drop]
      omega
  · show (if _ then some _ else none) = if _ then some _ else none
    by_cases hmore : start + listing.options.pageSize < (listing.visible principal).length
    · rw [Nat.min_eq_left hmore.le, if_pos hmore]
    · rw [Nat.min_eq_right (not_lt.mp hmore), if_neg (lt_irrefl _), if_neg hmore]

theorem listsExactly (hbounded : listing.entries.length ≤ 4096)
    (hdigest : listing.digest.bytes.length = 32)
    (hhash : ∀ bytes, (E.sha256 bytes).bytes.length = 32) :
    ListsExactly (listing.page E principal) (listing.visible principal) := by
  have htagSize : (listing.tag E principal).utf8ByteSize ≤ 64 := by
    unfold tag scopeTag
    split
    · decide
    · rw [utf8ByteSize_hex, hhash]
  have haccepts : ∀ start ≤ (listing.visible principal).length, listing.accepts E principal
      (pageCursor listing.kind listing.digest.hex (listing.tag E principal) start) = .ok start := by
    intro start hstart
    have hlength := (List.length_filter_le (fun entry =>
      decide (principal.Holds (listing.requiredScopes entry))) listing.entries).trans hbounded
    apply parseCursor_pageCursor (undotted_hex _) (undotted_scopeTag _ _ _) _ htagSize
    · exact hstart.trans (hlength.trans (by decide))
    · rw [utf8ByteSize_hex, hdigest]
  have hfirst : listing.startOf E principal none = .ok 0 := rfl
  obtain ⟨pages, hwalk, hpages⟩ := exists_walk listing.options.pageSize_positive
    (fun start hstart => page_eq_ok hbounded (haccepts start hstart) hstart)
    (page_eq_ok hbounded hfirst (Nat.zero_le _))
  refine ⟨⟨pages, hwalk⟩, ?_⟩
  intro pages' hwalk'
  rw [hwalk'.unique hwalk]
  exact hpages

end Listing

/-! ## Cursors are bound to their reader -/

/-- The characters of a subject are encoded without zero bytes. -/
theorem McpServerPrincipal.subject_ne_zero (principal : McpServerPrincipal) :
    ∀ byte ∈ utf8 principal.subject.toList, byte ≠ 0 := by
  intro byte hbyte hzero
  obtain ⟨c, hc, hmem⟩ := List.mem_flatMap.mp hbyte
  have hvalue := eq_of_ascii_mem hmem (by rw [hzero]; decide)
  have hvalid := principal.subject_valid
  simp only [validateDisplayValue, bind_eq_ok, reject_eq_ok, exists_const] at hvalid
  have hcontrol := hvalid.2.2.2
  simp only [List.any_eq_true, not_exists, not_and] at hcontrol
  apply hcontrol c hc
  have hval : c.val = 0 := by
    rw [hzero] at hvalue
    exact UInt32.toNat_inj.mp hvalue.symm
  simp [isControl, hval]

theorem McpServerPrincipal.scope_length (principal : McpServerPrincipal) {scope : String}
    (h : scope ∈ principal.scopes) : (utf8 scope.toList).length ≤ 256 := by
  have hvalid := principal.scopes_valid scope h
  rw [McpServerPrincipal.validateScope, reject_eq_ok, not_or, not_or, not_lt,
    utf8ByteSize_eq_length, ← utf8_toList] at hvalid
  exact hvalid.2.1

theorem takeWhile_append_of_zero {front rest : List UInt8} (hfront : ∀ byte ∈ front, byte ≠ 0)
    (hrest : rest = [] ∨ ∃ tail, rest = 0 :: tail) :
    (front ++ rest).takeWhile (· ≠ 0) = front := by
  rw [List.takeWhile_append_of_pos (by simpa using hfront)]
  rcases hrest with rfl | ⟨tail, rfl⟩
  · simp
  · simp

theorem McpServerPrincipal.material_injective : Function.Injective material := by
  intro a b h
  have hscopes : ∀ principal : McpServerPrincipal,
      (principal.scopes.flatMap fun scope => lengthPrefixed 8 (utf8 scope.toList)) =
        (principal.scopes.map fun scope => utf8 scope.toList).flatMap (lengthPrefixed 8) := by
    intro principal
    rw [List.flatMap_map]
  have hshort : ∀ principal : McpServerPrincipal, ∀ bytes ∈
      principal.scopes.map (fun scope => utf8 scope.toList), bytes.length < 256 ^ 7 := by
    intro principal bytes hbytes
    obtain ⟨scope, hscope, rfl⟩ := List.mem_map.mp hbytes
    have hlength := principal.scope_length hscope
    omega
  -- the first scope begins with a zero byte
  have hzero : ∀ principal : McpServerPrincipal,
      (principal.scopes.flatMap fun scope => lengthPrefixed 8 (utf8 scope.toList)) = [] ∨
      ∃ tail, (principal.scopes.flatMap fun scope => lengthPrefixed 8 (utf8 scope.toList)) =
        0 :: tail := by
    intro principal
    cases hcases : principal.scopes with
    | nil => exact .inl rfl
    | cons scope rest =>
      have hmem : scope ∈ principal.scopes := by rw [hcases]; exact List.mem_cons_self
      have hlength := principal.scope_length hmem
      obtain ⟨tail, htail⟩ := bigEndian_of_lt (show (utf8 scope.toList).length < 256 ^ 7 by omega)
      refine .inr ⟨tail ++ utf8 scope.toList ++ rest.flatMap fun scope =>
        lengthPrefixed 8 (utf8 scope.toList), ?_⟩
      rw [List.flatMap_cons, lengthPrefixed, htail]
      simp
  have hsubject : utf8 a.subject.toList = utf8 b.subject.toList := by
    rw [← takeWhile_append_of_zero a.subject_ne_zero (hzero a),
      ← takeWhile_append_of_zero b.subject_ne_zero (hzero b)]
    exact congrArg _ h
  have hrest := h
  rw [material, material, hsubject, List.append_cancel_left_eq, hscopes, hscopes] at hrest
  have hmaps := flatMap_lengthPrefixed_inj (by decide)
    (fun bytes hbytes => (hshort a bytes hbytes).trans (by decide))
    (fun bytes hbytes => (hshort b bytes hbytes).trans (by decide)) hrest
  have hinjective : Function.Injective fun text : String => utf8 text.toList := by
    intro text other htexts
    apply toUTF8_injective
    rwa [← utf8_toList, ← utf8_toList]
  have htext := hinjective hsubject
  have hlist := List.map_injective_iff.mpr hinjective hmaps
  cases a
  cases b
  cases htext
  cases hlist
  rfl

theorem ListingKind.segment_injective : Function.Injective segment := by
  intro a b h
  cases a <;> cases b <;> first | rfl | simp [segment] at h

namespace Listing

variable {α β : Type} {listing : Listing α} {listing' : Listing β} {E : Encoding}
  {principal principal' : McpServerPrincipal}

theorem cursor_of_page {cursor : Option String} {entries : List α} {next : String}
    (h : listing.page E principal cursor = .ok (entries, some next)) :
    ∃ offset, next =
      pageCursor listing.kind listing.digest.hex (listing.tag E principal) offset := by
  simp only [page, bind_eq_ok, reject_eq_ok, exists_const, pure_eq_ok,
    Prod.mk.injEq] at h
  obtain ⟨start, _, _, _, hnext⟩ := h
  split at hnext
  · exact ⟨_, (Option.some.inj hnext).symm⟩
  · cases hnext

/-- A cursor that is accepted was issued by the same listing for the same tag. -/
theorem head_eq_of_accepts {offset offset' : Nat}
    (h : listing'.accepts E principal'
      (pageCursor listing.kind listing.digest.hex (listing.tag E principal) offset) = .ok offset') :
    listing'.kind = listing.kind ∧ listing'.digest = listing.digest ∧
      listing'.tag E principal' = listing.tag E principal := by
  obtain ⟨_, part, hparts, _⟩ := parseCursor_eq_ok.mp h
  have htag : Undotted (listing.tag E principal) := undotted_scopeTag _ _ _
  rw [splitOn_pageCursor (undotted_hex _) htag] at hparts
  have hheads := (List.append_inj' hparts rfl).1
  have hhead := List.map_injective_iff.mpr (fun _ _ => String.toList_injective) hheads
  rw [cursorHead, cursorHead, List.cons_append, List.cons_append, List.cons.injEq] at hhead
  obtain ⟨hsegment, htail⟩ := List.append_inj' hhead.2 rfl
  simp only [List.cons.injEq, and_true] at htail
  exact ⟨(ListingKind.segment_injective hsegment).symm, (Digest.hex_injective htail.1).symm,
    htail.2.symm⟩

end Listing

theorem hex_ne_public (digest : Digest) : digest.hex ≠ "public" := by
  intro h
  have hmem : 'p' ∈ digest.hex.toList := by rw [h]; decide
  obtain ⟨n, hn, hc⟩ := Digest.exists_of_mem_hex hmem
  exact (hexDigit_ne hn).2 hc.symm

theorem principal_eq_of_scopeTag {E : Encoding} (hinjective : Function.Injective E.sha256)
    {cacheScope : McpServerCacheScope} {principal principal' : McpServerPrincipal}
    (h : scopeTag E cacheScope principal' = scopeTag E .privateScope principal) :
    cacheScope = .privateScope ∧ principal' = principal := by
  cases cacheScope with
  | publicScope => exact absurd h.symm (hex_ne_public _)
  | privateScope =>
    exact ⟨rfl, McpServerPrincipal.material_injective (hinjective (Digest.hex_injective h))⟩

end StateKnot
