import StateKnot.Integrations.SseChunks
import StateKnot.Lib.Utf8

/-!
# What an event stream says

A reading of a whole event stream as text: lines, blocks of lines between blank lines and
the fields of a block.  A block with a data field is one event.  The decoder keeps the
data of the current block in a string that it also uses to know whether there is any, so
it loses empty data lines at the start of a block; apart from that it yields the events of
the reading.
-/

namespace StateKnot

open Lib

namespace SseText

/-! ## The reading -/

/-- The lines of a text, `line` being the part of the current one already read. -/
def lines (line : List Char) : List Char → List (List Char)
  | [] => if line = [] then [] else [line]
  | '\r' :: '\n' :: rest => line :: lines [] rest
  | '\r' :: rest => line :: lines [] rest
  | '\n' :: rest => line :: lines [] rest
  | character :: rest => lines (line ++ [character]) rest

/-- The blocks of lines between blank lines, `block` being the part of the current one already
read. -/
def blocks (block : List (List Char)) : List (List Char) → List (List (List Char))
  | [] => [block]
  | line :: rest => if line = [] then block :: blocks [] rest else blocks (block ++ [line]) rest

/-- The field name of a line: what stands before the first colon. -/
def fieldName (line : List Char) : List Char := line.takeWhile (fun character => character != ':')

def stripSpace : List Char → List Char
  | ' ' :: rest => rest
  | rest => rest

/-- The field value of a line: what follows the first colon, less one space. -/
def fieldValue (line : List Char) : List Char :=
  stripSpace ((line.dropWhile (fun character => character != ':')).drop 1)

/-- The value of a line with a given field name. -/
def value (name : String) (line : List Char) : Option String :=
  if fieldName line = name.toList then some (String.ofList (fieldValue line)) else none

def dataOf (block : List (List Char)) : List String := block.filterMap (value "data")

def nameOf (block : List (List Char)) : Option String := (block.filterMap (value "event")).getLast?

/-- The event of a block with a data field. -/
def event (block : List (List Char)) : Option SseEvent :=
  if dataOf block = [] then none else some ⟨nameOf block, "\n".intercalate (dataOf block)⟩

/-- The blocks of a stream. -/
def streamBlocks (text : String) : List (List (List Char)) := blocks [] (lines [] text.toList)

/-- The events of a stream. -/
def events (text : String) : List SseEvent := (streamBlocks text).filterMap event

/-- The stream, its lines and the data of its blocks respect the ceilings. -/
structure Within (limits : ProviderHttpOptions) (text : String) : Prop where
  total : text.utf8ByteSize ≤ limits.maximumSseTotalBytes
  line : ∀ line ∈ lines [] text.toList,
    (String.ofList line).utf8ByteSize ≤ limits.maximumSseLineBytes
  event : ∀ block ∈ streamBlocks text,
    ("\n".intercalate (dataOf block)).utf8ByteSize ≤ limits.maximumSseEventBytes

/-! ## Lines -/

theorem noBreak_utf8EncodeChar {character : Char} (hcr : character ≠ '\r')
    (hlf : character ≠ '\n') : NoBreak (String.utf8EncodeChar character) := by
  intro byte hbyte
  constructor
  · intro hbyte13
    subst hbyte13
    exact hcr (Char.toNat_inj.mp (eq_of_ascii_mem hbyte (by decide)).symm)
  · intro hbyte10
    subst hbyte10
    exact hlf (Char.toNat_inj.mp (eq_of_ascii_mem hbyte (by decide)).symm)

theorem noBreak_append {xs ys : List UInt8} (hxs : NoBreak xs) (hys : NoBreak ys) :
    NoBreak (xs ++ ys) := by
  intro byte hbyte
  rcases List.mem_append.mp hbyte with hbyte | hbyte
  · exact hxs byte hbyte
  · exact hys byte hbyte

section OneChunk

variable {line rest : List UInt8}

theorem feedLines_open (hline : NoBreak line) : feedLines [] [line] = openLine line := by
  simp only [feedLines, List.nil_append, splitLines_of_noBreak hline, List.map_nil]

theorem feedLines_lf (hline : NoBreak line) :
    feedLines [] [line ++ 10 :: rest] = line :: feedLines [] [rest] := by
  simp only [feedLines, List.nil_append, splitLines_lf hline, List.map_cons, List.cons_append]

theorem feedLines_crlf (hline : NoBreak line) :
    feedLines [] [line ++ 13 :: 10 :: rest] = line :: feedLines [] [rest] := by
  simp only [feedLines, List.nil_append, splitLines_crlf hline, List.map_cons, List.cons_append]

theorem feedLines_cr (hline : NoBreak line) (hrest : rest.head? ≠ some 10) :
    feedLines [] [line ++ 13 :: rest] = line :: feedLines [] [rest] := by
  simp only [feedLines, List.nil_append, splitLines_cr hline hrest, List.map_cons,
    List.cons_append]

end OneChunk

theorem head_utf8_ne {rest : List Char} (hrest : ∀ tail, rest ≠ '\n' :: tail) :
    (utf8 rest).head? ≠ some 10 := by
  cases rest with
  | nil => simp
  | cons character rest =>
    obtain ⟨first, bytes, hencode, _, _, hsingle⟩ := utf8EncodeChar_bytes character
    rw [utf8_cons, hencode, List.cons_append, List.head?_cons]
    intro hfirst
    rw [Option.some.inj hfirst] at hsingle
    have hcharacter : character = '\n' :=
      Char.toNat_inj.mp (hsingle (by decide)).2.symm
    exact hrest rest (by rw [hcharacter])

/-- The decoder cuts the bytes of a text at the lines of the text. -/
theorem feedLines_utf8 (line rest : List Char) (hline : NoBreak (utf8 line)) :
    feedLines [] [utf8 (line ++ rest)] = (lines line rest).map utf8 := by
  have hnil : NoBreak (utf8 []) := by simp [NoBreak]
  fun_induction lines line rest with
  | case1 =>
    rw [List.append_nil, feedLines_open hline]
    rfl
  | case2 line hnonempty =>
    rw [List.append_nil, feedLines_open hline, openLine,
      if_neg (fun hempty => hnonempty (utf8_eq_nil.mp hempty))]
    rfl
  | case3 line rest ih =>
    rw [List.map_cons, ← ih hnil, utf8_append]
    exact feedLines_crlf hline
  | case4 line rest hrest ih =>
    rw [List.map_cons, ← ih hnil, utf8_append]
    exact feedLines_cr hline (head_utf8_ne hrest)
  | case5 line rest ih =>
    rw [List.map_cons, ← ih hnil, utf8_append]
    exact feedLines_lf hline
  | case6 line character rest _ hcr hlf ih =>
    have hbytes := noBreak_utf8EncodeChar hcr hlf
    have hextended : NoBreak (utf8 (line ++ [character])) := by
      rw [utf8_append, utf8_cons, utf8_nil, List.append_nil]
      exact noBreak_append hline hbytes
    rw [← ih hextended, List.append_assoc]
    rfl

/-! ## Fields -/

/-- The field of a line. -/
def fieldOf (line : List Char) : SseField :=
  if line = [] then .blank
  else match value "event" line with
    | some name => .event name
    | none => match value "data" line with
      | some data => .data data
      | none => .ignored

/-- The decoder splits a line into its field name and value. -/
theorem splitField_ofList (line : List Char) : splitField (String.ofList line) =
    (String.ofList (fieldName line), String.ofList (fieldValue line)) := by
  have hspan := List.span_eq_takeWhile_dropWhile (p := fun c : Char => c != ':') (l := line)
  have hwhole := List.takeWhile_append_dropWhile (p := fun c : Char => c != ':') (l := line)
  unfold splitField fieldName fieldValue
  rw [String.toList_ofList, hspan]
  generalize line.takeWhile (fun c => c != ':') = front at hwhole ⊢
  generalize line.dropWhile (fun c => c != ':') = back at hwhole ⊢
  split
  case h_1 heq =>
    obtain ⟨rfl, rfl⟩ := Prod.mk.inj heq
    rw [List.append_nil] at hwhole
    rw [hwhole]
    rfl
  case h_2 heq =>
    obtain ⟨rfl, rfl⟩ := Prod.mk.inj heq
    rfl
  case h_3 rest hspace heq =>
    obtain ⟨rfl, rfl⟩ := Prod.mk.inj heq
    rw [List.drop_one, List.tail_cons, stripSpace]
    exact hspace

theorem value_eq (name : String) (line : List Char) :
    value name line = if String.ofList (fieldName line) = name then
      some (String.ofList (fieldValue line)) else none := by
  simp only [value, ← String.toList_inj, String.toList_ofList]

theorem mem_of_mem_fieldValue {line : List Char} {character : Char}
    (h : character ∈ fieldValue line) : character ∈ line := by
  have hstrip : ∀ text : List Char, character ∈ stripSpace text → character ∈ text := by
    intro text htext
    unfold stripSpace at htext
    split at htext
    · exact List.mem_cons_of_mem _ htext
    · exact htext
  exact (List.dropWhile_sublist _).subset (List.mem_of_mem_drop (hstrip _ h))

theorem validateField_eq_ok {value : String} (h : '\x00' ∉ value.toList) :
    validateField value = .ok () := by
  rw [validateField, reject_eq_ok]
  simpa using h

theorem fromUtf8_utf8 (line : List Char) : fromUtf8 (utf8 line) = some (String.ofList line) := by
  have hbytes : utf8 line = (String.ofList line).toByteArray.data.toList := by
    rw [← String.toList_ofList (l := line), utf8_toList]
    simp
  rw [fromUtf8, hbytes, String.fromUTF8?, dif_pos (String.ofList line).isValidUTF8]
  rfl

/-- The decoder reads the field of a line without null characters. -/
theorem readLine_utf8 {line : List Char} (hnull : '\x00' ∉ line) :
    readLine (utf8 line) = .ok (fieldOf line) := by
  have hvalid : validateField (String.ofList (fieldValue line)) = .ok () := by
    apply validateField_eq_ok
    rw [String.toList_ofList]
    exact fun hmem => hnull (mem_of_mem_fieldValue hmem)
  have hempty : String.ofList line = "" ↔ line = [] := by
    rw [← String.toList_inj, String.toList_ofList]
    rfl
  simp only [readLine, fromUtf8_utf8, okOr, ok_bind, fieldOf, hempty]
  by_cases hline : line = []
  · rw [if_pos hline, if_pos hline]
    rfl
  rw [if_neg hline, if_neg hline, value_eq, value_eq, String.toList_ofList, splitField_ofList]
  by_cases hcomment : line.head? = some ':'
  · have hname : fieldName line = [] := by
      cases line with
      | nil => rfl
      | cons first rest =>
        rw [Option.some.inj hcomment]
        rfl
    rw [if_pos hcomment, hname]
    rfl
  rw [if_neg hcomment]
  by_cases hevent : String.ofList (fieldName line) = "event"
  · simp only [hevent, if_true, hvalid]
    rfl
  by_cases hdata : String.ofList (fieldName line) = "data"
  · simp only [hdata, if_true, hvalid]
    rfl
  · simp only [hevent, hdata, if_false]
    rfl

theorem fieldOf_eq_blank {line : List Char} : fieldOf line = .blank ↔ line = [] := by
  unfold fieldOf
  split
  · simp_all
  · next hline =>
    simp only [hline, iff_false]
    split
    · simp
    · split <;> simp

theorem dataValue_fieldOf (line : List Char) : (fieldOf line).dataValue = value "data" line := by
  unfold fieldOf value
  by_cases hline : line = []
  · subst hline
    rfl
  by_cases hevent : fieldName line = "event".toList
  · simp [hline, hevent, SseField.dataValue]
  by_cases hdata : fieldName line = "data".toList
  · simp [hline, hdata, SseField.dataValue]
  · simp only [hline, hevent, hdata, if_false]
    rfl

theorem eventValue_fieldOf (line : List Char) : (fieldOf line).eventValue = value "event" line := by
  unfold fieldOf value
  by_cases hline : line = []
  · subst hline
    rfl
  by_cases hevent : fieldName line = "event".toList
  · simp [hline, hevent, SseField.eventValue]
  by_cases hdata : fieldName line = "data".toList
  · simp [hline, hdata, SseField.eventValue]
  · simp only [hline, hevent, hdata, if_false]
    rfl

theorem dataValues_map_fieldOf (block : List (List Char)) :
    dataValues (block.map fieldOf) = dataOf block := by
  rw [dataValues, List.filterMap_map, dataOf]
  congr 1
  exact funext dataValue_fieldOf

theorem eventName_map_fieldOf (block : List (List Char)) :
    eventName (block.map fieldOf) = nameOf block := by
  rw [eventName, List.filterMap_map, nameOf]
  congr 2
  exact funext eventValue_fieldOf

theorem joinLines_eq_intercalate (values : List String) :
    joinLines values = "\n".intercalate values := by
  fun_induction joinLines values with
  | case1 => rfl
  | case2 value => rw [String.intercalate_singleton]
  | case3 value values hvalues ih =>
    obtain ⟨next, rest, rfl⟩ := List.exists_cons_of_ne_nil hvalues
    rw [ih, String.intercalate_cons_cons]

/-! ## Blocks -/

/-- The events the decoder yields for a block: none when the kept data is empty. -/
def decodedEvents (block : List (List Char)) : List SseEvent :=
  if eventData (block.map fieldOf) = "" then []
  else [⟨nameOf block, eventData (block.map fieldOf)⟩]

/-- Blocks that fit yield their events one after the other. -/
theorem runBlocks_map_fieldOf {limits : ProviderHttpOptions} {rest : List (List Char)}
    (block : List (List Char))
    (hfits : ∀ whole ∈ blocks block rest, Fits limits (whole.map fieldOf)) :
    runBlocks .blank (blockOut limits) (block.map fieldOf) (rest.map fieldOf) =
      some ((blocks block rest).flatMap decodedEvents) := by
  have hout : ∀ whole : List (List Char), Fits limits (whole.map fieldOf) →
      blockOut limits (whole.map fieldOf) = some (decodedEvents whole) := by
    intro whole hwhole
    rw [blockOut_of_fits hwhole, eventName_map_fieldOf]
    rfl
  induction rest generalizing block with
  | nil =>
    rw [blocks] at hfits ⊢
    rw [List.map_nil, runBlocks, hout block (hfits block (by simp))]
    simp
  | cons line rest ih =>
    rw [blocks] at hfits ⊢
    rw [List.map_cons, runBlocks]
    by_cases hline : line = []
    · rw [if_pos hline] at hfits ⊢
      rw [if_pos (fieldOf_eq_blank.mpr hline), hout block (hfits block List.mem_cons_self)]
      have hrest := ih [] fun whole hwhole => hfits whole (List.mem_cons_of_mem _ hwhole)
      rw [List.map_nil] at hrest
      rw [hrest, joinOut_some_some, List.flatMap_cons]
    · rw [if_neg hline] at hfits ⊢
      rw [if_neg (fun hblank => hline (fieldOf_eq_blank.mp hblank)), ← ih _ hfits, List.map_append]
      rfl

/-! ## The decoder and the reading -/

section Decoding

variable {limits : ProviderHttpOptions} {text : String} {block : List (List Char)}

theorem mem_of_mem_lines {character : Char} (line rest : List Char) :
    ∀ whole ∈ lines line rest, character ∈ whole → character ∈ line ++ rest := by
  fun_induction lines line rest with
  | case1 => simp
  | case2 line _ => simp
  | case3 line rest ih =>
    intro whole hwhole hmem
    rcases List.mem_cons.mp hwhole with rfl | hrest
    · exact List.mem_append_left _ hmem
    · have htail := List.mem_cons_of_mem '\r' (List.mem_cons_of_mem '\n' (ih whole hrest hmem))
      exact List.mem_append_right _ htail
  | case4 line rest _ ih =>
    intro whole hwhole hmem
    rcases List.mem_cons.mp hwhole with rfl | hrest
    · exact List.mem_append_left _ hmem
    · exact List.mem_append_right _ (List.mem_cons_of_mem _ (ih whole hrest hmem))
  | case5 line rest ih =>
    intro whole hwhole hmem
    rcases List.mem_cons.mp hwhole with rfl | hrest
    · exact List.mem_append_left _ hmem
    · exact List.mem_append_right _ (List.mem_cons_of_mem _ (ih whole hrest hmem))
  | case6 line character' rest _ _ _ ih =>
    intro whole hwhole hmem
    have hmem' := ih whole hwhole hmem
    rwa [List.append_assoc] at hmem'

/-- The data the decoder keeps is no longer than that of the reading. -/
theorem fits_of_within (hwithin : Within limits text) (hblock : block ∈ streamBlocks text) :
    Fits limits (block.map fieldOf) := by
  have hevent := hwithin.event block hblock
  rw [← joinLines_eq_intercalate] at hevent
  unfold Fits eventData
  rw [dataValues_map_fieldOf]
  exact (size_joinLines_dropWhile _).trans hevent

/-- The decoder accepts a stream within the ceilings and yields the events it keeps of each
block. -/
theorem decode_eq (hnull : '\x00' ∉ text.toList) (hwithin : Within limits text) :
    SseDecoder.decode limits [text.toUTF8.data.toList] =
      .ok ((streamBlocks text).flatMap decodedEvents) := by
  have hlines : feedLines [] [text.toUTF8.data.toList] =
      (lines [] text.toList).map utf8 := by
    rw [← utf8_toList]
    exact feedLines_utf8 [] text.toList (by simp [NoBreak])
  rw [SseDecoder.decode_eq_ok, hlines]
  refine ⟨?_, ?_, (lines [] text.toList).map fieldOf, ?_, ?_⟩
  · rw [List.flatten_singleton, ← utf8ByteSize_eq_length]
    exact hwithin.total
  · intro line hline
    obtain ⟨whole, hwhole, rfl⟩ := List.mem_map.mp hline
    rw [← utf8ByteSize_ofList]
    exact hwithin.line whole hwhole
  · rw [Reads, List.forall₂_map_left_iff, List.forall₂_map_right_iff, List.forall₂_same]
    intro line hline
    exact readLine_utf8 fun hmem => hnull (mem_of_mem_lines [] text.toList line hline hmem)
  · exact runBlocks_map_fieldOf [] fun whole hwhole => fits_of_within hwithin hwhole

end Decoding

/-- Outputs of which none is longer than its counterpart agree when all of them do. -/
theorem flatMap_eq_flatMap_iff {α β : Type} {f g : α → List β} {xs : List α}
    (hlength : ∀ x ∈ xs, (f x).length ≤ (g x).length) :
    xs.flatMap f = xs.flatMap g ↔ ∀ x ∈ xs, f x = g x := by
  induction xs with
  | nil => simp
  | cons x xs ih =>
    obtain ⟨hx, hxs⟩ := List.forall_mem_cons.mp hlength
    have hle : (xs.flatMap f).length ≤ (xs.flatMap g).length := by
      rw [List.length_flatMap, List.length_flatMap]
      exact List.sum_le_sum hxs
    rw [List.flatMap_cons, List.flatMap_cons, List.forall_mem_cons, ← ih hxs]
    constructor
    · intro heq
      have hlengths := congrArg List.length heq
      rw [List.length_append, List.length_append] at hlengths
      exact List.append_inj heq (by omega)
    · intro ⟨hhead, htail⟩
      rw [hhead, htail]

theorem event_toList (block : List (List Char)) : (event block).toList =
    if dataOf block = [] then [] else [⟨nameOf block, joinLines (dataOf block)⟩] := by
  unfold event
  rw [joinLines_eq_intercalate]
  split <;> rfl

theorem eventData_map_fieldOf (block : List (List Char)) : eventData (block.map fieldOf) =
    joinLines ((dataOf block).dropWhile (fun value => value = "")) := by
  rw [eventData, dataValues_map_fieldOf]

theorem length_decodedEvents_le (block : List (List Char)) :
    (decodedEvents block).length ≤ (event block).toList.length := by
  rw [decodedEvents, event_toList, eventData_map_fieldOf]
  by_cases hdata : dataOf block = []
  · rw [hdata]
    exact le_refl _
  · rw [if_neg hdata]
    split_ifs <;> simp

/-- The decoder keeps the event of a block exactly when its data does not start with an empty
line. -/
theorem decodedEvents_eq_iff (block : List (List Char)) :
    decodedEvents block = (event block).toList ↔ (dataOf block).head? ≠ some "" := by
  rw [decodedEvents, event_toList, eventData_map_fieldOf]
  cases hdata : dataOf block with
  | nil => simp [joinLines]
  | cons first rest =>
    rw [if_neg (List.cons_ne_nil first rest), List.head?_cons]
    by_cases hfirst : first = ""
    · subst hfirst
      simp only [ne_eq, not_true_eq_false, iff_false]
      rw [List.dropWhile_cons_of_pos (by simp)]
      intro heq
      split_ifs at heq with hempty
      -- what is kept is shorter than what was sent
      have hsame := congrArg (fun event => event.data.utf8ByteSize) (List.cons.inj heq).1
      cases rest with
      | nil => exact hempty rfl
      | cons next rest =>
        have hsize := size_joinLines_dropWhile (next :: rest)
        have hjoin : joinLines ("" :: next :: rest) = "" ++ "\n" ++ joinLines (next :: rest) := rfl
        have hfeed : "\n".utf8ByteSize = 1 := rfl
        dsimp only at hsame
        rw [hjoin, String.utf8ByteSize_append, String.utf8ByteSize_append, hfeed] at hsame
        omega
    · have hne : joinLines (first :: rest) ≠ "" := joinLines_cons_ne hfirst
      rw [List.dropWhile_cons_of_neg (by simpa using hfirst), if_neg hne]
      simpa using hfirst

end SseText

/-- Decoding a stream given as one chunk yields the events of its blocks exactly when no block's
data starts with an empty line. -/
theorem sse_event_semantics (limits : ProviderHttpOptions) (text : String)
    (hnull : '\x00' ∉ text.toList) (hwithin : SseText.Within limits text) :
    SseDecoder.decode limits [text.toUTF8.data.toList] = .ok (SseText.events text) ↔
      ∀ block ∈ SseText.streamBlocks text, (SseText.dataOf block).head? ≠ some "" := by
  have hevents : SseText.events text =
      (SseText.streamBlocks text).flatMap fun block => (SseText.event block).toList := by
    rw [SseText.events, List.filterMap_eq_flatMap_toList]
  rw [SseText.decode_eq hnull hwithin, Except.ok.injEq, hevents,
    SseText.flatMap_eq_flatMap_iff fun block _ => SseText.length_decodedEvents_le block]
  exact forall₂_congr fun block _ => SseText.decodedEvents_eq_iff block

/-- A single empty data line is an event with empty data, and the decoder loses it. -/
theorem sse_event_semantics_empty_data :
    ¬∀ (limits : ProviderHttpOptions) (text : String), '\x00' ∉ text.toList →
      '\uFEFF' ∉ text.toList → SseText.Within limits text →
      SseDecoder.decode limits [text.toUTF8.data.toList] = .ok (SseText.events text) := by
  intro h
  have hwithin : SseText.Within .default "data:\n\n" := by
    refine ⟨by decide, ?_, ?_⟩ <;> decide +kernel
  have hdecoded := h .default "data:\n\n" (by decide) (by decide) hwithin
  have hevents : SseText.events "data:\n\n" = [⟨none, ""⟩] := by decide +kernel
  have hnone : (SseDecoder.decode .default ["data:\n\n".toUTF8.data.toList]).toOption =
      some [] := by decide +kernel
  rw [hdecoded, hevents] at hnone
  cases hnone

/-- A stream with a named event and two data lines, the second one empty. -/
theorem sse_event_semantics_trailing_empty :
    SseDecoder.decode .default ["event: a\r\ndata: b\r\ndata\r\n\r\n".toUTF8.data.toList] =
      .ok (SseText.events "event: a\r\ndata: b\r\ndata\r\n\r\n") := by
  refine (sse_event_semantics .default "event: a\r\ndata: b\r\ndata\r\n\r\n" (by decide)
    ⟨by decide, ?_, ?_⟩).mpr ?_ <;> decide +kernel

end StateKnot
