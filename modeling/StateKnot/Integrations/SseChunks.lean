import StateKnot.Integrations.SseLines

/-!
# When decoded events depend on chunk borders

An empty line dispatches the event collected so far, so a chunk border inside a CR LF
pair can end an event early.  The module reads a stream as fields in blocks, shows that
the decoder computes the blocks' events, and derives exactly which streams decode to
the same events however they are cut.
-/

namespace StateKnot

open Lib

/-! ## Fields -/

/-- What a line says. -/
inductive SseField where
  | blank
  | ignored
  | event (value : String)
  | data (value : String)
deriving DecidableEq

/-- The field of a line, when the decoder does not refuse the line itself. -/
def readLine (line : List UInt8) : Except SseDecodeError SseField := do
  let line ← okOr (fromUtf8 line) .invalidUtf8
  if line = "" then return .blank
  else if line.toList.head? = some ':' then return .ignored
  else
    let (field, value) := splitField line
    if field = "event" then
      validateField value
      return .event value
    else if field = "data" then
      validateField value
      return .data value
    else return .ignored

namespace SseField

def dataValue : SseField → Option String
  | .data value => some value
  | _ => none

def eventValue : SseField → Option String
  | .event value => some value
  | _ => none

end SseField

/-- Values of the data lines of a block. -/
def dataValues (fields : List SseField) : List String := fields.filterMap SseField.dataValue

def joinLines : List String → String
  | [] => ""
  | [value] => value
  | value :: values => value ++ "\n" ++ joinLines values

/-- The data of a block: its data lines from the first nonempty one on. -/
def eventData (fields : List SseField) : String :=
  joinLines ((dataValues fields).dropWhile (fun value => value = ""))

/-- The event name of a block: that of its last event line. -/
def eventName (fields : List SseField) : Option String :=
  (fields.filterMap SseField.eventValue).getLast?

/-- The data of a block stays within the event ceiling. -/
def Fits (limits : ProviderHttpOptions) (fields : List SseField) : Prop :=
  (eventData fields).utf8ByteSize ≤ limits.maximumSseEventBytes

instance {limits : ProviderHttpOptions} {fields : List SseField} : Decidable (Fits limits fields) :=
  inferInstanceAs (Decidable (_ ≤ _))

/-- The event of a block, if it has data. -/
def blockOut (limits : ProviderHttpOptions) (fields : List SseField) : Option (List SseEvent) :=
  if Fits limits fields then
    some (if eventData fields = "" then [] else [⟨eventName fields, eventData fields⟩])
  else none

section EventData

variable {xs ys : List SseField}

theorem dataValues_append : dataValues (xs ++ ys) = dataValues xs ++ dataValues ys :=
  List.filterMap_append ..

theorem eventName_append : eventName (xs ++ ys) = (eventName ys).or (eventName xs) := by
  simp [eventName, List.filterMap_append, List.getLast?_append]

theorem joinLines_append {us vs : List String} (hus : us ≠ []) (hvs : vs ≠ []) :
    joinLines (us ++ vs) = joinLines us ++ "\n" ++ joinLines vs := by
  induction us with
  | nil => exact absurd rfl hus
  | cons u us ih =>
    cases us with
    | nil =>
      cases vs with
      | nil => exact absurd rfl hvs
      | cons v vs => rfl
    | cons u' us =>
      have hrest := ih (by simp)
      simp only [List.cons_append, joinLines] at hrest ⊢
      rw [hrest]
      simp only [String.append_assoc]

theorem joinLines_cons_ne {value : String} {values : List String} (h : value ≠ "") :
    joinLines (value :: values) ≠ "" := by
  cases values with
  | nil => exact h
  | cons next values => simp [joinLines, h]

theorem eventData_eq_empty_iff :
    eventData xs = "" ↔ (dataValues xs).dropWhile (fun value => value = "") = [] := by
  unfold eventData
  cases hvalues : (dataValues xs).dropWhile (fun value => value = "") with
  | nil => simp [joinLines]
  | cons value values =>
    have hvalue : value ≠ "" := by
      have := List.head?_dropWhile_not (fun value => decide (value = "")) (dataValues xs)
      simpa [hvalues] using this
    simp [joinLines_cons_ne hvalue]

theorem eventData_append_of_empty (h : eventData xs = "") : eventData (xs ++ ys) = eventData ys := by
  have hdrop := eventData_eq_empty_iff.mp h
  rw [eventData, dataValues_append, List.dropWhile_append, hdrop]
  simp [eventData]

theorem eventData_append_of_ne (h : eventData xs ≠ "") :
    eventData (xs ++ ys) =
      if dataValues ys = [] then eventData xs
      else eventData xs ++ "\n" ++ joinLines (dataValues ys) := by
  have hdrop := mt eventData_eq_empty_iff.mpr h
  have hvalues : (dataValues (xs ++ ys)).dropWhile (fun value => value = "") =
      (dataValues xs).dropWhile (fun value => value = "") ++ dataValues ys := by
    rw [dataValues_append, List.dropWhile_append, if_neg (by simpa using hdrop)]
  rw [eventData, hvalues]
  split
  · next hys => rw [hys, List.append_nil, eventData]
  · next hys => exact joinLines_append hdrop hys

theorem eventData_append_data {value : String} :
    eventData (xs ++ [.data value]) =
      eventData xs ++ (if eventData xs = "" then "" else "\n") ++ value := by
  by_cases h : eventData xs = ""
  · rw [eventData_append_of_empty h, if_pos h, h]
    by_cases hvalue : value = "" <;> simp [eventData, dataValues, SseField.dataValue, joinLines, hvalue]
  · rw [eventData_append_of_ne h, if_neg h]
    simp [dataValues, SseField.dataValue, joinLines]

theorem eventData_append_other {field : SseField} (hfield : field.dataValue = none) :
    eventData (xs ++ [field]) = eventData xs := by
  simp [eventData, dataValues, hfield]

theorem size_joinLines_dropWhile (values : List String) :
    (joinLines (values.dropWhile (fun value => value = ""))).utf8ByteSize ≤
      (joinLines values).utf8ByteSize := by
  induction values with
  | nil => exact le_refl _
  | cons value values ih =>
    rw [List.dropWhile_cons]
    split
    · refine ih.trans ?_
      cases values with
      | nil => simp [joinLines]
      | cons next values =>
        simp only [joinLines, String.utf8ByteSize_append]
        omega
    · exact le_refl _

theorem size_eventData_left : (eventData xs).utf8ByteSize ≤ (eventData (xs ++ ys)).utf8ByteSize := by
  by_cases h : eventData xs = ""
  · simp [h]
  · rw [eventData_append_of_ne h]
    split
    · exact le_refl _
    · simp only [String.utf8ByteSize_append]
      omega

theorem size_eventData_right : (eventData ys).utf8ByteSize ≤ (eventData (xs ++ ys)).utf8ByteSize := by
  by_cases h : eventData xs = ""
  · rw [eventData_append_of_empty h]
  · rw [eventData_append_of_ne h]
    have hsize := size_joinLines_dropWhile (dataValues ys)
    split
    · next hnil => simp [eventData, hnil, joinLines]
    · simp only [String.utf8ByteSize_append, eventData] at hsize ⊢
      omega

end EventData

section BlockOut

variable {limits : ProviderHttpOptions} {xs ys : List SseField}

theorem blockOut_eq_none : blockOut limits xs = none ↔ ¬Fits limits xs := by
  unfold blockOut
  split <;> simp_all

theorem blockOut_of_fits (h : Fits limits xs) :
    blockOut limits xs =
      some (if eventData xs = "" then [] else [⟨eventName xs, eventData xs⟩]) := if_pos h

theorem Fits.left (h : Fits limits (xs ++ ys)) : Fits limits xs := size_eventData_left.trans h

theorem Fits.right (h : Fits limits (xs ++ ys)) : Fits limits ys := size_eventData_right.trans h

theorem blockOutput : BlockOutput (blockOut limits) where
  nil := rfl
  left h := blockOut_eq_none.mpr (mt Fits.left (blockOut_eq_none.mp h))
  right h := blockOut_eq_none.mpr (mt Fits.right (blockOut_eq_none.mp h))

end BlockOut

/-! ## The decoder computes the blocks' events -/

namespace SseDecoder

/-- What the decoder does with a field. -/
def applyField (decoder : SseDecoder) (events : List SseEvent) :
    SseField → Except SseDecodeError (SseDecoder × List SseEvent)
  | .blank => decoder.dispatch events
  | .ignored => .ok (decoder, events)
  | .event value => .ok ({ decoder with event := some value }, events)
  | .data value => do
    let extra := value.utf8ByteSize + (if decoder.data = "" then 0 else 1)
    reject (decoder.data.utf8ByteSize + extra > decoder.limits.maximumSseEventBytes) .eventTooLarge
    let separator := if decoder.data = "" then "" else "\n"
    return ({ decoder with data := decoder.data ++ separator ++ value }, events)

theorem consumeLine_eq (decoder : SseDecoder) (line : List UInt8) (events : List SseEvent) :
    decoder.consumeLine line events = readLine line >>= decoder.applyField events := by
  unfold consumeLine readLine
  cases fromUtf8 line with
  | none => rfl
  | some text =>
    simp only [okOr, bind, Except.bind, pure, Except.pure]
    split
    · rfl
    split
    · rfl
    split
    · cases validateField (splitField text).2 <;> rfl
    split
    · cases validateField (splitField text).2 <;> rfl
    · rfl

/-- The decoder holds the data and name of the current block. -/
structure Represents (decoder : SseDecoder) (block : List SseField) : Prop where
  data : decoder.data = eventData block
  event : decoder.event = eventName block
  fits : Fits decoder.limits block

/-- From a decoder at `block`, some lines lead to `next` at `block'` and emit `emitted`. -/
structure Advances (decoder : SseDecoder) (block fields : List SseField) (next : SseDecoder)
    (block' : List SseField) (emitted : List SseEvent) : Prop where
  represents : next.Represents block'
  limits : next.limits = decoder.limits
  run : ∀ rest, runBlocks .blank (blockOut decoder.limits) block (fields ++ rest) =
    joinOut (some emitted) (runBlocks .blank (blockOut decoder.limits) block' rest)

theorem Represents.new (limits : ProviderHttpOptions) : (SseDecoder.new limits).Represents [] :=
  ⟨rfl, rfl, Nat.zero_le _⟩

variable {block : List SseField} {field : SseField}

theorem Advances.of_append {decoder next : SseDecoder}
    (hfield : field ≠ .blank) (hlimits : next.limits = decoder.limits)
    (hnext : next.Represents (block ++ [field])) :
    decoder.Advances block [field] next (block ++ [field]) [] where
  represents := hnext
  limits := hlimits
  run rest := by
    rw [joinOut_nil_left, List.singleton_append, runBlocks, if_neg hfield]

/-- The size the code checks before it appends a data line. -/
theorem size_append_separator {data value : String} :
    (data ++ (if data = "" then "" else "\n") ++ value).utf8ByteSize =
      data.utf8ByteSize + (value.utf8ByteSize + (if data = "" then 0 else 1)) := by
  rw [String.utf8ByteSize_append, String.utf8ByteSize_append]
  split
  · simp
  · rw [show "\n".utf8ByteSize = 1 from rfl]
    omega

theorem applyField_ok {decoder next : SseDecoder}
    {events events' : List SseEvent} (hblock : decoder.Represents block)
    (h : decoder.applyField events field = .ok (next, events')) :
    ∃ block' emitted, decoder.Advances block [field] next block' emitted ∧
      events' = events ++ emitted ∧ next.totalBytes = decoder.totalBytes := by
  have hfits := hblock.fits
  cases field with
  | blank =>
    -- dispatch closes the block, the next one is empty
    have hrun : ∀ rest, runBlocks .blank (blockOut decoder.limits) block ([.blank] ++ rest) =
        joinOut (blockOut decoder.limits block)
          (runBlocks .blank (blockOut decoder.limits) [] rest) := fun rest => rfl
    rw [blockOut_of_fits hfits, ← hblock.data, ← hblock.event] at hrun
    simp only [applyField, dispatch] at h
    split at h
    · next hdata =>
      cases h
      rw [if_pos hdata] at hrun
      exact ⟨[], [], ⟨⟨hdata, rfl, Nat.zero_le _⟩, rfl, hrun⟩, by simp, rfl⟩
    · next hdata =>
      simp only [bind_eq_ok, reject_eq_ok] at h
      obtain ⟨_, _, hreturn⟩ := h
      cases hreturn
      rw [if_neg hdata] at hrun
      exact ⟨[], _, ⟨⟨rfl, rfl, Nat.zero_le _⟩, rfl, hrun⟩, rfl, rfl⟩
  | ignored =>
    cases h
    have hdata : eventData (block ++ [.ignored]) = eventData block := eventData_append_other rfl
    refine ⟨_, [], .of_append (by simp) rfl ⟨?_, ?_, ?_⟩, by simp, rfl⟩
    · rw [hdata, hblock.data]
    · rw [eventName_append, hblock.event]
      rfl
    · rwa [Fits, hdata]
  | event value =>
    cases h
    have hdata : eventData (block ++ [.event value]) = eventData block :=
      eventData_append_other rfl
    refine ⟨_, [], .of_append (by simp) rfl ⟨?_, ?_, ?_⟩, by simp, rfl⟩
    · rw [hdata, hblock.data]
    · rw [eventName_append]
      rfl
    · rwa [Fits, hdata]
  | data value =>
    simp only [applyField, bind_eq_ok, reject_eq_ok, not_lt] at h
    obtain ⟨_, hsize, hreturn⟩ := h
    cases hreturn
    have hdata := @eventData_append_data block value
    rw [← hblock.data] at hdata
    refine ⟨_, [], .of_append (by simp) rfl ⟨hdata.symm, ?_, ?_⟩, by simp, rfl⟩
    · rw [eventName_append, hblock.event]
      rfl
    · rw [Fits, hdata, size_append_separator]
      exact hsize

theorem applyField_error {decoder : SseDecoder}
    {events : List SseEvent} {error : SseDecodeError} (hblock : decoder.Represents block)
    (h : decoder.applyField events field = .error error) (rest : List SseField) :
    runBlocks .blank (blockOut decoder.limits) block (field :: rest) = none := by
  have hfits := hblock.fits
  cases field with
  | blank =>
    simp only [applyField, dispatch] at h
    split at h
    · cases h
    · have hok : reject (decoder.data.utf8ByteSize > decoder.limits.maximumSseEventBytes)
          SseDecodeError.eventTooLarge = .ok () := by
        rw [reject_eq_ok, hblock.data]
        exact not_lt.mpr hfits
      rw [hok] at h
      cases h
  | ignored => cases h
  | event value => cases h
  | data value =>
    rw [runBlocks, if_neg (by simp)]
    refine runBlocks_eq_none blockOutput (blockOut_eq_none.mpr fun hfits' => ?_)
    rw [Fits, eventData_append_data, ← hblock.data, size_append_separator] at hfits'
    have hok : reject (decoder.data.utf8ByteSize +
        (value.utf8ByteSize + (if decoder.data = "" then 0 else 1)) >
        decoder.limits.maximumSseEventBytes) SseDecodeError.eventTooLarge = .ok () :=
      reject_eq_ok.mpr (not_lt.mpr hfits')
    rw [applyField, hok] at h
    cases h

/-- The loop of `push` over lines already cut. -/
def drainTexts (decoder : SseDecoder) (rest : List UInt8) :
    List (List UInt8) → List SseEvent → Except SseDecodeError (SseDecoder × List SseEvent)
  | [], events => do
    reject (rest.length > decoder.limits.maximumSseLineBytes) .lineTooLarge
    return ({ decoder with pending := rest }, events)
  | line :: lines, events => do
    reject (line.length > decoder.limits.maximumSseLineBytes) .lineTooLarge
    let (decoder, events) ← decoder.consumeLine line events
    decoder.drainTexts rest lines events

theorem drainLines_eq (decoder : SseDecoder) (pending : List UInt8) (events : List SseEvent) :
    decoder.drainLines pending events =
      decoder.drainTexts (splitLines pending).2 ((splitLines pending).1.map SseLine.text) events := by
  fun_induction drainLines decoder pending events with
  | case1 decoder pending events hline =>
    have hsplit : splitLines pending = ([], pending) := by
      rw [splitLines]
      split
      · rfl
      · next hsome => rw [hline] at hsome; cases hsome
    rw [hsplit]
    rfl
  | case2 decoder pending events lineEnd terminatorLen hline ih =>
    have hlength := (nextLine_length hline).1
    rw [splitLines_of_nextLine hline, List.map_cons, drainTexts]
    simp only [List.length_take, min_eq_left hlength.le]
    refine congrArg _ (funext fun _ => congrArg _ (funext fun next => ?_))
    exact ih next.1 next.2

end SseDecoder

/-- Lines read as fields. -/
def Reads (lines : List (List UInt8)) (fields : List SseField) : Prop :=
  List.Forall₂ (fun line field => readLine line = .ok field) lines fields

theorem Reads.unique {lines : List (List UInt8)} {fields fields' : List SseField}
    (h : Reads lines fields) (h' : Reads lines fields') : fields = fields' := by
  induction h generalizing fields' with
  | nil =>
    cases h'
    rfl
  | cons hread _ ih =>
    obtain _ | ⟨hread', hrest⟩ := h'
    rw [Except.ok.inj (hread.symm.trans hread'), ih hrest]

namespace SseDecoder

variable {block : List SseField} {decoder : SseDecoder} {events : List SseEvent}

theorem Advances.nil
    (hblock : decoder.Represents block) : decoder.Advances block [] decoder block [] :=
  ⟨hblock, rfl, fun rest => by rw [joinOut_nil_left, List.nil_append]⟩

variable {next : SseDecoder} {events' : List SseEvent}

theorem Advances.append {middle : SseDecoder}
    {block' block'' fields fields' : List SseField} {emitted emitted' : List SseEvent}
    (h : decoder.Advances block fields middle block' emitted)
    (h' : middle.Advances block' fields' next block'' emitted') :
    decoder.Advances block (fields ++ fields') next block'' (emitted ++ emitted') where
  represents := h'.represents
  limits := h'.limits.trans h.limits
  run rest := by
    have hrun := h'.run rest
    rw [h.limits] at hrun
    rw [List.append_assoc, h.run, hrun, ← joinOut_assoc, joinOut_some_some]

theorem consumeLine_ok {line : List UInt8} (hblock : decoder.Represents block)
    (h : decoder.consumeLine line events = .ok (next, events')) :
    ∃ field block' emitted, readLine line = .ok field ∧
      decoder.Advances block [field] next block' emitted ∧ events' = events ++ emitted ∧
      next.totalBytes = decoder.totalBytes := by
  rw [consumeLine_eq, bind_eq_ok] at h
  obtain ⟨field, hread, happly⟩ := h
  obtain ⟨block', emitted, hadvances, hevents, htotal⟩ := applyField_ok hblock happly
  exact ⟨field, block', emitted, hread, hadvances, hevents, htotal⟩

theorem consumeLine_error {line : List UInt8}
    {field : SseField} {error : SseDecodeError}
    (hblock : decoder.Represents block) (hread : readLine line = .ok field)
    (h : decoder.consumeLine line events = .error error) (rest : List SseField) :
    runBlocks .blank (blockOut decoder.limits) block (field :: rest) = none := by
  rw [consumeLine_eq, hread] at h
  exact applyField_error hblock h rest

/-- A successful drain accepted every line and leaves the open one. -/
theorem drainTexts_ok {rest : List UInt8} {lines : List (List UInt8)}
    (hblock : decoder.Represents block)
    (h : decoder.drainTexts rest lines events = .ok (next, events')) :
    (∀ line ∈ lines, line.length ≤ decoder.limits.maximumSseLineBytes) ∧
    ∃ fields block' emitted, Reads lines fields ∧
      decoder.Advances block fields next block' emitted ∧ events' = events ++ emitted ∧
      next.pending = rest ∧ next.totalBytes = decoder.totalBytes := by
  induction lines generalizing decoder block events with
  | nil =>
    simp only [drainTexts, bind_eq_ok] at h
    obtain ⟨_, _, hreturn⟩ := h
    cases hreturn
    exact ⟨by simp, [], block, [], .nil, ⟨⟨hblock.data, hblock.event, hblock.fits⟩, rfl,
      (Advances.nil hblock).run⟩, by simp, rfl, rfl⟩
  | cons line lines ih =>
    simp only [drainTexts, bind_eq_ok, reject_eq_ok, not_lt] at h
    obtain ⟨_, hlength, ⟨middle, events₁⟩, hconsume, hdrain⟩ := h
    obtain ⟨field, block₁, emitted, hread, hadvances, rfl, htotal⟩ := consumeLine_ok hblock hconsume
    obtain ⟨hlengths, fields, block', emitted', hreads, hadvances', rfl, hpending, htotal'⟩ :=
      ih hadvances.represents hdrain
    rw [hadvances.limits] at hlengths
    refine ⟨?_, field :: fields, block', emitted ++ emitted', .cons hread hreads,
      hadvances.append hadvances', by simp, hpending, htotal'.trans htotal⟩
    intro other hother
    rcases List.mem_cons.mp hother with rfl | hother
    · exact hlength
    · exact hlengths other hother

/-- A failed drain refused a line or the block it belongs to. -/
theorem drainTexts_error {rest : List UInt8}
    {lines : List (List UInt8)} {fields : List SseField}
    {error : SseDecodeError} (hblock : decoder.Represents block) (hreads : Reads lines fields)
    (hlengths : ∀ line ∈ lines, line.length ≤ decoder.limits.maximumSseLineBytes)
    (hrest : rest.length ≤ decoder.limits.maximumSseLineBytes)
    (h : decoder.drainTexts rest lines events = .error error) (after : List SseField) :
    runBlocks .blank (blockOut decoder.limits) block (fields ++ after) = none := by
  induction hreads generalizing decoder block events with
  | nil =>
    simp only [drainTexts, bind_eq_error, reject_eq_error, reject_eq_ok] at h
    obtain ⟨hlong, _⟩ | ⟨_, _, hreturn⟩ := h
    · omega
    · cases hreturn
  | @cons line field lines fields hread hreads ih =>
    have hline := hlengths line (by simp)
    simp only [drainTexts, bind_eq_error, reject_eq_error, reject_eq_ok] at h
    obtain ⟨hlong, _⟩ | ⟨_, _, hconsume | ⟨⟨middle, events'⟩, hconsume, hdrain⟩⟩ := h
    · omega
    · exact consumeLine_error hblock hread hconsume _
    · obtain ⟨field', block', emitted, hread', hadvances, _, _⟩ := consumeLine_ok hblock hconsume
      obtain rfl : field = field' := by simpa using hread.symm.trans hread'
      have hnone := ih hadvances.represents
        (fun other hother => by rw [hadvances.limits]; exact hlengths other (by simp [hother]))
        (by rw [hadvances.limits]; exact hrest) hdrain
      have hrun := hadvances.run (fields ++ after)
      rw [hadvances.limits] at hnone
      rw [hnone, joinOut_none_right] at hrun
      exact hrun

/-- The end of `finish`. -/
theorem dispatch_rest_eq_ok (hblock : decoder.Represents block) :
    (if decoder.data = "" then (.ok events : Except SseDecodeError (List SseEvent))
      else do
        let (_, events) ← decoder.dispatch events
        return events) = .ok events' ↔
      ∃ emitted, blockOut decoder.limits block = some emitted ∧ events' = events ++ emitted := by
  rw [blockOut_of_fits hblock.fits, ← hblock.data, ← hblock.event]
  have hsize : ¬decoder.data.utf8ByteSize > decoder.limits.maximumSseEventBytes := by
    rw [hblock.data]
    exact not_lt.mpr hblock.fits
  by_cases hdata : decoder.data = ""
  · simp [hdata, eq_comm]
  · simp only [hdata, if_false, dispatch, bind_eq_ok, reject_eq_ok, pure_eq_ok, Option.some.injEq, exists_eq_left']
    constructor
    · rintro ⟨_, ⟨_, _, rfl⟩, rfl⟩
      rfl
    · rintro rfl
      exact ⟨_, ⟨(), hsize, rfl⟩, rfl⟩

theorem finish_eq_ok
    (hblock : decoder.Represents block) :
    decoder.finish = .ok events ↔
      (∀ line ∈ openLine decoder.pending, line.length ≤ decoder.limits.maximumSseLineBytes) ∧
      ∃ fields, Reads (openLine decoder.pending) fields ∧
        runBlocks .blank (blockOut decoder.limits) block fields = some events := by
  unfold finish openLine
  by_cases hpending : decoder.pending = []
  · rw [if_pos hpending, if_pos hpending, ok_bind]
    refine (dispatch_rest_eq_ok hblock).trans ?_
    simp [Reads, runBlocks, eq_comm]
  · rw [if_neg hpending, if_neg hpending]
    simp only [bind_eq_ok, reject_eq_ok, not_lt]
    have hblock' : SseDecoder.Represents { decoder with pending := [] } block :=
      ⟨hblock.data, hblock.event, hblock.fits⟩
    constructor
    · rintro ⟨_, hlength, ⟨next, events'⟩, hconsume, hrest⟩
      obtain ⟨field, block', emitted, hread, hadvances, rfl, _⟩ := consumeLine_ok hblock' hconsume
      obtain ⟨last, hout, rfl⟩ := (dispatch_rest_eq_ok hadvances.represents).mp hrest
      rw [hadvances.limits] at hout
      have hrun := hadvances.run []
      rw [List.append_nil, runBlocks, hout, joinOut_some_some] at hrun
      exact ⟨by simpa using hlength, [field], .cons hread .nil, hrun⟩
    · rintro ⟨hlength, fields, hreads, hrun⟩
      obtain _ | ⟨hread, _ | _⟩ := hreads
      cases hconsume : SseDecoder.consumeLine { decoder with pending := [] } decoder.pending [] with
      | error error =>
        have hnone := consumeLine_error hblock' hread hconsume []
        rw [show decoder.limits = SseDecoder.limits { decoder with pending := [] } from rfl, hnone]
          at hrun
        cases hrun
      | ok result =>
        obtain ⟨next, events'⟩ := result
        obtain ⟨field, block', emitted, hread', hadvances, rfl, _⟩ :=
          consumeLine_ok hblock' hconsume
        obtain rfl := Except.ok.inj (hread.symm.trans hread')
        have hrun' := hadvances.run []
        rw [List.append_nil, runBlocks] at hrun'
        obtain ⟨xs, last, hxs, hlast, rfl⟩ := joinOut_eq_some.mp (hrun'.symm.trans hrun)
        cases hxs
        refine ⟨(), by simpa using hlength, (next, _), rfl,
          (dispatch_rest_eq_ok hadvances.represents).mpr ⟨last, ?_, rfl⟩⟩
        rw [hadvances.limits]
        exact hlast

/-- Pushing chunks and finishing yields the events of the consumed lines, read in blocks. -/
theorem pushAll_finish_iff
    {chunks : List (List UInt8)} (hblock : decoder.Represents block)
    (hpending : NoBreak decoder.pending)
    (htotal : decoder.totalBytes ≤ decoder.limits.maximumSseTotalBytes) :
    (∃ next pushed last, decoder.pushAll chunks = .ok (next, pushed) ∧ next.finish = .ok last ∧
      events = pushed ++ last) ↔
    decoder.totalBytes + chunks.flatten.length ≤ decoder.limits.maximumSseTotalBytes ∧
      (∀ line ∈ feedLines decoder.pending chunks,
        line.length ≤ decoder.limits.maximumSseLineBytes) ∧
      ∃ fields, Reads (feedLines decoder.pending chunks) fields ∧
        runBlocks .blank (blockOut decoder.limits) block fields = some events := by
  induction chunks generalizing decoder block events with
  | nil =>
    rw [feedLines, ← finish_eq_ok hblock]
    constructor
    · rintro ⟨next, pushed, last, hpush, hfinish, rfl⟩
      cases hpush
      exact ⟨by simpa using htotal, hfinish⟩
    · rintro ⟨_, hfinish⟩
      exact ⟨decoder, [], events, rfl, hfinish, rfl⟩
  | cons chunk chunks ih =>
    have hstart : SseDecoder.Represents
        { decoder with totalBytes := decoder.totalBytes + chunk.length } block :=
      ⟨hblock.data, hblock.event, hblock.fits⟩
    rw [feedLines, List.flatten_cons, List.length_append]
    constructor
    · rintro ⟨next, pushed, last, hpush, hfinish, rfl⟩
      simp only [pushAll, push, bind_eq_ok, reject_eq_ok, not_lt] at hpush
      obtain ⟨⟨middle, first⟩, ⟨_, hchunk, hdrain⟩, ⟨next', rest⟩, hpush, hreturn⟩ := hpush
      cases hreturn
      rw [drainLines_eq] at hdrain
      obtain ⟨hlengths, fields, block', emitted, hreads, hadvances, hfirst, hrest, hcount⟩ :=
        drainTexts_ok hstart hdrain
      rw [List.nil_append] at hfirst
      subst hfirst
      have hlimits : middle.limits = decoder.limits := hadvances.limits
      have hsettled := (ih hadvances.represents (by rw [hrest]; exact noBreak_rest _)
        (by rw [hcount, hlimits]; exact hchunk)).mp ⟨_, rest, last, hpush, hfinish, rfl⟩
      rw [hcount, hlimits, hrest] at hsettled
      obtain ⟨hsum, hlengths', fields', hreads', hrun⟩ := hsettled
      have hsum' : decoder.totalBytes + chunk.length + chunks.flatten.length ≤
          decoder.limits.maximumSseTotalBytes := hsum
      refine ⟨by omega, ?_, fields ++ fields', List.rel_append hreads hreads', ?_⟩
      · intro line hline
        rcases List.mem_append.mp hline with hline | hline
        · exact hlengths line hline
        · exact hlengths' line hline
      · have hrun' := hadvances.run fields'
        rw [hrun, joinOut_some_some] at hrun'
        rw [List.append_assoc]
        exact hrun'
    · rintro ⟨hsum, hlengths, fields, hreads, hrun⟩
      obtain ⟨fields, fields', rfl, hreads, hreads'⟩ := exists_append_of_forall₂ hreads
      have hchunk : decoder.totalBytes + chunk.length ≤ decoder.limits.maximumSseTotalBytes := by
        omega
      have hrest : (splitLines (decoder.pending ++ chunk)).2.length ≤
          decoder.limits.maximumSseLineBytes :=
        pending_length_le (noBreak_rest _)
          (fun line hline => hlengths line (List.mem_append_right _ hline))
      cases hdrain : SseDecoder.drainLines
          { decoder with totalBytes := decoder.totalBytes + chunk.length }
          (decoder.pending ++ chunk) [] with
      | error error =>
        rw [drainLines_eq] at hdrain
        have hnone := drainTexts_error hstart hreads
          (fun line hline => hlengths line (List.mem_append_left _ hline)) hrest hdrain fields'
        cases hnone.symm.trans hrun
      | ok result =>
        obtain ⟨middle, first⟩ := result
        have hpush : decoder.push chunk = .ok (middle, first) := by
          simp only [push, bind_eq_ok, reject_eq_ok, not_lt]
          exact ⟨(), hchunk, hdrain⟩
        rw [drainLines_eq] at hdrain
        obtain ⟨_, read, block', emitted, hread, hadvances, hfirst, hopen, hcount⟩ :=
          drainTexts_ok hstart hdrain
        obtain rfl := Reads.unique hreads hread
        rw [List.nil_append] at hfirst
        subst hfirst
        have hlimits : middle.limits = decoder.limits := hadvances.limits
        obtain ⟨xs, last, hxs, hlast, rfl⟩ :=
          joinOut_eq_some.mp ((hadvances.run fields').symm.trans hrun)
        cases hxs
        obtain ⟨next, pushed, tail, hpushes, hfinish, rfl⟩ : ∃ next pushed tail,
            middle.pushAll chunks = .ok (next, pushed) ∧ next.finish = .ok tail ∧
              last = pushed ++ tail := by
          refine (ih hadvances.represents (by rw [hopen]; exact noBreak_rest _)
            (by rw [hcount, hlimits]; exact hchunk)).mpr ?_
          rw [hcount, hlimits, hopen]
          refine ⟨?_, fun line hline => hlengths line (List.mem_append_right _ hline), fields',
            hreads', hlast⟩
          show decoder.totalBytes + chunk.length + chunks.flatten.length ≤ _
          omega
        refine ⟨next, first ++ pushed, tail, ?_, hfinish, by simp⟩
        simp only [pushAll, bind_eq_ok]
        exact ⟨(middle, first), hpush, (next, pushed), hpushes, rfl⟩

/-- What decoding yields, in terms of the consumed lines. -/
theorem decode_eq_ok {limits : ProviderHttpOptions} {chunks : List (List UInt8)} :
    decode limits chunks = .ok events ↔
      chunks.flatten.length ≤ limits.maximumSseTotalBytes ∧
      (∀ line ∈ feedLines [] chunks, line.length ≤ limits.maximumSseLineBytes) ∧
      ∃ fields, Reads (feedLines [] chunks) fields ∧
        runBlocks .blank (blockOut limits) [] fields = some events := by
  have hsettled := @pushAll_finish_iff [] (new limits) events chunks (Represents.new limits)
    (by simp [new, NoBreak]) (Nat.zero_le _)
  rw [show (new limits).totalBytes = 0 from rfl, Nat.zero_add] at hsettled
  refine Iff.trans ?_ hsettled
  simp only [decode, bind_eq_ok, Prod.exists, pure_eq_ok]
  constructor
  · rintro ⟨next, pushed, hpush, last, hfinish, rfl⟩
    exact ⟨next, pushed, last, hpush, hfinish, rfl⟩
  · rintro ⟨next, pushed, last, hpush, hfinish, rfl⟩
    exact ⟨next, pushed, hpush, last, hfinish, rfl⟩

end SseDecoder

/-! ## Streams that decode the same however they are cut -/

/-- A blank line between two stretches of a block changes nothing: both fit the event ceiling;
if the first has data, the second has no data line and names no other event; if only the second
has data, it names the event itself or the first names none. -/
structure Harmless (limits : ProviderHttpOptions) (left right : List SseField) : Prop where
  left_fits : Fits limits left
  right_fits : Fits limits right
  after_data : eventData left ≠ "" →
    dataValues right = [] ∧ (eventName right = none ∨ eventName right = eventName left)
  before_data : eventData left = "" → eventData right ≠ "" → eventName right = none →
    eventName left = none

theorem eventData_of_dataValues_nil {fields : List SseField} (h : dataValues fields = []) :
    eventData fields = "" := by
  rw [eventData, h]
  rfl

theorem harmless_iff {limits : ProviderHttpOptions} {left right : List SseField} :
    Harmless limits left right ↔
      ∃ xs ys, blockOut limits left = some xs ∧ blockOut limits right = some ys ∧
        blockOut limits (left ++ right) = some (xs ++ ys) := by
  constructor
  · rintro ⟨hleft, hright, hafter, hbefore⟩
    refine ⟨_, _, blockOut_of_fits hleft, blockOut_of_fits hright, ?_⟩
    by_cases hdata : eventData left = ""
    · have hboth : eventData (left ++ right) = eventData right := eventData_append_of_empty hdata
      rw [blockOut_of_fits (by rwa [Fits, hboth]), hboth, if_pos hdata]
      by_cases hlast : eventData right = ""
      · simp [hlast]
      · rw [eventName_append]
        cases hname : eventName right with
        | none => simp [hlast, hbefore hdata hlast hname]
        | some name => simp [hlast]
    · obtain ⟨hvalues, hname⟩ := hafter hdata
      have hboth : eventData (left ++ right) = eventData left := by
        rw [eventData_append_of_ne hdata, if_pos hvalues]
      rw [blockOut_of_fits (by rwa [Fits, hboth]), hboth,
        if_pos (eventData_of_dataValues_nil hvalues), eventName_append]
      rcases hname with hname | hname
      · simp [hdata, hname]
      · cases hleftName : eventName left <;> simp [hdata, hname, hleftName]
  · rintro ⟨xs, ys, hxs, hys, hboth⟩
    have hfits : ∀ {fields out}, blockOut limits fields = some out → Fits limits fields := by
      intro fields out hout
      by_contra hnot
      rw [blockOut_eq_none.mpr hnot] at hout
      cases hout
    have hleft := hfits hxs
    have hright := hfits hys
    rw [blockOut_of_fits hleft] at hxs
    rw [blockOut_of_fits hright] at hys
    rw [blockOut_of_fits (hfits hboth)] at hboth
    obtain rfl := Option.some.inj hxs
    obtain rfl := Option.some.inj hys
    have hevents := Option.some.inj hboth
    rw [eventName_append] at hevents
    refine ⟨hleft, hright, fun hdata => ?_, fun hdata hlast hname => ?_⟩
    · have hlast : eventData right = "" := by
        by_contra hlast
        have hlength := congrArg List.length hevents
        rw [if_neg hdata, if_neg hlast] at hlength
        split at hlength <;> simp at hlength
      by_cases hvalues : dataValues right = []
      · rw [eventData_append_of_ne hdata, if_pos hvalues] at hevents
        simp only [hdata, hlast, if_true, if_false, List.append_nil, List.cons.injEq,
          SseEvent.mk.injEq, and_true] at hevents
        cases hname : eventName right with
        | none => exact ⟨hvalues, .inl rfl⟩
        | some name => exact ⟨hvalues, .inr (by simpa [hname] using hevents)⟩
      · -- the joined data is longer by at least the line feed
        have hne : eventData left ++ "\n" ++ joinLines (dataValues right) ≠ "" := by simp
        rw [eventData_append_of_ne hdata, if_neg hvalues, if_neg hne, if_neg hdata, if_pos hlast,
          List.append_nil] at hevents
        have hsize := congrArg (fun event => event.data.utf8ByteSize) (List.cons.inj hevents).1
        simp only [String.utf8ByteSize_append, show "\n".utf8ByteSize = 1 from rfl] at hsize
        omega
    · rw [eventData_append_of_empty hdata] at hevents
      simpa [hdata, hlast, hname] using hevents

/-- Marked lines read as marked fields. -/
def ReadsMarked (lines : List (List UInt8 × Bool)) (fields : List (SseField × Bool)) : Prop :=
  List.Forall₂ (fun line field => readLine line.1 = .ok field.1 ∧ line.2 = field.2) lines fields

theorem readLine_nil : readLine [] = .ok .blank := by decide +kernel

section Reading

variable {lines : List (List UInt8 × Bool)} {fields : List (SseField × Bool)}
  {stream : List (List UInt8)} {fieldStream : List SseField}

/-- Blank lines inserted into the lines are blank fields inserted into their fields. -/
theorem exists_reads_of_inserted (hreads : ReadsMarked lines fields) (h : Inserted [] lines stream) :
    ∃ fieldStream, Reads stream fieldStream ∧ Inserted .blank fields fieldStream := by
  induction h generalizing fields with
  | nil =>
    cases hreads
    exact ⟨[], .nil, .nil⟩
  | keep _ ih =>
    obtain _ | ⟨⟨hread, _⟩, hrest⟩ := hreads
    obtain ⟨fieldStream, hstream, hinserted⟩ := ih hrest
    exact ⟨_ :: fieldStream, .cons hread hstream, .keep hinserted⟩
  | cut _ ih =>
    obtain _ | @⟨_, ⟨field, mark⟩, _, _, ⟨hread, hmark⟩, hrest⟩ := hreads
    obtain ⟨fieldStream, hstream, hinserted⟩ := ih hrest
    obtain rfl : true = mark := hmark
    exact ⟨field :: .blank :: fieldStream, .cons hread (.cons readLine_nil hstream),
      .cut hinserted⟩

/-- Every insertion of blank fields comes from one of blank lines. -/
theorem exists_inserted_of_reads (hreads : ReadsMarked lines fields)
    (h : Inserted .blank fields fieldStream) :
    ∃ stream, Inserted [] lines stream ∧ Reads stream fieldStream := by
  induction h generalizing lines with
  | nil =>
    cases hreads
    exact ⟨[], .nil, .nil⟩
  | keep _ ih =>
    obtain _ | ⟨⟨hread, _⟩, hrest⟩ := hreads
    obtain ⟨stream, hinserted, hstream⟩ := ih hrest
    exact ⟨_ :: stream, .keep hinserted, .cons hread hstream⟩
  | cut _ ih =>
    obtain _ | @⟨⟨line, mark⟩, _, _, _, ⟨hread, hmark⟩, hrest⟩ := hreads
    obtain ⟨stream, hinserted, hstream⟩ := ih hrest
    obtain rfl : mark = true := hmark
    exact ⟨line :: [] :: stream, .cut hinserted, .cons hread (.cons readLine_nil hstream)⟩

/-- A stream that can be read consists of lines that can. -/
theorem exists_readsMarked (hstream : Reads stream fieldStream) (h : Inserted [] lines stream) :
    ∃ fields, ReadsMarked lines fields := by
  induction h generalizing fieldStream with
  | nil => exact ⟨[], .nil⟩
  | @keep line mark _ _ _ ih =>
    obtain _ | ⟨hread, hrest⟩ := hstream
    obtain ⟨fields, hfields⟩ := ih hrest
    exact ⟨(_, mark) :: fields, .cons ⟨hread, rfl⟩ hfields⟩
  | cut _ ih =>
    obtain _ | ⟨hread, _ | ⟨_, hrest⟩⟩ := hstream
    obtain ⟨fields, hfields⟩ := ih hrest
    exact ⟨(_, true) :: fields, .cons ⟨hread, rfl⟩ hfields⟩

theorem lengths_of_inserted {bound : Nat} (h : Inserted [] lines stream) :
    (∀ line ∈ stream, line.length ≤ bound) ↔ ∀ line ∈ lines, line.1.length ≤ bound := by
  induction h with
  | nil => simp
  | keep _ ih => simp only [List.forall_mem_cons, ih]
  | cut _ ih => simp only [List.forall_mem_cons, ih, List.length_nil, Nat.zero_le, true_and]

end Reading

/-- A byte string decodes the same however it is cut: it exceeds the total ceiling, one of its
lines is too long or refused by itself, a stretch of a block that no cut can part exceeds the
event ceiling, or no CR LF parts stretches that a blank line would change. -/
def ChunkSafe (limits : ProviderHttpOptions) (bytes : List UInt8) : Prop :=
  ∀ fields : List (SseField × Bool), bytes.length ≤ limits.maximumSseTotalBytes →
    (∀ line ∈ streamLines bytes, line.1.length ≤ limits.maximumSseLineBytes) →
    ReadsMarked (streamLines bytes) fields →
    (∃ segment, Segment .blank fields segment ∧ ¬Fits limits (segment.map Prod.fst)) ∨
      ∀ left right, Neighbours .blank fields left right →
        Harmless limits (left.map Prod.fst) (right.map Prod.fst)

/-- For marked fields the condition says that inserted blank fields change nothing. -/
theorem independent_fields_iff {limits : ProviderHttpOptions} {fields : List (SseField × Bool)} :
    (∀ stream stream', Inserted .blank fields stream → Inserted .blank fields stream' →
      runBlocks .blank (blockOut limits) [] stream = runBlocks .blank (blockOut limits) [] stream') ↔
    (∃ segment, Segment .blank fields segment ∧ ¬Fits limits (segment.map Prod.fst)) ∨
      ∀ left right, Neighbours .blank fields left right →
        Harmless limits (left.map Prod.fst) (right.map Prod.fst) := by
  rw [independent_iff blockOutput]
  simp only [blockOut_eq_none, harmless_iff, List.map_append]

/-- Decoding is independent of chunk borders exactly for the streams of `ChunkSafe`. -/
theorem sse_chunking (limits : ProviderHttpOptions) (bytes : List UInt8) :
    (∀ chunks chunks' : List (List UInt8), chunks.flatten = bytes → chunks'.flatten = bytes →
      (SseDecoder.decode limits chunks).toOption = (SseDecoder.decode limits chunks').toOption) ↔
    ChunkSafe limits bytes := by
  have hfeed : ∀ chunks : List (List UInt8), chunks.flatten = bytes →
      Inserted [] (streamLines bytes) (feedLines [] chunks) := by
    rintro chunks rfl
    have hnil : NoBreak [] := by simp [NoBreak]
    exact inserted_feedLines hnil
  constructor
  · intro h fields htotal hlengths hreads
    refine independent_fields_iff.mp fun stream stream' hstream hstream' => ?_
    -- both insertions come from cuts, and decoding a cut is reading its lines in blocks
    have hdecode : ∀ stream, Inserted .blank fields stream → ∃ chunks : List (List UInt8),
        chunks.flatten = bytes ∧ (SseDecoder.decode limits chunks).toOption =
          runBlocks .blank (blockOut limits) [] stream := by
      intro stream hstream
      obtain ⟨lines, hinserted, hread⟩ := exists_inserted_of_reads hreads hstream
      obtain ⟨chunks, rfl, rfl⟩ := exists_chunks_of_inserted hinserted
      refine ⟨chunks, rfl, Option.ext fun events => ?_⟩
      rw [toOption_eq_some, SseDecoder.decode_eq_ok]
      constructor
      · rintro ⟨_, _, fields', hread', hrun⟩
        rwa [hread.unique hread']
      · intro hrun
        exact ⟨htotal, (lengths_of_inserted hinserted).mpr hlengths, stream, hread, hrun⟩
    obtain ⟨chunks, hchunks, hrun⟩ := hdecode stream hstream
    obtain ⟨chunks', hchunks', hrun'⟩ := hdecode stream' hstream'
    rw [← hrun, ← hrun', h chunks chunks' hchunks hchunks']
  · intro hsafe chunks chunks' hchunks hchunks'
    have hforward : ∀ chunks chunks' : List (List UInt8), chunks.flatten = bytes →
        chunks'.flatten = bytes → ∀ events, SseDecoder.decode limits chunks = .ok events →
        SseDecoder.decode limits chunks' = .ok events := by
      intro chunks chunks' hchunks hchunks' events hdecode
      obtain ⟨htotal, hlengths, stream, hread, hrun⟩ := SseDecoder.decode_eq_ok.mp hdecode
      obtain ⟨fields, hfields⟩ := exists_readsMarked hread (hfeed chunks hchunks)
      obtain ⟨stream₁, hread₁, hinserted⟩ := exists_reads_of_inserted hfields (hfeed chunks hchunks)
      obtain ⟨stream', hread', hinserted'⟩ :=
        exists_reads_of_inserted hfields (hfeed chunks' hchunks')
      obtain rfl := hread.unique hread₁
      rw [hchunks] at htotal
      rw [lengths_of_inserted (hfeed chunks hchunks)] at hlengths
      have hsame := independent_fields_iff.mpr (hsafe fields htotal hlengths hfields) stream stream'
        hinserted hinserted'
      refine SseDecoder.decode_eq_ok.mpr ⟨hchunks' ▸ htotal,
        (lengths_of_inserted (hfeed chunks' hchunks')).mpr hlengths, stream', hread', ?_⟩
      rw [← hsame, hrun]
    refine Option.ext fun events => ?_
    rw [toOption_eq_some, toOption_eq_some]
    exact ⟨hforward chunks chunks' hchunks hchunks' events,
      hforward chunks' chunks hchunks' hchunks events⟩

/-- A border inside the CR LF after an event line loses the event name. -/
theorem sse_chunking_splits_crlf :
    ¬∀ (limits : ProviderHttpOptions) (bytes : List UInt8) (chunks chunks' : List (List UInt8)),
      chunks.flatten = bytes → chunks'.flatten = bytes →
      (SseDecoder.decode limits chunks).toOption = (SseDecoder.decode limits chunks').toOption := by
  intro h
  have hwhole : (SseDecoder.decode .default ["event: a\r\ndata: b\r\n\r\n".toUTF8.toList]).toOption =
      some [⟨some "a", "b"⟩] := by decide +kernel
  have hcut : (SseDecoder.decode .default ["event: a\r".toUTF8.toList,
      "\ndata: b\r\n\r\n".toUTF8.toList]).toOption = some [⟨none, "b"⟩] := by decide +kernel
  have hsame := h .default _ ["event: a\r\ndata: b\r\n\r\n".toUTF8.toList]
    ["event: a\r".toUTF8.toList, "\ndata: b\r\n\r\n".toUTF8.toList] rfl (by decide +kernel)
  rw [hwhole, hcut] at hsame
  cases hsame

end StateKnot
