import Mathlib
import StateKnot.Lib.Result

/-!
# The event-stream decoder

Incremental decoder of Server-Sent Events.  Bytes arrive in chunks; `push` appends a
chunk to the pending bytes and consumes every complete line, `finish` consumes an
unterminated last line and dispatches what is left.  Byte counts are bounded by the
transport policy long before they could overflow, so they are natural numbers.
-/

namespace StateKnot

open Lib

/-! ## Transport policy -/

def mebibyte : Nat := 1024 * 1024

/-- The event-stream ceilings of the transport policy, as `new` admits them. -/
structure ProviderHttpOptions where
  maximumSseLineBytes : Nat
  maximumSseEventBytes : Nat
  maximumSseTotalBytes : Nat
  line_pos : 0 < maximumSseLineBytes
  line_le_event : maximumSseLineBytes ≤ maximumSseEventBytes
  event_le_total : maximumSseEventBytes ≤ maximumSseTotalBytes
  event_le : maximumSseEventBytes ≤ 128 * mebibyte
  total_le : maximumSseTotalBytes ≤ 256 * mebibyte

def ProviderHttpOptions.default : ProviderHttpOptions :=
  ⟨512 * 1024, 2 * mebibyte, 64 * mebibyte, by decide, by decide, by decide, by decide, by decide⟩

/-! ## The decoder -/

/-- One decoded event. -/
structure SseEvent where
  event : Option String
  data : String
deriving DecidableEq

inductive SseDecodeError where
  | totalTooLarge
  | lineTooLarge
  | eventTooLarge
  | invalidUtf8
  | nullByte
deriving DecidableEq

structure SseDecoder where
  limits : ProviderHttpOptions
  pending : List UInt8
  data : String
  event : Option String
  totalBytes : Nat

/-- Position of the first line end and the length of its terminator. -/
def nextLine (input : List UInt8) : Option (Nat × Nat) :=
  (input.findIdx? (fun byte => byte == 13 || byte == 10)).map fun index =>
    if input[index]? = some 13 ∧ input[index + 1]? = some 10 then (index, 2) else (index, 1)

theorem nextLine_length {input : List UInt8} {lineEnd terminatorLen : Nat}
    (h : nextLine input = some (lineEnd, terminatorLen)) :
    lineEnd < input.length ∧ 0 < terminatorLen := by
  simp only [nextLine, Option.map_eq_some_iff] at h
  obtain ⟨index, hindex, h⟩ := h
  have hlength := (List.findIdx?_eq_some_iff_getElem.mp hindex).1
  split at h <;> cases h <;> exact ⟨hlength, by decide⟩

def validateField (value : String) : Except SseDecodeError Unit :=
  reject (value.toList.any (fun character => character = '\x00')) .nullByte

/-- `str::from_utf8`. -/
def fromUtf8 (line : List UInt8) : Option String := String.fromUTF8? ⟨line.toArray⟩

/-- Field name and value of a line: the value starts after the first colon, less one space. -/
def splitField (line : String) : String × String :=
  match line.toList.span (fun character => character != ':') with
  | (_, []) => (line, "")
  | (field, _ :: ' ' :: value) => (String.ofList field, String.ofList value)
  | (field, _ :: value) => (String.ofList field, String.ofList value)

namespace SseDecoder

def new (limits : ProviderHttpOptions) : SseDecoder := ⟨limits, [], "", none, 0⟩

def dispatch (decoder : SseDecoder) (events : List SseEvent) :
    Except SseDecodeError (SseDecoder × List SseEvent) := do
  if decoder.data = "" then
    return ({ decoder with event := none }, events)
  else
    reject (decoder.data.utf8ByteSize > decoder.limits.maximumSseEventBytes) .eventTooLarge
    return ({ decoder with event := none, data := "" },
      events ++ [⟨decoder.event, decoder.data⟩])

def consumeLine (decoder : SseDecoder) (line : List UInt8) (events : List SseEvent) :
    Except SseDecodeError (SseDecoder × List SseEvent) := do
  let line ← okOr (fromUtf8 line) .invalidUtf8
  if line = "" then
    decoder.dispatch events
  else if line.toList.head? = some ':' then
    return (decoder, events)
  else
    let (field, value) := splitField line
    if field = "event" then
      validateField value
      return ({ decoder with event := some value }, events)
    else if field = "data" then
      validateField value
      let extra := value.utf8ByteSize + (if decoder.data = "" then 0 else 1)
      reject (decoder.data.utf8ByteSize + extra > decoder.limits.maximumSseEventBytes)
        .eventTooLarge
      let separator := if decoder.data = "" then "" else "\n"
      return ({ decoder with data := decoder.data ++ separator ++ value }, events)
    else
      return (decoder, events)

/-- The loop of `push`.  The buffer is passed beside the decoder, which gets back what
remains of it: `consume_line` does not touch it. -/
def drainLines (decoder : SseDecoder) (pending : List UInt8) (events : List SseEvent) :
    Except SseDecodeError (SseDecoder × List SseEvent) :=
  match _hline : nextLine pending with
  | none => do
    reject (pending.length > decoder.limits.maximumSseLineBytes) .lineTooLarge
    return ({ decoder with pending := pending }, events)
  | some (lineEnd, terminatorLen) => do
    reject (lineEnd > decoder.limits.maximumSseLineBytes) .lineTooLarge
    let (decoder, events) ← decoder.consumeLine (pending.take lineEnd) events
    drainLines decoder (pending.drop (lineEnd + terminatorLen)) events
termination_by pending.length
decreasing_by
  have hlength := nextLine_length _hline
  rw [List.length_drop]
  omega

def push (decoder : SseDecoder) (chunk : List UInt8) :
    Except SseDecodeError (SseDecoder × List SseEvent) := do
  let totalBytes := decoder.totalBytes + chunk.length
  reject (totalBytes > decoder.limits.maximumSseTotalBytes) .totalTooLarge
  drainLines { decoder with totalBytes := totalBytes } (decoder.pending ++ chunk) []

def finish (decoder : SseDecoder) : Except SseDecodeError (List SseEvent) := do
  let (decoder, events) ←
    if decoder.pending = [] then
      (.ok (decoder, []) : Except SseDecodeError (SseDecoder × List SseEvent))
    else do
      reject (decoder.pending.length > decoder.limits.maximumSseLineBytes) .lineTooLarge
      { decoder with pending := [] }.consumeLine decoder.pending []
  if decoder.data = "" then
    return events
  else
    let (_, events) ← decoder.dispatch events
    return events

/-- Push the chunks in turn, keeping the events. -/
def pushAll (decoder : SseDecoder) :
    List (List UInt8) → Except SseDecodeError (SseDecoder × List SseEvent)
  | [] => .ok (decoder, [])
  | chunk :: chunks => do
    let (decoder, events) ← decoder.push chunk
    let (decoder, rest) ← decoder.pushAll chunks
    return (decoder, events ++ rest)

/-- Feed the chunks to a fresh decoder and finish it. -/
def decode (limits : ProviderHttpOptions) (chunks : List (List UInt8)) :
    Except SseDecodeError (List SseEvent) := do
  let (decoder, events) ← (new limits).pushAll chunks
  let last ← decoder.finish
  return events ++ last

end SseDecoder

end StateKnot
