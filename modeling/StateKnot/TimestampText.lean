import StateKnot.Decimal
import StateKnot.Encoding
import StateKnot.Lib.Calendar

/-!
# The text of a timestamp

A timestamp travels as `YYYY-MM-DDTHH:MM:SS.ffffffZ`.  The parser reads the digits at
fixed positions and leaves the calendar to a library; what it accepts is exactly what the
printer writes, and the order of the texts is the order of the instants.
-/

namespace StateKnot

open Lib

/-! ## The calendar library -/

/-- The fields of a broken-down instant. -/
structure CivilTime where
  year : Int
  month : Nat
  day : Nat
  hour : Nat
  minute : Nat
  second : Nat
  nanosecond : Nat

/-- What `chrono` is used for: `NaiveDate::from_ymd_opt` (the day, counted from the epoch),
`and_hms_micro_opt` with `timestamp_micros`, and `DateTime::from_timestamp_micros`. -/
structure Chrono where
  fromYmdOpt (year : Int) (month day : Nat) : Option Int
  timestampMicros (date : Int) (hour minute second microsecond : Nat) : Option Int
  fromTimestampMicros (micros : Int) : Option CivilTime

/-- The days before the epoch. -/
def epochDay : Int := dayNumber 1970 1 1

/-- The microseconds from the epoch to a time of a day. -/
def instantMicros (date : Int) (hour minute second microsecond : Nat) : Int :=
  (((date * 24 + hour) * 60 + minute) * 60 + second) * 1000000 + microsecond

/-- The library follows the proleptic Gregorian calendar in the years of a timestamp. -/
structure Chrono.Correct (chrono : Chrono) : Prop where
  date : ∀ {year : Int} {month day : Nat} {date : Int}, 0 ≤ year → year ≤ 9999 →
    (chrono.fromYmdOpt year month day = some date ↔
      ValidDate year month day ∧ date = dayNumber year month day - epochDay)
  time : ∀ {date : Int} {hour minute second microsecond : Nat} {micros : Int},
    microsecond < 1000000 →
    (chrono.timestampMicros date hour minute second microsecond = some micros ↔
      hour < 24 ∧ minute < 60 ∧ second < 60 ∧
        micros = instantMicros date hour minute second microsecond)
  civil : ∀ timestamp : Timestamp, ∃ civil, chrono.fromTimestampMicros timestamp.micros =
    some civil ∧ ValidDate civil.year civil.month civil.day ∧ civil.hour < 24 ∧
      civil.minute < 60 ∧ civil.second < 60 ∧ civil.nanosecond < 1000000000 ∧
      timestamp.micros * 1000 = instantMicros (dayNumber civil.year civil.month civil.day -
        epochDay) civil.hour civil.minute civil.second 0 * 1000 + civil.nanosecond

/-! ## Printing -/

/-- `{:0width}` of an unsigned number. -/
def zeroPadded (width n : Nat) : String :=
  String.ofList (List.replicate (width - (Nat.repr n).utf8ByteSize) '0') ++ Nat.repr n

/-- `{:0width}` of a signed number; the sign counts. -/
def zeroPaddedInt (width : Nat) (n : Int) : String :=
  if n < 0 then "-" ++ zeroPadded (width - 1) n.natAbs else zeroPadded width n.natAbs

def CivilTime.text (civil : CivilTime) : String :=
  zeroPaddedInt 4 civil.year ++ "-" ++ zeroPadded 2 civil.month ++ "-" ++ zeroPadded 2 civil.day ++
    "T" ++ zeroPadded 2 civil.hour ++ ":" ++ zeroPadded 2 civil.minute ++ ":" ++
    zeroPadded 2 civil.second ++ "." ++ zeroPadded 6 (civil.nanosecond / 1000) ++ "Z"

/-- `Display`: `none` is a formatting error. -/
def Timestamp.display (chrono : Chrono) (timestamp : Timestamp) : Option String :=
  (chrono.fromTimestampMicros timestamp.micros).map CivilTime.text

/-! ## Parsing -/

def timestampLen : Nat := 27

inductive TimestampError where
  | invalidLength (expected actual : Nat)
  | invalidFormat
  | invalidValue
  | outOfRange
  | submicrosecondPrecision

/-- The numbers at the positions of the text. -/
structure TimestampFields where
  year : Nat
  month : Nat
  day : Nat
  hour : Nat
  minute : Nat
  second : Nat
  microsecond : Nat

def slice (bytes : List UInt8) (start stop : Nat) : List UInt8 :=
  (bytes.drop start).take (stop - start)

/-- `parse_decimal`; the ranges have at most six digits, which 32 bits hold. -/
def parseDecimal (bytes : List UInt8) : Except TimestampError Nat :=
  okOr (bytes.foldlM (fun value byte =>
    if isDigit byte then some (value * 10 + digitValue byte) else none) 0) .invalidFormat

/-- The first part of `from_str`: the separators and the numbers. -/
def readFields (bytes : List UInt8) : Except TimestampError TimestampFields := do
  reject (bytes.length ≠ timestampLen) (.invalidLength timestampLen bytes.length)
  reject (bytes[4]? ≠ some 45 ∨ bytes[7]? ≠ some 45 ∨ bytes[10]? ≠ some 84 ∨ bytes[13]? ≠ some 58 ∨
    bytes[16]? ≠ some 58 ∨ bytes[19]? ≠ some 46 ∨ bytes[26]? ≠ some 90) .invalidFormat
  let year ← parseDecimal (slice bytes 0 4)
  reject (year > 2147483647) .invalidValue
  let month ← parseDecimal (slice bytes 5 7)
  let day ← parseDecimal (slice bytes 8 10)
  let hour ← parseDecimal (slice bytes 11 13)
  let minute ← parseDecimal (slice bytes 14 16)
  let second ← parseDecimal (slice bytes 17 19)
  let microsecond ← parseDecimal (slice bytes 20 26)
  return ⟨year, month, day, hour, minute, second, microsecond⟩

def Timestamp.fromStr (chrono : Chrono) (value : String) : Except TimestampError Timestamp := do
  let fields ← readFields value.toUTF8.data.toList
  let date ← okOr (chrono.fromYmdOpt fields.year fields.month fields.day) .invalidValue
  let micros ← okOr (chrono.timestampMicros date fields.hour fields.minute fields.second
    fields.microsecond) .invalidValue
  okOr (Timestamp.fromUnixMicros? micros) .outOfRange

/-! ## The layout -/

namespace TimestampFields

/-- The bytes of the text. -/
def layout (fields : TimestampFields) : List UInt8 :=
  padded 4 fields.year ++ [45] ++ padded 2 fields.month ++ [45] ++ padded 2 fields.day ++ [84] ++
    padded 2 fields.hour ++ [58] ++ padded 2 fields.minute ++ [58] ++ padded 2 fields.second ++
    [46] ++ padded 6 fields.microsecond ++ [90]

/-- Each number has the digits of its place. -/
structure Fits (fields : TimestampFields) : Prop where
  year : fields.year < 10 ^ 4
  month : fields.month < 10 ^ 2
  day : fields.day < 10 ^ 2
  hour : fields.hour < 10 ^ 2
  minute : fields.minute < 10 ^ 2
  second : fields.second < 10 ^ 2
  microsecond : fields.microsecond < 10 ^ 6

theorem length_layout (fields : TimestampFields) : fields.layout.length = 27 := by
  simp [layout]

theorem layout_separators (fields : TimestampFields) :
    fields.layout[4]? = some 45 ∧ fields.layout[7]? = some 45 ∧ fields.layout[10]? = some 84 ∧
      fields.layout[13]? = some 58 ∧ fields.layout[16]? = some 58 ∧ fields.layout[19]? = some 46 ∧
      fields.layout[26]? = some 90 := by
  simp [layout]

theorem layout_slices (fields : TimestampFields) :
    slice fields.layout 0 4 = padded 4 fields.year ∧
      slice fields.layout 5 7 = padded 2 fields.month ∧
      slice fields.layout 8 10 = padded 2 fields.day ∧
      slice fields.layout 11 13 = padded 2 fields.hour ∧
      slice fields.layout 14 16 = padded 2 fields.minute ∧
      slice fields.layout 17 19 = padded 2 fields.second ∧
      slice fields.layout 20 26 = padded 6 fields.microsecond := by
  simp [layout, slice, List.drop_append, List.drop_eq_nil_of_le]

end TimestampFields

theorem parseDecimal_eq_ok {bytes : List UInt8} :
    ∀ {n : Nat}, parseDecimal bytes = .ok n ↔ AllDigits bytes ∧ digitsValue bytes = n := by
  unfold parseDecimal
  simp only [okOr_eq_ok]
  induction bytes using List.reverseRecOn with
  | nil =>
    intro n
    simp [AllDigits]
  | append_singleton bytes last ih =>
    intro n
    rw [List.foldlM_append]
    simp only [List.foldlM_cons, List.foldlM_nil, bind_pure, Option.bind_eq_bind,
      Option.bind_eq_some_iff, ih, digitsValue_concat, AllDigits.concat_iff]
    constructor
    · intro ⟨value, ⟨hdigits, hvalue⟩, hlast⟩
      split_ifs at hlast with hdigit
      rw [hvalue]
      exact ⟨⟨hdigits, hdigit⟩, Option.some.inj hlast⟩
    · intro ⟨⟨hdigits, hdigit⟩, hn⟩
      refine ⟨digitsValue bytes, ⟨hdigits, rfl⟩, ?_⟩
      rw [if_pos hdigit, hn]

theorem parseDecimal_padded {width n : Nat} (hn : n < 10 ^ width) :
    parseDecimal (padded width n) = .ok n :=
  parseDecimal_eq_ok.mpr ⟨allDigits_padded width n, digitsValue_padded width hn⟩

/-! ## Reading the layout -/

section Slices

variable {bytes : List UInt8} {start middle stop n : Nat}

theorem slice_append (hstart : start ≤ middle) (hmiddle : middle ≤ stop) :
    slice bytes start middle ++ slice bytes middle stop = slice bytes start stop := by
  have hlength : stop - start = (middle - start) + (stop - middle) := by omega
  have hdrop : bytes.drop middle = (bytes.drop start).drop (middle - start) := by
    rw [List.drop_drop, Nat.add_sub_cancel' hstart]
  rw [slice, slice, slice, hlength, List.take_add, hdrop]

theorem slice_singleton {byte : UInt8} (h : bytes[start]? = some byte) :
    slice bytes start (start + 1) = [byte] := by
  obtain ⟨hstart, hbyte⟩ := List.getElem?_eq_some_iff.mp h
  rw [slice, List.drop_eq_getElem_cons hstart, hbyte, Nat.add_sub_cancel_left]
  rfl

/-- A number read from a slice was written there with the width of the slice. -/
theorem slice_eq_padded (hstop : stop ≤ bytes.length)
    (h : parseDecimal (slice bytes start stop) = .ok n) :
    slice bytes start stop = padded (stop - start) n ∧ n < 10 ^ (stop - start) := by
  obtain ⟨hdigits, hvalue⟩ := parseDecimal_eq_ok.mp h
  have hlength : (slice bytes start stop).length = stop - start := by
    rw [slice, List.length_take, List.length_drop]
    omega
  rw [← hvalue, ← hlength]
  exact ⟨(padded_digitsValue hdigits).symm, digitsValue_lt hdigits⟩

/-- A text of the right length is made of its numbers and what stands between them. -/
theorem slices_append (h : bytes.length = 27) :
    slice bytes 0 4 ++ slice bytes 4 5 ++ slice bytes 5 7 ++ slice bytes 7 8 ++ slice bytes 8 10 ++
      slice bytes 10 11 ++ slice bytes 11 13 ++ slice bytes 13 14 ++ slice bytes 14 16 ++
      slice bytes 16 17 ++ slice bytes 17 19 ++ slice bytes 19 20 ++ slice bytes 20 26 ++
      slice bytes 26 27 = bytes := by
  simp only [slice_append, Nat.reduceLeDiff]
  rw [slice, List.drop_zero, Nat.sub_zero, ← h, List.take_length]

end Slices

/-- The numbers are read exactly from the bytes of their layout. -/
theorem readFields_eq_ok {bytes : List UInt8} {fields : TimestampFields} :
    readFields bytes = .ok fields ↔ fields.Fits ∧ bytes = fields.layout := by
  constructor
  · intro h
    simp only [readFields, bind_eq_ok, reject_eq_ok, exists_const, not_or, ne_eq, not_not, pure_eq_ok] at h
    obtain ⟨hlength, ⟨h4, h7, h10, h13, h16, h19, h26⟩, year, hyear, _, month, hmonth, day, hday,
      hour, hhour, minute, hminute, second, hsecond, microsecond, hmicrosecond, rfl⟩ := h
    have hlength : bytes.length = 27 := hlength
    obtain ⟨hyear, hyearFits⟩ := slice_eq_padded (by omega) hyear
    obtain ⟨hmonth, hmonthFits⟩ := slice_eq_padded (by omega) hmonth
    obtain ⟨hday, hdayFits⟩ := slice_eq_padded (by omega) hday
    obtain ⟨hhour, hhourFits⟩ := slice_eq_padded (by omega) hhour
    obtain ⟨hminute, hminuteFits⟩ := slice_eq_padded (by omega) hminute
    obtain ⟨hsecond, hsecondFits⟩ := slice_eq_padded (by omega) hsecond
    obtain ⟨hmicrosecond, hmicrosecondFits⟩ := slice_eq_padded (by omega) hmicrosecond
    refine ⟨⟨hyearFits, hmonthFits, hdayFits, hhourFits, hminuteFits, hsecondFits,
      hmicrosecondFits⟩, ?_⟩
    rw [← slices_append hlength, slice_singleton h4, slice_singleton h7, slice_singleton h10,
      slice_singleton h13, slice_singleton h16, slice_singleton h19, slice_singleton h26, hyear,
      hmonth, hday, hhour, hminute, hsecond, hmicrosecond]
    rfl
  · rintro ⟨hfits, hbytes⟩
    obtain ⟨hyearAt, hmonthAt, hdayAt, hhourAt, hminuteAt, hsecondAt, hmicrosecondAt⟩ :=
      fields.layout_slices
    have hyear := parseDecimal_padded hfits.year
    have hmonth := parseDecimal_padded hfits.month
    have hday := parseDecimal_padded hfits.day
    have hhour := parseDecimal_padded hfits.hour
    have hminute := parseDecimal_padded hfits.minute
    have hsecond := parseDecimal_padded hfits.second
    have hmicrosecond := parseDecimal_padded hfits.microsecond
    have hsmall := hfits.year
    rw [← hyearAt] at hyear
    rw [← hmonthAt] at hmonth
    rw [← hdayAt] at hday
    rw [← hhourAt] at hhour
    rw [← hminuteAt] at hminute
    rw [← hsecondAt] at hsecond
    rw [← hmicrosecondAt] at hmicrosecond
    simp only [readFields, bind_eq_ok, reject_eq_ok, exists_const, not_or, ne_eq, not_not, pure_eq_ok]
    subst hbytes
    exact ⟨fields.length_layout, fields.layout_separators, fields.year, hyear, by omega,
      fields.month, hmonth, fields.day, hday, fields.hour, hhour, fields.minute, hminute,
      fields.second, hsecond, fields.microsecond, hmicrosecond, rfl⟩

/-! ## The instant of the numbers -/

namespace TimestampFields

variable {fields other : TimestampFields}

/-- The numbers name a date and a time of the day. -/
structure Valid (fields : TimestampFields) : Prop where
  date : ValidDate fields.year fields.month fields.day
  hour : fields.hour < 24
  minute : fields.minute < 60
  second : fields.second < 60
  microsecond : fields.microsecond < 1000000

def micros (fields : TimestampFields) : Int :=
  instantMicros (dayNumber fields.year fields.month fields.day - epochDay) fields.hour
    fields.minute fields.second fields.microsecond

theorem Valid.fits (h : fields.Valid) (hyear : fields.year ≤ 9999) : fields.Fits := by
  obtain ⟨⟨_, hmonth, _, hday⟩, hhour, hminute, hsecond, hmicrosecond⟩ := h
  have hdays : ∀ (leap : Bool) (month : Nat), daysInMonth leap month ≤ 31 := by
    intro leap month
    unfold daysInMonth
    split <;> try split
    all_goals decide
  have hmonthDays := hdays (isLeap fields.year) fields.month
  constructor <;> omega

/-- The numbers compared from the year down. -/
def Before (fields other : TimestampFields) : Prop :=
  fields.year < other.year ∨ fields.year = other.year ∧
    (fields.month < other.month ∨ fields.month = other.month ∧
      (fields.day < other.day ∨ fields.day = other.day ∧
        (fields.hour < other.hour ∨ fields.hour = other.hour ∧
          (fields.minute < other.minute ∨ fields.minute = other.minute ∧
            (fields.second < other.second ∨ fields.second = other.second ∧
              fields.microsecond < other.microsecond)))))

theorem layout_lt_iff (h : fields.Fits) (hother : other.Fits) :
    fields.layout < other.layout ↔ fields.Before other := by
  have hseparator : ∀ (byte : UInt8) (back back' : List UInt8),
      [byte] ++ back < [byte] ++ back' ↔ back < back' := by
    intro byte back back'
    simp
  have hpart : ∀ {width a b : Nat} {back back' : List UInt8}, a < 10 ^ width → b < 10 ^ width →
      (padded width a ++ back < padded width b ++ back' ↔ a < b ∨ a = b ∧ back < back') := by
    intro width a b back back' ha hb
    have heq : padded width a = padded width b ↔ a = b :=
      ⟨padded_injective ha hb, fun hab => by rw [hab]⟩
    rw [append_lt_append_iff (by rw [length_padded, length_padded]), padded_lt_iff ha hb, heq]
  simp only [layout, List.append_assoc, hseparator, hpart h.year hother.year,
    hpart h.month hother.month, hpart h.day hother.day, hpart h.hour hother.hour,
    hpart h.minute hother.minute, hpart h.second hother.second,
    hpart h.microsecond hother.microsecond, List.lt_irrefl, and_false, or_false]
  exact Iff.rfl

theorem micros_lt_iff (h : fields.Valid) (hother : other.Valid) :
    fields.micros < other.micros ↔ fields.Before other := by
  have hdate := h.date.dayNumber_lt_iff hother.date
  have hdate' := hother.date.dayNumber_lt_iff h.date
  obtain ⟨_, hhour, hminute, hsecond, hmicrosecond⟩ := h
  obtain ⟨_, hhour', hminute', hsecond', hmicrosecond'⟩ := hother
  unfold micros instantMicros Before
  omega

theorem eq_of_micros_eq (h : fields.Valid) (hother : other.Valid)
    (hmicros : fields.micros = other.micros) : fields = other := by
  have hbefore := micros_lt_iff h hother
  have hafter := micros_lt_iff hother h
  rw [hmicros] at hbefore hafter
  simp only [lt_irrefl, false_iff, Before] at hbefore hafter
  cases fields
  cases other
  simp only [TimestampFields.mk.injEq]
  dsimp only at hbefore hafter
  omega

end TimestampFields

/-! ## The codec -/

section Codec

variable {chrono : Chrono} {timestamp : Timestamp}

theorem toUTF8_zeroPadded {width n : Nat} (hwidth : 0 < width) (hn : n < 10 ^ width) :
    (zeroPadded width n).toUTF8.data.toList = padded width n := by
  have hzeros : ∀ count, utf8 (List.replicate count '0') = List.replicate count 48 := by
    intro count
    induction count with
    | zero => rfl
    | succ count ih =>
      rw [List.replicate_succ, List.replicate_succ, utf8_cons, ih]
      rfl
  rw [zeroPadded, toUTF8_append, ← utf8_toList (String.ofList _), String.toList_ofList, hzeros,
    utf8ByteSize_eq_length, toUTF8_repr]
  exact zeros_append_printed hwidth hn

/-- A day of a timestamp lies in the years zero to 9999. -/
theorem year_range {year : Int} {month day hour minute second : Nat} {nanosecond : Nat}
    (hdate : ValidDate year month day) (hhour : hour < 24) (hminute : minute < 60)
    (hsecond : second < 60) (hnanosecond : nanosecond < 1000000000)
    (hmicros : timestamp.micros * 1000 =
      instantMicros (dayNumber year month day - epochDay) hour minute second 0 * 1000 +
        nanosecond) : 0 ≤ year ∧ year ≤ 9999 := by
  have hlower := timestamp.lower
  have hupper := timestamp.upper
  have hepoch : epochDay = 719528 := by decide
  obtain ⟨hbegin, hend⟩ := hdate.day_in_year
  unfold instantMicros at hmicros
  constructor
  · by_contra hnegative
    have hbefore : daysBeforeYear (year + 1) ≤ daysBeforeYear 0 := daysBeforeYear_mono (by omega)
    have hzero : daysBeforeYear 0 = 0 := by decide
    omega
  · by_contra hlarge
    have hafter : daysBeforeYear 10000 ≤ daysBeforeYear year := daysBeforeYear_mono (by omega)
    have hten : daysBeforeYear 10000 = 3652425 := by decide
    omega

/-- The numbers that are printed. -/
def CivilTime.fields (civil : CivilTime) : TimestampFields :=
  ⟨civil.year.toNat, civil.month, civil.day, civil.hour, civil.minute, civil.second,
    civil.nanosecond / 1000⟩

theorem toUTF8_text {civil : CivilTime} (hyear : 0 ≤ civil.year) (hfits : civil.fields.Fits) :
    civil.text.toUTF8.data.toList = civil.fields.layout := by
  obtain ⟨hyearFits, hmonth, hday, hhour, hminute, hsecond, hmicrosecond⟩ := hfits
  dsimp only [CivilTime.fields] at hmonth hday hhour hminute hsecond hmicrosecond
  have hnat : civil.year.natAbs = civil.fields.year := by
    show civil.year.natAbs = civil.year.toNat
    omega
  have hdash : "-".toUTF8.data.toList = [45] := by decide
  have hletter : "T".toUTF8.data.toList = [84] := by decide
  have hcolon : ":".toUTF8.data.toList = [58] := by decide
  have hdot : ".".toUTF8.data.toList = [46] := by decide
  have hzone : "Z".toUTF8.data.toList = [90] := by decide
  rw [CivilTime.text, zeroPaddedInt, if_neg (by omega), hnat]
  simp only [toUTF8_append, hdash, hletter, hcolon, hdot, hzone,
    toUTF8_zeroPadded (show 0 < 4 by decide) hyearFits]
  rw [toUTF8_zeroPadded (by decide) hmonth, toUTF8_zeroPadded (by decide) hday,
    toUTF8_zeroPadded (by decide) hhour, toUTF8_zeroPadded (by decide) hminute,
    toUTF8_zeroPadded (by decide) hsecond, toUTF8_zeroPadded (by decide) hmicrosecond]
  rfl

theorem exists_display (hchrono : chrono.Correct) (timestamp : Timestamp) :
    ∃ (text : String) (fields : TimestampFields), timestamp.display chrono = some text ∧
      text.toUTF8.data.toList = fields.layout ∧ fields.Fits ∧ fields.Valid ∧
      fields.micros = timestamp.micros := by
  obtain ⟨civil, hcivil, hdate, hhour, hminute, hsecond, hnanosecond, hmicros⟩ :=
    hchrono.civil timestamp
  obtain ⟨hyearLow, hyearHigh⟩ := year_range hdate hhour hminute hsecond hnanosecond hmicros
  have hyear : (civil.fields.year : Int) = civil.year := Int.toNat_of_nonneg hyearLow
  have hmicrosecond : civil.fields.microsecond = civil.nanosecond / 1000 := rfl
  rw [← hyear] at hdate hmicros
  have hvalid : civil.fields.Valid := ⟨hdate, hhour, hminute, hsecond, by omega⟩
  have hfits : civil.fields.Fits := hvalid.fits (by omega)
  refine ⟨civil.text, civil.fields, ?_, toUTF8_text hyearLow hfits, hfits, hvalid, ?_⟩
  · rw [Timestamp.display, hcivil]
    rfl
  · show instantMicros (dayNumber civil.fields.year civil.month civil.day - epochDay) civil.hour
      civil.minute civil.second (civil.nanosecond / 1000) = timestamp.micros
    unfold instantMicros at hmicros ⊢
    omega

/-- A text is read as a timestamp exactly when it is the layout of the timestamp's numbers. -/
theorem fromStr_eq_ok (hchrono : chrono.Correct) {text : String} :
    Timestamp.fromStr chrono text = .ok timestamp ↔
      ∃ fields : TimestampFields, fields.Fits ∧ text.toUTF8.data.toList = fields.layout ∧
        fields.Valid ∧ fields.micros = timestamp.micros := by
  simp only [Timestamp.fromStr, bind_eq_ok, okOr_eq_ok, readFields_eq_ok,
    Timestamp.fromUnixMicros?_eq_some]
  constructor
  · rintro ⟨fields, ⟨hfits, htext⟩, date, hdate, micros, hmicros, htimestamp⟩
    have hyear := hfits.year
    obtain ⟨hvalid, rfl⟩ := (hchrono.date (by omega) (by omega)).mp hdate
    obtain ⟨hhour, hminute, hsecond, rfl⟩ := (hchrono.time hfits.microsecond).mp hmicros
    exact ⟨fields, hfits, htext, ⟨hvalid, hhour, hminute, hsecond, hfits.microsecond⟩,
      htimestamp.symm⟩
  · rintro ⟨fields, hfits, htext, hvalid, hmicros⟩
    have hyear := hfits.year
    refine ⟨fields, ⟨hfits, htext⟩, dayNumber fields.year fields.month fields.day - epochDay, ?_,
      fields.micros, ?_, hmicros.symm⟩
    · exact (hchrono.date (by omega) (by omega)).mpr ⟨hvalid.date, rfl⟩
    · exact (hchrono.time hfits.microsecond).mpr ⟨hvalid.hour, hvalid.minute, hvalid.second, rfl⟩

end Codec

/-- With a correct calendar library, every timestamp is printed in 27 bytes and read back from
them, a text is accepted only if it is the printed form of the timestamp it is read as, and the
bytes of printed timestamps are ordered as the timestamps are. -/
theorem timestamp_text_codec (chrono : Chrono) (hchrono : chrono.Correct) :
    (∀ timestamp : Timestamp, ∃ text, timestamp.display chrono = some text ∧
      text.utf8ByteSize = 27 ∧ Timestamp.fromStr chrono text = .ok timestamp) ∧
    (∀ (text : String) (timestamp : Timestamp), Timestamp.fromStr chrono text = .ok timestamp →
      timestamp.display chrono = some text) ∧
    (∀ (a b : Timestamp) (text other : String), a.display chrono = some text →
      b.display chrono = some other →
      (text.toUTF8.data.toList < other.toUTF8.data.toList ↔ a < b)) := by
  refine ⟨?_, ?_, ?_⟩
  · intro timestamp
    obtain ⟨text, fields, hdisplay, htext, hfits, hvalid, hmicros⟩ :=
      exists_display hchrono timestamp
    refine ⟨text, hdisplay, ?_, ?_⟩
    · rw [utf8ByteSize_eq_length, htext, fields.length_layout]
    · exact (fromStr_eq_ok hchrono).mpr ⟨fields, hfits, htext, hvalid, hmicros⟩
  · intro text timestamp hread
    obtain ⟨fields, _, htext, hvalid, hmicros⟩ := (fromStr_eq_ok hchrono).mp hread
    obtain ⟨printed, others, hdisplay, hprinted, _, hothers, hsame⟩ :=
      exists_display hchrono timestamp
    have hfields : others = fields :=
      TimestampFields.eq_of_micros_eq hothers hvalid (hsame.trans hmicros.symm)
    rw [hfields, ← htext] at hprinted
    rw [hdisplay, toUTF8_injective hprinted]
  · intro a b text other hdisplay hdisplay'
    obtain ⟨_, fields, hfields, htext, hfits, hvalid, hmicros⟩ := exists_display hchrono a
    obtain ⟨_, others, hothers, hother, hfits', hvalid', hmicros'⟩ := exists_display hchrono b
    obtain rfl := Option.some.inj (hdisplay.symm.trans hfields)
    obtain rfl := Option.some.inj (hdisplay'.symm.trans hothers)
    rw [htext, hother, TimestampFields.layout_lt_iff hfits hfits',
      ← TimestampFields.micros_lt_iff hvalid hvalid', hmicros, hmicros', Timestamp.lt_iff]

/-! ## A library that follows the calendar -/

/-- The calendar computed from the count of days. -/
def Chrono.reference : Chrono where
  fromYmdOpt year month day :=
    if ValidDate year month day then some (dayNumber year month day - epochDay) else none
  timestampMicros date hour minute second microsecond :=
    if hour < 24 ∧ minute < 60 ∧ second < 60 then
      some (instantMicros date hour minute second microsecond) else none
  fromTimestampMicros micros :=
    let day := micros / 86400000000
    let rest := (micros % 86400000000).toNat
    let date := dateOf (day + epochDay)
    some ⟨date.1, date.2.1, date.2.2, rest / 3600000000, rest / 60000000 % 60,
      rest / 1000000 % 60, rest % 1000000 * 1000⟩

theorem Chrono.reference_correct : Chrono.reference.Correct where
  date := by
    intro year month day date _ _
    rw [Chrono.reference, Option.ite_none_right_eq_some, Option.some.injEq, eq_comm (a := date)]
  time := by
    intro date hour minute second microsecond micros _
    rw [Chrono.reference, Option.ite_none_right_eq_some, Option.some.injEq, and_assoc, and_assoc,
      eq_comm (a := micros)]
  civil := by
    intro timestamp
    obtain ⟨hdate, hday⟩ := dateOf_spec (timestamp.micros / 86400000000 + epochDay)
    refine ⟨_, rfl, hdate, ?_, ?_, ?_, ?_, ?_⟩
    · dsimp only
      omega
    · exact Nat.mod_lt _ (by decide)
    · exact Nat.mod_lt _ (by decide)
    · dsimp only
      omega
    · dsimp only
      rw [hday]
      unfold instantMicros
      omega

/-- The instant of the epoch under the computed calendar. -/
theorem timestamp_text_codec_epoch :
    ∃ text, Timestamp.display .reference (.ofMicros 0) = some text ∧
      text.utf8ByteSize = 27 ∧
      Timestamp.fromStr .reference text = .ok (.ofMicros 0) :=
  (timestamp_text_codec .reference Chrono.reference_correct).1 (.ofMicros 0)

end StateKnot
