import StateKnot.Integrations.Sse
import StateKnot.Lib.Blocks

/-!
# Lines of an event stream and chunk borders

`push` consumes a carriage return at the end of a chunk as a line end of its own.  When
the next chunk starts with the line feed of the same CR LF pair, that line feed ends
another, empty line.  So a chunk border inside a CR LF pair inserts a blank line after
it, and no other border changes the lines: `inserted_feedLines` and its converse
`exists_chunks_of_inserted`.
-/

namespace StateKnot

open Lib

/-! ## Lines of a byte string -/

/-- A line with the bytes that end it. -/
structure SseLine where
  text : List UInt8
  terminator : List UInt8

/-- The complete lines of a buffer and what follows them. -/
def splitLines (buffer : List UInt8) : List SseLine × List UInt8 :=
  match _hline : nextLine buffer with
  | none => ([], buffer)
  | some (lineEnd, terminatorLen) =>
    let rest := splitLines (buffer.drop (lineEnd + terminatorLen))
    (⟨buffer.take lineEnd, (buffer.drop lineEnd).take terminatorLen⟩ :: rest.1, rest.2)
termination_by buffer.length
decreasing_by
  have hlength := nextLine_length _hline
  rw [List.length_drop]
  omega

/-- A stretch of bytes without a line end. -/
def NoBreak (bytes : List UInt8) : Prop := ∀ byte ∈ bytes, byte ≠ 13 ∧ byte ≠ 10

variable {bytes : List UInt8} {text rest : List UInt8}

theorem nextLine_of_noBreak (h : NoBreak bytes) : nextLine bytes = none := by
  have hnone : bytes.findIdx? (fun byte => byte == 13 || byte == 10) = none := by
    rw [List.findIdx?_eq_none_iff]
    intro byte hbyte
    simpa using h byte hbyte
  rw [nextLine, hnone]
  rfl

theorem nextLine_append {byte : UInt8} (htext : NoBreak text)
    (hbyte : byte = 13 ∨ byte = 10) :
    nextLine (text ++ byte :: rest) =
      some (text.length, if byte = 13 ∧ rest.head? = some 10 then 2 else 1) := by
  have hindex : (text ++ byte :: rest).findIdx? (fun byte => byte == 13 || byte == 10) =
      some text.length := by
    rw [List.findIdx?_eq_some_iff_getElem]
    refine ⟨by simp, by simpa using hbyte, fun j hj => ?_⟩
    rw [List.getElem_append_left hj]
    simpa using htext _ (List.getElem_mem hj)
  rw [nextLine, hindex]
  cases rest with
  | nil => simp
  | cons next rest =>
    simp only [Option.map_some, List.getElem?_append_right (le_refl text.length), Nat.sub_self,
      List.getElem?_cons_zero, Option.some.injEq, List.head?_cons,
      List.getElem?_append_right (Nat.le_succ text.length), Nat.succ_sub (le_refl text.length)]
    split <;> simp_all

theorem splitLines_of_noBreak (h : NoBreak bytes) :
    splitLines bytes = ([], bytes) := by
  rw [splitLines]
  split
  · rfl
  · next hline => rw [nextLine_of_noBreak h] at hline; cases hline

theorem splitLines_of_nextLine {lineEnd terminatorLen : Nat}
    (h : nextLine bytes = some (lineEnd, terminatorLen)) :
    splitLines bytes =
      (⟨bytes.take lineEnd, (bytes.drop lineEnd).take terminatorLen⟩ ::
        (splitLines (bytes.drop (lineEnd + terminatorLen))).1,
        (splitLines (bytes.drop (lineEnd + terminatorLen))).2) := by
  rw [splitLines]
  split
  · next hline => rw [h] at hline; cases hline
  · next hline => rw [h] at hline; cases hline; rfl

theorem splitLines_lf (htext : NoBreak text) :
    splitLines (text ++ 10 :: rest) =
      (⟨text, [10]⟩ :: (splitLines rest).1, (splitLines rest).2) := by
  rw [splitLines_of_nextLine (nextLine_append htext (.inr rfl))]
  simp [List.drop_length_add_append]

theorem splitLines_crlf (htext : NoBreak text) :
    splitLines (text ++ 13 :: 10 :: rest) =
      (⟨text, [13, 10]⟩ :: (splitLines rest).1, (splitLines rest).2) := by
  rw [splitLines_of_nextLine (nextLine_append htext (.inl rfl))]
  simp [List.drop_length_add_append]

theorem splitLines_cr (htext : NoBreak text) (hrest : rest.head? ≠ some 10) :
    splitLines (text ++ 13 :: rest) =
      (⟨text, [13]⟩ :: (splitLines rest).1, (splitLines rest).2) := by
  rw [splitLines_of_nextLine (nextLine_append htext (.inl rfl))]
  simp [List.drop_length_add_append, hrest]

/-- A buffer is one open line, or starts with a line that ends in one of three ways. -/
theorem line_cases (bytes : List UInt8) :
    NoBreak bytes ∨ ∃ text, NoBreak text ∧
      ((∃ rest, bytes = text ++ 10 :: rest) ∨ (∃ rest, bytes = text ++ 13 :: 10 :: rest) ∨
        ∃ rest, bytes = text ++ 13 :: rest ∧ rest.head? ≠ some 10) := by
  induction bytes with
  | nil => exact .inl (by simp [NoBreak])
  | cons byte bytes ih =>
    have hnil : NoBreak [] := by simp [NoBreak]
    by_cases hlf : byte = 10
    · exact .inr ⟨[], hnil, .inl ⟨bytes, by simp [hlf]⟩⟩
    by_cases hcr : byte = 13
    · refine .inr ⟨[], hnil, .inr ?_⟩
      by_cases hhead : bytes.head? = some 10
      · obtain ⟨rest, rfl⟩ : ∃ rest, bytes = 10 :: rest := by
          cases bytes with
          | nil => simp at hhead
          | cons next rest => exact ⟨rest, by simpa using hhead⟩
        exact .inl ⟨rest, by simp [hcr]⟩
      · exact .inr ⟨bytes, by simp [hcr], hhead⟩
    · have hcons : ∀ {text}, NoBreak text → NoBreak (byte :: text) := by
        intro text htext
        simpa [NoBreak, hlf, hcr] using htext
      rcases ih with ih | ⟨text, htext, ih⟩
      · exact .inl (hcons ih)
      · refine .inr ⟨byte :: text, hcons htext, ?_⟩
        rcases ih with ⟨rest, rfl⟩ | ⟨rest, rfl⟩ | ⟨rest, rfl, hrest⟩
        · exact .inl ⟨rest, rfl⟩
        · exact .inr (.inl ⟨rest, rfl⟩)
        · exact .inr (.inr ⟨rest, rfl, hrest⟩)

/-- Induction over the lines of a byte string. -/
theorem line_induction {motive : List UInt8 → Prop} (open_ : ∀ bytes, NoBreak bytes → motive bytes)
    (lf : ∀ text rest, NoBreak text → motive rest → motive (text ++ 10 :: rest))
    (crlf : ∀ text rest, NoBreak text → motive rest → motive (text ++ 13 :: 10 :: rest))
    (cr : ∀ text rest, NoBreak text → rest.head? ≠ some 10 → motive rest →
      motive (text ++ 13 :: rest)) (bytes : List UInt8) : motive bytes := by
  induction hlength : bytes.length using Nat.strongRecOn generalizing bytes with
  | _ n ih =>
    subst hlength
    rcases line_cases bytes with h | ⟨text, htext, ⟨rest, rfl⟩ | ⟨rest, rfl⟩ | ⟨rest, rfl, hrest⟩⟩
    · exact open_ bytes h
    · exact lf text rest htext (ih rest.length (by simp; omega) rest rfl)
    · exact crlf text rest htext (ih rest.length (by simp; omega) rest rfl)
    · exact cr text rest htext hrest (ih rest.length (by simp; omega) rest rfl)

theorem noBreak_rest (bytes : List UInt8) : NoBreak (splitLines bytes).2 := by
  induction bytes using line_induction with
  | open_ bytes h => rwa [splitLines_of_noBreak h]
  | lf text rest htext ih => rwa [splitLines_lf htext]
  | crlf text rest htext ih => rwa [splitLines_crlf htext]
  | cr text rest htext hrest ih => rwa [splitLines_cr htext hrest]

/-- The last line, when its end is not in the stream. -/
def openLine (pending : List UInt8) : List (List UInt8) :=
  if pending = [] then [] else [pending]

/-- The line texts of a byte string, those that end in CR LF marked. -/
def streamLines (bytes : List UInt8) : List (List UInt8 × Bool) :=
  (splitLines bytes).1.map (fun line => (line.text, line.terminator == [13, 10])) ++
    (openLine (splitLines bytes).2).map (fun line => (line, false))

/-- The line texts the decoder consumes when `chunks` arrive after `pending`. -/
def feedLines (pending : List UInt8) : List (List UInt8) → List (List UInt8)
  | [] => openLine pending
  | chunk :: chunks =>
    (splitLines (pending ++ chunk)).1.map SseLine.text ++
      feedLines (splitLines (pending ++ chunk)).2 chunks

section StreamLines

variable {text rest : List UInt8}

theorem streamLines_of_noBreak (h : NoBreak text) :
    streamLines text = (openLine text).map (fun line => (line, false)) := by
  rw [streamLines, splitLines_of_noBreak h]
  rfl

theorem streamLines_lf (htext : NoBreak text) :
    streamLines (text ++ 10 :: rest) = (text, false) :: streamLines rest := by
  rw [streamLines, splitLines_lf htext]
  rfl

theorem streamLines_crlf (htext : NoBreak text) :
    streamLines (text ++ 13 :: 10 :: rest) = (text, true) :: streamLines rest := by
  rw [streamLines, splitLines_crlf htext]
  rfl

theorem streamLines_cr (htext : NoBreak text) (hrest : rest.head? ≠ some 10) :
    streamLines (text ++ 13 :: rest) = (text, false) :: streamLines rest := by
  rw [streamLines, splitLines_cr htext hrest]
  rfl

end StreamLines

/-- The lines of a concatenation: those of the first part, and those of the second after what
was left open; unless the border parts a CR LF pair. -/
theorem streamLines_append (front back : List UInt8) :
    streamLines (front ++ back) =
        (splitLines front).1.map (fun line => (line.text, line.terminator == [13, 10])) ++
          streamLines ((splitLines front).2 ++ back) ∨
      ∃ lines text rest, back = 10 :: rest ∧ (splitLines front).2 = [] ∧
        (splitLines front).1 = lines ++ [⟨text, [13]⟩] ∧
        streamLines (front ++ back) =
          lines.map (fun line => (line.text, line.terminator == [13, 10])) ++
            (text, true) :: streamLines rest := by
  induction front using line_induction with
  | open_ front h =>
    left
    rw [splitLines_of_noBreak h]
    rfl
  | lf text rest htext ih =>
    rw [splitLines_lf htext, List.append_assoc, List.cons_append, streamLines_lf htext]
    rcases ih with ih | ⟨lines, last, tail, hback, hrest, hlines, ih⟩
    · left
      rw [ih]
      rfl
    · right
      exact ⟨⟨text, [10]⟩ :: lines, last, tail, hback, hrest, by simp [hlines], by simp [ih]⟩
  | crlf text rest htext ih =>
    rw [splitLines_crlf htext, List.append_assoc, List.cons_append, List.cons_append,
      streamLines_crlf htext]
    rcases ih with ih | ⟨lines, last, tail, hback, hrest, hlines, ih⟩
    · left
      rw [ih]
      rfl
    · right
      exact ⟨⟨text, [13, 10]⟩ :: lines, last, tail, hback, hrest, by simp [hlines], by simp [ih]⟩
  | cr text rest htext hrest ih =>
    rw [splitLines_cr htext hrest, List.append_assoc, List.cons_append]
    by_cases hborder : (rest ++ back).head? = some 10
    · -- the front ends with the carriage return and the back starts with the line feed
      cases rest with
      | cons next rest => exact absurd (by simpa using hborder) hrest
      | nil =>
        cases back with
        | nil => simp at hborder
        | cons next back =>
          obtain rfl : next = 10 := by simpa using hborder
          right
          have hnil : splitLines [] = ([], []) := splitLines_of_noBreak (by simp [NoBreak])
          refine ⟨[], text, back, rfl, by rw [hnil], by rw [hnil]; rfl, ?_⟩
          rw [List.nil_append, streamLines_crlf htext]
          rfl
    · rw [streamLines_cr htext hborder]
      rcases ih with ih | ⟨lines, last, tail, hback, hopen, hlines, ih⟩
      · left
        rw [ih]
        rfl
      · right
        exact ⟨⟨text, [13]⟩ :: lines, last, tail, hback, hopen, by simp [hlines], by simp [ih]⟩

/-- Bytes before the first line end belong to the first line. -/
theorem length_le_of_noBreak {pending chunk text rest : List UInt8} {byte : UInt8}
    (hpending : NoBreak pending) (hbyte : byte = 13 ∨ byte = 10)
    (h : pending ++ chunk = text ++ byte :: rest) : pending.length ≤ text.length := by
  rcases List.append_eq_append_iff.mp h with ⟨front, rfl, _⟩ | ⟨front, rfl, hfront⟩
  · simp
  · cases front with
    | nil => simp
    | cons first front =>
      obtain ⟨rfl, _⟩ := List.cons.inj hfront
      have hfirst := hpending byte (by simp)
      rcases hbyte with rfl | rfl
      · exact absurd rfl hfirst.1
      · exact absurd rfl hfirst.2

/-- What is pending ends up in a consumed line. -/
theorem pending_length_le {pending : List UInt8} {chunks : List (List UInt8)} {bound : Nat}
    (hpending : NoBreak pending) (h : ∀ line ∈ feedLines pending chunks, line.length ≤ bound) :
    pending.length ≤ bound := by
  induction chunks generalizing pending with
  | nil =>
    by_cases hnil : pending = []
    · simp [hnil]
    · exact h pending (by simp [feedLines, openLine, hnil])
  | cons chunk chunks ih =>
    rw [feedLines] at h
    rcases line_cases (pending ++ chunk) with hopen | ⟨text, htext, hline⟩
    · rw [splitLines_of_noBreak hopen] at h
      have hlength := ih hopen (by simpa using h)
      rw [List.length_append] at hlength
      omega
    · have hfirst : pending.length ≤ text.length ∧ text.length ≤ bound := by
        rcases hline with ⟨rest, hsplit⟩ | ⟨rest, hsplit⟩ | ⟨rest, hsplit, hrest⟩
        · rw [hsplit, splitLines_lf htext] at h
          exact ⟨length_le_of_noBreak hpending (.inr rfl) hsplit, h text (by simp)⟩
        · rw [hsplit, splitLines_crlf htext] at h
          exact ⟨length_le_of_noBreak hpending (.inl rfl) hsplit, h text (by simp)⟩
        · rw [hsplit, splitLines_cr htext hrest] at h
          exact ⟨length_le_of_noBreak hpending (.inl rfl) hsplit, h text (by simp)⟩
      omega

/-! ## Borders insert blank lines -/

/-- However a stream is cut, the consumed lines are its lines with blank lines inserted after
some of those that end in CR LF. -/
theorem inserted_feedLines {pending : List UInt8} {chunks : List (List UInt8)}
    (hpending : NoBreak pending) :
    Inserted [] (streamLines (pending ++ chunks.flatten)) (feedLines pending chunks) := by
  induction chunks generalizing pending with
  | nil =>
    have hrefl : Inserted [] ((openLine pending).map (fun line => (line, false))) _ := .refl _
    simpa [streamLines_of_noBreak hpending, feedLines, Function.comp_def] using hrefl
  | cons chunk chunks ih =>
    have hrest := ih (noBreak_rest (pending ++ chunk))
    have hlines : ∀ lines : List SseLine, Inserted []
        (lines.map (fun line => (line.text, line.terminator == [13, 10])))
        (lines.map SseLine.text) := by
      intro lines
      have hrefl : Inserted []
          (lines.map (fun line => (line.text, line.terminator == [13, 10]))) _ := .refl _
      simpa [Function.comp_def] using hrefl
    rw [List.flatten_cons, ← List.append_assoc, feedLines]
    rcases streamLines_append (pending ++ chunk) chunks.flatten with
      happend | ⟨lines, text, tail, hback, hopen, hsplit, happend⟩
    · rw [happend]
      exact (hlines _).append hrest
    · -- the line feed of the parted pair is the first line after the border
      rw [hopen, hback, List.nil_append, ← List.nil_append (10 :: tail),
        streamLines_lf (by simp [NoBreak])] at hrest
      rw [happend, hsplit, hopen]
      cases hfeed : feedLines [] chunks with
      | nil =>
        rw [hfeed] at hrest
        cases hrest
      | cons blank stream =>
        rw [hfeed] at hrest
        cases hrest with
        | keep hstream =>
          simpa using (hlines lines).append (.cut hstream)

/-- Every such insertion comes from a way to cut the stream. -/
theorem exists_chunks_of_inserted {stream : List (List UInt8)}
    (h : Inserted [] (streamLines bytes) stream) :
    ∃ chunks : List (List UInt8), chunks.flatten = bytes ∧ feedLines [] chunks = stream := by
  have hempty : NoBreak [] := by simp [NoBreak]
  have hnil : splitLines [] = ([], []) := splitLines_of_noBreak hempty
  have hcr : ∀ {text}, NoBreak text → splitLines (text ++ [13]) = ([⟨text, [13]⟩], []) := by
    intro text htext
    rw [splitLines_cr htext (by simp), hnil]
  induction bytes using line_induction generalizing stream with
  | open_ bytes hopen =>
    refine ⟨[bytes], by simp, ?_⟩
    rw [streamLines_of_noBreak hopen] at h
    rw [feedLines, List.nil_append, splitLines_of_noBreak hopen]
    unfold openLine at h
    split at h
    · cases h
      simp [feedLines, openLine, *]
    · obtain _ | hrest := h
      cases hrest
      simp [feedLines, openLine, *]
  | lf text rest htext ih =>
    rw [streamLines_lf htext] at h
    obtain _ | hrest := h
    obtain ⟨chunks, rfl, hfeed⟩ := ih hrest
    refine ⟨(text ++ [10]) :: chunks, by simp, ?_⟩
    simp [feedLines, splitLines_lf htext, hnil, hfeed]
  | crlf text rest htext ih =>
    rw [streamLines_crlf htext] at h
    cases h with
    | keep hrest =>
      obtain ⟨chunks, rfl, hfeed⟩ := ih hrest
      refine ⟨(text ++ [13, 10]) :: chunks, by simp, ?_⟩
      simp [feedLines, splitLines_crlf htext, hnil, hfeed]
    | cut hrest =>
      obtain ⟨chunks, rfl, hfeed⟩ := ih hrest
      refine ⟨(text ++ [13]) :: [10] :: chunks, by simp, ?_⟩
      have hlf : splitLines ([] ++ [10]) = ([⟨[], [10]⟩], []) := by
        rw [splitLines_lf hempty, hnil]
      rw [List.nil_append] at hlf
      simp [feedLines, hcr htext, hlf, hfeed]
  | cr text rest htext hrest ih =>
    rw [streamLines_cr htext hrest] at h
    obtain _ | hstream := h
    obtain ⟨chunks, rfl, hfeed⟩ := ih hstream
    refine ⟨(text ++ [13]) :: chunks, by simp, ?_⟩
    simp [feedLines, hcr htext, hfeed]

end StateKnot
