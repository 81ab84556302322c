import StateKnot.Lib.Utf8

/-!
# Splitting streamed text

A provider adapter cuts a fragment of streamed text into chunks within the byte limit of
a stream chunk.  Each turn takes the longest piece within the limit that ends between two
characters; the search for that border goes back byte by byte.
-/

namespace StateKnot

open Lib

def maxChunkBytes : Nat := 64 * 1024

/-- The loop of `split_stream_chunks` over the bytes of the text, for a number of turns; `none`
when text is left after them.  The Anthropic and the OpenAI adapter have the same function. -/
def splitStreamChunks : Nat → List UInt8 → Option (List (List UInt8))
  | _, [] => some []
  | 0, _ :: _ => none
  | turns + 1, value@(_ :: _) =>
    let cut := boundaryBefore value (min value.length maxChunkBytes)
    (splitStreamChunks turns (value.drop cut)).map (value.take cut :: ·)

/-- A text cut into nonempty pieces within the limit. -/
structure Pieces (text : List Char) (pieces : List (List Char)) : Prop where
  flatten_eq : pieces.flatten = text
  nonempty : ∀ piece ∈ pieces, piece ≠ []
  bounded : ∀ piece ∈ pieces, (utf8 piece).length ≤ maxChunkBytes

/-- A turn cuts off the encoding of a nonempty piece of the text. -/
theorem exists_cut {text : List Char} (htext : text ≠ []) :
    ∃ piece rest, text = piece ++ rest ∧ piece ≠ [] ∧ (utf8 piece).length ≤ maxChunkBytes ∧
      boundaryBefore (utf8 text) (min (utf8 text).length maxChunkBytes) =
        (utf8 piece).length := by
  have hborder := isCharBoundary_boundaryBefore (utf8 text) (min (utf8 text).length maxChunkBytes)
  obtain ⟨piece, rest, hsplit, hlength⟩ := isCharBoundary_iff.mp hborder
  have hpos : 0 < (utf8 piece).length := by
    rw [hlength]
    exact boundaryBefore_pos htext (by decide)
  have hbound := boundaryBefore_le (utf8 text) (min (utf8 text).length maxChunkBytes)
  refine ⟨piece, rest, hsplit, ?_, ?_, hlength.symm⟩
  · intro hnil
    rw [hnil] at hpos
    exact absurd hpos (lt_irrefl 0)
  · rw [hlength]
    exact hbound.trans (min_le_right _ _)

theorem splitStreamChunks_cons {text piece rest : List Char} {turns : Nat} (htext : text ≠ [])
    (hsplit : text = piece ++ rest)
    (hcut : boundaryBefore (utf8 text) (min (utf8 text).length maxChunkBytes) =
      (utf8 piece).length) :
    splitStreamChunks (turns + 1) (utf8 text) =
      (splitStreamChunks turns (utf8 rest)).map (utf8 piece :: ·) := by
  cases hbytes : utf8 text with
  | nil => exact absurd (utf8_eq_nil.mp hbytes) htext
  | cons byte bytes =>
    rw [splitStreamChunks, ← hbytes, hcut, hsplit, utf8_append, List.drop_left, List.take_left]

/-- As many turns as the text has characters cut it into its pieces; further turns change
nothing. -/
theorem exists_pieces (text : List Char) : ∃ pieces, Pieces text pieces ∧
    ∀ turns, text.length ≤ turns →
      splitStreamChunks turns (utf8 text) = some (pieces.map utf8) := by
  -- each turn removes at least one character
  induction hlength : text.length using Nat.strong_induction_on generalizing text with
  | _ length ih =>
    by_cases htext : text = []
    · subst htext
      refine ⟨[], ⟨rfl, by simp, by simp⟩, fun turns _ => ?_⟩
      cases turns <;> rfl
    obtain ⟨piece, rest, hsplit, hpiece, hbound, hcut⟩ := exists_cut htext
    have hshorter : rest.length < length := by
      have hpos := List.length_pos_of_ne_nil hpiece
      rw [← hlength, hsplit, List.length_append]
      omega
    obtain ⟨pieces, hpieces, hturns⟩ := ih rest.length hshorter rest rfl
    refine ⟨piece :: pieces, ⟨?_, ?_, ?_⟩, fun turns hle => ?_⟩
    · rw [List.flatten_cons, hpieces.flatten_eq, hsplit]
    · exact List.forall_mem_cons.mpr ⟨hpiece, hpieces.nonempty⟩
    · exact List.forall_mem_cons.mpr ⟨hbound, hpieces.bounded⟩
    · obtain ⟨fewer, rfl⟩ : ∃ fewer, turns = fewer + 1 := ⟨turns - 1, by omega⟩
      rw [splitStreamChunks_cons htext hsplit hcut, hturns fewer (by omega)]
      rfl

/-- The loop ends on every string after at most as many turns as the string has characters.
Its chunks are strings: they are nonempty, within the limit of a stream chunk and join to the
input, and the search for a border of a nonempty string stops above zero. -/
theorem split_stream_chunks_exact (text : String) :
    (∃ chunks : List String,
      (∀ turns, text.length ≤ turns → splitStreamChunks turns text.toUTF8.data.toList =
        some (chunks.map fun chunk => chunk.toUTF8.data.toList)) ∧
      (∀ chunk ∈ chunks, chunk ≠ "" ∧ chunk.utf8ByteSize ≤ maxChunkBytes) ∧
      String.join chunks = text) ∧
    (text ≠ "" → 0 < boundaryBefore text.toUTF8.data.toList
      (min text.toUTF8.data.toList.length maxChunkBytes)) := by
  rw [← utf8_toList]
  constructor
  · obtain ⟨pieces, hpieces, hturns⟩ := exists_pieces text.toList
    refine ⟨pieces.map String.ofList, ?_, ?_, ?_⟩
    · intro turns hturn
      rw [hturns turns (by rwa [String.length_toList]), List.map_map]
      congr 1
      apply List.map_congr_left
      intro piece _
      rw [Function.comp_apply, ← utf8_toList, String.toList_ofList]
    · intro chunk hchunk
      obtain ⟨piece, hpiece, rfl⟩ := List.mem_map.mp hchunk
      rw [utf8ByteSize_ofList]
      refine ⟨?_, hpieces.bounded piece hpiece⟩
      simpa using hpieces.nonempty piece hpiece
    · apply String.toList_injective
      rw [String.toList_join, ← hpieces.flatten_eq, List.flatMap_map]
      simp
  · intro htext
    apply boundaryBefore_pos _ (by decide)
    simpa using htext

end StateKnot
