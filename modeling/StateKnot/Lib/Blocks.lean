import Mathlib.Data.List.Induction

/-!
# Blocks between separators

A stream of items is read in blocks: `out` says what a block without separators
yields, or that it is refused, and the stream yields the blocks' outputs in order.

Some items are marked: a transport may insert a separator after them.
`independent_iff` says exactly when the outcome does not depend on which
separators are inserted: a stretch that nothing can cut is refused, or joining any
two neighbouring stretches yields what they yield apart.
-/

namespace Lib

variable {α β : Type}

/-- Outputs one after the other; refused when one of them is. -/
def joinOut (first second : Option (List β)) : Option (List β) :=
  first.bind (fun xs => second.map (xs ++ ·))

@[simp] theorem joinOut_some_some (xs ys : List β) :
    joinOut (some xs) (some ys) = some (xs ++ ys) := rfl

@[simp] theorem joinOut_none_left (second : Option (List β)) : joinOut none second = none := rfl

@[simp] theorem joinOut_none_right (first : Option (List β)) : joinOut first none = none := by
  cases first <;> rfl

@[simp] theorem joinOut_nil_left (second : Option (List β)) : joinOut (some []) second = second := by
  cases second <;> rfl

@[simp] theorem joinOut_nil_right (first : Option (List β)) : joinOut first (some []) = first := by
  cases first <;> simp [joinOut]

theorem joinOut_assoc (a b c : Option (List β)) :
    joinOut (joinOut a b) c = joinOut a (joinOut b c) := by
  cases a <;> cases b <;> cases c <;> simp [joinOut]

theorem joinOut_eq_some {a b : Option (List β)} {zs : List β} :
    joinOut a b = some zs ↔ ∃ xs ys, a = some xs ∧ b = some ys ∧ zs = xs ++ ys := by
  cases a <;> cases b <;> simp [joinOut, eq_comm]

/-- Read a stream, the current block so far being `block`. -/
def runBlocks [DecidableEq α] (sep : α) (out : List α → Option (List β)) (block : List α) :
    List α → Option (List β)
  | [] => out block
  | item :: items =>
    if item = sep then joinOut (out block) (runBlocks sep out [] items)
    else runBlocks sep out (block ++ [item]) items

/-- Insert a separator after some of the marked items. -/
inductive Inserted (sep : α) : List (α × Bool) → List α → Prop where
  | nil : Inserted sep [] []
  | keep {item mark items stream} (rest : Inserted sep items stream) :
      Inserted sep ((item, mark) :: items) (item :: stream)
  | cut {item items stream} (rest : Inserted sep items stream) :
      Inserted sep ((item, true) :: items) (item :: sep :: stream)

/-- Insert a separator after every marked item. -/
def insertAll (sep : α) : List (α × Bool) → List α
  | [] => []
  | (item, true) :: items => item :: sep :: insertAll sep items
  | (item, false) :: items => item :: insertAll sep items

/-- A stretch may begin after these items. -/
def Opens (sep : α) (items : List (α × Bool)) : Prop :=
  ∀ last ∈ items.getLast?, last.1 = sep ∨ last.2

/-- Items of one block. -/
def SepFree (sep : α) (items : List (α × Bool)) : Prop := ∀ item ∈ items, item.1 ≠ sep

/-- A stretch that no inserted separator cuts, except possibly at its end. -/
def Segment (sep : α) (items piece : List (α × Bool)) : Prop :=
  ∃ before after, items = before ++ piece ++ after ∧ Opens sep before ∧ SepFree sep piece ∧
    ∀ item ∈ piece.dropLast, item.2 = false

/-- Two neighbouring stretches of one block: an inserted separator can part them, and
separators can be inserted, or stand, before the first and after the second. -/
def Neighbours (sep : α) (items left right : List (α × Bool)) : Prop :=
  ∃ before after, items = before ++ left ++ right ++ after ∧ Opens sep before ∧
    SepFree sep left ∧ SepFree sep right ∧ (∃ last ∈ left.getLast?, last.2) ∧
    ((∀ next ∈ after.head?, next.1 = sep) ∨ ∃ last ∈ right.getLast?, last.2)

namespace Inserted

variable {sep : α}

theorem refl (items : List (α × Bool)) : Inserted sep items (items.map Prod.fst) := by
  induction items with
  | nil => exact .nil
  | cons item items ih => exact .keep ih

theorem all (items : List (α × Bool)) : Inserted sep items (insertAll sep items) := by
  induction items with
  | nil => exact .nil
  | cons item items ih =>
    obtain ⟨item, _ | _⟩ := item
    · exact .keep ih
    · exact .cut ih

theorem append {xs ys : List (α × Bool)} {as bs : List α} (hx : Inserted sep xs as)
    (hy : Inserted sep ys bs) : Inserted sep (xs ++ ys) (as ++ bs) := by
  induction hx with
  | nil => exact hy
  | keep _ ih => exact .keep ih
  | cut _ ih => exact .cut ih

theorem cut_last {items : List (α × Bool)} (h : ∃ last ∈ items.getLast?, last.2) :
    Inserted sep items (items.map Prod.fst ++ [sep]) := by
  induction items using List.reverseRecOn with
  | nil => simp at h
  | append_singleton items item _ =>
    obtain ⟨item, mark⟩ := item
    obtain rfl : mark = true := by simpa using h
    have hlast : Inserted sep [(item, true)] [item, sep] := .cut .nil
    simpa using (refl items).append hlast

/-- Separators can be inserted so that a stretch begins. -/
theorem exists_of_opens {items : List (α × Bool)} (h : Opens sep items) :
    ∃ stream, Inserted sep items stream ∧ (stream = [] ∨ ∃ front, stream = front ++ [sep]) := by
  induction items using List.reverseRecOn with
  | nil => exact ⟨[], .nil, .inl rfl⟩
  | append_singleton items item _ =>
    rcases h item (by simp) with hsep | hmark
    · exact ⟨_, refl _, .inr ⟨items.map Prod.fst, by simp [hsep]⟩⟩
    · exact ⟨_, cut_last ⟨item, by simp, hmark⟩, .inr ⟨_, rfl⟩⟩

theorem of_append {xs ys : List (α × Bool)} {stream : List α}
    (h : Inserted sep (xs ++ ys) stream) :
    ∃ as bs, stream = as ++ bs ∧ Inserted sep xs as ∧ Inserted sep ys bs := by
  induction xs generalizing stream with
  | nil => exact ⟨[], stream, rfl, .nil, h⟩
  | cons x xs ih =>
    cases h with
    | keep rest =>
      obtain ⟨as, bs, rfl, has, hbs⟩ := ih rest
      exact ⟨_ :: as, bs, rfl, .keep has, hbs⟩
    | cut rest =>
      obtain ⟨as, bs, rfl, has, hbs⟩ := ih rest
      exact ⟨_ :: sep :: as, bs, rfl, .cut has, hbs⟩

/-- Nothing is inserted inside a stretch whose marks are at its end. -/
theorem eq_append_of_unmarked {piece : List (α × Bool)} {stream : List α}
    (h : Inserted sep piece stream) (hmarks : ∀ item ∈ piece.dropLast, item.2 = false) :
    ∃ tail, stream = piece.map Prod.fst ++ tail := by
  induction h with
  | nil => exact ⟨[], rfl⟩
  | @keep item mark items stream rest ih =>
    cases items with
    | nil =>
      cases rest
      exact ⟨[], rfl⟩
    | cons next items =>
      obtain ⟨tail, rfl⟩ := ih (fun other hother => hmarks other (by simp [hother]))
      exact ⟨tail, rfl⟩
  | @cut item items stream rest ih =>
    cases items with
    | nil =>
      cases rest
      exact ⟨[sep], rfl⟩
    | cons next items => simpa using hmarks (item, true) (by simp)

end Inserted

section Runs

variable [DecidableEq α] {sep : α} {out : List α → Option (List β)}

/-- Refusals of a part are refusals of the whole, and an empty block yields nothing. -/
structure BlockOutput (out : List α → Option (List β)) : Prop where
  nil : out [] = some []
  left : ∀ {xs ys}, out xs = none → out (xs ++ ys) = none
  right : ∀ {xs ys}, out ys = none → out (xs ++ ys) = none

theorem runBlocks_append_of_sepFree {block items rest : List α} (h : ∀ item ∈ items, item ≠ sep) :
    runBlocks sep out block (items ++ rest) = runBlocks sep out (block ++ items) rest := by
  induction items generalizing block with
  | nil => simp
  | cons item items ih =>
    rw [List.cons_append, runBlocks, if_neg (h item (by simp)),
      ih (fun other hother => h other (by simp [hother]))]
    simp

theorem runBlocks_append_sep {block items rest : List α} :
    runBlocks sep out block (items ++ sep :: rest) =
      joinOut (runBlocks sep out block items) (runBlocks sep out [] rest) := by
  induction items generalizing block with
  | nil => simp [runBlocks]
  | cons item items ih =>
    rw [List.cons_append, runBlocks, runBlocks]
    split
    · rw [ih, joinOut_assoc]
    · exact ih

theorem runBlocks_eq_none (hout : BlockOutput out) {block stream : List α}
    (h : out block = none) : runBlocks sep out block stream = none := by
  induction stream generalizing block with
  | nil => exact h
  | cons item stream ih =>
    rw [runBlocks]
    split
    · rw [h, joinOut_none_left]
    · exact ih (hout.left h)

/-- A refusal that does not depend on the block before it refuses every longer stream. -/
theorem runBlocks_append_eq_none {block front rest : List α}
    (h : ∀ block, runBlocks sep out block rest = none) :
    runBlocks sep out block (front ++ rest) = none := by
  induction front generalizing block with
  | nil => exact h block
  | cons item front ih =>
    rw [List.cons_append, runBlocks]
    split
    · rw [ih, joinOut_none_right]
    · exact ih

end Runs

section Independence

variable {sep : α}

variable {items before piece rest : List (α × Bool)} {mark : Bool}

theorem opens_append_sep : Opens sep (before ++ [(sep, mark)]) := by
  intro last hlast
  left
  simp at hlast
  rw [← hlast]

theorem opens_append_marked {item : α} : Opens sep (before ++ [(item, true)]) := by
  intro last hlast
  right
  simp at hlast
  rw [← hlast]

theorem SepFree.append {xs ys : List (α × Bool)} (hx : SepFree sep xs) (hy : SepFree sep ys) :
    SepFree sep (xs ++ ys) := by
  intro item hitem
  rcases List.mem_append.mp hitem with hitem | hitem
  · exact hx item hitem
  · exact hy item hitem

theorem SepFree.append_singleton (hpiece : SepFree sep piece) {item : α} (hitem : item ≠ sep) : SepFree sep (piece ++ [(item, mark)]) :=
  hpiece.append (by simpa [SepFree] using hitem)

theorem SepFree.map_fst (h : SepFree sep piece) : ∀ item ∈ piece.map Prod.fst, item ≠ sep := by
  intro item hitem
  obtain ⟨pair, hpair, rfl⟩ := List.mem_map.mp hitem
  exact h pair hpair

variable {out : List α → Option (List β)}

/-- Joining neighbours changes nothing. -/
def Joins (sep : α) (out : List α → Option (List β)) (items : List (α × Bool)) : Prop :=
  ∀ left right, Neighbours sep items left right →
    out ((left ++ right).map Prod.fst) =
      joinOut (out (left.map Prod.fst)) (out (right.map Prod.fst))

/-- The same for a first stretch that may be empty. -/
theorem Joins.out_append (hout : BlockOutput out) {left right after : List (α × Bool)}
    (hjoins : Joins sep out items) (hitems : items = before ++ left ++ right ++ after)
    (hopens : Opens sep before) (hleft : SepFree sep left)
    (hlast : left = [] ∨ ∃ last ∈ left.getLast?, last.2) (hright : SepFree sep right)
    (hcloses : (∀ next ∈ after.head?, next.1 = sep) ∨ ∃ last ∈ right.getLast?, last.2) :
    out ((left ++ right).map Prod.fst) =
      joinOut (out (left.map Prod.fst)) (out (right.map Prod.fst)) := by
  rcases hlast with rfl | hlast
  · simp [hout.nil]
  · exact hjoins _ _ ⟨before, after, hitems, hopens, hleft, hright, hlast, hcloses⟩

variable [DecidableEq α]

/-- When all separators are inserted, a refusal comes from one segment: the block that is
current when the run is refused. -/
theorem exists_segment_of_insertAll (hout : BlockOutput out) (hitems : items = before ++ piece ++ rest)
    (hopens : Opens sep before) (hfree : SepFree sep piece)
    (hmarks : ∀ item ∈ piece, item.2 = false)
    (h : runBlocks sep out (piece.map Prod.fst) (insertAll sep rest) = none) :
    ∃ segment, Segment sep items segment ∧ out (segment.map Prod.fst) = none := by
  induction rest generalizing before piece with
  | nil =>
    exact ⟨piece, ⟨before, [], hitems, hopens, hfree,
      fun item hitem => hmarks item (List.dropLast_subset _ hitem)⟩, h⟩
  | cons head rest ih =>
    obtain ⟨item, mark⟩ := head
    have hnext : items = before ++ (piece ++ [(item, mark)]) ++ rest := by simp [hitems]
    have hrestart : items = (before ++ piece ++ [(item, mark)]) ++ [] ++ rest := by simp [hitems]
    by_cases hsep : item = sep
    · -- a separator stands here, the next segment starts after it
      subst hsep
      cases hpiece : out (piece.map Prod.fst) with
      | none =>
        exact ⟨piece, ⟨before, _, hitems, hopens, hfree,
          fun item hitem => hmarks item (List.dropLast_subset _ hitem)⟩, hpiece⟩
      | some emitted =>
        refine ih hrestart opens_append_sep (by simp [SepFree]) (by simp) ?_
        cases mark <;> simpa [insertAll, runBlocks, hpiece, joinOut, hout.nil] using h
    · have hfree' : SepFree sep (piece ++ [(item, mark)]) := hfree.append_singleton hsep
      cases mark with
      | false =>
        refine ih hnext hopens hfree' ?_ (by simpa [insertAll, runBlocks, hsep] using h)
        intro other hother
        rcases List.mem_append.mp hother with hother | hother
        · exact hmarks other hother
        · rw [List.mem_singleton.mp hother]
      | true =>
        cases hcut : out ((piece ++ [(item, true)]).map Prod.fst) with
        | none => exact ⟨_, ⟨before, rest, hnext, hopens, hfree', by simpa using hmarks⟩, hcut⟩
        | some emitted =>
          refine ih hrestart opens_append_marked (by simp [SepFree]) (by simp) ?_
          have hcut' : out (piece.map Prod.fst ++ [item]) = some emitted := by simpa using hcut
          simpa [insertAll, runBlocks, hsep, hcut', joinOut] using h

/-- A refused segment refuses every stream. -/
theorem eq_none_of_segment (hout : BlockOutput out) {segment : List (α × Bool)}
    {stream : List α} (hsegment : Segment sep items segment)
    (hnone : out (segment.map Prod.fst) = none) (h : Inserted sep items stream) :
    runBlocks sep out [] stream = none := by
  obtain ⟨before, after, rfl, _, hfree, hmarks⟩ := hsegment
  obtain ⟨front, tail, rfl, hfront, _⟩ := h.of_append
  obtain ⟨front, middle, rfl, _, hmiddle⟩ := hfront.of_append
  obtain ⟨cut, rfl⟩ := hmiddle.eq_append_of_unmarked hmarks
  simp only [List.append_assoc]
  refine runBlocks_append_eq_none (fun block => ?_)
  rw [runBlocks_append_of_sepFree hfree.map_fst]
  exact runBlocks_eq_none hout (hout.right hnone)

theorem runBlocks_insertAll_sep (hout : BlockOutput out) {block : List α} :
    runBlocks sep out block (insertAll sep ((sep, mark) :: rest)) =
      joinOut (out block) (runBlocks sep out [] (insertAll sep rest)) := by
  cases mark <;> simp [insertAll, runBlocks, hout.nil]

/-- If joining neighbours changes nothing, leaving separators out changes nothing.  The block
so far is `closed`, which ends with a mark, and the open segment `piece`. -/
theorem Joins.runBlocks_eq (hout : BlockOutput out) {closed : List (α × Bool)} {stream : List α}
    (hjoins : Joins sep out items) (hitems : items = before ++ closed ++ piece ++ rest)
    (hopens : Opens sep before) (hclosed : SepFree sep closed)
    (hlast : closed = [] ∨ ∃ last ∈ closed.getLast?, last.2) (hpiece : SepFree sep piece)
    (h : Inserted sep rest stream) :
    runBlocks sep out ((closed ++ piece).map Prod.fst) stream =
      joinOut (out (closed.map Prod.fst))
        (runBlocks sep out (piece.map Prod.fst) (insertAll sep rest)) := by
  have hnil : SepFree sep ([] : List (α × Bool)) := by simp [SepFree]
  induction h generalizing before closed piece with
  | nil => exact hjoins.out_append hout hitems hopens hclosed hlast hpiece (.inl (by simp))
  | @keep item mark rest stream hrest ih =>
    have hrestart : items = (before ++ closed ++ piece ++ [(item, mark)]) ++ [] ++ [] ++ rest := by
      simp [hitems]
    by_cases hsep : item = sep
    · subst hsep
      have hblock := hjoins.out_append hout hitems hopens hclosed hlast hpiece (.inl (by simp))
      have hnext : runBlocks item out [] stream = runBlocks item out [] (insertAll item rest) := by
        simpa [hout.nil] using ih hrestart opens_append_sep hnil (.inl rfl) hnil
      rw [runBlocks_insertAll_sep hout, runBlocks, if_pos rfl, hblock, hnext, joinOut_assoc]
    · have hpiece' : SepFree sep (piece ++ [(item, mark)]) := hpiece.append_singleton hsep
      have hsplit : items = before ++ closed ++ (piece ++ [(item, mark)]) ++ rest := by
        simp [hitems]
      rw [runBlocks, if_neg hsep]
      cases mark with
      | false => simpa [insertAll, runBlocks, hsep] using ih hsplit hopens hclosed hlast hpiece'
      | true =>
        -- the stretch is closed here, though nothing was inserted
        have hblock := hjoins.out_append hout hsplit hopens hclosed hlast hpiece'
          (.inr ⟨(item, true), by simp, rfl⟩)
        have hclosed' : SepFree sep (closed ++ (piece ++ [(item, true)])) := hclosed.append hpiece'
        have hsplit' : items = before ++ (closed ++ (piece ++ [(item, true)])) ++ [] ++ rest := by
          simp [hitems]
        have hrun := ih hsplit' hopens hclosed' (.inr ⟨(item, true), by simp, rfl⟩) hnil
        rw [hblock, joinOut_assoc] at hrun
        simpa [insertAll, runBlocks, hsep] using hrun
  | @cut item rest stream hrest ih =>
    have hrestart : items = (before ++ closed ++ piece ++ [(item, true)]) ++ [] ++ [] ++ rest := by
      simp [hitems]
    have hnext : runBlocks sep out [] stream = runBlocks sep out [] (insertAll sep rest) := by
      simpa [hout.nil] using ih hrestart opens_append_marked hnil (.inl rfl) hnil
    by_cases hsep : item = sep
    · subst hsep
      have hblock := hjoins.out_append hout hitems hopens hclosed hlast hpiece (.inl (by simp))
      rw [runBlocks_insertAll_sep hout, runBlocks, if_pos rfl, runBlocks, if_pos rfl, hout.nil,
        joinOut_nil_left, hblock, hnext, joinOut_assoc]
    · have hpiece' : SepFree sep (piece ++ [(item, true)]) := hpiece.append_singleton hsep
      have hsplit : items = before ++ closed ++ (piece ++ [(item, true)]) ++ rest := by
        simp [hitems]
      have hblock := hjoins.out_append hout hsplit hopens hclosed hlast hpiece'
        (.inr ⟨(item, true), by simp, rfl⟩)
      have hblock' : out ((closed ++ piece).map Prod.fst ++ [item]) =
          joinOut (out (closed.map Prod.fst)) (out (piece.map Prod.fst ++ [item])) := by
        simpa using hblock
      simp only [insertAll, runBlocks, if_neg hsep, if_pos]
      rw [hblock', hnext, joinOut_assoc]

/-- Neighbours of a stream whose outcome is one and the same, and is not a refusal, join. -/
theorem joins_of_independent {left right : List (α × Bool)} {emitted : List β}
    (h : ∀ stream, Inserted sep items stream → runBlocks sep out [] stream = some emitted)
    (hneighbours : Neighbours sep items left right) :
    ∃ xs ys, out (left.map Prod.fst) = some xs ∧ out (right.map Prod.fst) = some ys ∧
      out ((left ++ right).map Prod.fst) = some (xs ++ ys) := by
  obtain ⟨before, after, rfl, hopens, hleft, hright, hlast, hcloses⟩ := hneighbours
  obtain ⟨front, hfront, hends⟩ := Inserted.exists_of_opens hopens
  -- a stream with a separator after the second stretch, or one that ends there
  obtain ⟨tail, htail, hstarts⟩ : ∃ tail, Inserted sep (right ++ after) (right.map Prod.fst ++ tail) ∧
      (tail = [] ∨ ∃ rest, tail = sep :: rest) := by
    rcases hcloses with hcloses | hcloses
    · refine ⟨after.map Prod.fst, (Inserted.refl _).append (Inserted.refl _), ?_⟩
      cases after with
      | nil => exact .inl rfl
      | cons next after =>
        obtain rfl := hcloses next rfl
        exact .inr ⟨after.map Prod.fst, rfl⟩
    · refine ⟨sep :: after.map Prod.fst, ?_, .inr ⟨_, rfl⟩⟩
      simpa using (Inserted.cut_last hcloses).append (Inserted.refl after)
  -- the run over the front is the same whatever follows it
  obtain ⟨first, hrun⟩ : ∃ first, ∀ rest, runBlocks sep out [] (front ++ rest) =
      joinOut first (runBlocks sep out [] rest) := by
    rcases hends with rfl | ⟨front, rfl⟩
    · exact ⟨some [], by simp⟩
    · refine ⟨runBlocks sep out [] front, fun rest => ?_⟩
      rw [List.append_assoc, List.singleton_append, runBlocks_append_sep]
  obtain ⟨last, hclosed⟩ : ∃ last, ∀ block, (∀ item ∈ block, item ≠ sep) →
      runBlocks sep out [] (block ++ tail) = joinOut (out block) last := by
    rcases hstarts with rfl | ⟨rest, rfl⟩
    · refine ⟨some [], fun block hblock => ?_⟩
      rw [runBlocks_append_of_sepFree hblock, joinOut_nil_right]
      rfl
    · refine ⟨runBlocks sep out [] rest, fun block hblock => ?_⟩
      rw [runBlocks_append_of_sepFree hblock, runBlocks, if_pos rfl]
      rfl
  have hjoined := h (front ++ (left.map Prod.fst ++ (right.map Prod.fst ++ tail))) (by
    simpa using hfront.append ((Inserted.refl left).append htail))
  have hparted := h (front ++ (left.map Prod.fst ++ sep :: (right.map Prod.fst ++ tail))) (by
    simpa using hfront.append ((Inserted.cut_last hlast).append htail))
  rw [hrun, ← List.append_assoc, ← List.map_append, hclosed _ (hleft.append hright).map_fst] at hjoined
  rw [hrun, runBlocks_append_of_sepFree hleft.map_fst, runBlocks, if_pos rfl, List.nil_append,
    hclosed _ hright.map_fst] at hparted
  obtain ⟨f, _, hf, hrest, rfl⟩ := joinOut_eq_some.mp hjoined
  obtain ⟨both, l, hboth, hl, rfl⟩ := joinOut_eq_some.mp hrest
  obtain ⟨f', _, hf', hrest', hemitted⟩ := joinOut_eq_some.mp hparted
  obtain ⟨xs, _, hxs, hrest'', rfl⟩ := joinOut_eq_some.mp hrest'
  obtain ⟨ys, l', hys, hl', rfl⟩ := joinOut_eq_some.mp hrest''
  obtain rfl : f = f' := by simpa using hf.symm.trans hf'
  obtain rfl : l = l' := by simpa using hl.symm.trans hl'
  obtain rfl : both = xs ++ ys := by
    rw [← List.append_assoc xs] at hemitted
    exact List.append_cancel_right (List.append_cancel_left hemitted)
  exact ⟨xs, ys, hxs, hys, hboth⟩

/-- The outcome of a stream does not depend on the inserted separators if and only if a segment
is refused, or any two neighbours yield together what they yield apart. -/
theorem independent_iff (hout : BlockOutput out) :
    (∀ stream stream', Inserted sep items stream → Inserted sep items stream' →
      runBlocks sep out [] stream = runBlocks sep out [] stream') ↔
    (∃ segment, Segment sep items segment ∧ out (segment.map Prod.fst) = none) ∨
      ∀ left right, Neighbours sep items left right →
        ∃ xs ys, out (left.map Prod.fst) = some xs ∧ out (right.map Prod.fst) = some ys ∧
          out ((left ++ right).map Prod.fst) = some (xs ++ ys) := by
  have hnil : SepFree sep ([] : List (α × Bool)) := by simp [SepFree]
  have hopens : Opens sep ([] : List (α × Bool)) := by simp [Opens]
  constructor
  · intro h
    cases hall : runBlocks sep out [] (insertAll sep items) with
    | none =>
      have hitems : items = [] ++ [] ++ items := rfl
      exact .inl (exists_segment_of_insertAll hout hitems hopens hnil (by simp) hall)
    | some emitted =>
      right
      intro left right hneighbours
      exact joins_of_independent (fun stream hstream => (h _ _ hstream (.all items)).trans hall)
        hneighbours
  · rintro (⟨segment, hsegment, hnone⟩ | hneighbours) stream stream' hstream hstream'
    · rw [eq_none_of_segment hout hsegment hnone hstream,
        eq_none_of_segment hout hsegment hnone hstream']
    · have hjoins : Joins sep out items := by
        intro left right hpair
        obtain ⟨xs, ys, hxs, hys, hboth⟩ := hneighbours left right hpair
        rw [hxs, hys, hboth, joinOut_some_some]
      have hall : ∀ stream, Inserted sep items stream →
          runBlocks sep out [] stream = runBlocks sep out [] (insertAll sep items) := by
        intro stream hstream
        have hitems : items = [] ++ [] ++ [] ++ items := rfl
        simpa [hout.nil] using hjoins.runBlocks_eq hout hitems hopens hnil (.inl rfl) hnil hstream
      rw [hall stream hstream, hall stream' hstream']

end Independence

end Lib
