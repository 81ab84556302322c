import Mathlib

/-!
# Search in finite directed graphs

Two loops that graph validators use, with explicit fuel, and what they compute.
`worklist` pops a queue and visits every node it meets for the first time;
`saturate` sweeps all nodes, adding those with an edge into the set, until a
sweep adds nothing.  With the stated fuel the first returns the nodes reachable
from the queue, the second the nodes that can reach the initial set.
-/

namespace Lib

variable {α : Type}

/-- `b` is a successor of `a`. -/
def Edge (succ : α → List α) (a b : α) : Prop := b ∈ succ a

/-- `b` can be reached from `a` along successors. -/
abbrev Reaches (succ : α → List α) : α → α → Prop := Relation.ReflTransGen (Edge succ)

/-- Paths lift through a relation between two graphs: when every image of a step's target
is reached from an image of its source, every image of a path's end is reached from an
image of its start. -/
theorem exists_path_of_lift {β : Type} {step : α → α → Prop} {step' : β → β → Prop}
    {R : β → α → Prop}
    (hstep : ∀ {y z c}, step' y z → R z c → ∃ a, R y a ∧ Relation.ReflTransGen step a c)
    {y z : β} (hpath : Relation.ReflTransGen step' y z) {c : α} (hc : R z c) :
    ∃ a, R y a ∧ Relation.ReflTransGen step a c := by
  induction hpath generalizing c with
  | refl => exact ⟨c, hc, .refl⟩
  | tail _ hedge ih =>
    obtain ⟨b, hb, hbc⟩ := hstep hedge hc
    obtain ⟨a, ha, hab⟩ := ih hb
    exact ⟨a, ha, hab.trans hbc⟩

/-! ## Worklist search -/

variable [DecidableEq α]

/-- Pop the queue; a node met for the first time is visited and its successors are queued. -/
def worklist (succ : α → List α) : Nat → List α → List α → List α
  | 0, _, visited => visited
  | _ + 1, [], visited => visited
  | fuel + 1, a :: queue, visited =>
    if a ∈ visited then worklist succ fuel queue visited
    else worklist succ fuel (queue ++ succ a) (a :: visited)

/-- Number of successor entries that unvisited nodes can still put into the queue. -/
def pending (succ : α → List α) (univ visited : List α) : Nat :=
  ((univ.filter (· ∉ visited)).map (fun u => (succ u).length)).sum

section Worklist

variable {succ : α → List α}

variable {a : α} {fuel : Nat} {queue visited : List α}

variable {univ : List α}

private theorem pending_cons (succ : α → List α) (hnodup : univ.Nodup) (ha : a ∈ univ)
    (hfresh : a ∉ visited) :
    pending succ univ (a :: visited) + (succ a).length = pending succ univ visited := by
  have hsplit : ∀ us : List α, a ∉ us →
      us.filter (· ∉ a :: visited) = us.filter (· ∉ visited) := by
    intro us hus
    refine List.filter_congr (fun u hu => ?_)
    have hne : u ≠ a := fun h => hus (h ▸ hu)
    simp [hne]
  obtain ⟨before, rest, rfl⟩ := List.append_of_mem ha
  have hmiddle := (List.nodup_cons.mp (List.nodup_middle.mp hnodup)).1
  obtain ⟨hbefore, hrest⟩ : a ∉ before ∧ a ∉ rest := by simpa using hmiddle
  have hhead : (a :: rest).filter (· ∉ a :: visited) = rest.filter (· ∉ visited) := by
    rw [List.filter_cons_of_neg (by simp), hsplit rest hrest]
  have hhead' : (a :: rest).filter (· ∉ visited) = a :: rest.filter (· ∉ visited) :=
    List.filter_cons_of_pos (by simpa using hfresh)
  simp only [pending, List.filter_append, hsplit before hbefore, hhead, hhead', List.map_append,
    List.map_cons, List.sum_append, List.sum_cons]
  omega

theorem visited_subset_worklist
    (ha : a ∈ visited) : a ∈ worklist succ fuel queue visited := by
  induction fuel generalizing queue visited with
  | zero => exact ha
  | succ fuel ih =>
    cases queue with
    | nil => exact ha
    | cons b queue =>
      rw [worklist]
      split
      · exact ih ha
      · exact ih (List.mem_cons_of_mem _ ha)

/-- Everything the search returns was visited before or is reachable from the queue. -/
theorem worklist_sound
    (ha : a ∈ worklist succ fuel queue visited) :
    a ∈ visited ∨ ∃ q ∈ queue, Reaches succ q a := by
  induction fuel generalizing queue visited with
  | zero => exact .inl ha
  | succ fuel ih =>
    cases queue with
    | nil => exact .inl ha
    | cons b queue =>
      rw [worklist] at ha
      split at ha
      · rcases ih ha with hvisited | ⟨q, hq, hreach⟩
        · exact .inl hvisited
        · exact .inr ⟨q, by simp [hq], hreach⟩
      · rcases ih ha with hvisited | ⟨q, hq, hreach⟩
        · rcases List.mem_cons.mp hvisited with rfl | hvisited
          · exact .inr ⟨a, by simp, .refl⟩
          · exact .inl hvisited
        · rcases List.mem_append.mp hq with hq | hq
          · exact .inr ⟨q, by simp [hq], hreach⟩
          · exact .inr ⟨b, by simp, .head hq hreach⟩

/-- With enough fuel the result contains the queue and is closed under successors.  The
fuel pays one step for every queue entry, those of unvisited nodes included. -/
theorem worklist_closed (hnodup : univ.Nodup) (hsucc : ∀ u ∈ univ, ∀ w ∈ succ u, w ∈ univ)
    (hqueue : ∀ q ∈ queue, q ∈ univ)
    (hfuel : queue.length + pending succ univ visited ≤ fuel)
    (hvisited : ∀ v ∈ visited, ∀ w ∈ succ v, w ∈ visited ∨ w ∈ queue) :
    (∀ q ∈ queue, q ∈ worklist succ fuel queue visited) ∧
      ∀ v ∈ worklist succ fuel queue visited, ∀ w ∈ succ v,
        w ∈ worklist succ fuel queue visited := by
  induction fuel generalizing queue visited with
  | zero =>
    obtain rfl : queue = [] := List.length_eq_zero_iff.mp (by omega)
    refine ⟨by simp, fun v hv w hw => ?_⟩
    simpa [worklist] using hvisited v hv w hw
  | succ fuel ih =>
    cases queue with
    | nil =>
      refine ⟨by simp, fun v hv w hw => ?_⟩
      simpa [worklist] using hvisited v hv w hw
    | cons a queue =>
      rw [worklist]
      simp only [List.length_cons] at hfuel
      split
      case isTrue hmem =>
        have hrest := @ih queue visited
          (fun q hq => hqueue q (by simp [hq])) (by omega) (fun v hv w hw => by
            rcases hvisited v hv w hw with h | h
            · exact .inl h
            · rcases List.mem_cons.mp h with rfl | h
              · exact .inl hmem
              · exact .inr h)
        refine ⟨fun q hq => ?_, hrest.2⟩
        rcases List.mem_cons.mp hq with rfl | hq
        · exact visited_subset_worklist hmem
        · exact hrest.1 q hq
      case isFalse hfresh =>
        have ha : a ∈ univ := hqueue a (by simp)
        have hcount := pending_cons succ hnodup ha hfresh
        have hrest := @ih (queue ++ succ a) (a :: visited)
          (fun q hq => by
            rcases List.mem_append.mp hq with hq | hq
            · exact hqueue q (by simp [hq])
            · exact hsucc a ha q hq)
          (by simp only [List.length_append]; omega)
          (fun v hv w hw => by
            rcases List.mem_cons.mp hv with rfl | hv
            · exact .inr (by simp [hw])
            · rcases hvisited v hv w hw with h | h
              · exact .inl (by simp [h])
              · rcases List.mem_cons.mp h with rfl | h
                · exact .inl (by simp)
                · exact .inr (by simp [h]))
        refine ⟨fun q hq => ?_, hrest.2⟩
        rcases List.mem_cons.mp hq with rfl | hq
        · exact visited_subset_worklist (by simp)
        · exact hrest.1 q (by simp [hq])

theorem mem_worklist_iff (hnodup : univ.Nodup) (hsucc : ∀ u ∈ univ, ∀ w ∈ succ u, w ∈ univ)
    (hqueue : ∀ q ∈ queue, q ∈ univ) (hfuel : queue.length + pending succ univ [] ≤ fuel) :
    a ∈ worklist succ fuel queue [] ↔ ∃ q ∈ queue, Reaches succ q a := by
  obtain ⟨hstart, hclosed⟩ : (∀ q ∈ queue, q ∈ worklist succ fuel queue []) ∧
      ∀ v ∈ worklist succ fuel queue [], ∀ w ∈ succ v, w ∈ worklist succ fuel queue [] :=
    worklist_closed hnodup hsucc hqueue hfuel (by simp)
  constructor
  · intro ha
    rcases worklist_sound ha with h | h
    · simp at h
    · exact h
  · rintro ⟨q, hq, hreach⟩
    induction hreach with
    | refl => exact hstart q hq
    | tail _ hedge ih => exact hclosed _ ih _ hedge

end Worklist

/-! ## Saturation -/

/-- One pass over the nodes, adding each that has a successor in the current set. -/
def sweep (succ : α → List α) : List α → List α → List α
  | [], set => set
  | a :: nodes, set =>
    sweep succ nodes (if a ∉ set ∧ ∃ b ∈ succ a, b ∈ set then a :: set else set)

/-- Sweep until nothing is added. -/
def saturate (succ : α → List α) (nodes : List α) : Nat → List α → List α
  | 0, set => set
  | fuel + 1, set =>
    let next := sweep succ nodes set
    if next.length = set.length then next else saturate succ nodes fuel next

section Saturation

variable {succ : α → List α}

theorem sweep_suffix (succ : α → List α) (nodes set : List α) : ∃ added, sweep succ nodes set = added ++ set := by
  induction nodes generalizing set with
  | nil => exact ⟨[], rfl⟩
  | cons a nodes ih =>
    rw [sweep]
    split
    · obtain ⟨added, hadded⟩ := ih (a :: set)
      exact ⟨added ++ [a], by simp [hadded]⟩
    · exact ih set

variable {nodes : List α} {fuel : Nat} {set : List α} {a : α}

theorem sweep_subset {nodes set : List α} (ha : a ∈ set) : a ∈ sweep succ nodes set := by
  obtain ⟨added, hadded⟩ := sweep_suffix succ nodes set
  simp [hadded, ha]

/-- A sweep keeps a set duplicate-free and inside the nodes. -/
theorem sweep_nodup (succ : α → List α) {nodes set univ : List α} (hnodes : ∀ a ∈ nodes, a ∈ univ)
    (hnodup : set.Nodup) (hset : ∀ a ∈ set, a ∈ univ) :
    (sweep succ nodes set).Nodup ∧ ∀ a ∈ sweep succ nodes set, a ∈ univ := by
  induction nodes generalizing set with
  | nil => exact ⟨hnodup, hset⟩
  | cons b nodes ih =>
    rw [sweep]
    split
    case isTrue hadd =>
      refine ih (fun a ha => hnodes a (by simp [ha])) (List.nodup_cons.mpr ⟨hadd.1, hnodup⟩) ?_
      intro a ha
      rcases List.mem_cons.mp ha with rfl | ha
      · exact hnodes a (by simp)
      · exact hset a ha
    case isFalse => exact ih (fun a ha => hnodes a (by simp [ha])) hnodup hset

/-- What a sweep adds has a path into the set. -/
theorem sweep_sound {nodes set : List α} {target : α → Prop}
    (hset : ∀ a ∈ set, ∃ b, target b ∧ Reaches succ a b) :
    ∀ a ∈ sweep succ nodes set, ∃ b, target b ∧ Reaches succ a b := by
  induction nodes generalizing set with
  | nil => exact hset
  | cons c nodes ih =>
    rw [sweep]
    split
    case isTrue hadd =>
      refine ih (fun a ha => ?_)
      rcases List.mem_cons.mp ha with rfl | ha
      · obtain ⟨_, b, hedge, hb⟩ := hadd
        obtain ⟨t, ht, hreach⟩ := hset b hb
        exact ⟨t, ht, .head hedge hreach⟩
      · exact hset a ha
    case isFalse => exact ih hset

/-- A sweep that adds nothing leaves a set closed under predecessors among the nodes. -/
theorem closed_of_sweep_eq {nodes set : List α} (heq : sweep succ nodes set = set) {a b : α}
    (ha : a ∈ nodes) (hedge : b ∈ succ a) (hb : b ∈ set) : a ∈ set := by
  induction nodes generalizing set with
  | nil => simp at ha
  | cons c nodes ih =>
    rw [sweep] at heq
    split at heq
    case isTrue hadd =>
      obtain ⟨added, hadded⟩ := sweep_suffix succ nodes (c :: set)
      rw [hadded] at heq
      have hlength := congrArg List.length heq
      simp only [List.length_append, List.length_cons] at hlength
      omega
    case isFalse hkeep =>
      rcases List.mem_cons.mp ha with rfl | ha
      · by_contra hmem
        exact hkeep ⟨hmem, b, hedge, hb⟩
      · exact ih heq ha hb

/-- With one sweep per missing node, saturation ends in a closed set. -/
theorem saturate_closed
    (hnodup : set.Nodup) (hset : ∀ a ∈ set, a ∈ nodes) (hfuel : nodes.length < fuel + set.length)
    {a b : α} (ha : a ∈ nodes) (hedge : b ∈ succ a) (hb : b ∈ saturate succ nodes fuel set) :
    a ∈ saturate succ nodes fuel set := by
  induction fuel generalizing set with
  | zero =>
    have hle := (List.Nodup.subperm hnodup hset).length_le
    omega
  | succ fuel ih =>
    rw [saturate] at hb ⊢
    obtain ⟨hnodup', hset'⟩ := sweep_nodup succ (fun a ha => ha) hnodup hset
    obtain ⟨added, hadded⟩ := sweep_suffix succ nodes set
    have hlength := congrArg List.length hadded
    rw [List.length_append] at hlength
    split at hb
    case isTrue hsame =>
      rw [if_pos hsame]
      have hnil : added = [] := List.length_eq_zero_iff.mp (by omega)
      have heq : sweep succ nodes set = set := by simpa [hnil] using hadded
      rw [heq] at hb ⊢
      exact closed_of_sweep_eq heq ha hedge hb
    case isFalse hgrew =>
      rw [if_neg hgrew]
      exact ih hnodup' hset' (by omega) hb

theorem saturate_sound {target : α → Prop}
    (hset : ∀ a ∈ set, ∃ b, target b ∧ Reaches succ a b) :
    ∀ a ∈ saturate succ nodes fuel set, ∃ b, target b ∧ Reaches succ a b := by
  induction fuel generalizing set with
  | zero => exact hset
  | succ fuel ih =>
    rw [saturate]
    split
    · exact sweep_sound hset
    · exact ih (sweep_sound hset)

theorem subset_saturate (ha : a ∈ set) :
    a ∈ saturate succ nodes fuel set := by
  induction fuel generalizing set with
  | zero => exact ha
  | succ fuel ih =>
    rw [saturate]
    split
    · exact sweep_subset ha
    · exact ih (sweep_subset ha)

/-- Saturation from a set of nodes returns exactly the nodes that reach it. -/
theorem mem_saturate_iff (hsucc : ∀ u ∈ nodes, ∀ w ∈ succ u, w ∈ nodes) (hnodup : set.Nodup) (hset : ∀ a ∈ set, a ∈ nodes)
    (hfuel : nodes.length < fuel + set.length) (ha : a ∈ nodes) :
    a ∈ saturate succ nodes fuel set ↔ ∃ b ∈ set, Reaches succ a b := by
  constructor
  · exact saturate_sound (fun b hb => ⟨b, hb, .refl⟩) a
  · rintro ⟨b, hb, hreach⟩
    induction hreach using Relation.ReflTransGen.head_induction_on with
    | refl => exact subset_saturate hb
    | head hedge _ ih =>
      exact saturate_closed hnodup hset hfuel ha hedge (ih (hsucc _ ha _ hedge))

end Saturation

end Lib
