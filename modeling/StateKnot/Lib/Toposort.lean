import Mathlib.Data.Fintype.EquivFin
import Mathlib.Data.Fintype.Sets
import Mathlib.Data.List.Chain
import Mathlib.Order.WellFounded
import StateKnot.Lib.Search

/-!
# Topological visits

The loop that counts open incoming edges: a node is queued when its last incoming
edge is removed, and visiting a node removes its outgoing edges and relaxes the
depth of their targets.  A node may list the same successor several times; every
occurrence is an edge of its own.

`visits` returns the nodes in the order in which the loop takes them from the
queue, each with its depth at that time.  From the initial state every node is
visited at most once, all are visited exactly when there is no cycle, and the
depth of a visited node is the length of a longest path that ends in it.
-/

namespace Lib

variable {α : Type} [DecidableEq α]

/-- No node reaches itself. -/
def Acyclic (succ : α → List α) : Prop := ∀ a, ¬ Relation.TransGen (Edge succ) a a

/-- Nodes to visit, open incoming edges, and longest paths found so far. -/
structure Layers (α : Type) where
  queue : List α
  incoming : α → Nat
  depths : α → Nat

/-- Remove one edge into `next` from a node of the given depth. -/
def relax (depth : Nat) (state : Layers α) (next : α) : Layers α where
  queue := if state.incoming next - 1 = 0 then state.queue ++ [next] else state.queue
  incoming := Function.update state.incoming next (state.incoming next - 1)
  depths := Function.update state.depths next (max (state.depths next) (depth + 1))

section Relax

variable (depth : Nat) (state : Layers α)

theorem relax_incoming_self (next : α) :
    (relax depth state next).incoming next = state.incoming next - 1 := by
  simp [relax]

theorem relax_incoming_of_ne {next v : α} (h : v ≠ next) :
    (relax depth state next).incoming v = state.incoming v := by
  simp [relax, h]

theorem relax_depths_self (next : α) :
    (relax depth state next).depths next = max (state.depths next) (depth + 1) := by
  simp [relax]

theorem relax_depths_of_ne {next v : α} (h : v ≠ next) :
    (relax depth state next).depths v = state.depths v := by
  simp [relax, h]

end Relax

/-- Visit queued nodes until the queue is empty. -/
def visits (succ : α → List α) : Nat → Layers α → List (α × Nat)
  | 0, _ => []
  | _ + 1, ⟨[], _, _⟩ => []
  | fuel + 1, ⟨a :: queue, incoming, depths⟩ =>
    (a, depths a) ::
      visits succ fuel ((succ a).foldl (relax (depths a)) ⟨queue, incoming, depths⟩)

/-- Every edge is open; the nodes without incoming edges are queued. -/
def initialLayers (succ : α → List α) (univ : List α) : Layers α where
  queue := univ.filter (fun a => (univ.flatMap succ).count a = 0)
  incoming := fun a => (univ.flatMap succ).count a
  depths := fun _ => 1

/-! ## One visit -/

/-- What removing a list of open edges does to the state. -/
structure Relaxed (depth : Nat) (targets : List α) (state state' : Layers α) : Prop where
  incoming : ∀ v, state'.incoming v + targets.count v = state.incoming v
  depths : ∀ v, state'.depths v =
    if v ∈ targets then max (state.depths v) (depth + 1) else state.depths v
  queue : ∃ ready, state'.queue = state.queue ++ ready ∧ ready.Nodup ∧
    ∀ v, v ∈ ready ↔ v ∈ targets ∧ state'.incoming v = 0

theorem relaxed_foldl (depth : Nat) {targets : List α} {state : Layers α}
    (hopen : ∀ v, targets.count v ≤ state.incoming v) :
    Relaxed depth targets state (targets.foldl (relax depth) state) := by
  induction targets generalizing state with
  | nil => exact ⟨by simp, by simp, [], by simp⟩
  | cons next targets ih =>
    have hnext := hopen next
    rw [List.count_cons_self] at hnext
    have hopen' : ∀ v, targets.count v ≤ (relax depth state next).incoming v := by
      intro v
      by_cases hv : v = next
      · subst hv
        rw [relax_incoming_self]
        omega
      · have hother := hopen v
        rw [List.count_cons_of_ne (Ne.symm hv)] at hother
        rw [relax_incoming_of_ne depth state hv]
        exact hother
    have hrest := ih hopen'
    rw [List.foldl_cons]
    constructor
    · intro v
      have hsum := hrest.incoming v
      by_cases hv : v = next
      · subst hv
        rw [relax_incoming_self] at hsum
        rw [List.count_cons_self]
        omega
      · rw [relax_incoming_of_ne depth state hv] at hsum
        rw [List.count_cons_of_ne (Ne.symm hv)]
        exact hsum
    · intro v
      rw [hrest.depths v]
      by_cases hv : v = next
      · subst hv
        rw [relax_depths_self, if_pos List.mem_cons_self]
        split <;> omega
      · rw [relax_depths_of_ne depth state hv]
        simp [hv]
    · obtain ⟨ready, hqueue, hnodup, hmem⟩ := hrest.queue
      have hsum := hrest.incoming next
      rw [relax_incoming_self] at hsum
      by_cases hlast : state.incoming next - 1 = 0
      · -- The edge just removed was the last one, so `next` does not occur again.
        have hfresh : next ∉ targets := by
          rw [← List.count_eq_zero]
          omega
        refine ⟨next :: ready, ?_, ?_, ?_⟩
        · rw [hqueue]
          simp [relax, hlast]
        · exact List.nodup_cons.mpr ⟨fun h => hfresh ((hmem next).mp h).1, hnodup⟩
        · intro v
          rw [List.mem_cons, List.mem_cons, hmem]
          constructor
          · intro h
            rcases h with rfl | h
            · exact ⟨.inl rfl, by omega⟩
            · exact ⟨.inr h.1, h.2⟩
          · intro ⟨hv, hzero⟩
            rcases hv with rfl | hv
            · exact .inl rfl
            · exact .inr ⟨hv, hzero⟩
      · refine ⟨ready, ?_, hnodup, ?_⟩
        · rw [hqueue]
          simp [relax, hlast]
        · intro v
          rw [List.mem_cons, hmem]
          constructor
          · intro h
            exact ⟨.inr h.1, h.2⟩
          · intro ⟨hv, hzero⟩
            rcases hv with rfl | hv
            · refine ⟨?_, hzero⟩
              rw [← List.count_pos_iff]
              omega
            · exact ⟨hv, hzero⟩

/-! ## The invariant of the loop -/

/-- The state of the loop after the nodes `visited` of the graph on `univ`. -/
structure Layered (succ : α → List α) (univ visited : List α) (state : Layers α) : Prop where
  nodup : (visited ++ state.queue).Nodup
  mem : ∀ v, v ∈ visited ++ state.queue ↔ v ∈ univ ∧ state.incoming v = 0
  incoming : ∀ v, state.incoming v = ((univ.filter (· ∉ visited)).flatMap succ).count v
  lower : ∀ u ∈ visited, ∀ v ∈ succ u, state.depths u + 1 ≤ state.depths v
  attained : ∀ v, state.depths v = 1 ∨
    ∃ u ∈ visited, v ∈ succ u ∧ state.depths v = state.depths u + 1

section Loop

variable {succ : α → List α} {univ visited : List α} {state : Layers α}

theorem layered_initial (hnodup : univ.Nodup) : Layered succ univ [] (initialLayers succ univ) where
  nodup := hnodup.filter _
  mem := by simp [initialLayers]
  incoming := by simp [initialLayers]
  lower := by simp
  attained := fun _ => .inl rfl

variable {v a : α}

/-- A node without open incoming edges has only visited predecessors. -/
theorem Layered.visited_of_edge (h : Layered succ univ visited state) {u : α}
    (hu : u ∈ univ) (hv : state.incoming v = 0) (hedge : v ∈ succ u) : u ∈ visited := by
  by_contra hnew
  have hzero := h.incoming v
  rw [hv, eq_comm, List.count_eq_zero] at hzero
  exact hzero (List.mem_flatMap.mpr ⟨u, List.mem_filter.mpr ⟨hu, by simpa using hnew⟩, hedge⟩)

/-- The edges of a new node are those that its visit removes. -/
theorem count_flatMap_filter (succ : α → List α) (hnodup : univ.Nodup) (ha : a ∈ univ)
    (hnew : a ∉ visited) (v : α) :
    ((univ.filter (· ∉ visited ++ [a])).flatMap succ).count v + (succ a).count v =
      ((univ.filter (· ∉ visited)).flatMap succ).count v := by
  have hperm : (univ.filter (· ∉ visited)).Perm (a :: univ.filter (· ∉ visited ++ [a])) := by
    rw [List.perm_ext_iff_of_nodup (hnodup.filter _)
      (List.nodup_cons.mpr ⟨by simp, hnodup.filter _⟩)]
    intro w
    by_cases hw : w = a
    · subst hw
      simp [ha, hnew]
    · simp [hw]
  rw [(hperm.flatMap_right succ).count_eq, List.flatMap_cons, List.count_append, Nat.add_comm]

theorem Layered.visit {queue : List α} {incoming depths : α → Nat} (hnodup : univ.Nodup)
    (hsucc : ∀ u ∈ univ, ∀ w ∈ succ u, w ∈ univ)
    (h : Layered succ univ visited ⟨a :: queue, incoming, depths⟩) :
    Layered succ univ (visited ++ [a])
        ((succ a).foldl (relax (depths a)) ⟨queue, incoming, depths⟩) ∧
      ∀ v ∈ visited ++ [a], ((succ a).foldl (relax (depths a))
        ⟨queue, incoming, depths⟩).depths v = depths v := by
  obtain ⟨ha, hclosed⟩ : a ∈ univ ∧ incoming a = 0 := (h.mem a).mp (by simp)
  have hnew : a ∉ visited := by
    have := h.nodup
    rw [List.nodup_middle, List.nodup_cons] at this
    exact fun hmem => this.1 (List.mem_append_left _ hmem)
  have hsplit := count_flatMap_filter succ hnodup ha hnew
  have hopen : ∀ v, (succ a).count v ≤ incoming v := by
    intro v
    have hv : incoming v = _ := h.incoming v
    have hsum := hsplit v
    omega
  have hrelaxed : Relaxed (depths a) (succ a) ⟨queue, incoming, depths⟩ _ :=
    relaxed_foldl (depths a) hopen
  obtain ⟨hincoming, hdepths, ready, hqueue, hready, hmem⟩ := hrelaxed
  generalize (succ a).foldl (relax (depths a)) ⟨queue, incoming, depths⟩ =
    state' at hincoming hdepths hqueue hmem
  -- A node without open edges is not a successor of `a`, so its depth is final.
  have hfixed : ∀ v, incoming v = 0 → v ∉ succ a ∧ state'.depths v = depths v := by
    intro v hv
    have hnot : v ∉ succ a := by
      rw [← List.count_eq_zero]
      have := hopen v
      omega
    exact ⟨hnot, by rw [hdepths v, if_neg hnot]⟩
  have hdone : ∀ v ∈ visited ++ [a], incoming v = 0 := by
    intro v hv
    refine ((h.mem v).mp ?_).2
    simp only [List.mem_append, List.mem_cons] at hv ⊢
    tauto
  have hmono : ∀ v, depths v ≤ state'.depths v := by
    intro v
    rw [hdepths v]
    split <;> simp
  refine ⟨⟨?_, ?_, ?_, ?_, ?_⟩, fun v hv => (hfixed v (hdone v hv)).2⟩
  · rw [hqueue, ← List.append_assoc, List.append_assoc visited]
    refine List.Nodup.append h.nodup hready ?_
    intro v hv hv'
    have hzero := ((h.mem v).mp hv).2
    exact (hfixed v hzero).1 ((hmem v).mp hv').1
  · intro v
    have hold : v ∈ visited ++ a :: queue ↔ v ∈ univ ∧ incoming v = 0 := h.mem v
    rw [hqueue, ← List.append_assoc, List.append_assoc visited, List.mem_append,
      List.singleton_append, hold, hmem v]
    have hsum : state'.incoming v + (succ a).count v = incoming v := hincoming v
    constructor
    · intro hv
      rcases hv with ⟨huniv, hzero⟩ | ⟨hedge, hzero⟩
      · exact ⟨huniv, by omega⟩
      · exact ⟨hsucc a ha v hedge, hzero⟩
    · rintro ⟨huniv, hzero⟩
      by_cases hedge : v ∈ succ a
      · exact .inr ⟨hedge, hzero⟩
      · rw [← List.count_eq_zero] at hedge
        exact .inl ⟨huniv, by omega⟩
  · intro v
    have hv : incoming v = _ := h.incoming v
    have hsum := hsplit v
    have hsum' : state'.incoming v + (succ a).count v = incoming v := hincoming v
    omega
  · intro u hu v hedge
    rw [(hfixed u (hdone u hu)).2]
    rcases List.mem_append.mp hu with hu | hu
    · exact (h.lower u hu v hedge).trans (hmono v)
    · rw [List.mem_singleton.mp hu] at hedge ⊢
      rw [hdepths v, if_pos hedge]
      exact le_max_right _ _
  · intro v
    have hold : depths v = 1 ∨
        ∃ u ∈ visited ++ [a], v ∈ succ u ∧ depths v = state'.depths u + 1 := by
      rcases h.attained v with hone | ⟨u, hu, hedge, hdepth⟩
      · exact .inl hone
      · refine .inr ⟨u, List.mem_append_left _ hu, hedge, ?_⟩
        rw [(hfixed u (hdone u (List.mem_append_left _ hu))).2]
        exact hdepth
    rw [hdepths v]
    split
    next hedge =>
      rcases max_choice (depths v) (depths a + 1) with hmax | hmax
      · rw [hmax]
        exact hold
      · rw [hmax]
        exact .inr ⟨a, by simp, hedge, by rw [(hfixed a hclosed).2]⟩
    next => exact hold

/-- A run keeps the invariant, and its recorded depths are those of the final state. -/
theorem Layered.run {fuel : Nat} (hnodup : univ.Nodup)
    (hsucc : ∀ u ∈ univ, ∀ w ∈ succ u, w ∈ univ) (hfuel : univ.length ≤ visited.length + fuel)
    (h : Layered succ univ visited state) :
    ∃ last : Layers α, Layered succ univ (visited ++ (visits succ fuel state).map Prod.fst) last ∧
      last.queue = [] ∧ (∀ v ∈ visited, last.depths v = state.depths v) ∧
      ∀ visit ∈ visits succ fuel state, last.depths visit.1 = visit.2 := by
  induction fuel generalizing visited state with
  | zero =>
    have hsubset : ∀ v ∈ visited ++ state.queue, v ∈ univ := fun v hv => ((h.mem v).mp hv).1
    have hlength := (List.Nodup.subperm h.nodup hsubset).length_le
    rw [List.length_append] at hlength
    have hempty : state.queue = [] := List.length_eq_zero_iff.mp (by omega)
    exact ⟨state, by simpa [visits] using h, hempty, by simp, by simp [visits]⟩
  | succ fuel ih =>
    obtain ⟨queue, incoming, depths⟩ := state
    cases queue with
    | nil => exact ⟨_, by simpa [visits] using h, rfl, by simp, by simp [visits]⟩
    | cons a queue =>
      obtain ⟨hnext, hdepths⟩ := h.visit hnodup hsucc
      obtain ⟨last, hlast, hempty, hkept, hvisits⟩ := ih (by simp; omega) hnext
      refine ⟨last, ?_, hempty, ?_, ?_⟩
      · simpa [visits] using hlast
      · intro v hv
        rw [hkept v (by simp [hv]), hdepths v (by simp [hv])]
      · intro visit hvisit
        rw [visits, List.mem_cons] at hvisit
        rcases hvisit with rfl | hvisit
        · rw [hkept a (by simp), hdepths a (by simp)]
        · exact hvisits visit hvisit

/-! ## What the visits say about the graph -/

theorem Layered.depths_lt (h : Layered succ univ visited state)
    (hall : ∀ a ∈ univ, a ∈ visited) (hsource : ∀ u v, v ∈ succ u → u ∈ univ) {u : α}
    (hpath : Relation.TransGen (Edge succ) u v) : state.depths u < state.depths v := by
  induction hpath with
  | single hedge => exact h.lower u (hall u (hsource u _ hedge)) _ hedge
  | tail _ hedge ih => exact ih.trans (h.lower _ (hall _ (hsource _ _ hedge)) _ hedge)

/-- In a finite graph whose nodes outside a set all have a predecessor outside the set, an
acyclic relation leaves nothing outside. -/
theorem mem_of_acyclic (hacyclic : Acyclic succ)
    (hpred : ∀ v ∈ univ, v ∉ visited → ∃ u ∈ univ, u ∉ visited ∧ v ∈ succ u) :
    ∀ a ∈ univ, a ∈ visited := by
  let below : {a // a ∈ univ} → {a // a ∈ univ} → Prop := fun u v =>
    Relation.TransGen (Edge succ) u.1 v.1
  have : IsTrans _ below := ⟨fun _ _ _ => Relation.TransGen.trans⟩
  have : Std.Irrefl below := ⟨fun a => hacyclic a.1⟩
  have hwf : WellFounded below := Finite.wellFounded_of_trans_of_irrefl below
  intro a ha
  by_contra hout
  obtain ⟨⟨v, hv⟩, hmem, hmin⟩ := hwf.has_min {v | v.1 ∉ visited} ⟨⟨a, ha⟩, hout⟩
  obtain ⟨u, hu, hunvisited, hedge⟩ := hpred v hv hmem
  exact hmin ⟨u, hu⟩ hunvisited (.single hedge)

/-- A path that ends in a visited node is at most as long as the depth of that node. -/
theorem Layered.length_le_depths (h : Layered succ univ visited state)
    (hsource : ∀ u v, v ∈ succ u → u ∈ univ) {path : List α} (hv : v ∈ visited)
    (hpath : (path ++ [v]).IsChain (Edge succ)) : path.length + 1 ≤ state.depths v := by
  induction path using List.reverseRecOn generalizing v with
  | nil =>
    rcases h.attained v with hone | ⟨u, _, _, hdepth⟩
    · simp [hone]
    · simp [hdepth]
  | append_singleton path u ih =>
    rw [List.append_assoc, List.singleton_append, List.isChain_append_cons_cons] at hpath
    obtain ⟨hbefore, hedge, _⟩ := hpath
    have hzero : state.incoming v = 0 := ((h.mem v).mp (List.mem_append_left _ hv)).2
    have hu : u ∈ visited := h.visited_of_edge (hsource u v hedge) hzero hedge
    have hlength := ih hu hbefore
    have hlower := h.lower u hu v hedge
    rw [List.length_append, List.length_singleton]
    omega

/-- The depth of a visited node is the length of a path that starts where no edge ends. -/
theorem Layered.exists_path (h : Layered succ univ visited state)
    (hsource : ∀ u v, v ∈ succ u → u ∈ univ) (hv : v ∈ visited) :
    ∃ first rest, (first :: rest).IsChain (Edge succ) ∧ (first :: rest).getLast? = some v ∧
      (first :: rest).length = state.depths v ∧ ∀ u, first ∉ succ u := by
  generalize hdepth : state.depths v = depth
  induction depth generalizing v with
  | zero =>
    rcases h.attained v with hone | ⟨u, _, _, hsum⟩
    · omega
    · omega
  | succ depth ih =>
    have hzero : state.incoming v = 0 := ((h.mem v).mp (List.mem_append_left _ hv)).2
    rcases h.attained v with hone | ⟨u, hu, hedge, hsum⟩
    · refine ⟨v, [], List.IsChain.singleton v, rfl, by simp; omega, fun u hedge => ?_⟩
      have hu := h.visited_of_edge (hsource u v hedge) hzero hedge
      have hlower := h.lower u hu v hedge
      rcases h.attained u with hone' | ⟨_, _, _, hsum⟩
      · omega
      · omega
    · obtain ⟨first, rest, hchain, hlast, hlength, hfirst⟩ := ih hu (by omega)
      refine ⟨first, rest ++ [v], ?_, ?_, ?_, hfirst⟩
      · rw [← List.cons_append, List.isChain_append]
        refine ⟨hchain, List.IsChain.singleton v, fun a ha b hb => ?_⟩
        rw [hlast, Option.mem_some_iff] at ha
        rw [List.head?_cons, Option.mem_some_iff] at hb
        rw [← ha, ← hb]
        exact hedge
      · rw [← List.cons_append, List.getLast?_append]
        rfl
      · rw [← List.cons_append, List.length_append, hlength, List.length_singleton]

/-- The graph on `univ` has all its edges inside. -/
structure Inside (succ : α → List α) (univ : List α) : Prop where
  nodup : univ.Nodup
  source : ∀ u v, v ∈ succ u → u ∈ univ
  target : ∀ u v, v ∈ succ u → v ∈ univ

/-- The visits of a whole graph. -/
def allVisits (succ : α → List α) (univ : List α) : List (α × Nat) :=
  visits succ univ.length (initialLayers succ univ)

variable (hinside : Inside succ univ)

include hinside

theorem layered_allVisits :
    ∃ last : Layers α, Layered succ univ ((allVisits succ univ).map Prod.fst) last ∧
      last.queue = [] ∧ ∀ visit ∈ allVisits succ univ, last.depths visit.1 = visit.2 := by
  have hinitial : Layered succ univ [] _ := layered_initial hinside.nodup
  obtain ⟨last, hlast, hempty, _, hvisits⟩ := hinitial.run hinside.nodup
    (fun u _ w hw => hinside.target u w hw) (Nat.le_add_left univ.length _)
  exact ⟨last, hlast, hempty, hvisits⟩

theorem allVisits_nodup :
    ((allVisits succ univ).map Prod.fst).Nodup := by
  obtain ⟨last, hlast, hempty, _⟩ := layered_allVisits hinside
  simpa [hempty] using hlast.nodup

theorem mem_univ_of_mem_allVisits (ha : a ∈ (allVisits succ univ).map Prod.fst) : a ∈ univ:= by
  obtain ⟨last, hlast, _⟩ := layered_allVisits hinside
  exact ((hlast.mem a).mp (List.mem_append_left _ ha)).1

/-- Every node is visited exactly when the graph has no cycle. -/
theorem allVisits_perm_iff :
    ((allVisits succ univ).map Prod.fst).Perm univ ↔ Acyclic succ := by
  obtain ⟨last, hlast, hempty, _⟩ := layered_allVisits hinside
  rw [List.perm_ext_iff_of_nodup (allVisits_nodup hinside) hinside.nodup]
  constructor
  · intro hall a hcycle
    have hvisited : ∀ a ∈ univ, a ∈ (allVisits succ univ).map Prod.fst :=
      fun a ha => (hall a).mpr ha
    exact absurd (hlast.depths_lt hvisited hinside.source hcycle) (lt_irrefl _)
  · intro hacyclic a
    refine ⟨mem_univ_of_mem_allVisits hinside, fun ha => ?_⟩
    refine mem_of_acyclic hacyclic (fun v hv hnew => ?_) a ha
    have hopen : last.incoming v ≠ 0 := by
      intro hzero
      have hmem := (hlast.mem v).mpr ⟨hv, hzero⟩
      rw [hempty, List.append_nil] at hmem
      exact hnew hmem
    rw [hlast.incoming v, ← Nat.pos_iff_ne_zero, List.count_pos_iff, List.mem_flatMap] at hopen
    obtain ⟨u, hu, hedge⟩ := hopen
    obtain ⟨hu, hunvisited⟩ := List.mem_filter.mp hu
    exact ⟨u, hu, by simpa using hunvisited, hedge⟩

/-- Paths into a visited node are no longer than its recorded depth. -/
theorem length_le_of_mem_allVisits {depth : Nat}
    (hvisit : (v, depth) ∈ allVisits succ univ) {path : List α}
    (hpath : (path ++ [v]).IsChain (Edge succ)) : path.length + 1 ≤ depth := by
  obtain ⟨last, hlast, _, hdepths⟩ := layered_allVisits hinside
  have hdepth : last.depths v = depth := hdepths _ hvisit
  rw [← hdepth]
  exact hlast.length_le_depths hinside.source (List.mem_map_of_mem hvisit) hpath

/-- The recorded depth is the length of a path that starts where no edge ends. -/
theorem exists_path_of_mem_allVisits {depth : Nat} (hvisit : (v, depth) ∈ allVisits succ univ) :
    ∃ first rest, (first :: rest).IsChain (Edge succ) ∧ (first :: rest).getLast? = some v ∧
      (first :: rest).length = depth ∧ ∀ u, first ∉ succ u := by
  obtain ⟨last, hlast, _, hdepths⟩ := layered_allVisits hinside
  have hdepth : last.depths v = depth := hdepths _ hvisit
  rw [← hdepth]
  exact hlast.exists_path hinside.source (List.mem_map_of_mem hvisit)

end Loop

end Lib
