import StateKnot.Lib.Ordered
import StateKnot.Lib.Result

/-!
# Routed state machines

A store keeps one state per key.  Every operation names the key it is for and is
run by a step function on the state of that key alone.  A run of the store is then
the same as one run per key over the operations for it, in their order: how the
operations for different keys interleave does not matter.
-/

namespace Lib

variable {κ σ ω ε : Type} [DecidableEq κ]

/-- Replaces the state under a key. -/
def setState (store : List (κ × σ)) (key : κ) (state : σ) : List (κ × σ) :=
  store.map fun entry => if entry.1 = key then (entry.1, state) else entry

/-- Runs an operation on the state it is for. -/
def routeStep (keyOf : ω → κ) (missing : ω → ε) (step : σ → ω → Except ε σ)
    (store : List (κ × σ)) (op : ω) : Except ε (List (κ × σ)) := do
  let state ← okOr (store.lookup (keyOf op)) (missing op)
  let next ← step state op
  return setState store (keyOf op) next

/-- The operations for one key. -/
def opsFor (keyOf : ω → κ) (key : κ) (ops : List ω) : List ω :=
  ops.filter fun op => keyOf op = key

variable {keyOf : ω → κ} {missing : ω → ε} {step : σ → ω → Except ε σ}

@[simp] theorem setState_keys (store : List (κ × σ)) (key : κ) (state : σ) :
    (setState store key state).map Prod.fst = store.map Prod.fst := by
  rw [setState, List.map_map]
  refine List.map_congr_left (fun entry _ => ?_)
  rw [Function.comp_apply]
  split <;> rfl

theorem lookup_setState_self {store : List (κ × σ)} {key : κ} {state next : σ}
    (h : store.lookup key = some state) : (setState store key next).lookup key = some next := by
  induction store with
  | nil => cases h
  | cons entry rest ih =>
    by_cases hkey : entry.1 = key
    · simp [setState, hkey]
    · have hne : (key == entry.1) = false := beq_eq_false_iff_ne.mpr (fun heq => hkey heq.symm)
      rw [List.lookup_cons, hne] at h
      rw [setState, List.map_cons, if_neg hkey, List.lookup_cons, hne]
      exact ih h

theorem lookup_setState_of_ne {store : List (κ × σ)} {key other : κ} {next : σ}
    (h : other ≠ key) : (setState store key next).lookup other = store.lookup other := by
  induction store with
  | nil => rfl
  | cons entry rest ih =>
    rw [setState, List.map_cons]
    by_cases hkey : entry.1 = key
    · have hne : (other == entry.1) = false := beq_eq_false_iff_ne.mpr (hkey ▸ h)
      rw [if_pos hkey, List.lookup_cons, List.lookup_cons, hne]
      exact ih
    · rw [if_neg hkey, List.lookup_cons, List.lookup_cons]
      cases other == entry.1 with
      | true => rfl
      | false => exact ih

variable {store store' : List (κ × σ)} {ops : List ω} {op : ω}

theorem routeStep_eq_ok :
    routeStep keyOf missing step store op = .ok store' ↔
      ∃ state next, store.lookup (keyOf op) = some state ∧ step state op = .ok next ∧
        store' = setState store (keyOf op) next := by
  simp only [routeStep, bind_eq_ok, okOr_eq_ok, pure_eq_ok]
  constructor
  · rintro ⟨state, hstate, next, hnext, rfl⟩
    exact ⟨state, next, hstate, hnext, rfl⟩
  · rintro ⟨state, next, hstate, hnext, rfl⟩
    exact ⟨state, hstate, next, hnext, rfl⟩

theorem opsFor_cons_self (op : ω) (ops : List ω) :
    opsFor keyOf (keyOf op) (op :: ops) = op :: opsFor keyOf (keyOf op) ops := by
  simp [opsFor]

theorem opsFor_cons_of_ne {key : κ} (h : key ≠ keyOf op) (ops : List ω) :
    opsFor keyOf key (op :: ops) = opsFor keyOf key ops := by
  simp [opsFor, Ne.symm h]

/-- A run of the store runs every key over its own operations. -/
theorem foldlM_of_routeStep
    (h : ops.foldlM (routeStep keyOf missing step) store = .ok store') :
    store'.map Prod.fst = store.map Prod.fst ∧
      ∀ key state, store.lookup key = some state → ∃ state',
        (opsFor keyOf key ops).foldlM step state = .ok state' ∧
          store'.lookup key = some state' := by
  induction ops generalizing store with
  | nil =>
    rw [List.foldlM_nil] at h
    cases h
    exact ⟨rfl, fun key state hstate => ⟨state, rfl, hstate⟩⟩
  | cons op rest ih =>
    rw [List.foldlM_cons, bind_eq_ok] at h
    obtain ⟨middle, hmiddle, hrest⟩ := h
    obtain ⟨before, after, hbefore, hstep, rfl⟩ := routeStep_eq_ok.mp hmiddle
    obtain ⟨hkeys, hruns⟩ := ih hrest
    refine ⟨hkeys.trans (setState_keys _ _ _), fun key state hstate => ?_⟩
    by_cases hkey : key = keyOf op
    · subst hkey
      cases hbefore.symm.trans hstate
      obtain ⟨state', hrun, hfinal⟩ := hruns _ _ (lookup_setState_self hbefore)
      refine ⟨state', ?_, hfinal⟩
      rw [opsFor_cons_self, List.foldlM_cons, hstep, ok_bind, hrun]
    · rw [opsFor_cons_of_ne hkey]
      exact hruns key state ((lookup_setState_of_ne hkey).trans hstate)

theorem mem_keys_of_routeStep
    (h : ops.foldlM (routeStep keyOf missing step) store = .ok store') (hop : op ∈ ops) :
    ∃ state, store.lookup (keyOf op) = some state := by
  induction ops generalizing store with
  | nil => cases hop
  | cons first rest ih =>
    rw [List.foldlM_cons, bind_eq_ok] at h
    obtain ⟨middle, hmiddle, hrest⟩ := h
    obtain ⟨before, after, hbefore, _, rfl⟩ := routeStep_eq_ok.mp hmiddle
    rcases List.mem_cons.mp hop with rfl | hop
    · exact ⟨before, hbefore⟩
    · by_cases hkey : keyOf op = keyOf first
      · exact ⟨before, hkey ▸ hbefore⟩
      · rw [← lookup_setState_of_ne hkey]
        exact ih hrest hop

/-- When every key accepts its own operations, so does the store. -/
theorem exists_foldlM_routeStep {store : List (κ × σ)}
    (hkeys : ∀ op ∈ ops, ∃ state, store.lookup (keyOf op) = some state)
    (hruns : ∀ key state, store.lookup key = some state →
      ∃ state', (opsFor keyOf key ops).foldlM step state = .ok state') :
    ∃ store', ops.foldlM (routeStep keyOf missing step) store = .ok store' := by
  induction ops generalizing store with
  | nil => exact ⟨store, rfl⟩
  | cons op rest ih =>
    obtain ⟨before, hbefore⟩ := hkeys op List.mem_cons_self
    obtain ⟨final, hfinal⟩ := hruns (keyOf op) before hbefore
    rw [opsFor_cons_self, List.foldlM_cons, bind_eq_ok] at hfinal
    obtain ⟨after, hstep, hrest⟩ := hfinal
    have hmiddle : routeStep keyOf missing step store op = .ok (setState store (keyOf op) after) :=
      routeStep_eq_ok.mpr ⟨before, after, hbefore, hstep, rfl⟩
    have hself : (setState store (keyOf op) after).lookup (keyOf op) = some after :=
      lookup_setState_self hbefore
    obtain ⟨store', hstore'⟩ := @ih (setState store (keyOf op) after)
      (fun op' hop' => by
        by_cases hkey : keyOf op' = keyOf op
        · exact ⟨after, hkey ▸ hself⟩
        · rw [lookup_setState_of_ne hkey]
          exact hkeys op' (List.mem_cons_of_mem _ hop'))
      (fun key state hstate => by
        by_cases hkey : key = keyOf op
        · subst hkey
          cases hself.symm.trans hstate
          exact ⟨final, hrest⟩
        · rw [lookup_setState_of_ne hkey] at hstate
          rw [← opsFor_cons_of_ne hkey]
          exact hruns key state hstate)
    exact ⟨store', by rw [List.foldlM_cons, hmiddle, ok_bind, hstore']⟩

omit [DecidableEq κ] in
/-- Stores over the same distinct keys with the same states are the same. -/
theorem eq_of_lookup_eq [BEq κ] [LawfulBEq κ]
    (hkeys : store.map Prod.fst = store'.map Prod.fst) (hnodup : (store.map Prod.fst).Nodup)
    (hlookup : ∀ key, store.lookup key = store'.lookup key) : store = store' := by
  induction store generalizing store' with
  | nil => exact (List.map_eq_nil_iff.mp hkeys.symm).symm
  | cons entry store ih =>
    cases store' with
    | nil => cases hkeys
    | cons entry' store' =>
      obtain ⟨key, state⟩ := entry
      obtain ⟨key', state'⟩ := entry'
      simp only [List.map_cons, List.cons.injEq] at hkeys
      obtain ⟨rfl, hkeys⟩ := hkeys
      rw [List.map_cons, List.nodup_cons] at hnodup
      have hstate : state = state' := by simpa using hlookup key
      refine congrArg₂ List.cons (by rw [hstate]) (ih hkeys hnodup.2 fun other => ?_)
      by_cases hother : other = key
      · subst hother
        rw [lookup_eq_none_of_notMem hnodup.1, lookup_eq_none_of_notMem (hkeys ▸ hnodup.1)]
      · have hentry := hlookup other
        rwa [List.lookup_cons, List.lookup_cons, beq_eq_false_iff_ne.mpr hother] at hentry

/-- Operations that every key accepts with the same end in another interleaving are accepted
by the store with the same end. -/
theorem foldlM_routeStep_eq {ops ops' : List ω}
    (hnodup : (store.map Prod.fst).Nodup)
    (h : ops.foldlM (routeStep keyOf missing step) store = .ok store')
    (hsubset : ∀ op ∈ ops', op ∈ ops)
    (hruns : ∀ key state state', store.lookup key = some state →
      (opsFor keyOf key ops).foldlM step state = .ok state' →
      (opsFor keyOf key ops').foldlM step state = .ok state') :
    ops'.foldlM (routeStep keyOf missing step) store = .ok store' := by
  obtain ⟨hkeys, hstates⟩ := foldlM_of_routeStep h
  have hexists : ∃ other, ops'.foldlM (routeStep keyOf missing step) store = .ok other := by
    refine exists_foldlM_routeStep
      (fun op hop => mem_keys_of_routeStep h (hsubset op hop)) (fun key state hstate => ?_)
    obtain ⟨state', hrun, _⟩ := hstates key state hstate
    exact ⟨state', hruns key state state' hstate hrun⟩
  obtain ⟨other, hother⟩ := hexists
  obtain ⟨hkeys', hstates'⟩ := foldlM_of_routeStep hother
  have heq : other = store' := by
    refine eq_of_lookup_eq (hkeys'.trans hkeys.symm) (hkeys' ▸ hnodup) fun key => ?_
    cases hstate : store.lookup key with
    | some state =>
      obtain ⟨final, hrun, hfinal⟩ := hstates key state hstate
      obtain ⟨final', hrun', hfinal'⟩ := hstates' key state hstate
      rw [hfinal, hfinal', ← Except.ok.inj ((hruns key state final hstate hrun).symm.trans hrun')]
    | none =>
      have hnone : key ∉ store.map Prod.fst := by
        intro hmem
        obtain ⟨⟨_, state⟩, hentry, rfl⟩ := List.mem_map.mp hmem
        rw [(lookup_eq_some_iff_mem hnodup).mpr hentry] at hstate
        cases hstate
      rw [lookup_eq_none_of_notMem (hkeys' ▸ hnone), lookup_eq_none_of_notMem (hkeys ▸ hnone)]
  rw [hother, heq]

/-- A store whose keys accept their operations ends with the final state of every key. -/
theorem foldlM_routeStep_eq_map {store : List (κ × σ)} {final : κ → σ}
    (hnodup : (store.map Prod.fst).Nodup) (hkeys : ∀ op ∈ ops, keyOf op ∈ store.map Prod.fst)
    (hruns : ∀ entry ∈ store, (opsFor keyOf entry.1 ops).foldlM step entry.2 =
      .ok (final entry.1)) :
    ops.foldlM (routeStep keyOf missing step) store =
      .ok (store.map fun entry => (entry.1, final entry.1)) := by
  have hfinal : ∀ key state, store.lookup key = some state →
      (opsFor keyOf key ops).foldlM step state = .ok (final key) := by
    intro key state hstate
    exact hruns (key, state) ((lookup_eq_some_iff_mem hnodup).mp hstate)
  have hexists : ∃ store', ops.foldlM (routeStep keyOf missing step) store = .ok store' := by
    refine exists_foldlM_routeStep (fun op hop => ?_) (fun key state hstate => ?_)
    · obtain ⟨entry, hentry, hkey⟩ := List.mem_map.mp (hkeys op hop)
      exact ⟨entry.2, (lookup_eq_some_iff_mem hnodup).mpr (hkey ▸ hentry)⟩
    · exact ⟨final key, hfinal key state hstate⟩
  obtain ⟨store', hstore'⟩ := hexists
  obtain ⟨hkeys', hstates⟩ := foldlM_of_routeStep hstore'
  have hmap : (store.map fun entry => (entry.1, final entry.1)).map Prod.fst =
      store.map Prod.fst := by
    rw [List.map_map]
    rfl
  rw [hstore']
  refine congrArg Except.ok (eq_of_lookup_eq (hkeys'.trans hmap.symm) (hkeys' ▸ hnodup) fun key => ?_)
  by_cases hkey : key ∈ store.map Prod.fst
  · obtain ⟨entry, hentry, rfl⟩ := List.mem_map.mp hkey
    obtain ⟨state', hrun, hlookup⟩ := hstates entry.1 entry.2
      ((lookup_eq_some_iff_mem hnodup).mpr hentry)
    rw [hlookup, ← Except.ok.inj ((hruns entry hentry).symm.trans hrun), eq_comm,
      lookup_eq_some_iff_mem (hmap ▸ hnodup)]
    exact List.mem_map_of_mem hentry
  · rw [lookup_eq_none_of_notMem (hkeys' ▸ hkey), lookup_eq_none_of_notMem (hmap ▸ hkey)]

end Lib
