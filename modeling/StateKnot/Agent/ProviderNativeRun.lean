import StateKnot.Agent.ProviderNative
import StateKnot.Lib.Attempts
import StateKnot.Lib.Spans
import StateKnot.Written
import StateKnot.Graph.Run

/-!
# Runs of the provider-native agent

The reducer checks one state and one step at a time.  `ValidState` says what a state
that passes has, `Advances` what a step that passes does.  Along a run a plan is
made once and then carried on, turns are only appended, and a repair ends the use
of tools; the number of turns and the phase together measure progress.
-/

namespace StateKnot

open Lib

/-! ## Identities in a state -/

/-- The identities of a completed turn. -/
def ProviderNativeCompletedTurn.invocationIds (turn : ProviderNativeCompletedTurn) :
    List InvocationId :=
  turn.modelInvocationId :: turn.toolInvocationIds

namespace ProviderNativeAgentPhase

/-- The identities in the plan of a phase. -/
def invocationIds : ProviderNativeAgentPhase → List InvocationId
  | .model plan => [plan.invocationId]
  | .tools modelInvocationId plans => modelInvocationId :: plans.map (·.invocationId)

/-- The identities that enter with a phase; the tools carry on the identity of the model call
that asked for them. -/
def plannedIds : ProviderNativeAgentPhase → List InvocationId
  | .model plan => [plan.invocationId]
  | .tools _ plans => plans.map (·.invocationId)

end ProviderNativeAgentPhase

namespace ProviderNativeAgentState

/-- All identities of a state, the oldest first. -/
def invocationIds (state : ProviderNativeAgentState) : List InvocationId :=
  state.completedTurns.flatMap (·.invocationIds) ++ state.phase.invocationIds

/-- A repair turn was recorded. -/
def RepairStarted (state : ProviderNativeAgentState) : Prop :=
  ∃ turn ∈ state.completedTurns, turn.requiresOutputRepair

/-- Two for every completed turn and one for a finished model call. -/
def progress (state : ProviderNativeAgentState) : Nat :=
  2 * state.completedTurns.length + if state.phase.isModel then 0 else 1

end ProviderNativeAgentState

/-! ## What the checks of a state establish -/

variable {ids out : List InvocationId}

theorem insertFresh_eq_ok {error : ProviderNativeAgentStateError} {ids' : List InvocationId}
    {id : InvocationId} : insertFresh error ids id = .ok ids' ↔ id ∉ ids ∧ ids' = ids ++ [id] := by
  simp only [insertFresh, bind_eq_ok, reject_eq_ok, exists_const, pure_eq_ok, eq_comm (a := ids')]

theorem nodup_append_fresh {id : InvocationId} (hids : ids.Nodup)
    (hfresh : id ∉ ids) : (ids ++ [id]).Nodup := by
  rw [← List.concat_eq_append]
  exact hids.concat hfresh

/-- A loop that appends fresh identities appends pairwise different ones. -/
theorem nodup_of_foldlM_fresh {ε α : Type} {f : List InvocationId → α → Except ε (List InvocationId)}
    (key : α → InvocationId)
    (hf : ∀ {ids x ids'}, f ids x = .ok ids' → key x ∉ ids ∧ ids' = ids ++ [key x]) {xs : List α} (hids : ids.Nodup)
    (h : xs.foldlM f ids = .ok out) : out = ids ++ xs.map key ∧ out.Nodup := by
  refine foldlM_induct (fun seen out => out = ids ++ seen.map key ∧ out.Nodup)
    ⟨by simp, hids⟩ ?_ h
  intro seen out x out' hinv hx
  obtain ⟨rfl, hnodup⟩ := hinv
  obtain ⟨hfresh, rfl⟩ := hf hx
  exact ⟨by simp, nodup_append_fresh hnodup hfresh⟩

theorem foldlM_insertFresh_eq_ok {error : ProviderNativeAgentStateError}
    {xs : List InvocationId} (hids : ids.Nodup)
    (h : xs.foldlM (insertFresh error) ids = .ok out) : out = ids ++ xs ∧ out.Nodup := by
  have hout := nodup_of_foldlM_fresh (fun id => id) insertFresh_eq_ok.mp hids h
  simpa using hout

theorem foldlM_scanPlan_eq_ok {plans : List ProviderNativeToolPlan}
    (hids : ids.Nodup) (h : plans.zipIdx.foldlM scanPlan ids = .ok out) :
    out = ids ++ plans.map (·.invocationId) ∧ out.Nodup := by
  have hout := nodup_of_foldlM_fresh (fun entry : ProviderNativeToolPlan × Nat =>
    entry.1.invocationId) ?_ hids h
  · have hplans : plans.zipIdx.map (fun entry => entry.1.invocationId) =
        plans.map (·.invocationId) := by
      have hfst := List.map_map (f := Prod.fst) (l := plans.zipIdx)
        (g := fun plan : ProviderNativeToolPlan => plan.invocationId)
      rw [List.zipIdx_map_fst] at hfst
      exact hfst.symm
    rwa [hplans] at hout
  · intro ids entry ids' hentry
    simp only [scanPlan, bind_eq_ok, reject_eq_ok, exists_const, not_or, pure_eq_ok] at hentry
    exact ⟨hentry.1.2, hentry.2.symm⟩

/-- The loop over the completed turns after some of them. -/
structure TurnScan.Scanned (maximumCalls : Nat) (turns : List ProviderNativeCompletedTurn)
    (scan : TurnScan) : Prop where
  ids_eq : scan.invocationIds = turns.flatMap (·.invocationIds)
  ids_nodup : scan.invocationIds.Nodup
  repairs_eq : scan.outputRepairTurns = turns.countP (·.requiresOutputRepair)
  active_iff : scan.outputRepairActive ↔ ∃ turn ∈ turns, turn.requiresOutputRepair
  repairs_last : turns.Pairwise (fun a b => a.requiresOutputRepair → b.requiresOutputRepair)
  references_le : scan.referenceCount ≤ turns.length * maximumCalls

theorem TurnScan.Scanned.step {maximumCalls : Nat} {turns : List ProviderNativeCompletedTurn}
    {scan scan' : TurnScan} {turn : ProviderNativeCompletedTurn}
    (hscan : scan.Scanned maximumCalls turns) (h : scanTurn maximumCalls scan turn = .ok scan') :
    scan'.Scanned maximumCalls (turns ++ [turn]) := by
  rw [scanTurn, bind_eq_ok] at h
  obtain ⟨ids, hids, h⟩ := h
  obtain ⟨hfresh, rfl⟩ := insertFresh_eq_ok.mp hids
  have hmodel : (scan.invocationIds ++ [turn.modelInvocationId]).Nodup :=
    nodup_append_fresh hscan.ids_nodup hfresh
  have hreferences := hscan.references_le
  split at h
  · -- a repair turn has no tools; it may follow anything
    rename_i hrepair
    cases h
    have htools : turn.toolInvocationIds = [] := List.isEmpty_iff.mp hrepair
    refine ⟨?_, hmodel, ?_, ?_, ?_, ?_⟩
    · simp [hscan.ids_eq, ProviderNativeCompletedTurn.invocationIds, htools]
    · simp [hscan.repairs_eq, List.countP_append, hrepair]
    · simp only [true_iff]
      exact ⟨turn, by simp, hrepair⟩
    · refine List.pairwise_append.mpr ⟨hscan.repairs_last, List.pairwise_singleton _ _, ?_⟩
      intro a _ b hb _
      rw [List.mem_singleton.mp hb]
      exact hrepair
    · rw [List.length_append, List.length_singleton, Nat.add_mul]
      show scan.referenceCount ≤ _
      omega
  · rename_i hrepair
    simp only [bind_eq_ok, reject_eq_ok, exists_const, not_or, pure_eq_ok] at h
    obtain ⟨⟨hactive, hcalls⟩, ids', hids', rfl⟩ := h
    obtain ⟨rfl, hnodup⟩ := foldlM_insertFresh_eq_ok hmodel hids'
    have hnone : ∀ a ∈ turns, ¬ a.requiresOutputRepair := fun a ha hr =>
      hactive (hscan.active_iff.mpr ⟨a, ha, hr⟩)
    refine ⟨?_, hnodup, ?_, ?_, ?_, ?_⟩
    · simp [hscan.ids_eq, ProviderNativeCompletedTurn.invocationIds]
    · simp [hscan.repairs_eq, List.countP_append, hrepair]
    · rw [hscan.active_iff]
      simp [hrepair]
    · refine List.pairwise_append.mpr ⟨hscan.repairs_last, List.pairwise_singleton _ _, ?_⟩
      intro a ha _ _ hr
      exact absurd hr (hnone a ha)
    · rw [List.length_append, List.length_singleton, Nat.add_mul]
      show scan.referenceCount + turn.toolInvocationIds.length ≤ _
      omega

theorem scanned_of_foldlM {maximumCalls : Nat} {turns : List ProviderNativeCompletedTurn}
    {scan : TurnScan} (h : turns.foldlM (scanTurn maximumCalls) ⟨[], 0, false, 0⟩ = .ok scan) :
    scan.Scanned maximumCalls turns :=
  foldlM_induct (fun seen (scan : TurnScan) => scan.Scanned maximumCalls seen)
    ⟨by simp, by simp, by simp, by simp, List.Pairwise.nil, by simp⟩ TurnScan.Scanned.step h

section Graph

variable {E : Encoding} {graph : ProviderNativeAgentGraph E}

/-- What a state that passes `validate_state` has. -/
structure ValidState (graph : ProviderNativeAgentGraph E) (state : ProviderNativeAgentState) :
    Prop where
  turns_lt : state.completedTurns.length < graph.descriptor.execution.maxModelTurns.value
  ids_nodup : state.invocationIds.Nodup
  repairs_last : state.completedTurns.Pairwise
    (fun a b => a.requiresOutputRepair → b.requiresOutputRepair)
  repairs_le : state.completedTurns.countP (·.requiresOutputRepair) ≤
    graph.descriptor.execution.maxOutputRepairTurns.value
  tools_phase : state.phase.isModel = false → ¬ state.RepairStarted ∧
    state.completedTurns.length + 1 < graph.descriptor.execution.maxModelTurns.value

variable {u : Unit} {current next state : ProviderNativeAgentState}

theorem validState_of_validateStateWithin {maximumReferences : Nat}
    (h : validateStateWithin graph maximumReferences state = .ok u) : ValidState graph state := by
  simp only [validateStateWithin, bind_eq_ok, reject_eq_ok, exists_const, not_le, not_lt] at h
  obtain ⟨_, hturns, scan, hscan, hrepairs, _, ids, hphase, _⟩ := h
  have hscanned := scanned_of_foldlM hscan
  rw [hscanned.repairs_eq] at hrepairs
  refine ⟨hturns, ?_, hscanned.repairs_last, hrepairs, ?_⟩
  · unfold ProviderNativeAgentState.invocationIds
    rw [← hscanned.ids_eq]
    cases hcase : state.phase with
    | model plan =>
      rw [hcase, validatePhase, insertFresh_eq_ok] at hphase
      exact nodup_append_fresh hscanned.ids_nodup hphase.1
    | tools modelInvocationId plans =>
      rw [hcase] at hphase
      simp only [validatePhase, bind_eq_ok, reject_eq_ok, exists_const, not_or] at hphase
      obtain ⟨⟨_, _, _, _, hfresh⟩, _, hplans⟩ := hphase
      obtain ⟨rfl, hnodup⟩ :=
        foldlM_scanPlan_eq_ok (nodup_append_fresh hscanned.ids_nodup hfresh) hplans
      simpa [ProviderNativeAgentPhase.invocationIds] using hnodup
  · intro htools
    cases hcase : state.phase with
    | model plan =>
      rw [hcase] at htools
      cases htools
    | tools modelInvocationId plans =>
      rw [hcase] at hphase
      simp only [validatePhase, bind_eq_ok, reject_eq_ok, exists_const, not_or, not_le] at hphase
      exact ⟨fun hstarted => hphase.1.1 (hscanned.active_iff.mpr hstarted), hphase.1.2.1⟩

/-- The ceiling of references does not matter where it covers the references of a phase. -/
theorem validatePhase_eq {M M' maximumTurns maximumCalls turns : Nat} {scan : TurnScan}
    (hscan : scan.referenceCount ≤ turns * maximumCalls) (hM : maximumTurns * maximumCalls ≤ M)
    (hM' : maximumTurns * maximumCalls ≤ M') (phase : ProviderNativeAgentPhase) :
    validatePhase M maximumTurns maximumCalls turns scan phase =
      validatePhase M' maximumTurns maximumCalls turns scan phase := by
  cases phase with
  | model plan => rfl
  | tools modelInvocationId plans =>
    by_cases hbounds : scan.outputRepairActive ∨ turns + 1 ≥ maximumTurns ∨ plans = [] ∨
        plans.length > maximumCalls ∨ modelInvocationId ∈ scan.invocationIds
    · simp only [validatePhase, reject, if_pos hbounds, error_bind]
    · have hturns : (turns + 1) * maximumCalls ≤ maximumTurns * maximumCalls :=
        Nat.mul_le_mul_right _ (by omega)
      have hplans : plans.length ≤ maximumCalls := by omega
      rw [Nat.add_mul] at hturns
      have hwithin : ¬ scan.referenceCount + plans.length > M := by omega
      have hwithin' : ¬ scan.referenceCount + plans.length > M' := by omega
      simp only [validatePhase, reject, if_neg hwithin, if_neg hwithin']

/-- The ceiling of references does not matter where it covers every turn of the agent. -/
theorem validateStateWithin_eq {M M' : Nat}
    (hM : graph.descriptor.execution.maxModelTurns.value *
      graph.descriptor.execution.maxToolCallsPerTurn.value ≤ M)
    (hM' : graph.descriptor.execution.maxModelTurns.value *
      graph.descriptor.execution.maxToolCallsPerTurn.value ≤ M')
    (state : ProviderNativeAgentState) :
    validateStateWithin graph M state = validateStateWithin graph M' state := by
  by_cases hturns : state.completedTurns.length ≥ graph.descriptor.execution.maxModelTurns.value
  · simp only [validateStateWithin, reject, if_pos hturns, error_bind]
  cases hscan : state.completedTurns.foldlM
      (scanTurn graph.descriptor.execution.maxToolCallsPerTurn.value) ⟨[], 0, false, 0⟩ with
  | error error => simp only [validateStateWithin, hscan, error_bind]
  | ok scan =>
    have hreferences := (scanned_of_foldlM hscan).references_le
    have hall : state.completedTurns.length *
        graph.descriptor.execution.maxToolCallsPerTurn.value ≤
          graph.descriptor.execution.maxModelTurns.value *
            graph.descriptor.execution.maxToolCallsPerTurn.value :=
      Nat.mul_le_mul_right _ (by omega)
    have hwithin : ¬ scan.referenceCount > M := by omega
    have hwithin' : ¬ scan.referenceCount > M' := by omega
    have hphase := validatePhase_eq hreferences hM hM' state.phase
    simp only [validateStateWithin, hscan, ok_bind, reject, if_neg hwithin, if_neg hwithin', hphase]

/-! ## What the checks of a step establish -/

/-- The steps of an agent. -/
inductive ProviderNativeAgentState.Advances (current next : ProviderNativeAgentState) : Prop
  | callTools (plan : ProviderNativeModelPlan) (plans : List ProviderNativeToolPlan)
      (hphase : current.phase = .model plan) (hnext : next.phase = .tools plan.invocationId plans)
      (hturns : next.completedTurns = current.completedTurns)
      (hrepair : outputRepairActive current = false)
  | repairOutput (plan nextPlan : ProviderNativeModelPlan) (hphase : current.phase = .model plan)
      (hnext : next.phase = .model nextPlan)
      (hturns : next.completedTurns = current.completedTurns ++ [⟨plan.invocationId, []⟩])
  | finishTools (modelInvocationId : InvocationId) (plans : List ProviderNativeToolPlan)
      (nextPlan : ProviderNativeModelPlan) (hphase : current.phase = .tools modelInvocationId plans)
      (hnext : next.phase = .model nextPlan)
      (hturns : next.completedTurns =
        current.completedTurns ++ [⟨modelInvocationId, plans.map (·.invocationId)⟩])

/-- A list one longer than its start is the start with its last element appended. -/
theorem eq_append_of_take {xs ys : List ProviderNativeCompletedTurn}
    {last : ProviderNativeCompletedTurn} (hlength : ys.length = xs.length + 1)
    (htake : ys.take xs.length = xs) (hlast : ys.getLast? = some last) : ys = xs ++ [last] := by
  have hdropped : ys.drop xs.length = [last] := by
    obtain ⟨x, hx⟩ := List.length_eq_one_iff.mp
      (show (ys.drop xs.length).length = 1 by rw [List.length_drop]; omega)
    have hsplit := List.take_append_drop xs.length ys
    rw [hx] at hsplit
    rw [← hsplit, List.getLast?_concat] at hlast
    rw [hx, Option.some.inj hlast]
  rw [← List.take_append_drop xs.length ys, htake, hdropped]

theorem advances_of_validateModelTransition
    (h : validateModelTransition current next = .ok u) : current.Advances next := by
  unfold validateModelTransition at h
  split at h
  · cases h
  rename_i plan hphase
  split at h
  · rename_i modelInvocationId plans hnext
    rw [reject_eq_ok, not_not] at h
    obtain ⟨hrepair, hturns, rfl⟩ := h
    exact .callTools plan plans hphase hnext hturns.symm (by simpa using hrepair)
  · rename_i nextPlan hnext
    rw [reject_eq_ok, not_not] at h
    obtain ⟨hlength, htake, hlast, _⟩ := h
    obtain ⟨last, hsome, hturn⟩ := (Option.any_eq_true _ _).mp hlast
    rw [Bool.and_eq_true, decide_eq_true_eq] at hturn
    have hlast_eq : last = ⟨plan.invocationId, []⟩ := by
      obtain ⟨modelInvocationId, toolInvocationIds⟩ := last
      have htools : toolInvocationIds = [] := List.isEmpty_iff.mp hturn.1
      rw [htools, ← hturn.2]
    exact .repairOutput plan nextPlan hphase hnext
      (hlast_eq ▸ eq_append_of_take hlength htake hsome)

theorem advances_of_validateToolsTransition
    (h : validateToolsTransition current next = .ok u) : current.Advances next := by
  unfold validateToolsTransition at h
  split at h
  · cases h
  rename_i modelInvocationId plans hphase
  simp only [bind_eq_ok, reject_eq_ok, okOr_eq_ok, exists_const, not_or, not_not] at h
  obtain ⟨⟨hmodel, hlength, htake⟩, appended, happended, hmodelId, htools⟩ := h
  cases hnext : next.phase with
  | tools _ _ =>
    rw [hnext] at hmodel
    exact absurd rfl hmodel
  | model nextPlan =>
    have happended_eq : appended = ⟨modelInvocationId, plans.map (·.invocationId)⟩ := by
      cases appended
      rw [← hmodelId, ← htools]
    exact .finishTools modelInvocationId plans nextPlan hphase hnext
      (happended_eq ▸ eq_append_of_take hlength htake happended)

theorem advances_of_validateTransition {nodeId : NodeId} (h : validateTransition graph nodeId current next = .ok u) :
    current.Advances next := by
  rw [validateTransition, bind_eq_ok] at h
  obtain ⟨_, _, h⟩ := h
  split at h
  · exact advances_of_validateModelTransition h
  · split at h
    · exact advances_of_validateToolsTransition h
    · cases h

namespace ProviderNativeAgentState.Advances

variable {current next : ProviderNativeAgentState}

/-- What a state plans is added to the identities of the state before. -/
theorem invocationIds_eq (h : current.Advances next) :
    next.invocationIds = current.invocationIds ++ next.phase.plannedIds := by
  cases h with
  | callTools plan plans hphase hnext hturns =>
    simp [ProviderNativeAgentState.invocationIds, hphase, hnext, hturns,
      ProviderNativeAgentPhase.invocationIds, ProviderNativeAgentPhase.plannedIds]
  | repairOutput plan nextPlan hphase hnext hturns =>
    simp [ProviderNativeAgentState.invocationIds, hphase, hnext, hturns,
      ProviderNativeAgentPhase.invocationIds, ProviderNativeAgentPhase.plannedIds,
      ProviderNativeCompletedTurn.invocationIds]
  | finishTools modelInvocationId plans nextPlan hphase hnext hturns =>
    simp [ProviderNativeAgentState.invocationIds, hphase, hnext, hturns,
      ProviderNativeAgentPhase.invocationIds, ProviderNativeAgentPhase.plannedIds,
      ProviderNativeCompletedTurn.invocationIds]

theorem progress_lt (h : current.Advances next) : current.progress < next.progress := by
  cases h with
  | callTools plan plans hphase hnext hturns =>
    simp [progress, hphase, hnext, hturns, ProviderNativeAgentPhase.isModel]
  | repairOutput plan nextPlan hphase hnext hturns =>
    simp only [progress, hphase, hnext, hturns, ProviderNativeAgentPhase.isModel,
      List.length_append, List.length_singleton, if_true]
    omega
  | finishTools modelInvocationId plans nextPlan hphase hnext hturns =>
    simp only [progress, hphase, hnext, hturns, ProviderNativeAgentPhase.isModel,
      List.length_append, List.length_singleton, Bool.false_eq_true, if_true, if_false]
    omega

end ProviderNativeAgentState.Advances

/-- Turns are appended; after a repair turn the model is called again and again, and only
repair turns are. -/
def ProviderNativeAgentState.Follows (earlier later : ProviderNativeAgentState) : Prop :=
  ∃ turns, later.completedTurns = earlier.completedTurns ++ turns ∧
    (earlier.RepairStarted → later.phase.isModel ∧ ∀ turn ∈ turns, turn.requiresOutputRepair)

namespace ProviderNativeAgentState.Follows

theorem trans {a b c : ProviderNativeAgentState} (hab : a.Follows b) (hbc : b.Follows c) :
    a.Follows c := by
  obtain ⟨first, hfirst, hfirst_repair⟩ := hab
  obtain ⟨second, hsecond, hsecond_repair⟩ := hbc
  refine ⟨first ++ second, by rw [hsecond, hfirst, List.append_assoc], ?_⟩
  intro hstarted
  have hstarted' : b.RepairStarted := by
    obtain ⟨turn, hturn, hrepair⟩ := hstarted
    exact ⟨turn, by rw [hfirst]; exact List.mem_append_left _ hturn, hrepair⟩
  obtain ⟨hmodel, hrepairs⟩ := hsecond_repair hstarted'
  refine ⟨hmodel, fun turn hturn => ?_⟩
  rcases List.mem_append.mp hturn with hmem | hmem
  · exact (hfirst_repair hstarted).2 turn hmem
  · exact hrepairs turn hmem

end ProviderNativeAgentState.Follows

/-- In a valid state a started repair shows in the last turn. -/
theorem ValidState.outputRepairActive
    (h : ValidState graph state) (hstarted : state.RepairStarted) :
    outputRepairActive state = true := by
  obtain ⟨turn, hturn, hrepair⟩ := hstarted
  obtain ⟨before, last, hsplit⟩ := List.eq_nil_or_concat'  state.completedTurns |>.resolve_left
    (List.ne_nil_of_mem hturn)
  have hlast : last.requiresOutputRepair := by
    have hpairs := h.repairs_last
    rw [hsplit] at hturn hpairs
    rcases List.mem_append.mp hturn with hmem | hmem
    · exact (List.pairwise_append.mp hpairs).2.2 turn hmem last (by simp) hrepair
    · rw [← List.mem_singleton.mp hmem]
      exact hrepair
  rw [StateKnot.outputRepairActive, hsplit, List.getLast?_concat]
  exact hlast

theorem ProviderNativeAgentState.Advances.follows
    (hvalid : ValidState graph current) (h : current.Advances next) : current.Follows next := by
  cases h with
  | callTools plan plans hphase hnext hturns hrepair =>
    refine ⟨[], by simpa using hturns, fun hstarted => ?_⟩
    rw [hvalid.outputRepairActive hstarted] at hrepair
    cases hrepair
  | repairOutput plan nextPlan hphase hnext hturns =>
    refine ⟨_, hturns, fun _ => ⟨by rw [hnext]; rfl, fun turn hturn => ?_⟩⟩
    rw [List.mem_singleton.mp hturn]
    rfl
  | finishTools modelInvocationId plans nextPlan hphase hnext hturns =>
    refine ⟨_, hturns, fun hstarted => ?_⟩
    exact absurd hstarted (hvalid.tools_phase (by rw [hphase]; rfl)).1

/-! ## Runs -/

variable {decodeState : BoundedJson → Option ProviderNativeAgentState}

theorem decodeValid_eq_ok {data : BoundedJson}
    (h : decodeValid graph decodeState data = .ok state) :
    decodeState data = some state ∧ ValidState graph state := by
  simp only [decodeValid, bind_eq_ok, okOr_eq_ok, mapError_eq_ok, pure_eq_ok] at h
  obtain ⟨decoded, hdecoded, _, hvalid, rfl⟩ := h
  exact ⟨hdecoded, validState_of_validateStateWithin hvalid⟩

/-- One reduced update is one step between valid states. -/
theorem reduceProviderNative_eq_ok {state next : BoundedJson} {input : GraphReducerInput E}
    (h : reduceProviderNative graph decodeState state [input] = .ok next) :
    ∃ current following, decodeState state = some current ∧ decodeState next = some following ∧
      ValidState graph current ∧ ValidState graph following ∧ current.Advances following := by
  simp only [reduceProviderNative, bind_eq_ok, mapError_eq_ok, pure_eq_ok] at h
  obtain ⟨current, hcurrent, following, hfollowing, _, htransition, rfl⟩ := h
  obtain ⟨hdecoded, hvalid⟩ := decodeValid_eq_ok hcurrent
  obtain ⟨hdecoded', hvalid'⟩ := decodeValid_eq_ok hfollowing
  exact ⟨current, following, hdecoded, hdecoded', hvalid, hvalid',
    advances_of_validateTransition htransition⟩

/-- A chain of stored states: the first one encodes an initial state, every next one is what
the reducer makes of one update. -/
structure IsAgentRun (graph : ProviderNativeAgentGraph E)
    (decodeState : BoundedJson → Option ProviderNativeAgentState) (chain : List BoundedJson) :
    Prop where
  initial : ∃ first inputMessageId plan, chain.head? = some first ∧
    decodeState first = some (initialState graph inputMessageId plan)
  steps : chain.IsChain fun state next => ∃ input,
    (providerNativeReducer graph decodeState).reduce state [input] = .returned (.ok next)

/-- A step between valid states. -/
def ValidStep (graph : ProviderNativeAgentGraph E) (current next : ProviderNativeAgentState) :
    Prop :=
  ValidState graph current ∧ ValidState graph next ∧ current.Advances next

theorem exists_states_of_isChain {chain : List BoundedJson} :
    ∀ {first : BoundedJson} {state : ProviderNativeAgentState},
      (first :: chain).IsChain (fun state next => ∃ input,
        (providerNativeReducer graph decodeState).reduce state [input] = .returned (.ok next)) →
      decodeState first = some state →
      ∃ states, (first :: chain).map decodeState = (state :: states).map some ∧
        (state :: states).IsChain (ValidStep graph) := by
  induction chain with
  | nil =>
    intro first state _ hdecoded
    exact ⟨[], by simp [hdecoded], .singleton _⟩
  | cons next chain ih =>
    intro first state hchain hdecoded
    obtain ⟨⟨input, hreduce⟩, hrest⟩ := List.isChain_cons_cons.mp hchain
    have hreduced : reduceProviderNative graph decodeState first [input] = .ok next := by
      injection hreduce
    obtain ⟨current, following, hcurrent, hfollowing, hvalid, hvalid', hadvances⟩ :=
      reduceProviderNative_eq_ok hreduced
    obtain rfl : current = state := Option.some.inj (hcurrent.symm.trans hdecoded)
    obtain ⟨states, hmap, hstates⟩ := ih hrest hfollowing
    refine ⟨following :: states, ?_, .cons_cons ⟨hvalid, hvalid', hadvances⟩ hstates⟩
    rw [List.map_cons, hmap, hdecoded]
    rfl

/-- What holds of the states of a run, the initial one first. -/
structure AgentRunInvariant (graph : ProviderNativeAgentGraph E)
    (states : List ProviderNativeAgentState) : Prop where
  /-- completed turns grow by appending; a repair turn is followed by model calls and repair
  turns only -/
  follows : states.Pairwise ProviderNativeAgentState.Follows
  repair_phase : ∀ state ∈ states, state.RepairStarted → state.phase.isModel
  repairs_le : ∀ state ∈ states, state.completedTurns.countP (·.requiresOutputRepair) ≤
    graph.descriptor.execution.maxOutputRepairTurns.value
  turns_lt : ∀ state ∈ states,
    state.completedTurns.length < graph.descriptor.execution.maxModelTurns.value
  /-- no identity is planned twice -/
  planned_nodup : (states.flatMap (·.phase.plannedIds)).Nodup
  /-- the identities of a state are those planned so far, each in one place -/
  ids_eq : ∀ (index : Nat) (state : ProviderNativeAgentState), states[index]? = some state →
    state.invocationIds = (states.take (index + 1)).flatMap (·.phase.plannedIds)
  updates_le : states.length - 1 ≤ 2 * graph.descriptor.execution.maxModelTurns.value - 2

section Invariant

variable {first : ProviderNativeAgentState} {states : List ProviderNativeAgentState}

theorem progress_of_isChain (hchain : (first :: states).IsChain (ValidStep graph)) :
    ∀ (index : Nat) (state : ProviderNativeAgentState), (first :: states)[index]? = some state →
      index ≤ state.progress := by
  intro index
  induction index with
  | zero => exact fun _ _ => Nat.zero_le _
  | succ index ih =>
    intro state hstate
    obtain ⟨hindex, _⟩ := List.getElem?_eq_some_iff.mp hstate
    have hbefore := List.getElem?_eq_getElem (Nat.lt_of_succ_lt hindex)
    have hprogress := (rel_of_isChain hchain hbefore hstate).2.2.progress_lt
    have hindex_le := ih _ hbefore
    omega

theorem ids_of_isChain (hchain : (first :: states).IsChain (ValidStep graph))
    (hfirst : first.invocationIds = first.phase.plannedIds) :
    ∀ (index : Nat) (state : ProviderNativeAgentState), (first :: states)[index]? = some state →
      state.invocationIds = ((first :: states).take (index + 1)).flatMap (·.phase.plannedIds) := by
  intro index
  induction index with
  | zero =>
    intro state hstate
    cases hstate
    simpa using hfirst
  | succ index ih =>
    intro state hstate
    obtain ⟨hindex, _⟩ := List.getElem?_eq_some_iff.mp hstate
    have hbefore := List.getElem?_eq_getElem (Nat.lt_of_succ_lt hindex)
    have hadvances := (rel_of_isChain hchain hbefore hstate).2.2
    rw [hadvances.invocationIds_eq, ih _ hbefore, List.take_add_one (i := index + 1), hstate,
      List.flatMap_append]
    simp

theorem progress_le_of_valid {state : ProviderNativeAgentState} (h : ValidState graph state) :
    state.progress ≤ 2 * graph.descriptor.execution.maxModelTurns.value - 2 := by
  have hturns := h.turns_lt
  unfold ProviderNativeAgentState.progress
  cases hphase : state.phase.isModel with
  | true =>
    rw [if_pos rfl]
    omega
  | false =>
    have htools := (h.tools_phase hphase).2
    rw [if_neg Bool.false_ne_true]
    omega

/-- A chain of steps from a valid state without completed turns. -/
theorem agentRunInvariant_of_isChain (hchain : (first :: states).IsChain (ValidStep graph))
    (hvalid : ValidState graph first)
    (hfirst : first.invocationIds = first.phase.plannedIds) :
    AgentRunInvariant graph (first :: states) := by
  have hvalids : ∀ state ∈ first :: states, ValidState graph state := by
    intro state hmem
    obtain ⟨index, hindex⟩ := List.getElem?_of_mem hmem
    cases index with
    | zero =>
      cases hindex
      exact hvalid
    | succ index =>
      obtain ⟨hlt, _⟩ := List.getElem?_eq_some_iff.mp hindex
      have hbefore := List.getElem?_eq_getElem (Nat.lt_of_succ_lt hlt)
      exact (rel_of_isChain hchain hbefore hindex).2.1
  have hids := ids_of_isChain hchain hfirst
  have hlast : (first :: states)[states.length]? = some ((first :: states).getLast (by simp)) := by
    rw [List.getLast_eq_getElem, List.getElem?_eq_getElem (by simp)]
    rfl
  have hlast_valid := hvalids _ (List.getLast_mem (l := first :: states) (by simp))
  refine ⟨?_, ?_, fun state h => (hvalids state h).repairs_le,
    fun state h => (hvalids state h).turns_lt, ?_, hids, ?_⟩
  · exact pairwise_of_isChain hchain (fun x y h => h.2.2.follows h.1)
      ProviderNativeAgentState.Follows.trans
  · intro state hmem hstarted
    by_contra hphase
    exact ((hvalids state hmem).tools_phase (by simpa using hphase)).1 hstarted
  · have hall := hids _ _ hlast
    rw [List.take_of_length_le (by simp)] at hall
    rw [← hall]
    exact hlast_valid.ids_nodup
  · have hprogress := progress_of_isChain hchain _ _ hlast
    have hbound := progress_le_of_valid hlast_valid
    show states.length ≤ _
    omega

end Invariant

theorem validState_initialState (inputMessageId : MessageId) (plan : ProviderNativeModelPlan) :
    ValidState graph (initialState graph inputMessageId plan) := by
  have hconfig := graph.descriptor.execution.config_ok
  have hturns : graph.descriptor.execution.maxModelTurns ≠ 0 := by
    simp only [validateExecutionConfig, bind_eq_ok, reject_eq_ok, exists_const] at hconfig
    exact hconfig.1
  refine ⟨?_, ?_, List.Pairwise.nil, Nat.zero_le _, ?_⟩
  · show 0 < graph.descriptor.execution.maxModelTurns.value
    apply Nat.pos_of_ne_zero
    intro hzero
    exact hturns (Count.value_injective hzero)
  · simp [ProviderNativeAgentState.invocationIds, initialState,
      ProviderNativeAgentPhase.invocationIds]
  · intro htools
    cases htools

theorem ProviderNativeAgentGraph.descriptor_of_compile {derived : Json}
    {descriptor : AgentDescriptor} {graphIdentity reducerIdentity : CapabilityIdentity}
    {stateSchemaId : SchemaId} {inputSecurityLabel : Ident .securityLabel}
    {policy : AgentToolPolicyReference} {accounting : AgentInvocationAccountingReference}
    (h : compile derived descriptor graphIdentity reducerIdentity stateSchemaId
      inputSecurityLabel policy accounting = .ok graph) : graph.descriptor = descriptor := by
  simp only [compile, bind_eq_ok] at h
  obtain ⟨_, _, _, _, _, _, h⟩ := h
  split at h
  · cases h
  · simp only [bind_eq_ok, attach_eq_ok, Except.ok.injEq] at h
    obtain ⟨_, _, _, _, _, _, _, _, _, _, _, _, _, _, _, _, _, _, rfl⟩ := h
    rfl

/-- The superstep ceiling stops a barrier only at a checkpoint that has reached it. -/
theorem superstep_of_validateCheckpoint {planner : GraphBarrierPlanner E}
    {maximum actual : Superstep}
    (h : planner.validateCheckpoint = .error (.superstepLimitReached maximum actual)) :
    planner.graph.limits.maximumSupersteps.value ≤ planner.base.superstep.value := by
  by_contra hlt
  simp only [GraphBarrierPlanner.validateCheckpoint, bind_eq_error, reject_eq_error,
    reduceCtorEq, and_false, false_or, reject_eq_ok, exists_const] at h
  obtain ⟨_, _, ⟨hreached, _⟩ | ⟨_, _, h⟩⟩ := h
  · exact hlt hreached
  · obtain ⟨_, _, hnode⟩ := exists_of_forM_eq_error h
    rw [reject_eq_error] at hnode
    cases hnode.2

end Graph

/-- Every chain of states that the reducer of a compiled agent produces from an initial state
meets the run invariant, stays within the supersteps of the compiled graph, the barrier of the
last state included, and no state is ever rejected for its number of invocation references.  A
run of barriers through these states holds each one at the superstep of its position. -/
theorem provider_native_agent_run {E : Encoding} {derived : Json} {descriptor : AgentDescriptor}
    {graphIdentity reducerIdentity : CapabilityIdentity} {stateSchemaId : SchemaId}
    {inputSecurityLabel : Ident .securityLabel} {policy : AgentToolPolicyReference}
    {accounting : AgentInvocationAccountingReference} {graph : ProviderNativeAgentGraph E}
    (hcompile : ProviderNativeAgentGraph.compile derived descriptor graphIdentity reducerIdentity
      stateSchemaId inputSecurityLabel policy accounting = .ok graph)
    (decodeState : BoundedJson → Option ProviderNativeAgentState) (chain : List BoundedJson)
    (hchain : IsAgentRun graph decodeState chain) :
    graph.descriptor = descriptor ∧
    (∃ states, chain.map decodeState = states.map some ∧ AgentRunInvariant graph states) ∧
    graph.graph.limits.maximumSupersteps.value = 2 * descriptor.execution.maxModelTurns.value ∧
    (∀ planner : GraphBarrierPlanner E, planner.graph = graph.graph →
      planner.base.superstep.value < chain.length → ∀ maximum actual,
        planner.validateCheckpoint ≠ .error (.superstepLimitReached maximum actual)) ∧
    (∀ schemas entries, SuperstepChain graph.graph schemas
        (providerNativeReducer graph decodeState) entries →
      entries.map (·.1.state.data) = chain → ∀ (index : Nat) checkpoint producer,
        entries[index]? = some (checkpoint, producer) →
          checkpoint.superstep.value = index ∧ chain[index]? = some checkpoint.state.data ∧
          ∀ planner : GraphBarrierPlanner E, planner.graph = graph.graph →
            planner.base = checkpoint → ∀ maximum actual,
              planner.validateCheckpoint ≠ .error (.superstepLimitReached maximum actual)) ∧
    (∀ state maximumReferences, maxCheckpointInvocationReferences ≤ maximumReferences →
      validateState graph state = validateStateWithin graph maximumReferences state) := by
  obtain rfl := ProviderNativeAgentGraph.descriptor_of_compile hcompile
  obtain ⟨first, inputMessageId, plan, hhead, hdecoded⟩ := hchain.initial
  obtain ⟨rest, rfl⟩ : ∃ rest, chain = first :: rest := List.head?_eq_some_iff.mp hhead
  obtain ⟨states, hmap, hstates⟩ := exists_states_of_isChain hchain.steps hdecoded
  have hinvariant := agentRunInvariant_of_isChain hstates
    (validState_initialState inputMessageId plan) rfl
  have hsupersteps : graph.graph.limits.maximumSupersteps.value =
      2 * graph.descriptor.execution.maxModelTurns.value := by
    rw [graph.supersteps_eq, Nat.mul_comm]
  have hlength : (first :: rest).length = states.length + 1 := by
    have hlengths := congrArg List.length hmap
    simpa using hlengths
  have hceiling : ∀ planner : GraphBarrierPlanner E, planner.graph = graph.graph →
      planner.base.superstep.value < (first :: rest).length → ∀ maximum actual,
        planner.validateCheckpoint ≠ .error (.superstepLimitReached maximum actual) := by
    intro planner hplanner hbase maximum actual herror
    have hreached := superstep_of_validateCheckpoint herror
    have hturns := hinvariant.turns_lt _ List.mem_cons_self
    have hupdates : states.length ≤ _ := hinvariant.updates_le
    rw [hplanner, hsupersteps] at hreached
    omega
  refine ⟨rfl, ⟨_, hmap, hinvariant⟩, hsupersteps, hceiling, ?_, ?_⟩
  · intro schemas entries hentries hstored index checkpoint producer hentry
    have hsuperstep := (hentries.invariant index _ hentry).1.superstep_eq
    have hindex := (List.getElem?_eq_some_iff.mp hentry).1
    rw [← hstored, List.getElem?_map, hentry]
    refine ⟨hsuperstep, rfl, fun planner hplanner hbase => hceiling planner hplanner ?_⟩
    rw [hbase, hsuperstep, ← hstored, List.length_map]
    exact hindex
  · intro state maximumReferences hmaximum
    exact validateStateWithin_eq graph.references_le (graph.references_le.trans hmaximum) state

/-! ## A run -/

namespace Agent.Sample

def identity (name : String) : CapabilityIdentity := ⟨⟨"issuer"⟩, ⟨"subject"⟩, ⟨name⟩, ⟨"1.0.0"⟩⟩

def schema (name : String) : SchemaReference := ⟨⟨name⟩, ⟨"1.0.0"⟩, ⟨[]⟩⟩

/-- Four model turns, one of them a repair, and two tool calls in a turn. -/
def descriptor : AgentDescriptor where
  identity := identity "agent"
  inputSchema := schema "input"
  outputSchema := schema "output"
  allowsNoTool := true
  instructions := [⟨"system"⟩]
  tools := [⟨"search"⟩]
  execution := ⟨.modelNative, ⟨4, by decide⟩, ⟨1, by decide⟩, ⟨2, by decide⟩, .sequential,
    by decide⟩
  lifecycle := .active
  requiredScopes := ⟨[], .nil, by decide⟩
  budgetLimits := .empty
  wire := .obj [("metadata", .obj [("identity", (identity "agent").toJson)])]
  instructions_ok := by decide
  calls_iff_tools := by decide
  deadline_none := rfl
  wire_shows := ⟨_, _, rfl, by decide, by decide, rfl, rfl⟩

def reference : AgentToolPolicyReference := ⟨identity "policy", ⟨[]⟩⟩

def graph : Except ProviderNativeAgentGraphBuildError (ProviderNativeAgentGraph .compact) :=
  ProviderNativeAgentGraph.compile (.obj []) descriptor (identity "graph") (identity "reducer")
    ⟨"state"⟩ ⟨"label"⟩ reference reference

def modelPlan (name : String) : ProviderNativeModelPlan :=
  ⟨⟨name⟩, ⟨name⟩, ⟨"prepared"⟩, ⟨"started"⟩, ⟨"ended"⟩⟩

def toolPlan (index : UInt16) (name : String) : ProviderNativeToolPlan :=
  ⟨index, ⟨name⟩, ⟨name⟩, ⟨"prepared"⟩, ⟨"started"⟩, ⟨"ended"⟩, ⟨[]⟩, ⟨[]⟩⟩

/-- Two tools are called; the output of the second turn is repaired. -/
def states (contractDigest : Digest) : List ProviderNativeAgentState :=
  [⟨contractDigest, ⟨"message"⟩, [], .model (modelPlan "m1")⟩,
    ⟨contractDigest, ⟨"message"⟩, [], .tools ⟨"m1"⟩ [toolPlan 0 "t1", toolPlan 1 "t2"]⟩,
    ⟨contractDigest, ⟨"message"⟩, [⟨⟨"m1"⟩, [⟨"t1"⟩, ⟨"t2"⟩]⟩], .model (modelPlan "m2")⟩,
    ⟨contractDigest, ⟨"message"⟩, [⟨⟨"m1"⟩, [⟨"t1"⟩, ⟨"t2"⟩]⟩, ⟨⟨"m2"⟩, []⟩],
      .model (modelPlan "m3")⟩]

/-- States are stored as their number. -/
def stored (index : Nat) : BoundedJson := ⟨.num (.int index), ⟨1, 0, 1⟩⟩

def decodeState (contractDigest : Digest) (data : BoundedJson) :
    Option ProviderNativeAgentState :=
  match data.value with
  | .num (.int index) => (states contractDigest)[index.toNat]?
  | _ => none

/-- The update of a node that hands over a stored state. -/
def input (graph : ProviderNativeAgentGraph .compact) (nodeId : NodeId) (index : Nat) :
    Option (GraphReducerInput .compact) := do
  let update ← (SchemaPayload.new graph.stateSchema (stored index)).toOption
  return ⟨nodeId, update⟩

/-- Whether the reducer makes the next stored state of an update of a node. -/
def reduces (graph : ProviderNativeAgentGraph .compact) (nodeId : NodeId) (index : Nat) : Bool :=
  (input graph nodeId (index + 1)).any fun input =>
    (reduceProviderNative graph (decodeState graph.contractDigest) (stored index)
      [input]).toOption = some (stored (index + 1))

theorem exists_of_reduces {graph : ProviderNativeAgentGraph .compact} {nodeId : NodeId}
    {index : Nat} (h : reduces graph nodeId index = true) :
    ∃ input, (providerNativeReducer graph (decodeState graph.contractDigest)).reduce
      (stored index) [input] = .returned (.ok (stored (index + 1))) := by
  obtain ⟨input, _, hreduce⟩ := (Option.any_eq_true _ _).mp h
  rw [decide_eq_true_eq, toOption_eq_some] at hreduce
  exact ⟨input, congrArg Caught.returned hreduce⟩

end Agent.Sample

/-- An agent calls two tools, then repairs its output. -/
theorem provider_native_agent_run_with_repair :
    ∃ graph chain states, Agent.Sample.graph = .ok graph ∧
      IsAgentRun graph (Agent.Sample.decodeState graph.contractDigest) chain ∧
      chain.length = 4 ∧
      chain.map (Agent.Sample.decodeState graph.contractDigest) = states.map some ∧
      AgentRunInvariant graph states := by
  have hsome : (Agent.Sample.graph.toOption.any fun graph : ProviderNativeAgentGraph .compact =>
      Agent.Sample.reduces graph ⟨"agent.model"⟩ 0 && Agent.Sample.reduces graph ⟨"agent.tools"⟩ 1 &&
        Agent.Sample.reduces graph ⟨"agent.model"⟩ 2) = true := by
    decide +kernel
  obtain ⟨graph, hgraph, hreduces⟩ := (Option.any_eq_true _ _).mp hsome
  rw [toOption_eq_some] at hgraph
  simp only [Bool.and_eq_true] at hreduces
  obtain ⟨⟨hfirst, hsecond⟩, hthird⟩ := hreduces
  have hrun : IsAgentRun graph (Agent.Sample.decodeState graph.contractDigest)
      [Agent.Sample.stored 0, Agent.Sample.stored 1, Agent.Sample.stored 2,
        Agent.Sample.stored 3] := by
    refine ⟨⟨_, ⟨"message"⟩, Agent.Sample.modelPlan "m1", rfl, rfl⟩, ?_⟩
    exact .cons_cons (Agent.Sample.exists_of_reduces hfirst)
      (.cons_cons (Agent.Sample.exists_of_reduces hsecond)
        (.cons_cons (Agent.Sample.exists_of_reduces hthird) (.singleton _)))
  obtain ⟨_, ⟨states, hmap, hinvariant⟩, _⟩ := provider_native_agent_run hgraph _ _ hrun
  exact ⟨graph, _, states, hgraph, hrun, rfl, hmap, hinvariant⟩

end StateKnot
