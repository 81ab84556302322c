import StateKnot.Barrier
import StateKnot.NodeAttempt
import StateKnot.Lib.Routed

/-!
# Recovery of ready nodes

After a crash or a change of worker, recovery decides for every ready node of a
checkpoint what to do next.  A planner is fed the recorded results and attempts of
the nodes and is finished at a journal head and an instant; the plan then calls
each node completed, dispatchable, deferred, in flight, failed or exhausted.
-/

namespace StateKnot

open Lib

variable {E : Encoding}

/-! ## Plans -/

inductive NodeDispatchReason where
  | firstAttempt | supersededAttempt | safeRetry

inductive RecoveryNodeKind where
  | completed | dispatchable | deferred | inFlight | failed | exhausted
deriving DecidableEq

/-- What recovery decided about a node. -/
inductive RecoveryNode (E : Encoding) where
  | completed (activation : NodeActivation) (result : PendingNodeResultHead)
  | dispatchable (activation : NodeActivation) (reason : NodeDispatchReason)
  | deferred (activation : NodeActivation) (notBefore : Timestamp)
  | inFlight (activation : NodeActivation) (attempt : NodeAttemptStartHead E)
  | failed (activation : NodeActivation) (failure : Failure)
  | exhausted (activation : NodeActivation) (attempt : NodeAttemptStartHead E)
      (failure : Option Failure)

namespace RecoveryNode

def kind : RecoveryNode E → RecoveryNodeKind
  | .completed .. => .completed
  | .dispatchable .. => .dispatchable
  | .deferred .. => .deferred
  | .inFlight .. => .inFlight
  | .failed .. => .failed
  | .exhausted .. => .exhausted

def activation : RecoveryNode E → NodeActivation
  | .completed activation _ => activation
  | .dispatchable activation _ => activation
  | .deferred activation _ => activation
  | .inFlight activation _ => activation
  | .failed activation _ => activation
  | .exhausted activation _ _ => activation

def result : RecoveryNode E → Option PendingNodeResultHead
  | .completed _ result => some result
  | _ => none

def notBefore : RecoveryNode E → Option Timestamp
  | .deferred _ notBefore => some notBefore
  | _ => none

end RecoveryNode

inductive ReadyNodeRecoveryError where
  | fenceTenantMismatch
  | fenceRunMismatch
  | activation (source : NodeActivationError)
  | unexpectedResult (nodeId : NodeId)
  | duplicateResult (nodeId : NodeId)
  | unexpectedAttempt (nodeId : NodeId)
  | attemptHistory (nodeId : NodeId) (source : NodeAttemptHistoryError)
  | attemptLimitExceeded (nodeId : NodeId) (maximum : Nat)
  | currentFenceBehindHistory (nodeId : NodeId)
  | currentFenceConflict (nodeId : NodeId)
  | currentFenceAttemptReused (nodeId : NodeId)
  | succeededWithoutResult (nodeId : NodeId)
  | resultAttemptMismatch (nodeId : NodeId)
  | unsupportedRetryAdvice (nodeId : NodeId)
  | retryNotBeforeOutOfRange (nodeId : NodeId)
  | observationTenantMismatch
  | observationRunMismatch
  | observationBeforeCheckpoint
  | observationBeforeEvidence
  | observationClockRegression

structure ReadyNodeRecoveryPlan (E : Encoding) where
  checkpoint : Checkpoint E
  fence : RunFence
  journalHead : JournalHead
  observedAt : Timestamp
  nodes : List (RecoveryNode E)

namespace ReadyNodeRecoveryPlan

def isBarrierReady (plan : ReadyNodeRecoveryPlan E) : Bool :=
  !plan.nodes.isEmpty && plan.nodes.all (fun node => node.kind = .completed)

def barrierResultHeads (plan : ReadyNodeRecoveryPlan E) :
    Except BarrierResultHeadsError (Option BarrierResultHeads) := do
  if plan.isBarrierReady then
    let heads ← BarrierResultHeads.tryNew (plan.nodes.filterMap RecoveryNode.result)
    return some heads
  else
    return none

end ReadyNodeRecoveryPlan

/-! ## Observing -/

/-- The evidence about one node so far. -/
structure RecoveryEntry (E : Encoding) where
  activation : NodeActivation
  result : Option PendingNodeResultHead
  attempts : NodeAttemptHistoryVerifier E
  attemptCount : Nat

def RecoveryEntry.initial (activation : NodeActivation) : RecoveryEntry E :=
  ⟨activation, none, .new, 0⟩

structure ReadyNodeRecoveryPlanner (E : Encoding) where
  checkpoint : Checkpoint E
  fence : RunFence
  entries : List (NodeId × RecoveryEntry E)

/-- A recorded fact that a planner is told. -/
inductive RecoveryObservation (E : Encoding) where
  | result (result : PendingNodeResult E)
  | attempt (attempt : NodeAttempt E)

namespace RecoveryObservation

def activation : RecoveryObservation E → NodeActivation
  | .result record => record.intent.activation
  | .attempt record => record.start.activation

def nodeId (observation : RecoveryObservation E) : NodeId := observation.activation.nodeId

/-- The error for an observation that no ready node expects. -/
def unexpected : RecoveryObservation E → ReadyNodeRecoveryError
  | .result record => .unexpectedResult record.intent.activation.nodeId
  | .attempt record => .unexpectedAttempt record.start.activation.nodeId

def result? : RecoveryObservation E → Option (PendingNodeResult E)
  | .result record => some record
  | .attempt _ => none

def attempt? : RecoveryObservation E → Option (NodeAttempt E)
  | .result _ => none
  | .attempt record => some record

end RecoveryObservation

def maxAttemptsPerNode : Nat := 64

namespace RecoveryEntry

/-- `observe_result` on the entry of its node. -/
def observeResult (entry : RecoveryEntry E) (result : PendingNodeResult E) :
    Except ReadyNodeRecoveryError (RecoveryEntry E) := do
  let activation := result.intent.activation
  reject (activation ≠ entry.activation) (.unexpectedResult activation.nodeId)
  reject (entry.result.isSome = true) (.duplicateResult activation.nodeId)
  return { entry with result := some result.head }

/-- `observe_attempt` on the entry of its node. -/
def observeAttempt (entry : RecoveryEntry E) (attempt : NodeAttempt E) :
    Except ReadyNodeRecoveryError (RecoveryEntry E) := do
  let activation := attempt.start.activation
  reject (activation ≠ entry.activation) (.unexpectedAttempt activation.nodeId)
  reject (entry.attemptCount ≥ maxAttemptsPerNode)
    (.attemptLimitExceeded activation.nodeId maxAttemptsPerNode)
  let attempts ← (entry.attempts.verifyNext attempt).mapError (.attemptHistory activation.nodeId)
  return { entry with attempts, attemptCount := entry.attemptCount + 1 }

def observe (entry : RecoveryEntry E) :
    RecoveryObservation E → Except ReadyNodeRecoveryError (RecoveryEntry E)
  | .result result => entry.observeResult result
  | .attempt attempt => entry.observeAttempt attempt

/-- The journal positions that an observation of the run must not lie before. -/
def evidence (entry : RecoveryEntry E) : List JournalHead :=
  (entry.result.map PendingNodeResultHead.journalHead).toList ++
    (entry.attempts.last.map NodeAttempt.anchor).toList

end RecoveryEntry

/-! ## Classifying -/

def validateCurrentFence (nodeId : NodeId) (historical current : RunFence) :
    Except ReadyNodeRecoveryError Unit := do
  reject (historical.epoch > current.epoch) (.currentFenceBehindHistory nodeId)
  reject (historical.epoch = current.epoch ∧ historical.attemptId ≠ current.attemptId)
    (.currentFenceConflict nodeId)
  reject (historical.epoch < current.epoch ∧ historical.attemptId = current.attemptId)
    (.currentFenceAttemptReused nodeId)

/-- The first instant of a retry.  A sum outside the 64-bit range is outside the range of
timestamps as well. -/
def retryNotBefore (failedAt : Timestamp) (delay : DurationMillis) : Option Timestamp :=
  Timestamp.fromUnixMicros? (retryEligibleMicros failedAt delay)

/-- The `Failed` arm of `classify_entry`. -/
def classifyFailure (nodeId : NodeId) (activation : NodeActivation)
    (attempt : NodeAttempt E) (attemptCount : Nat) (observedAt : Timestamp)
    (completion : NodeAttemptCompletion E) (failure : Failure) :
    Except ReadyNodeRecoveryError (RecoveryNode E) :=
  match failure.retryAdvice with
  | .never => return .failed activation failure
  | .safeAfter delay =>
    if attemptCount ≥ maxAttemptsPerNode then
      return .exhausted activation attempt.start.head (some failure)
    else do
      let notBefore ← okOr (retryNotBefore completion.journalHead.recordedAt delay)
        (.retryNotBeforeOutOfRange nodeId)
      if observedAt ≥ notBefore then return .dispatchable activation .safeRetry
      else return .deferred activation notBefore
  | .reconcileFirst => .error (.unsupportedRetryAdvice nodeId)

def classifyEntry (nodeId : NodeId) (entry : RecoveryEntry E)
    (currentFence : RunFence) (observedAt : Timestamp) :
    Except ReadyNodeRecoveryError (RecoveryNode E) :=
  match entry.result, entry.attempts.last with
  | some result, latest => do
    validateCurrentFence nodeId result.fence currentFence
    reject (∃ attempt, latest = some attempt ∧ attempt.result ≠ some result)
      (.resultAttemptMismatch nodeId)
    return .completed entry.activation result
  | none, none => return .dispatchable entry.activation .firstAttempt
  | none, some attempt => do
    validateCurrentFence nodeId attempt.start.fence currentFence
    match attempt.completion with
    | none =>
      if attempt.start.fence = currentFence then
        return .inFlight entry.activation attempt.start.head
      else if entry.attemptCount ≥ maxAttemptsPerNode then
        return .exhausted entry.activation attempt.start.head none
      else
        return .dispatchable entry.activation .supersededAttempt
    | some completion =>
      match completion.outcome with
      | .succeeded _ => .error (.succeededWithoutResult nodeId)
      | .failed failure =>
        classifyFailure nodeId entry.activation attempt entry.attemptCount observedAt completion
          failure

namespace ReadyNodeRecoveryPlanner

def new (checkpoint : Checkpoint E) (fence : RunFence) :
    Except ReadyNodeRecoveryError (ReadyNodeRecoveryPlanner E) := do
  reject (fence.tenantId ≠ checkpoint.tenantId) .fenceTenantMismatch
  reject (fence.runId ≠ checkpoint.runId) .fenceRunMismatch
  let entries ← checkpoint.readyNodes.nodes.mapM fun nodeId => do
    let activation ← (NodeActivation.forReadyRoot checkpoint nodeId).mapError .activation
    return (nodeId, RecoveryEntry.initial activation)
  return ⟨checkpoint, fence, entries⟩

/-- `observe_result` and `observe_attempt`: the entry of the node takes the observation. -/
def observe (planner : ReadyNodeRecoveryPlanner E) (observation : RecoveryObservation E) :
    Except ReadyNodeRecoveryError (ReadyNodeRecoveryPlanner E) := do
  let entries ← routeStep RecoveryObservation.nodeId RecoveryObservation.unexpected
    RecoveryEntry.observe planner.entries observation
  return { planner with entries }

/-- A planner told several facts, one after the other. -/
def observeAll (planner : ReadyNodeRecoveryPlanner E) (observations : List (RecoveryObservation E)) :
    Except ReadyNodeRecoveryError (ReadyNodeRecoveryPlanner E) :=
  observations.foldlM observe planner

def validateObservation (planner : ReadyNodeRecoveryPlanner E) (journalHead : JournalHead)
    (observedAt : Timestamp) : Except ReadyNodeRecoveryError Unit := do
  reject (journalHead.tenantId ≠ planner.checkpoint.tenantId) .observationTenantMismatch
  reject (journalHead.runId ≠ planner.checkpoint.runId) .observationRunMismatch
  let checkpointHead := planner.checkpoint.journalHead
  reject (journalHead.sequence < checkpointHead.sequence ∨
    journalHead.recordedAt < checkpointHead.recordedAt) .observationBeforeCheckpoint
  reject (observedAt < journalHead.recordedAt) .observationClockRegression
  forM planner.entries fun entry =>
    reject (∃ evidence ∈ entry.2.evidence, evidence.sequence > journalHead.sequence ∨
      evidence.recordedAt > journalHead.recordedAt) .observationBeforeEvidence

def finish (planner : ReadyNodeRecoveryPlanner E) (journalHead : JournalHead)
    (observedAt : Timestamp) : Except ReadyNodeRecoveryError (ReadyNodeRecoveryPlan E) := do
  planner.validateObservation journalHead observedAt
  let nodes ← planner.entries.mapM fun entry =>
    classifyEntry entry.1 entry.2 planner.fence observedAt
  return ⟨planner.checkpoint, planner.fence, journalHead, observedAt, nodes⟩

end ReadyNodeRecoveryPlanner

end StateKnot
