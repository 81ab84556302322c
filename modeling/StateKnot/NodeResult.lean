import StateKnot.Checkpoint

/-!
# Pending node results

A ready node runs under an activation, which names the checkpoint it reads, and
records one pending result: an optional state update and a control that says where
the run goes next.  Results wait for their siblings; the barrier consumes them
together.
-/

namespace StateKnot

open Lib

variable {E : Encoding}

/-! ## Activations -/

/-- One execution of a node over a base checkpoint. -/
structure NodeActivation where
  baseCheckpoint : CheckpointHead
  graphNamespace : GraphNamespace
  nodeId : NodeId
  inputDigest : Digest
deriving DecidableEq

inductive NodeActivationError where
  | nodeNotReady (nodeId : NodeId)
  | canonicalSerialization

def computeReadyNodeInputDigest (E : Encoding) (baseCheckpointDigest : Digest)
    (graphNamespace : GraphNamespace) (nodeId : NodeId) : Option Digest :=
  E.domainSeparatedDigest (domainBytes "stateknot-ready-node-input-v1")
    (.obj [("base_checkpoint_digest", baseCheckpointDigest.toJson),
      ("graph_namespace", graphNamespace.toJson), ("node_id", nodeId.toJson)])

namespace NodeActivation

def tenantId (activation : NodeActivation) : TenantId := activation.baseCheckpoint.tenantId

def runId (activation : NodeActivation) : RunId := activation.baseCheckpoint.runId

/-- The activation of a ready node of the root graph. -/
def forReadyRoot (checkpoint : Checkpoint E) (nodeId : NodeId) :
    Except NodeActivationError NodeActivation := do
  reject (nodeId ∉ checkpoint.readyNodes) (.nodeNotReady nodeId)
  let inputDigest ← okOr (computeReadyNodeInputDigest E checkpoint.digest .root nodeId)
    .canonicalSerialization
  return ⟨checkpoint.head, .root, nodeId, inputDigest⟩

theorem forReadyRoot_eq_ok {checkpoint : Checkpoint E} {nodeId : NodeId}
    {activation : NodeActivation} (h : forReadyRoot checkpoint nodeId = .ok activation) :
    nodeId ∈ checkpoint.readyNodes ∧ activation.baseCheckpoint = checkpoint.head ∧
      activation.graphNamespace = .root ∧ activation.nodeId = nodeId := by
  simp only [forReadyRoot, bind_eq_ok, reject_eq_ok, okOr_eq_ok, not_not] at h
  obtain ⟨_, hready, inputDigest, _, hreturn⟩ := h
  cases hreturn
  exact ⟨hready, rfl, rfl, rfl⟩

def toJson (E : Encoding) (activation : NodeActivation) : Json :=
  .obj [("base_checkpoint", activation.baseCheckpoint.toJson E),
    ("graph_namespace", activation.graphNamespace.toJson),
    ("node_id", activation.nodeId.toJson), ("input_digest", activation.inputDigest.toJson)]

end NodeActivation

/-! ## Schema-bound payloads -/

inductive PendingNodeResultIntegrityError where
  | payloadCanonicalization (source : CanonicalJsonError)
  | canonicalSerialization

def computePayloadDigest (E : Encoding) (domain : String) (schema : SchemaReference)
    (data : BoundedJson) : Except PendingNodeResultIntegrityError Digest := do
  let canonical ← (CanonicalJson.new E data).mapError .payloadCanonicalization
  okOr (E.domainSeparatedDigest (domainBytes domain) (schemaPayloadWire schema canonical.digest))
    .canonicalSerialization

/-- A schema-bound value with its checksum under a domain. -/
structure SchemaPayload (E : Encoding) (domain : String) where
  schema : SchemaReference
  data : BoundedJson
  digest : Digest
  digest_eq : computePayloadDigest E domain schema data = .ok digest

def SchemaPayload.new {domain : String} (schema : SchemaReference)
    (data : BoundedJson) :
    Except PendingNodeResultIntegrityError (SchemaPayload E domain) :=
  attach (computePayloadDigest E domain schema data) fun digest h =>
    .ok ⟨schema, data, digest, h⟩

/-- A state update that a reducer folds into the state. -/
abbrev NodeStateUpdate (E : Encoding) := SchemaPayload E "stateknot-node-state-update-v1"

/-- The output of a terminal node. -/
abbrev NodeTerminalOutput (E : Encoding) := SchemaPayload E "stateknot-node-terminal-output-v1"

inductive NodeStateChange (E : Encoding) where
  | unchanged
  | update (update : NodeStateUpdate E)

def NodeStateChange.update? : NodeStateChange E → Option (NodeStateUpdate E)
  | .unchanged => none
  | .update value => some value

/-! ## Waits -/

abbrev InterruptId := Ident .interrupt
abbrev TimerId := Ident .timer

inductive RunInterruptKind where
  | approval | input | authentication | externalSignal | reconciliation
deriving DecidableEq

inductive RunTimerKind where
  | sleep | retryBackoff
deriving DecidableEq

/-- A wait that a node asks the runtime to register. -/
inductive NodeWait (E : Encoding) where
  | interrupt (interruptId : InterruptId) (interruptKind : RunInterruptKind)
      (requestPayload : JournalPayload E) (actionDigest : Digest)
      (requiredPrincipal : Option PrincipalIdentity) (requiredScopes : List (Ident .scope))
      (expiresAt : Option Timestamp)
  | timer (timerId : TimerId) (timerKind : RunTimerKind) (dueAt : Timestamp)

/-- Interrupts and timers share one identity space. -/
def NodeWait.identityUuid : NodeWait E → String
  | .interrupt interruptId .. => interruptId.text
  | .timer timerId .. => timerId.text

inductive NodeWaitsError where
  | empty
  | tooMany (maximum actual : Nat)
  | duplicateIdentity

def NodeWaits.maxLen : Nat := 64

/-- A nonempty batch of waits with distinct identities, in the order given. -/
structure NodeWaits (E : Encoding) where
  values : List (NodeWait E)
  nonempty : values ≠ []
  bounded : values.length ≤ NodeWaits.maxLen
  identities_nodup : (values.map NodeWait.identityUuid).Nodup

namespace NodeWaits

/-- One turn of the loop of `try_new`. -/
def accept (collected : List (NodeWait E)) (value : NodeWait E) : Except NodeWaitsError Unit := do
  reject (collected.length = maxLen) (.tooMany maxLen (maxLen + 1))
  reject (value.identityUuid ∈ collected.map NodeWait.identityUuid) .duplicateIdentity

theorem collect_accept_eq_ok {values collected : List (NodeWait E)} :
    collect accept [] values = .ok collected ↔ collected = values ∧ values.length ≤ maxLen ∧
      (values.map NodeWait.identityUuid).Nodup :=
  collect_eq_ok (by simp [accept, bind_eq_ok])

def tryNew (values : List (NodeWait E)) : Except NodeWaitsError (NodeWaits E) :=
  attach (collect accept [] values) fun collected h =>
    if hempty : collected = [] then .error .empty
    else .ok ⟨collected, hempty,
      (collect_accept_eq_ok.mp h).1 ▸ (collect_accept_eq_ok.mp h).2.1,
      (collect_accept_eq_ok.mp h).1 ▸ (collect_accept_eq_ok.mp h).2.2⟩

theorem values_of_tryNew {values : List (NodeWait E)} {waits : NodeWaits E}
    (h : tryNew values = .ok waits) : waits.values = values := by
  obtain ⟨collected, hcollected, hwaits⟩ := attach_eq_ok.mp h
  split at hwaits
  · cases hwaits
  · cases hwaits
    exact (collect_accept_eq_ok.mp hcollected).1

end NodeWaits

/-! ## Controls and results -/

/-- Where a node sends the run. -/
inductive NodeControl (E : Encoding) where
  | continue
  | route (routeId : RouteId)
  | wait (waits : NodeWaits E)
  | terminal (output : NodeTerminalOutput E)

inductive NodeControlKind where
  | continue | route | wait | terminal

inductive PendingNodeResultError where
  | fenceTenantMismatch
  | fenceRunMismatch
  | journalTenantMismatch
  | journalRunMismatch
  | journalNotAfterBase
  | clockRegression
deriving DecidableEq

/-- The fence and the recording event of a result belong to the activation's run, and the
event comes after the base checkpoint. -/
def validateBasicResultScope (activation : NodeActivation) (fence : RunFence)
    (journalHead : JournalHead) : Except PendingNodeResultError Unit := do
  reject (fence.tenantId ≠ activation.tenantId) .fenceTenantMismatch
  reject (fence.runId ≠ activation.runId) .fenceRunMismatch
  reject (journalHead.tenantId ≠ activation.tenantId) .journalTenantMismatch
  reject (journalHead.runId ≠ activation.runId) .journalRunMismatch
  let base := activation.baseCheckpoint.journalHead
  reject (journalHead.sequence ≤ base.sequence) .journalNotAfterBase
  reject (journalHead.recordedAt < base.recordedAt) .clockRegression

/-- Exact committed head of a pending result. -/
structure PendingNodeResultHead where
  activation : NodeActivation
  intentDigest : Digest
  fence : RunFence
  journalHead : JournalHead
  digest : Digest
  scope_ok : validateBasicResultScope activation fence journalHead = .ok ()
deriving DecidableEq

def PendingNodeResultHead.toJson (E : Encoding) (head : PendingNodeResultHead) : Json :=
  .obj [("activation", head.activation.toJson E), ("intent_digest", head.intentDigest.toJson),
    ("fence", head.fence.toJson), ("journal_head", head.journalHead.toJson E),
    ("digest", head.digest.toJson)]

/-- The part of a result intent that planning reads. -/
structure PendingNodeResultIntent (E : Encoding) where
  activation : NodeActivation
  stateChange : NodeStateChange E
  control : NodeControl E
  intentDigest : Digest

/-- A recorded result that waits for its barrier. -/
structure PendingNodeResult (E : Encoding) where
  intent : PendingNodeResultIntent E
  fence : RunFence
  journalHead : JournalHead
  digest : Digest
  scope_ok : validateBasicResultScope intent.activation fence journalHead = .ok ()

namespace PendingNodeResult

def activation (result : PendingNodeResult E) : NodeActivation := result.intent.activation

/-- The node that recorded the result. -/
def nodeId (result : PendingNodeResult E) : NodeId := result.intent.activation.nodeId

def head (result : PendingNodeResult E) : PendingNodeResultHead :=
  ⟨result.intent.activation, result.intent.intentDigest, result.fence, result.journalHead,
    result.digest, result.scope_ok⟩

end PendingNodeResult

end StateKnot
