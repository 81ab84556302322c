import StateKnot.Journal.Event

/-!
# Checkpoints

A checkpoint is the state of a run at a superstep barrier: the graph it runs, the
reduced state, and the nodes that are ready next.  A write intent names its parent
by head and continues the parent's superstep; committing it binds it to the
journal event that recorded it.

The types carry what their constructors check, so a checkpoint with a wrong
checksum, a skipped superstep or a foreign parent cannot be built.
-/

namespace StateKnot

open Lib

variable {E : Encoding}

/-! ## Ready sets -/

inductive ReadyNodesError where
  | duplicate (node : NodeId)
  | tooMany (maximum actual : Nat)

/-- Largest number of simultaneously ready nodes. -/
def ReadyNodes.maxLen : Nat := 1024

/-- A set of node identities in ascending order. -/
structure ReadyNodes where
  nodes : List NodeId
  sorted : StrictlySorted id nodes
  bounded : nodes.length ≤ ReadyNodes.maxLen
deriving DecidableEq

namespace ReadyNodes

@[ext] theorem ext_nodes {a b : ReadyNodes} (h : a.nodes = b.nodes) : a = b := by
  cases a
  cases b
  simpa using h

instance : Membership NodeId ReadyNodes := ⟨fun ready node => node ∈ ready.nodes⟩

theorem mem_def {ready : ReadyNodes} {node : NodeId} : node ∈ ready ↔ node ∈ ready.nodes :=
  Iff.rfl

instance {ready : ReadyNodes} {node : NodeId} : Decidable (node ∈ ready) :=
  inferInstanceAs (Decidable (node ∈ ready.nodes))

def empty : ReadyNodes := ⟨[], List.Pairwise.nil, Nat.zero_le _⟩

def len (ready : ReadyNodes) : Nat := ready.nodes.length

def isEmpty (ready : ReadyNodes) : Bool := ready.nodes.isEmpty

@[simp] theorem isEmpty_iff {ready : ReadyNodes} : ready.isEmpty ↔ ready.nodes = [] :=
  List.isEmpty_iff

/-- One turn of the loop of `try_new`. -/
def accept (values : List NodeId) (node : NodeId) : Except ReadyNodesError Unit := do
  reject (node ∈ values) (.duplicate node)
  reject (values.length = maxLen) (.tooMany maxLen (maxLen + 1))

theorem accept_eq_ok {values : List NodeId} {node : NodeId} {u : Unit} :
    accept values node = .ok u ↔
      values.length ≠ maxLen ∧ id node ∉ values.map id := by
  simp [accept, bind_eq_ok, and_comm]

theorem collect_accept_eq_ok {nodes values : List NodeId} :
    collect accept [] nodes = .ok values ↔
      values = nodes ∧ nodes.length ≤ maxLen ∧ nodes.Nodup := by
  rw [collect_eq_ok accept_eq_ok]
  simp

def tryNew (nodes : List NodeId) : Except ReadyNodesError ReadyNodes :=
  attach (collect accept [] nodes) fun values h =>
    .ok ⟨sortByKey id values,
      strictlySorted_sortByKey (by
        obtain ⟨rfl, _, hnodup⟩ := collect_accept_eq_ok.mp h
        simpa using hnodup),
      by
        obtain ⟨rfl, hlength, _⟩ := collect_accept_eq_ok.mp h
        simpa using hlength⟩

/-- `try_new` accepts distinct nodes up to the bound and keeps exactly them. -/
theorem tryNew_eq_ok {nodes : List NodeId} {ready : ReadyNodes} :
    tryNew nodes = .ok ready ↔
      nodes.Nodup ∧ nodes.length ≤ maxLen ∧ ready.nodes = sortByKey id nodes := by
  rw [tryNew, attach_eq_ok]
  constructor
  · rintro ⟨values, hvalues, hready⟩
    obtain ⟨rfl, hlength, hnodup⟩ := collect_accept_eq_ok.mp hvalues
    cases hready
    exact ⟨hnodup, hlength, rfl⟩
  · rintro ⟨hnodup, hlength, hready⟩
    exact ⟨nodes, collect_accept_eq_ok.mpr ⟨rfl, hlength, hnodup⟩,
      congrArg Except.ok (ext_nodes hready.symm)⟩

/-- Ready sets are serialized in ascending order. -/
def toJson (ready : ReadyNodes) : Json := .arr (ready.nodes.map Ident.toJson)

end ReadyNodes

/-! ## State -/

/-- Failure to produce the bytes that a checksum covers. -/
inductive CheckpointIntegrityError where
  | stateCanonicalization (source : CanonicalJsonError)
  | canonicalSerialization

inductive CheckpointStateError where
  | integrity (source : CheckpointIntegrityError)

/-- Checksum of a schema-bound value under a domain; the wire pins the digest of
the value's canonical bytes. -/
def schemaPayloadWire (schema : SchemaReference) (dataDigest : Digest) : Json :=
  .obj [("schema", schema.toJson), ("data_digest", dataDigest.toJson)]

def computeStateDigest (E : Encoding) (schema : SchemaReference) (data : BoundedJson) :
    Except CheckpointIntegrityError Digest := do
  let canonical ← (CanonicalJson.new E data).mapError .stateCanonicalization
  okOr (E.domainSeparatedDigest (domainBytes "stateknot-checkpoint-state-v1")
    (schemaPayloadWire schema canonical.digest)) .canonicalSerialization

/-- Schema-bound state with its checksum. -/
structure CheckpointState (E : Encoding) where
  schema : SchemaReference
  data : BoundedJson
  digest : Digest
  digest_eq : computeStateDigest E schema data = .ok digest

def CheckpointState.new (schema : SchemaReference) (data : BoundedJson) :
    Except CheckpointStateError (CheckpointState E) :=
  match h : computeStateDigest E schema data with
  | .error source => .error (.integrity source)
  | .ok digest => .ok ⟨schema, data, digest, h⟩

theorem CheckpointState.new_eq_ok {schema : SchemaReference} {data : BoundedJson}
    {state : CheckpointState E} (h : CheckpointState.new schema data = .ok state) :
    state.schema = schema ∧ state.data = data := by
  unfold CheckpointState.new at h
  split at h
  · cases h
  · cases h
    exact ⟨rfl, rfl⟩

/-! ## Heads -/

/-- The journal head that recorded a checkpoint lies in the checkpoint's scope. -/
def JournalHead.InScope (head : JournalHead) (tenantId : TenantId) (runId : RunId) : Prop :=
  head.tenantId = tenantId ∧ head.runId = runId

instance {head : JournalHead} {tenantId : TenantId} {runId : RunId} :
    Decidable (head.InScope tenantId runId) :=
  inferInstanceAs (Decidable (_ ∧ _))

/-- Exact committed checkpoint head. -/
structure CheckpointHead where
  tenantId : TenantId
  runId : RunId
  checkpointId : CheckpointId
  superstep : Superstep
  graph : GraphReference
  journalHead : JournalHead
  digest : Digest
  scope_ok : journalHead.InScope tenantId runId
deriving DecidableEq

def CheckpointHead.toJson (E : Encoding) (head : CheckpointHead) : Json :=
  .obj [("tenant_id", head.tenantId.toJson), ("run_id", head.runId.toJson),
    ("checkpoint_id", head.checkpointId.toJson), ("superstep", head.superstep.toJson),
    ("graph", head.graph.toJson), ("journal_head", head.journalHead.toJson E),
    ("digest", head.digest.toJson)]

/-! ## Write intents -/

inductive CheckpointWriteError where
  | stateSchemaMismatch
  | initialHasParent
  | successorMissingParent
  | parentTenantMismatch
  | parentRunMismatch
  | reusedCheckpointId
  | superstepOverflow
  | nonContiguousSuperstep (expected actual : Superstep)
  | parentGraphMismatch
  | integrity (source : CheckpointIntegrityError)
  | intentDigestMismatch

def validateWriteShape (tenantId : TenantId) (runId : RunId) (checkpointId : CheckpointId)
    (superstep : Superstep) (graph : GraphReference) (stateSchema : SchemaReference)
    (parent : Option CheckpointHead) : Except CheckpointWriteError Unit := do
  reject (stateSchema ≠ graph.stateSchema) .stateSchemaMismatch
  match parent with
  | none => reject (superstep ≠ .initial) .successorMissingParent
  | some parent =>
    reject (superstep = .initial) .initialHasParent
    reject (parent.tenantId ≠ tenantId) .parentTenantMismatch
    reject (parent.runId ≠ runId) .parentRunMismatch
    reject (parent.checkpointId = checkpointId) .reusedCheckpointId
    let expected ← okOr parent.superstep.checkedNext .superstepOverflow
    reject (superstep ≠ expected) (.nonContiguousSuperstep expected superstep)
    reject (parent.graph ≠ graph) .parentGraphMismatch

/-- Checksum preimage of a write intent. -/
def checkpointIntentDigestWire (E : Encoding) (tenantId : TenantId) (runId : RunId)
    (checkpointId : CheckpointId) (superstep : Superstep) (graph : GraphReference)
    (stateDigest : Digest) (readyNodes : ReadyNodes) (parent : Option CheckpointHead) : Json :=
  .obj [("tenant_id", tenantId.toJson), ("run_id", runId.toJson),
    ("checkpoint_id", checkpointId.toJson), ("superstep", superstep.toJson),
    ("graph", graph.toJson), ("state_digest", stateDigest.toJson),
    ("ready_nodes", readyNodes.toJson),
    ("parent", Json.ofOption (CheckpointHead.toJson E) parent)]

def computeCheckpointIntentDigest (E : Encoding) (tenantId : TenantId) (runId : RunId)
    (checkpointId : CheckpointId) (superstep : Superstep) (graph : GraphReference)
    (stateDigest : Digest) (readyNodes : ReadyNodes) (parent : Option CheckpointHead) :
    Option Digest :=
  E.domainSeparatedDigest (domainBytes "stateknot-checkpoint-intent-v1")
    (checkpointIntentDigestWire E tenantId runId checkpointId superstep graph stateDigest
      readyNodes parent)

/-- Request to commit one checkpoint. -/
structure CheckpointWrite (E : Encoding) where
  tenantId : TenantId
  runId : RunId
  checkpointId : CheckpointId
  superstep : Superstep
  graph : GraphReference
  state : CheckpointState E
  readyNodes : ReadyNodes
  parent : Option CheckpointHead
  intentDigest : Digest
  shape_ok : validateWriteShape tenantId runId checkpointId superstep graph state.schema parent =
    .ok ()
  intent_digest_eq : computeCheckpointIntentDigest E tenantId runId checkpointId superstep graph
    state.digest readyNodes parent = some intentDigest

namespace CheckpointWrite

def build (tenantId : TenantId) (runId : RunId) (checkpointId : CheckpointId)
    (superstep : Superstep) (graph : GraphReference) (state : CheckpointState E)
    (readyNodes : ReadyNodes) (parent : Option CheckpointHead)
    (suppliedIntentDigest : Option Digest) : Except CheckpointWriteError (CheckpointWrite E) :=
  match hshape : validateWriteShape tenantId runId checkpointId superstep graph state.schema
      parent with
  | .error error => .error error
  | .ok () =>
    match hdigest : computeCheckpointIntentDigest E tenantId runId checkpointId superstep graph
        state.digest readyNodes parent with
    | none => .error (.integrity .canonicalSerialization)
    | some intentDigest =>
      if suppliedIntentDigest.any (· ≠ intentDigest) then .error .intentDigestMismatch
      else .ok ⟨tenantId, runId, checkpointId, superstep, graph, state, readyNodes, parent,
        intentDigest, hshape, hdigest⟩

theorem build_eq_ok {tenantId : TenantId} {runId : RunId} {checkpointId : CheckpointId}
    {superstep : Superstep} {graph : GraphReference} {state : CheckpointState E}
    {readyNodes : ReadyNodes} {parent : Option CheckpointHead} {supplied : Option Digest}
    {write : CheckpointWrite E}
    (h : build tenantId runId checkpointId superstep graph state readyNodes parent supplied =
      .ok write) :
    write.tenantId = tenantId ∧ write.runId = runId ∧ write.checkpointId = checkpointId ∧
      write.superstep = superstep ∧ write.graph = graph ∧ write.state = state ∧
      write.readyNodes = readyNodes ∧ write.parent = parent := by
  unfold build at h
  split at h
  · cases h
  · split at h
    · cases h
    · split at h
      · cases h
      · cases h
        exact ⟨rfl, rfl, rfl, rfl, rfl, rfl, rfl, rfl⟩

def initial (tenantId : TenantId) (runId : RunId) (checkpointId : CheckpointId)
    (graph : GraphReference) (state : CheckpointState E) (readyNodes : ReadyNodes) :
    Except CheckpointWriteError (CheckpointWrite E) :=
  build tenantId runId checkpointId .initial graph state readyNodes none none

end CheckpointWrite

/-! ## Committed checkpoints -/

inductive CheckpointError where
  | journalTenantMismatch
  | journalRunMismatch
  | journalDidNotAdvance (previous actual : JournalSequence)
  | clockRegression (previous actual : Timestamp)
  | integrity (source : CheckpointIntegrityError)
  | digestMismatch

/-- The recording event lies in scope, after the parent's event and not before its time. -/
def validateCheckpointJournal (tenantId : TenantId) (runId : RunId)
    (parent : Option CheckpointHead) (journalHead : JournalHead) :
    Except CheckpointError Unit := do
  reject (journalHead.tenantId ≠ tenantId) .journalTenantMismatch
  reject (journalHead.runId ≠ runId) .journalRunMismatch
  match parent with
  | none => return ()
  | some parent =>
    reject (journalHead.sequence ≤ parent.journalHead.sequence)
      (.journalDidNotAdvance parent.journalHead.sequence journalHead.sequence)
    reject (journalHead.recordedAt < parent.journalHead.recordedAt)
      (.clockRegression parent.journalHead.recordedAt journalHead.recordedAt)

theorem inScope_of_validateCheckpointJournal {tenantId : TenantId} {runId : RunId}
    {parent : Option CheckpointHead} {journalHead : JournalHead}
    (h : validateCheckpointJournal tenantId runId parent journalHead = .ok ()) :
    journalHead.InScope tenantId runId := by
  simp only [validateCheckpointJournal, bind_eq_ok, reject_eq_ok, not_not] at h
  obtain ⟨_, htenant, _, hrun, _⟩ := h
  exact ⟨htenant, hrun⟩

def computeCheckpointDigest (E : Encoding) (intentDigest : Digest) (journalHead : JournalHead) :
    Option Digest :=
  E.domainSeparatedDigest (domainBytes "stateknot-checkpoint-v1")
    (.obj [("intent_digest", intentDigest.toJson), ("journal_head", journalHead.toJson E)])

/-- A write intent bound to the journal event that committed it. -/
structure Checkpoint (E : Encoding) extends CheckpointWrite E where
  journalHead : JournalHead
  digest : Digest
  journal_ok : validateCheckpointJournal tenantId runId parent journalHead = .ok ()
  digest_eq : computeCheckpointDigest E intentDigest journalHead = some digest

namespace Checkpoint

def build (write : CheckpointWrite E) (journalHead : JournalHead)
    (suppliedDigest : Option Digest) : Except CheckpointError (Checkpoint E) :=
  match hjournal : validateCheckpointJournal write.tenantId write.runId write.parent
      journalHead with
  | .error error => .error error
  | .ok () =>
    match hdigest : computeCheckpointDigest E write.intentDigest journalHead with
    | none => .error (.integrity .canonicalSerialization)
    | some digest =>
      if suppliedDigest.any (· ≠ digest) then .error .digestMismatch
      else .ok ⟨write, journalHead, digest, hjournal, hdigest⟩

def commit (write : CheckpointWrite E) (journalHead : JournalHead) :
    Except CheckpointError (Checkpoint E) :=
  build write journalHead none

theorem commit_eq_ok {write : CheckpointWrite E} {journalHead : JournalHead}
    {checkpoint : Checkpoint E} (h : commit write journalHead = .ok checkpoint) :
    checkpoint.toCheckpointWrite = write ∧ checkpoint.journalHead = journalHead := by
  unfold commit build at h
  split at h
  · cases h
  · split at h
    · cases h
    · split at h
      · cases h
      · cases h
        exact ⟨rfl, rfl⟩

def head (checkpoint : Checkpoint E) : CheckpointHead :=
  ⟨checkpoint.tenantId, checkpoint.runId, checkpoint.checkpointId, checkpoint.superstep,
    checkpoint.graph, checkpoint.journalHead, checkpoint.digest,
    inScope_of_validateCheckpointJournal checkpoint.journal_ok⟩

end Checkpoint

/-- The write that continues a committed checkpoint by one superstep. -/
def CheckpointWrite.successor (checkpointId : CheckpointId)
    (parent : Checkpoint E) (state : CheckpointState E) (readyNodes : ReadyNodes) :
    Except CheckpointWriteError (CheckpointWrite E) := do
  let superstep ← okOr parent.superstep.checkedNext .superstepOverflow
  CheckpointWrite.build parent.tenantId parent.runId checkpointId superstep parent.graph state
    readyNodes (some parent.head) none

/-- What a successor write takes from its parent and from its arguments. -/
theorem CheckpointWrite.successor_eq_ok {checkpointId : CheckpointId}
    {parent : Checkpoint E} {state : CheckpointState E} {readyNodes : ReadyNodes}
    {write : CheckpointWrite E}
    (h : CheckpointWrite.successor checkpointId parent state readyNodes = .ok write) :
    write.superstep.value = parent.superstep.value + 1 ∧ write.graph = parent.graph ∧
      write.tenantId = parent.tenantId ∧ write.runId = parent.runId ∧
      write.checkpointId = checkpointId ∧ write.state = state ∧
      write.readyNodes = readyNodes ∧ write.parent = some parent.head := by
  simp only [CheckpointWrite.successor, bind_eq_ok, okOr_eq_ok] at h
  obtain ⟨superstep, hnext, hbuild⟩ := h
  obtain ⟨htenant, hrun, hid, hsuperstep, hgraph, hstate, hready, hparent⟩ :=
    CheckpointWrite.build_eq_ok hbuild
  rw [Ordinal.checkedNext_eq_some] at hnext
  exact ⟨hsuperstep ▸ hnext, hgraph, htenant, hrun, hid, hstate, hready, hparent⟩

end StateKnot
