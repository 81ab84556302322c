import StateKnot.NodeResult

/-!
# Checkpoint barriers

A barrier joins the results of all ready nodes of a base checkpoint with the
checkpoint that follows it.  The heads are stored in node order, so the order in
which nodes finished leaves no trace.
-/

namespace StateKnot

open Lib

inductive BarrierResultHeadsError where
  | empty
  | tooMany (maximum actual : Nat)
  | duplicateActivation («namespace» : GraphNamespace) (nodeId : NodeId)
  | mixedBaseCheckpoints
  | nestedGraphNamespace («namespace» : GraphNamespace)

/-- Heads are ordered by namespace, then by node. -/
def PendingNodeResultHead.key (head : PendingNodeResultHead) : GraphNamespace ×ₗ NodeId :=
  toLex (head.activation.graphNamespace, head.activation.nodeId)

namespace BarrierResultHeads

def maxLen : Nat := ReadyNodes.maxLen

/-- One turn of the loop of `try_new`; the first head fixes the base checkpoint. -/
def accept (collected : List PendingNodeResultHead) (value : PendingNodeResultHead) :
    Except BarrierResultHeadsError Unit := do
  let activation := value.activation
  reject (collected.length = maxLen) (.tooMany maxLen (maxLen + 1))
  reject (activation.graphNamespace ≠ .root) (.nestedGraphNamespace activation.graphNamespace)
  reject (collected.head?.any (·.activation.baseCheckpoint ≠ activation.baseCheckpoint))
    .mixedBaseCheckpoints
  reject (value.key ∈ collected.map PendingNodeResultHead.key)
    (.duplicateActivation activation.graphNamespace activation.nodeId)

end BarrierResultHeads

/-- Heads of the root graph over one base checkpoint, with distinct nodes. -/
structure CommonBase (heads : List PendingNodeResultHead) : Prop where
  bounded : heads.length ≤ BarrierResultHeads.maxLen
  root : ∀ head ∈ heads, head.activation.graphNamespace = .root
  base_eq : ∀ head ∈ heads, ∀ first ∈ heads.head?,
    head.activation.baseCheckpoint = first.activation.baseCheckpoint
  keys_nodup : (heads.map PendingNodeResultHead.key).Nodup

/-- The heads that a barrier consumes, in node order. -/
structure BarrierResultHeads where
  heads : List PendingNodeResultHead
  sorted : StrictlySorted PendingNodeResultHead.key heads
  nonempty : heads ≠ []
  bounded : heads.length ≤ BarrierResultHeads.maxLen
  root : ∀ head ∈ heads, head.activation.graphNamespace = .root

namespace CommonBase

theorem of_append {seen rest : List PendingNodeResultHead} (h : CommonBase (seen ++ rest)) :
    CommonBase seen := by
  have hbounded := h.bounded
  have hkeys := h.keys_nodup
  rw [List.length_append] at hbounded
  rw [List.map_append] at hkeys
  refine ⟨by omega, fun head hhead => h.root head (by simp [hhead]), ?_, hkeys.of_append_left⟩
  intro head hhead first hfirst
  refine h.base_eq head (by simp [hhead]) first ?_
  rw [Option.mem_def] at hfirst ⊢
  rw [List.head?_append, hfirst, Option.some_or]

end CommonBase

namespace BarrierResultHeads

theorem accept_eq_ok {collected : List PendingNodeResultHead} {value : PendingNodeResultHead}
    {u : Unit} (hcollected : CommonBase collected) :
    accept collected value = .ok u ↔ CommonBase (collected ++ [value]) := by
  have hbounded := hcollected.bounded
  simp only [accept, bind_eq_ok, reject_eq_ok, exists_and_left, exists_const, not_not]
  constructor
  · rintro ⟨hlength, hroot, hbase, hkey⟩
    refine ⟨by rw [List.length_append, List.length_singleton]; omega, ?_, ?_,
      nodup_map_append_singleton.mpr ⟨hcollected.keys_nodup, hkey⟩⟩
    · intro head hhead
      rcases List.mem_append.mp hhead with hhead | hhead
      · exact hcollected.root head hhead
      · rw [List.mem_singleton.mp hhead]
        exact hroot
    · intro head hhead first hfirst
      cases collected with
      | nil =>
        obtain rfl : value = first := by simpa using hfirst
        obtain rfl : head = value := by simpa using hhead
        rfl
      | cons start collected =>
        obtain rfl : start = first := by simpa using hfirst
        rcases List.mem_append.mp hhead with hhead | hhead
        · exact hcollected.base_eq head hhead start (by simp)
        · obtain rfl := List.mem_singleton.mp hhead
          exact (by simpa using hbase : _ = _).symm
  · rintro ⟨hlength, hroot, hbase, hkeys⟩
    rw [List.length_append, List.length_singleton] at hlength
    refine ⟨by omega, hroot value (by simp), ?_, (nodup_map_append_singleton.mp hkeys).2⟩
    cases collected with
    | nil => simp
    | cons start collected =>
      have := hbase value (by simp) start (by simp)
      simp [this]

theorem collect_accept_eq_ok {values collected : List PendingNodeResultHead} :
    collect accept [] values = .ok collected ↔ collected = values ∧ CommonBase values :=
  collect_eq_ok_iff CommonBase CommonBase.of_append accept_eq_ok ⟨by simp, by simp, by simp, by simp⟩

def tryNew (values : List PendingNodeResultHead) :
    Except BarrierResultHeadsError BarrierResultHeads :=
  attach (collect accept [] values) fun collected h =>
    if hempty : collected = [] then .error .empty
    else
      have hbase : CommonBase collected :=
        (collect_accept_eq_ok.mp h).1 ▸ (collect_accept_eq_ok.mp h).2
      .ok ⟨sortByKey PendingNodeResultHead.key collected,
        strictlySorted_sortByKey hbase.keys_nodup,
        fun hnil => hempty (by simpa [← List.length_eq_zero_iff] using hnil),
        by simpa using hbase.bounded,
        fun head hhead => hbase.root head (mem_sortByKey.mp hhead)⟩

theorem exists_tryNew_eq_ok {values : List PendingNodeResultHead} (hbase : CommonBase values)
    (hne : values ≠ []) : ∃ heads, tryNew values = .ok heads := by
  unfold tryNew
  rw [exists_attach_eq_ok]
  refine ⟨values, collect_accept_eq_ok.mpr ⟨rfl, hbase⟩, ?_⟩
  rw [dif_neg hne]
  exact ⟨_, rfl⟩

theorem heads_of_tryNew {values : List PendingNodeResultHead} {heads : BarrierResultHeads}
    (h : tryNew values = .ok heads) :
    heads.heads = sortByKey PendingNodeResultHead.key values := by
  obtain ⟨collected, hcollected, hheads⟩ := attach_eq_ok.mp h
  split at hheads
  · cases hheads
  · cases hheads
    exact congrArg _ (collect_accept_eq_ok.mp hcollected).1

def toJson (E : Encoding) (heads : BarrierResultHeads) : Json :=
  .arr (heads.heads.map (PendingNodeResultHead.toJson E))

end BarrierResultHeads

inductive CheckpointBarrierError where
  | results (source : BarrierResultHeadsError)
  | emptyReadySet
  | successorParentMismatch
  | resultBaseMismatch
  | unexpectedResultNode (nodeId : NodeId)
  | missingResultNode (nodeId : NodeId)
  | integrity
  | digestMismatch

/-- The results cover the ready set of the base checkpoint and the successor continues it. -/
def validateBarrierShape {E : Encoding} (baseCheckpoint : CheckpointHead)
    (baseReadyNodes : ReadyNodes) (resultHeads : BarrierResultHeads)
    (successor : CheckpointWrite E) : Except CheckpointBarrierError Unit := do
  reject baseReadyNodes.isEmpty .emptyReadySet
  reject (successor.parent ≠ some baseCheckpoint) .successorParentMismatch
  forM resultHeads.heads fun head => do
    reject (head.activation.baseCheckpoint ≠ baseCheckpoint) .resultBaseMismatch
    reject (head.activation.nodeId ∉ baseReadyNodes)
      (.unexpectedResultNode head.activation.nodeId)
  forM baseReadyNodes.nodes fun nodeId =>
    reject (nodeId ∉ resultHeads.heads.map (·.activation.nodeId)) (.missingResultNode nodeId)

def computeBarrierDigest (E : Encoding) (baseCheckpoint : CheckpointHead)
    (baseReadyNodes : ReadyNodes) (resultHeads : BarrierResultHeads)
    (successorIntentDigest : Digest) : Option Digest :=
  E.domainSeparatedDigest (domainBytes "stateknot-checkpoint-barrier-intent-v1")
    (.obj [("base_checkpoint", baseCheckpoint.toJson E),
      ("base_ready_nodes", baseReadyNodes.toJson),
      ("result_heads", resultHeads.toJson E),
      ("successor_intent_digest", successorIntentDigest.toJson)])

/-- The intent to replace a base checkpoint by its successor. -/
structure CheckpointBarrier (E : Encoding) where
  baseCheckpoint : CheckpointHead
  baseReadyNodes : ReadyNodes
  resultHeads : BarrierResultHeads
  successor : CheckpointWrite E
  intentDigest : Digest
  shape_ok : validateBarrierShape baseCheckpoint baseReadyNodes resultHeads successor = .ok ()
  digest_eq : computeBarrierDigest E baseCheckpoint baseReadyNodes resultHeads
    successor.intentDigest = some intentDigest

namespace CheckpointBarrier

variable {E : Encoding}

def build (baseCheckpoint : CheckpointHead) (baseReadyNodes : ReadyNodes)
    (resultHeads : BarrierResultHeads) (successor : CheckpointWrite E)
    (suppliedDigest : Option Digest) : Except CheckpointBarrierError (CheckpointBarrier E) :=
  attach (validateBarrierShape baseCheckpoint baseReadyNodes resultHeads successor) fun _ hshape =>
  attach (okOr (computeBarrierDigest E baseCheckpoint baseReadyNodes resultHeads
    successor.intentDigest) .integrity) fun intentDigest hdigest =>
  if suppliedDigest.any (· ≠ intentDigest) then .error .digestMismatch
  else .ok ⟨baseCheckpoint, baseReadyNodes, resultHeads, successor, intentDigest, hshape,
    okOr_eq_ok.mp hdigest⟩

def new (base : Checkpoint E) (successor : CheckpointWrite E)
    (resultHeads : List PendingNodeResultHead) :
    Except CheckpointBarrierError (CheckpointBarrier E) := do
  let resultHeads ← (BarrierResultHeads.tryNew resultHeads).mapError .results
  build base.head base.readyNodes resultHeads successor none

theorem new_eq_ok {base : Checkpoint E} {successor : CheckpointWrite E}
    {resultHeads : List PendingNodeResultHead} {barrier : CheckpointBarrier E}
    (h : new base successor resultHeads = .ok barrier) :
    barrier.baseCheckpoint = base.head ∧ barrier.baseReadyNodes = base.readyNodes ∧
      barrier.successor = successor ∧
      barrier.resultHeads.heads = sortByKey PendingNodeResultHead.key resultHeads := by
  simp only [new, bind_eq_ok, mapError_eq_ok, build, attach_eq_ok] at h
  obtain ⟨heads, hheads, _, _, digest, _, hbarrier⟩ := h
  have hsorted := BarrierResultHeads.heads_of_tryNew hheads
  split at hbarrier
  · cases hbarrier
  · cases hbarrier
    exact ⟨rfl, rfl, rfl, hsorted⟩

theorem baseReadyNodes_ne_nil (barrier : CheckpointBarrier E) :
    barrier.baseReadyNodes.nodes ≠ [] := by
  have h := barrier.shape_ok
  simp only [validateBarrierShape, bind_eq_ok, reject_eq_ok, ReadyNodes.isEmpty_iff] at h
  exact h.choose_spec.1

end CheckpointBarrier

end StateKnot
