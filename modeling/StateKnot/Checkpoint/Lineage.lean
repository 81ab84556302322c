import StateKnot.Checkpoint
import StateKnot.Lib.HashChain
import StateKnot.Reference

/-!
# Checkpoint lineage verification

`CheckpointLineageVerifier` replays the checkpoints of a run from a trusted tip
towards the root.  It compares one head at a time; everything it relies on about
neighbouring checkpoints is an invariant of `Checkpoint` itself.

A completed lineage is a hash chain linked by heads, so its shape follows by
induction from what one checkpoint says about its parent, and its uniqueness from
what a checkpoint checksum covers.
-/

namespace StateKnot

open Lib

variable {E : Encoding}

/-! ## The verifier -/

inductive CheckpointLineageError where
  | headMismatch
  | alreadyComplete

/-- Streaming verifier: the head the next checkpoint must have, absent after the root. -/
structure CheckpointLineageVerifier where
  expected : Option CheckpointHead

namespace CheckpointLineageVerifier

def fromTip (tip : CheckpointHead) : CheckpointLineageVerifier := ⟨some tip⟩

def isComplete (verifier : CheckpointLineageVerifier) : Bool := verifier.expected.isNone

/-- Verify the next checkpoint; the verifier moves to its parent only when it is accepted. -/
def verifyNext (verifier : CheckpointLineageVerifier) (checkpoint : Checkpoint E) :
    Except CheckpointLineageError Unit × CheckpointLineageVerifier :=
  match verifier.expected with
  | none => (.error .alreadyComplete, verifier)
  | some expected =>
    if checkpoint.head ≠ expected then (.error .headMismatch, verifier)
    else (.ok (), ⟨checkpoint.parent⟩)

/-- Feed checkpoints one by one, stopping at the first rejection. -/
def verifyAll (verifier : CheckpointLineageVerifier) :
    List (Checkpoint E) → Except CheckpointLineageError Unit × CheckpointLineageVerifier
  | [] => (.ok (), verifier)
  | checkpoint :: older =>
    match verifier.verifyNext checkpoint with
    | (.error error, verifier) => (.error error, verifier)
    | (.ok (), verifier) => verifyAll verifier older

/-- Every checkpoint is accepted in turn and the last one is the root. -/
def Completes (verifier : CheckpointLineageVerifier) (lineage : List (Checkpoint E)) : Prop :=
  (verifier.verifyAll lineage).1 = .ok () ∧ (verifier.verifyAll lineage).2.isComplete

variable {verifier : CheckpointLineageVerifier}

theorem verifyNext_error {checkpoint : Checkpoint E}
    {error : CheckpointLineageError} (h : (verifier.verifyNext checkpoint).1 = .error error) :
    (verifier.verifyNext checkpoint).2 = verifier := by
  unfold verifyNext at h ⊢
  split
  · rfl
  · split
    · rfl
    · simp_all

theorem verifyNext_of_isComplete
    (h : verifier.isComplete) (checkpoint : Checkpoint E) :
    verifier.verifyNext checkpoint = (.error .alreadyComplete, verifier) := by
  have hexpected : verifier.expected = none := Option.isNone_iff_eq_none.mp h
  rw [verifyNext, hexpected]

theorem completes_nil :
    verifier.Completes ([] : List (Checkpoint E)) ↔ verifier.expected = none := by
  simp [Completes, verifyAll, isComplete]

theorem completes_cons {checkpoint : Checkpoint E}
    {older : List (Checkpoint E)} :
    verifier.Completes (checkpoint :: older) ↔
      verifier.expected = some checkpoint.head ∧
      (⟨checkpoint.parent⟩ : CheckpointLineageVerifier).Completes older := by
  unfold Completes
  rw [verifyAll, verifyNext]
  cases hexpected : verifier.expected with
  | none => simp
  | some expected =>
    by_cases hhead : checkpoint.head = expected
    · simp [hhead]
    · simp [hhead, eq_comm (a := expected)]

/-- Completed lineages are the chains of heads from the expected one to a root. -/
theorem completes_iff {lineage : List (Checkpoint E)} :
    verifier.Completes lineage ↔
      verifier.expected = lineage.head?.map Checkpoint.head ∧
      LinkedToRoot Checkpoint.head (fun checkpoint => checkpoint.parent) lineage := by
  induction lineage generalizing verifier with
  | nil => simp [completes_nil, LinkedToRoot]
  | cons checkpoint older ih =>
    rw [completes_cons, ih]
    rfl

end CheckpointLineageVerifier

/-! ## What a checkpoint says about its parent -/

/-- A checkpoint continues the head it names as parent. -/
structure Checkpoint.Continues (checkpoint : Checkpoint E) (parent : CheckpointHead) : Prop where
  superstep : checkpoint.superstep.value = parent.superstep.value + 1
  tenantId : checkpoint.tenantId = parent.tenantId
  runId : checkpoint.runId = parent.runId
  graph : checkpoint.graph = parent.graph
  checkpointId : checkpoint.checkpointId ≠ parent.checkpointId
  sequence : parent.journalHead.sequence < checkpoint.journalHead.sequence
  recordedAt : parent.journalHead.recordedAt ≤ checkpoint.journalHead.recordedAt

variable {checkpoint : Checkpoint E}

theorem Checkpoint.continues_of_parent {parent : CheckpointHead}
    (h : checkpoint.parent = some parent) : checkpoint.Continues parent := by
  have hshape := checkpoint.shape_ok
  have hjournal := checkpoint.journal_ok
  rw [h] at hshape hjournal
  simp only [validateWriteShape, bind_eq_ok, reject_eq_ok, okOr_eq_ok, exists_const, ne_eq,
    not_not] at hshape
  simp only [validateCheckpointJournal, bind_eq_ok, reject_eq_ok, exists_const, ne_eq, not_not,
    not_le, not_lt] at hjournal
  obtain ⟨_, _, htenant, hrun, hid, expected, hexpected, hsuperstep, hgraph⟩ := hshape
  obtain ⟨_, _, hsequence, hrecorded⟩ := hjournal
  rw [Ordinal.checkedNext_eq_some, ← hsuperstep] at hexpected
  exact ⟨hexpected, htenant.symm, hrun.symm, hgraph.symm, Ne.symm hid, hsequence, hrecorded⟩

theorem Checkpoint.superstep_of_root
    (h : checkpoint.parent = none) : checkpoint.superstep = .initial := by
  have hshape := checkpoint.shape_ok
  rw [h] at hshape
  simp only [validateWriteShape, bind_eq_ok, reject_eq_ok, exists_const, ne_eq, not_not] at hshape
  exact hshape.2

/-! ## The shape of a lineage -/

/-- Shape of a complete lineage, newest first, below a tip. -/
structure Descends (tip : CheckpointHead) (lineage : List (Checkpoint E)) : Prop where
  supersteps : lineage.map (fun c => c.superstep.value) =
    (List.range (tip.superstep.value + 1)).reverse
  scope : ∀ c ∈ lineage, c.tenantId = tip.tenantId ∧ c.runId = tip.runId ∧ c.graph = tip.graph
  upTo : ∀ c ∈ lineage, c.journalHead.sequence ≤ tip.journalHead.sequence ∧
    c.journalHead.recordedAt ≤ tip.journalHead.recordedAt
  sequences : lineage.Pairwise
    (fun newer older => older.journalHead.sequence < newer.journalHead.sequence)
  clock : lineage.Pairwise
    (fun newer older => older.journalHead.recordedAt ≤ newer.journalHead.recordedAt)

/-- By induction towards the root: each checkpoint is the tip of the rest. -/
theorem descends_of_linked {older : List (Checkpoint E)}
    (h : LinkedToRoot Checkpoint.head (fun checkpoint => checkpoint.parent)
      (checkpoint :: older)) : Descends checkpoint.head (checkpoint :: older) := by
  induction older generalizing checkpoint with
  | nil =>
    have hroot := Checkpoint.superstep_of_root h.1
    constructor <;> simp [Checkpoint.head, hroot, Superstep.initial]
  | cons next older ih =>
    obtain ⟨hparent, hrest⟩ := h
    have hnext := Checkpoint.continues_of_parent hparent
    have htail := ih hrest
    have hbefore : ∀ c ∈ next :: older,
        c.journalHead.sequence < checkpoint.journalHead.sequence ∧
        c.journalHead.recordedAt ≤ checkpoint.journalHead.recordedAt := by
      intro c hc
      obtain ⟨hsequence, hrecorded⟩ := htail.upTo c hc
      exact ⟨hsequence.trans_lt hnext.sequence, hrecorded.trans hnext.recordedAt⟩
    refine ⟨?_, ?_, ?_, ?_, ?_⟩
    · have hvalue : checkpoint.superstep.value = next.superstep.value + 1 := hnext.superstep
      rw [List.map_cons, htail.supersteps]
      show _ = (List.range (checkpoint.superstep.value + 1)).reverse
      rw [List.range_succ (n := checkpoint.superstep.value), List.reverse_append, hvalue]
      rfl
    · intro c hc
      rcases List.mem_cons.mp hc with rfl | hc
      · exact ⟨rfl, rfl, rfl⟩
      · obtain ⟨htenant, hrun, hgraph⟩ := htail.scope c hc
        exact ⟨htenant.trans hnext.tenantId.symm, hrun.trans hnext.runId.symm,
          hgraph.trans hnext.graph.symm⟩
    · intro c hc
      rcases List.mem_cons.mp hc with rfl | hc
      · exact ⟨le_refl _, le_refl _⟩
      · exact ⟨(hbefore c hc).1.le, (hbefore c hc).2⟩
    · exact List.pairwise_cons.mpr ⟨fun c hc => (hbefore c hc).1, htail.sequences⟩
    · exact List.pairwise_cons.mpr ⟨fun c hc => (hbefore c hc).2, htail.clock⟩

theorem descends_of_completes {tip : CheckpointHead} {lineage : List (Checkpoint E)}
    (h : (CheckpointLineageVerifier.fromTip tip).Completes lineage) : Descends tip lineage := by
  obtain ⟨htip, hlinked⟩ := CheckpointLineageVerifier.completes_iff.mp h
  cases lineage with
  | nil => cases htip
  | cons checkpoint older =>
    cases htip
    exact descends_of_linked hlinked

/-! ## Checksums determine what they cover -/

@[simp] theorem CapabilityIdentity.rfc8785_inj {a b : CapabilityIdentity} :
    a.toJson.rfc8785 = b.toJson.rfc8785 ↔ a = b := by
  refine Iff.trans (Json.rfc8785_obj_inj rfl (by simp)) ?_
  simp only [List.map_cons, List.map_nil, List.cons.injEq, and_true]
  refine Iff.trans (and_congr (Json.rfc8785_obj_inj rfl (by simp))
    (Json.rfc8785_obj_inj rfl (by simp))) ?_
  cases a
  cases b
  simp [and_assoc]

@[simp] theorem GraphReference.rfc8785_inj {a b : GraphReference} :
    a.toJson.rfc8785 = b.toJson.rfc8785 ↔ a = b := by
  refine Iff.trans (Json.rfc8785_obj_inj rfl (by simp)) ?_
  cases a
  cases b
  simp

theorem JournalHead.rfc8785_inj (hE : E.Faithful) {a b : JournalHead} :
    (a.toJson E).rfc8785 = (b.toJson E).rfc8785 ↔ a = b := by
  refine Iff.trans (Json.rfc8785_obj_inj rfl (by simp)) ?_
  cases a
  cases b
  simp [hE.timestampJson_rfc8785_inj]

theorem CheckpointHead.rfc8785_inj (hE : E.Faithful) {a b : CheckpointHead} :
    (a.toJson E).rfc8785 = (b.toJson E).rfc8785 ↔ a = b := by
  refine Iff.trans (Json.rfc8785_obj_inj rfl (by simp)) ?_
  cases a
  cases b
  simp [JournalHead.rfc8785_inj hE]

theorem CheckpointHead.ofOption_rfc8785_inj (hE : E.Faithful) {a b : Option CheckpointHead} :
    (Json.ofOption (CheckpointHead.toJson E) a).rfc8785 =
      (Json.ofOption (CheckpointHead.toJson E) b).rfc8785 ↔ a = b := by
  have hne : ∀ head : CheckpointHead, (head.toJson E).rfc8785 ≠ .null := by
    simp [CheckpointHead.toJson, Json.rfc8785_obj]
  cases a <;> cases b <;> simp [Json.ofOption, CheckpointHead.rfc8785_inj hE, hne, (hne _).symm]

@[simp] theorem ReadyNodes.rfc8785_inj {a b : ReadyNodes} :
    a.toJson.rfc8785 = b.toJson.rfc8785 ↔ a = b := by
  refine ⟨fun h => ReadyNodes.ext_nodes ?_, fun h => by rw [h]⟩
  exact Json.eq_of_rfc8785_arr_eq Ident.rfc8785_inj.mp h

/-- States with the same schema and checksum and canonically equal data. -/
structure CheckpointState.CanonicallyEqual (a b : CheckpointState E) : Prop where
  schema : a.schema = b.schema
  data : a.data.value.canonical = b.data.value.canonical
  digest : a.digest = b.digest

/-- Checkpoints equal in every field, states up to canonical equality. -/
structure Checkpoint.CanonicallyEqual (a b : Checkpoint E) : Prop where
  tenantId : a.tenantId = b.tenantId
  runId : a.runId = b.runId
  checkpointId : a.checkpointId = b.checkpointId
  superstep : a.superstep = b.superstep
  graph : a.graph = b.graph
  state : a.state.CanonicallyEqual b.state
  readyNodes : a.readyNodes = b.readyNodes
  parent : a.parent = b.parent
  intentDigest : a.intentDigest = b.intentDigest
  journalHead : a.journalHead = b.journalHead
  digest : a.digest = b.digest

section Integrity

theorem CheckpointState.canonicallyEqual_of_digest_eq (hE : E.Faithful) {a b : CheckpointState E}
    (hdigest : a.digest = b.digest) : a.CanonicallyEqual b := by
  have ha := a.digest_eq
  have hb := b.digest_eq
  simp only [computeStateDigest, CanonicalJson.new, bind_eq_ok, mapError_eq_ok, reject_eq_ok,
    okOr_eq_ok, Bool.not_eq_true', Bool.not_eq_false] at ha hb
  obtain ⟨_, ⟨_, hnumbers, bytes, hbytes, hreturn⟩, ha⟩ := ha
  cases hreturn
  obtain ⟨_, ⟨_, hnumbers', bytes', hbytes', hreturn⟩, hb⟩ := hb
  cases hreturn
  have htree := hE.rfc8785_of_digest_eq ha (hdigest ▸ hb)
  have hvalues := Json.values_of_rfc8785_eq htree rfl (by simp)
  simp only [List.map_cons, List.map_nil, List.cons.injEq, SchemaReference.rfc8785_inj,
    Digest.rfc8785_inj, and_true] at hvalues
  obtain rfl : bytes = bytes' := hE.sha256_injective hvalues.2
  exact ⟨hvalues.1, CanonicalJson.canonical_eq_of_rfc8785_eq hnumbers hnumbers'
    (hE.determinesTrees hbytes hbytes'), hdigest⟩

/-- Equal heads come from canonically equal checkpoints: the checkpoint checksum covers the
intent checksum, which covers the state, the ready nodes and the parent. -/
theorem Checkpoint.canonicallyEqual_of_head_eq (hE : E.Faithful) {a b : Checkpoint E}
    (hhead : a.head = b.head) : a.CanonicallyEqual b := by
  simp only [Checkpoint.head, CheckpointHead.mk.injEq] at hhead
  obtain ⟨htenant, hrun, hid, hsuperstep, hgraph, hjournal, hdigest⟩ := hhead
  have hcheckpoint := hE.rfc8785_of_digest_eq a.digest_eq (hdigest ▸ b.digest_eq)
  have hcovered := Json.values_of_rfc8785_eq hcheckpoint rfl (by simp)
  simp only [List.map_cons, List.map_nil, List.cons.injEq, Digest.rfc8785_inj] at hcovered
  have hintent := hE.rfc8785_of_digest_eq a.intent_digest_eq (hcovered.1 ▸ b.intent_digest_eq)
  have hvalues := Json.values_of_rfc8785_eq hintent rfl (by simp)
  simp only [List.map_cons, List.map_nil, List.cons.injEq, Digest.rfc8785_inj,
    ReadyNodes.rfc8785_inj, CheckpointHead.ofOption_rfc8785_inj hE, and_true] at hvalues
  obtain ⟨_, _, _, _, _, hstate, hready, hparent⟩ := hvalues
  exact {
    tenantId := htenant
    runId := hrun
    checkpointId := hid
    superstep := hsuperstep
    graph := hgraph
    state := CheckpointState.canonicallyEqual_of_digest_eq hE hstate
    readyNodes := hready
    parent := hparent
    intentDigest := hcovered.1
    journalHead := hjournal
    digest := hdigest }

end Integrity

/-! ## Committed lineages -/

/-- `lineage`, newest first, was written by `initial` and `successor` and committed. -/
inductive CommittedLineage : List (Checkpoint E) → Prop where
  | root {tenantId runId checkpointId graph state readyNodes write journalHead checkpoint}
      (initial : CheckpointWrite.initial tenantId runId checkpointId graph state readyNodes =
        .ok write)
      (commit : Checkpoint.commit write journalHead = .ok checkpoint) :
      CommittedLineage [checkpoint]
  | next {checkpointId parent state readyNodes write journalHead checkpoint older}
      (successor : CheckpointWrite.successor checkpointId parent state readyNodes = .ok write)
      (commit : Checkpoint.commit write journalHead = .ok checkpoint)
      (rest : CommittedLineage (parent :: older)) : CommittedLineage (checkpoint :: parent :: older)

theorem CommittedLineage.linkedToRoot {lineage : List (Checkpoint E)}
    (h : CommittedLineage lineage) :
    LinkedToRoot Checkpoint.head (fun checkpoint => checkpoint.parent) lineage := by
  induction h with
  | root hinitial hcommit =>
    obtain ⟨_, _, _, _, _, _, _, hparent⟩ := CheckpointWrite.build_eq_ok hinitial
    rw [← (Checkpoint.commit_eq_ok hcommit).1] at hparent
    exact ⟨hparent, trivial⟩
  | next hsuccessor hcommit _ ih =>
    obtain ⟨_, _, _, _, _, _, _, hparent⟩ := CheckpointWrite.successor_eq_ok hsuccessor
    rw [← (Checkpoint.commit_eq_ok hcommit).1] at hparent
    exact ⟨hparent, ih⟩

/-- Checkpoint lineage integrity: a completed lineage counts down to the root in one scope with
advancing journal positions, nothing is accepted after it and rejection changes nothing; a tip
determines its lineage; and committed lineages complete. -/
theorem checkpoint_lineage_integrity :
    (∀ (tip : CheckpointHead) (lineage : List (Checkpoint E)),
      (CheckpointLineageVerifier.fromTip tip).Completes lineage →
      lineage.length = tip.superstep.value + 1 ∧
      lineage.map (fun c => c.superstep.value) =
        (List.range (tip.superstep.value + 1)).reverse ∧
      (∀ c ∈ lineage, c.tenantId = tip.tenantId ∧ c.runId = tip.runId ∧ c.graph = tip.graph) ∧
      lineage.Pairwise
        (fun newer older => older.journalHead.sequence < newer.journalHead.sequence) ∧
      lineage.Pairwise
        (fun newer older => older.journalHead.recordedAt ≤ newer.journalHead.recordedAt) ∧
      ∀ checkpoint : Checkpoint E,
        (((CheckpointLineageVerifier.fromTip tip).verifyAll lineage).2.verifyNext checkpoint).1 =
          .error .alreadyComplete) ∧
    (∀ (verifier : CheckpointLineageVerifier) (checkpoint : Checkpoint E)
      (error : CheckpointLineageError), (verifier.verifyNext checkpoint).1 = .error error →
      (verifier.verifyNext checkpoint).2 = verifier) ∧
    (E.Faithful → ∀ (tip : CheckpointHead) (xs ys : List (Checkpoint E)),
      (CheckpointLineageVerifier.fromTip tip).Completes xs →
      (CheckpointLineageVerifier.fromTip tip).Completes ys →
      List.Forall₂ Checkpoint.CanonicallyEqual xs ys) ∧
    (∀ (tip : Checkpoint E) (older : List (Checkpoint E)), CommittedLineage (tip :: older) →
      (CheckpointLineageVerifier.fromTip tip.head).Completes (tip :: older)) := by
  refine ⟨fun tip lineage h => ?_,
    fun verifier checkpoint error h => CheckpointLineageVerifier.verifyNext_error h,
    fun hE tip xs ys hxs hys => ?_, fun tip older h => ?_⟩
  · have hdescends := descends_of_completes h
    refine ⟨?_, hdescends.supersteps, hdescends.scope, hdescends.sequences, hdescends.clock, ?_⟩
    · simpa using congrArg List.length hdescends.supersteps
    · intro checkpoint
      rw [CheckpointLineageVerifier.verifyNext_of_isComplete h.2]
  · obtain ⟨htipx, hlinkedx⟩ := CheckpointLineageVerifier.completes_iff.mp hxs
    obtain ⟨htipy, hlinkedy⟩ := CheckpointLineageVerifier.completes_iff.mp hys
    have hsame : ∀ {a b : Checkpoint E}, True → True → a.head = b.head → a.CanonicallyEqual b :=
      fun _ _ hhead => Checkpoint.canonicallyEqual_of_head_eq hE hhead
    exact hlinkedx.forall₂_of_tip_eq hsame (fun hab => hab.parent) hlinkedy
      (fun _ _ => trivial) (fun _ _ => trivial) (htipx.symm.trans htipy)
  · exact CheckpointLineageVerifier.completes_iff.mpr ⟨rfl, h.linkedToRoot⟩

/-- A journal head of the sample run. -/
private def lineageJournalHead (sequence : JournalSequence) (recordedAt : Timestamp) :
    JournalHead :=
  ⟨⟨"tenant"⟩, ⟨"run"⟩, sequence, ⟨"event"⟩, recordedAt, ⟨[]⟩⟩

/-- The initial checkpoint of a run and its successor. -/
def sampleLineage : Option (List (Checkpoint .reference)) := do
  let schema : SchemaReference := ⟨⟨"state"⟩, ⟨"1.0.0"⟩, ⟨[]⟩⟩
  let graph : GraphReference := ⟨⟨⟨"issuer"⟩, ⟨"subject"⟩, ⟨"graph"⟩, ⟨"1.0.0"⟩⟩, ⟨[]⟩, schema⟩
  let state ← (CheckpointState.new schema ⟨.null, ⟨4, 0, 1⟩⟩).toOption
  let ready ← (ReadyNodes.tryNew [⟨"start"⟩]).toOption
  let write ← (CheckpointWrite.initial ⟨"tenant"⟩ ⟨"run"⟩ ⟨"first"⟩ graph state ready).toOption
  let root ← (Checkpoint.commit write
    (lineageJournalHead .first (.ofMicros 0))).toOption
  let write ← (CheckpointWrite.successor ⟨"second"⟩ root state .empty).toOption
  let tip ← (Checkpoint.commit write
    (lineageJournalHead (.ofNat 3) (.ofMicros 1))).toOption
  return [tip, root]

/-- Two committed checkpoints complete from their tip, under a faithful encoding, and no other
lineage does. -/
theorem checkpoint_lineage_integrity_reference :
    Encoding.reference.Faithful ∧ ∃ tip root : Checkpoint .reference,
      (CheckpointLineageVerifier.fromTip tip.head).Completes [tip, root] ∧
      tip.head.superstep.value = 1 ∧
      ∀ ys, (CheckpointLineageVerifier.fromTip tip.head).Completes ys →
        List.Forall₂ Checkpoint.CanonicallyEqual [tip, root] ys := by
  have hsome : sampleLineage.isSome = true := by decide +kernel
  obtain ⟨lineage, hlineage⟩ := Option.isSome_iff_exists.mp hsome
  simp only [sampleLineage, Option.bind_eq_bind, Option.bind_eq_some_iff, toOption_eq_some, pure,
    Option.some.injEq] at hlineage
  obtain ⟨state, _, ready, _, write, hwrite, root, hroot, write', hwrite', tip, htip, rfl⟩ :=
    hlineage
  obtain ⟨hshape, _, hunique, hcommitted⟩ := checkpoint_lineage_integrity (E := .reference)
  have hcompletes := hcommitted tip [root] (.next hwrite' htip (.root hwrite hroot))
  have hlength := (hshape tip.head _ hcompletes).1
  refine ⟨Encoding.reference_faithful, tip, root, hcompletes, ?_,
    fun ys hys => hunique Encoding.reference_faithful tip.head _ ys hcompletes hys⟩
  simpa using hlength.symm

end StateKnot
