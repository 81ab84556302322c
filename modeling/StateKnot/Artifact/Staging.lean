import Mathlib.Data.List.Basic
import StateKnot.Encoding
import StateKnot.Lib.Effect

/-!
# Staged uploads

A staging writer receives an artifact in chunks of any length and stores it under a
staging key.  It collects the bytes in a buffer; whenever the buffer holds a full part it
sends the part to a multipart upload, which it opens with the first part.  An artifact
shorter than a part is stored in one request.

The object store answers every request with a `Reply`.  A request that times out may have
been carried out all the same.  What is assumed of the store is in `StoredObject.content`:
a completed multipart object is the concatenation of its parts in the order they were put.
-/

namespace StateKnot

open Lib

/-! ## The object store -/

inductive ArtifactStoreErrorKind where
  | configuration
  | invalidContent
  | policyDenied
  | authorizationDenied
  | notFound
  | integrity
  | unavailable

/-- The outcome of a request under a timeout. -/
inductive Reply where
  | done
  | failed
  | notFound
  | timedOut (applied : Bool)
deriving DecidableEq

/-- The request was carried out. -/
def Reply.applied : Reply → Bool
  | .done => true
  | .timedOut applied => applied
  | .failed | .notFound => false

inductive StoredObject where
  | whole (bytes : List UInt8)
  | multipart (parts : List (List UInt8))

def StoredObject.content : StoredObject → List UInt8
  | .whole bytes => bytes
  | .multipart parts => parts.flatten

/-- The object at the staging key, and the replies to the requests to come. -/
structure StagingStore where
  object : Option StoredObject
  replies : Nat → Reply

/-! ## The writer -/

/-- The hasher is the list of the bytes it was updated with, the upload the list of its parts. -/
structure StagingWriter where
  store : StagingStore
  chunkSize : Nat
  buffer : List UInt8
  upload : Option (List (List UInt8))
  hasher : List UInt8
  byteLength : Nat
  cleanupFailures : Nat

/-- Why a call of the writer fails.  `copying` is the end of the bound that the model puts on the
turns of the copy loop. -/
inductive StagingError where
  | store (kind : ArtifactStoreErrorKind)
  | copying

structure UploadedObject where
  byteLength : Nat
  digest : Digest

abbrev Staging (α : Type) : Type := Effect StagingWriter StagingError α

namespace StagingWriter

def new (store : StagingStore) (chunkSize cleanupFailures : Nat) : StagingWriter :=
  ⟨store, chunkSize, [], none, [], 0, cleanupFailures⟩

/-- Send a request; `effect` is what carrying it out does. -/
def request (effect : StagingWriter → StagingWriter) : Staging Reply := do
  let writer ← get
  let reply := writer.store.replies 0
  modify fun writer =>
    { writer with store.replies := fun n => writer.store.replies (n + 1) }
  when (reply.applied = true) (modify effect)
  return reply

/-- The handle is only returned with a reply. -/
def putMultipart : Staging Reply := do
  let reply ← request id
  when (reply = .done) (modify fun writer => { writer with upload := some [] })
  return reply

def putPart (part : List UInt8) : Staging Reply :=
  request fun writer => { writer with upload := writer.upload.map (· ++ [part]) }

def complete : Staging Reply :=
  request fun writer => { writer with store.object := writer.upload.map .multipart }

def putObject (payload : List UInt8) : Staging Reply :=
  request fun writer => { writer with store.object := some (.whole payload) }

def countCleanupFailure : Staging Unit :=
  modify fun writer => { writer with cleanupFailures := writer.cleanupFailures + 1 }

def abort : Staging Unit := do
  let writer ← get
  when (writer.upload.isSome = true) do
    let reply ← request id
    when (reply ≠ .done) countCleanupFailure

def deleteCompletedObject : Staging Unit := do
  let reply ← request fun writer => { writer with store.object := none }
  when (reply ≠ .done ∧ reply ≠ .notFound) countCleanupFailure

def openUpload : Staging Unit := do
  let reply ← putMultipart
  when (reply ≠ .done) (throw (.store .unavailable))

/-- Put a part; the upload is given up when that fails. -/
def putPartOrAbort (part : List UInt8) : Staging Unit := do
  let reply ← putPart part
  when (reply ≠ .done) do
    abort
    throw (.store .unavailable)

/-- A full buffer becomes the next part of the upload. -/
def uploadPart : Staging Unit := do
  let writer ← get
  when (writer.upload.isNone = true) openUpload
  let writer ← get
  modify fun writer => { writer with buffer := writer.buffer.drop writer.chunkSize }
  putPartOrAbort (writer.buffer.take writer.chunkSize)

/-- The body of the copy loop: the bytes that are left to copy. -/
def copy (bytes : List UInt8) : Staging (List UInt8) := do
  let writer ← get
  let copied := min (writer.chunkSize - writer.buffer.length) bytes.length
  modify fun writer => { writer with buffer := writer.buffer ++ bytes.take copied }
  let writer ← get
  when (writer.buffer.length = writer.chunkSize) uploadPart
  return bytes.drop copied

/-- One turn of the copy loop, which ends when no bytes are left. -/
def copyTurn (bytes : List UInt8) : Staging (List UInt8 ⊕ Unit) :=
  if bytes.isEmpty then return .inr () else Sum.inl <$> copy bytes

def push (bytes : List UInt8) : Staging Unit := do
  let writer ← get
  when (writer.byteLength + bytes.length > 18446744073709551615) (throw (.store .invalidContent))
  modify fun writer => { writer with
    byteLength := writer.byteLength + bytes.length, hasher := writer.hasher ++ bytes }
  loop .copying copyTurn (bytes.length + 1) bytes

/-- `finish` of an open upload: what is left in the buffer is its last part. -/
def finishUpload : Staging Unit := do
  let writer ← get
  when (writer.buffer ≠ []) do
    modify fun writer => { writer with buffer := [] }
    putPartOrAbort writer.buffer
  let reply ← complete
  when (reply ≠ .done) do
    abort
    deleteCompletedObject
    throw (.store .unavailable)

/-- `finish` without an upload. -/
def finishObject : Staging Unit := do
  let writer ← get
  modify fun writer => { writer with buffer := [] }
  let reply ← putObject writer.buffer
  when (reply ≠ .done) do
    deleteCompletedObject
    throw (.store .unavailable)

def storeRest : Staging Unit := do
  let writer ← get
  if writer.upload.isSome then finishUpload else finishObject

def finish (E : Encoding) : Staging UploadedObject := do
  storeRest
  let writer ← get
  return ⟨writer.byteLength, E.sha256 writer.hasher⟩

/-- Store an artifact that arrives in chunks. -/
def stage (E : Encoding) (chunks : List (List UInt8)) : Staging UploadedObject := do
  forM chunks push
  finish E

/-! ## Requests -/

/-- The writer after a reply. -/
def answered (writer : StagingWriter) : StagingWriter :=
  { writer with store.replies := fun n => writer.store.replies (n + 1) }

section Requests

variable {P Q : StagingWriter → Prop} {R : StagingError → StagingWriter → Prop}

/-- A request that is done has been carried out. -/
theorem triple_request {effect : StagingWriter → StagingWriter}
    (h : ∀ writer, P writer → Q (effect writer.answered)) :
    Triple P (request effect) (fun reply writer => reply = .done → Q writer) R := by
  apply triple_get_bind
  intro writer hwriter
  refine triple_bind (fun _ state => state = writer.answered) ?_ ?_
  · apply triple_modify
    intro state hstate
    rw [hstate]
    rfl
  intro _
  refine triple_bind (fun _ state => writer.store.replies 0 = .done → Q state) ?_ ?_
  · apply triple_when
    · intro _
      apply triple_modify
      intro state hstate _
      rw [hstate]
      exact h writer hwriter
    · intro hreply state _ hdone
      rw [hdone] at hreply
      exact absurd rfl hreply
  · intro _
    exact triple_pure fun state hstate => hstate

theorem triple_unless_done {reply : Reply} {failure : Staging Unit}
    (hfailure : Triple (fun _ => True) failure (fun _ _ => False) R) :
    Triple (fun writer => reply = .done → Q writer) (when (reply ≠ .done) failure)
      (fun _ => Q) R := by
  apply triple_when
  · intro _
    exact hfailure.weaken (fun _ _ => trivial) (fun _ _ hfalse => hfalse.elim)
  · intro hdone writer hwriter
    exact hwriter (not_not.mp hdone)

theorem triple_request_any {effect : StagingWriter → StagingWriter} :
    Triple P (request effect) (fun _ _ => True) R :=
  (triple_request (P := P) (Q := fun _ => True) fun _ _ => trivial).weaken (fun _ h => h)
    fun _ _ _ => trivial

theorem triple_abort : Triple P abort (fun _ _ => True) R := by
  apply triple_get_bind
  intro writer _
  apply triple_when
  · intro _
    refine triple_bind (fun _ _ => True) triple_request_any fun reply => ?_
    exact triple_when (fun _ => triple_modify fun _ _ => trivial) fun _ _ _ => trivial
  · intro _ _ _
    trivial

theorem triple_deleteCompletedObject : Triple P deleteCompletedObject (fun _ _ => True) R := by
  refine triple_bind (fun _ _ => True) triple_request_any fun reply => ?_
  exact triple_when (fun _ => triple_modify fun _ _ => trivial) fun _ _ _ => trivial

end Requests

/-- Failures of the writer are failures of the store or of the content. -/
def Ends (error : StagingError) (_ : StagingWriter) : Prop := error ≠ .copying

section Parts

variable {P Q : StagingWriter → Prop}

theorem triple_unavailable {M : Unit → StagingWriter → Prop} :
    Triple P (throw (.store .unavailable)) M Ends :=
  triple_throw fun _ _ => by simp [Ends]

theorem triple_openUpload
    (h : ∀ writer, P writer → Q { writer.answered with upload := some [] }) :
    Triple P openUpload (fun _ => Q) Ends := by
  refine triple_bind (fun reply writer => reply = .done → Q writer) ?_ fun reply =>
    triple_unless_done triple_unavailable
  refine triple_bind (fun reply writer => reply = .done →
    Q { writer with upload := some [] }) (triple_request h) fun reply => ?_
  refine triple_bind (fun _ writer => reply = .done → Q writer) ?_ fun _ =>
    triple_pure fun _ hwriter => hwriter
  apply triple_when
  · intro hdone
    exact triple_modify fun writer hwriter _ => hwriter hdone
  · intro hnot writer _ hdone
    exact absurd hdone hnot

theorem triple_putPartOrAbort {part : List UInt8}
    (h : ∀ writer, P writer →
      Q { writer.answered with upload := writer.upload.map (· ++ [part]) }) :
    Triple P (putPartOrAbort part) (fun _ => Q) Ends := by
  refine triple_bind (fun reply writer => reply = .done → Q writer) (triple_request h)
    fun reply => triple_unless_done ?_
  exact triple_bind _ triple_abort fun _ => triple_unavailable

end Parts

/-! ## Pushes -/

/-- The writer has received `total`; all of it but `rest` is in full parts and in the buffer. -/
structure Copied (size : Nat) (object : Option StoredObject) (total rest : List UInt8)
    (writer : StagingWriter) : Prop where
  chunkSize : writer.chunkSize = size
  object : writer.store.object = object
  hasher : writer.hasher = total
  byteLength : writer.byteLength = total.length
  bytes : (writer.upload.getD []).flatten ++ writer.buffer ++ rest = total
  parts : ∀ part ∈ writer.upload.getD [], part.length = size

/-- Between the turns of the copy loop, the buffer has room and an open upload has a part. -/
structure Ready (size : Nat) (writer : StagingWriter) : Prop where
  room : writer.buffer.length < size
  opened : writer.upload ≠ some []

section Pushes

variable {size : Nat} {object : Option StoredObject} {total rest : List UInt8}

theorem triple_uploadPart (hpositive : 0 < size) :
    Triple (fun writer => Copied size object total rest writer ∧ writer.buffer.length = size)
      uploadPart
      (fun _ writer => Copied size object total rest writer ∧ Ready size writer) Ends := by
  apply triple_get_bind
  intro writer ⟨hcopied, hfull⟩
  -- opening the upload adds no part
  refine triple_bind (fun _ writer => Copied size object total rest writer ∧
    writer.buffer.length = size ∧ writer.upload.isSome) ?_ fun _ => ?_
  · apply triple_when
    · intro hnone
      have hupload := Option.isNone_iff_eq_none.mp hnone
      apply triple_openUpload
      intro state hstate
      rw [hstate]
      have hbytes := hcopied.bytes
      rw [hupload] at hbytes
      refine ⟨⟨hcopied.chunkSize, hcopied.object, hcopied.hasher, hcopied.byteLength, hbytes,
        ?_⟩, hfull, rfl⟩
      intro part hpart
      cases hpart
    · intro hsome state hstate
      rw [hstate]
      exact ⟨hcopied, hfull, by simpa [Option.isSome_iff_ne_none] using hsome⟩
  · apply triple_get_bind
    intro writer ⟨hcopied, hfull, hsome⟩
    obtain ⟨parts, hparts⟩ := Option.isSome_iff_exists.mp hsome
    have htake : writer.buffer.take writer.chunkSize = writer.buffer := by
      rw [hcopied.chunkSize, ← hfull, List.take_length]
    refine triple_bind (fun _ state => state = { writer with buffer := [] }) ?_ fun _ => ?_
    · apply triple_modify
      intro state hstate
      rw [hstate, hcopied.chunkSize, ← hfull, List.drop_length]
    · apply triple_putPartOrAbort
      intro state hstate
      rw [hstate, htake]
      have hbytes := hcopied.bytes
      have hlengths := hcopied.parts
      rw [hparts] at hbytes hlengths
      refine ⟨⟨hcopied.chunkSize, hcopied.object, hcopied.hasher, hcopied.byteLength, ?_, ?_⟩,
        hpositive, ?_⟩
      · show ((writer.upload.map (· ++ [writer.buffer])).getD []).flatten ++ [] ++ rest = total
        rw [hparts]
        simpa using hbytes
      · intro part hpart
        simp only [hparts, Option.map_some, Option.getD_some, List.mem_append,
          List.mem_singleton] at hpart hlengths
        rcases hpart with hpart | rfl
        · exact hlengths part hpart
        · exact hfull
      · simp [hparts]

/-- A turn of the copy loop with bytes to copy copies some. -/
theorem triple_copy (hpositive : 0 < size) {bytes : List UInt8} (hbytes : bytes ≠ []) :
    Triple (fun writer => Copied size object total bytes writer ∧ Ready size writer)
      (copy bytes)
      (fun left writer => (Copied size object total left writer ∧ Ready size writer) ∧
        left.length < bytes.length) Ends := by
  apply triple_get_bind
  intro writer ⟨hcopied, hready⟩
  have hsize := hcopied.chunkSize
  have hroom := hready.room
  have hlength : 0 < bytes.length := List.length_pos_iff.mpr hbytes
  set copied := min (writer.chunkSize - writer.buffer.length) bytes.length
  have htake : (writer.buffer ++ bytes.take copied).length = writer.buffer.length + copied := by
    rw [List.length_append, List.length_take]
    omega
  have hleft : (bytes.drop copied).length < bytes.length := by
    rw [List.length_drop]
    omega
  refine triple_bind (fun _ state => Copied size object total (bytes.drop copied) state ∧
    state.buffer.length = writer.buffer.length + copied ∧ state.upload = writer.upload) ?_
    fun _ => ?_
  · apply triple_modify
    intro state hstate
    rw [hstate]
    refine ⟨⟨hsize, hcopied.object, hcopied.hasher, hcopied.byteLength, ?_, hcopied.parts⟩,
      htake, rfl⟩
    have hsame := hcopied.bytes
    rw [← List.take_append_drop copied bytes] at hsame
    simpa only [List.append_assoc] using hsame
  · apply triple_get_bind
    intro state ⟨hstate, hbuffer, hupload⟩
    have hstateSize := hstate.chunkSize
    refine triple_bind (fun _ next => Copied size object total (bytes.drop copied) next ∧
      Ready size next) ?_ fun _ => triple_pure fun _ hnext => ⟨hnext, hleft⟩
    apply triple_when
    · intro hfull
      apply (triple_uploadPart hpositive).weaken
      · intro next hnext
        rw [hnext]
        exact ⟨hstate, hfull.trans hstateSize⟩
      · intro _ next hnext
        exact hnext
    · intro hnot next hnext
      rw [hnext]
      exact ⟨hstate, by omega, hupload ▸ hready.opened⟩

theorem triple_copyTurn (hpositive : 0 < size) (bytes : List UInt8) (n : Nat) :
    Triple (fun writer => (Copied size object total bytes writer ∧ Ready size writer) ∧
        bytes.length = n)
      (copyTurn bytes)
      (Sum.elim (fun left writer => (Copied size object total left writer ∧ Ready size writer) ∧
          left.length < n)
        fun _ writer => Copied size object total [] writer ∧ Ready size writer) Ends := by
  unfold copyTurn
  split
  · rename_i hempty
    rw [List.isEmpty_iff] at hempty
    apply triple_pure
    intro writer ⟨hwriter, _⟩
    rwa [hempty] at hwriter
  · rename_i hbytes
    rw [List.isEmpty_iff] at hbytes
    rw [map_eq_pure_bind]
    intro writer ⟨hwriter, hn⟩
    refine triple_bind _ (triple_copy hpositive hbytes) ?_ writer hwriter
    intro left
    apply triple_pure
    intro next ⟨hnext, hlt⟩
    exact ⟨hnext, hn ▸ hlt⟩

/-- A push that succeeds moves its bytes to the parts and the buffer; its loop ends. -/
theorem triple_push (hpositive : 0 < size) (bytes : List UInt8) :
    Triple (fun writer => Copied size object total [] writer ∧ Ready size writer) (push bytes)
      (fun _ writer => Copied size object (total ++ bytes) [] writer ∧ Ready size writer)
      Ends := by
  apply triple_get_bind
  intro writer ⟨hcopied, hready⟩
  refine triple_bind (fun _ state => state = writer) ?_ fun _ => ?_
  · apply triple_when
    · intro _
      exact triple_throw fun _ _ => by simp [Ends]
    · intro _ state hstate
      exact hstate
  refine triple_bind (fun _ state => (Copied size object (total ++ bytes) bytes state ∧
    Ready size state) ∧ bytes.length < bytes.length + 1) ?_ fun _ => ?_
  · apply triple_modify
    intro state hstate
    rw [hstate]
    refine ⟨⟨⟨hcopied.chunkSize, hcopied.object, ?_, ?_, ?_, hcopied.parts⟩, hready.room,
      hready.opened⟩, Nat.lt_succ_self _⟩
    · rw [hcopied.hasher]
    · rw [hcopied.byteLength, List.length_append]
    · have hbytes := hcopied.bytes
      rw [List.append_nil] at hbytes
      rw [← hbytes]
  · exact triple_loop (fun left writer => Copied size object (total ++ bytes) left writer ∧
      Ready size writer) (fun left _ => left.length) (triple_copyTurn hpositive) _ bytes

theorem triple_pushes (hpositive : 0 < size) (chunks : List (List UInt8)) :
    Triple (fun writer => Copied size object total [] writer ∧ Ready size writer)
      (forM chunks push)
      (fun _ writer => Copied size object (total ++ chunks.flatten) [] writer ∧ Ready size writer)
      Ends := by
  induction chunks generalizing total with
  | nil =>
    apply triple_pure
    intro writer hwriter
    rwa [List.flatten_nil, List.append_nil]
  | cons chunk chunks ih =>
    rw [List.forM_cons]
    refine triple_bind _ (triple_push hpositive chunk) fun _ => ?_
    rw [List.flatten_cons, ← List.append_assoc]
    exact ih

end Pushes

/-! ## Finishing -/

section Finishing

variable {size : Nat} {object : Option StoredObject} {total : List UInt8}

/-- How `total` is stored: in full parts with a shorter tail, or as a whole when it is shorter
than a part. -/
inductive StoredAs (size : Nat) (total : List UInt8) : StoredObject → Prop where
  | whole (short : total.length < size) : StoredAs size total (.whole total)
  | multipart {parts : List (List UInt8)} {tail : List UInt8} (nonempty : parts ≠ [])
      (full : ∀ part ∈ parts, part.length = size) (short : tail.length < size)
      (joined : parts.flatten ++ tail = total) :
      StoredAs size total (.multipart (parts ++ if tail = [] then [] else [tail]))

theorem triple_finishUpload :
    Triple (fun writer => (Copied size object total [] writer ∧ Ready size writer) ∧
        writer.upload.isSome) finishUpload
      (fun _ writer => (∃ stored, writer.store.object = some stored ∧ StoredAs size total stored) ∧
        writer.hasher = total ∧ writer.byteLength = total.length) Ends := by
  apply triple_get_bind
  intro writer ⟨⟨hcopied, hready⟩, hsome⟩
  obtain ⟨parts, hparts⟩ := Option.isSome_iff_exists.mp hsome
  have hnonempty : parts ≠ [] := by
    intro hnil
    exact hready.opened (hnil ▸ hparts)
  have hfull := hcopied.parts
  have hjoined := hcopied.bytes
  rw [hparts, Option.getD_some] at hfull hjoined
  rw [List.append_nil] at hjoined
  refine triple_bind (fun _ state => state.hasher = total ∧ state.byteLength = total.length ∧
    state.upload = some (parts ++ if writer.buffer = [] then [] else [writer.buffer])) ?_
    fun _ => ?_
  · apply triple_when
    · intro hbuffer
      refine triple_bind (fun _ state => state = { writer with buffer := [] }) ?_ fun _ => ?_
      · apply triple_modify
        intro state hstate
        rw [hstate]
      · apply triple_putPartOrAbort
        intro state hstate
        rw [hstate]
        refine ⟨hcopied.hasher, hcopied.byteLength, ?_⟩
        show writer.upload.map (· ++ [writer.buffer]) = _
        rw [hparts, if_neg hbuffer, Option.map_some]
    · intro hbuffer state hstate
      rw [hstate, if_pos (not_not.mp hbuffer), List.append_nil]
      exact ⟨hcopied.hasher, hcopied.byteLength, hparts⟩
  · refine triple_bind (fun reply state => reply = .done → _) (triple_request ?_) fun reply =>
      triple_unless_done ?_
    · intro state ⟨hhasher, hbyteLength, hupload⟩
      refine ⟨⟨_, ?_, .multipart hnonempty hfull hready.room hjoined⟩, hhasher, hbyteLength⟩
      show state.upload.map StoredObject.multipart = _
      rw [hupload, Option.map_some]
    · refine triple_bind _ triple_abort fun _ => ?_
      exact triple_bind _ triple_deleteCompletedObject fun _ => triple_unavailable

theorem triple_finishObject :
    Triple (fun writer => (Copied size object total [] writer ∧ Ready size writer) ∧
        writer.upload = none) finishObject
      (fun _ writer => (∃ stored, writer.store.object = some stored ∧ StoredAs size total stored) ∧
        writer.hasher = total ∧ writer.byteLength = total.length) Ends := by
  apply triple_get_bind
  intro writer ⟨⟨hcopied, hready⟩, hnone⟩
  have hbuffer : writer.buffer = total := by
    have hbytes := hcopied.bytes
    rw [hnone] at hbytes
    simpa using hbytes
  refine triple_bind (fun _ state => state.hasher = total ∧ state.byteLength = total.length) ?_
    fun _ => ?_
  · apply triple_modify
    intro state hstate
    rw [hstate]
    exact ⟨hcopied.hasher, hcopied.byteLength⟩
  · refine triple_bind (fun reply state => reply = .done → _) (triple_request ?_) fun reply =>
      triple_unless_done ?_
    · intro state ⟨hhasher, hbyteLength⟩
      have hroom := hready.room
      rw [hbuffer] at hroom ⊢
      exact ⟨⟨_, rfl, .whole hroom⟩, hhasher, hbyteLength⟩
    · exact triple_bind _ triple_deleteCompletedObject fun _ => triple_unavailable

theorem triple_finish (E : Encoding) :
    Triple (fun writer => Copied size object total [] writer ∧ Ready size writer) (finish E)
      (fun uploaded writer =>
        (∃ stored, writer.store.object = some stored ∧ StoredAs size total stored) ∧
        uploaded = ⟨total.length, E.sha256 total⟩) Ends := by
  refine triple_bind (fun _ writer =>
    (∃ stored, writer.store.object = some stored ∧ StoredAs size total stored) ∧
    writer.hasher = total ∧ writer.byteLength = total.length) ?_ fun _ => ?_
  · apply triple_get_bind
    intro writer hwriter
    split
    · rename_i hsome
      apply triple_finishUpload.weaken
      · intro state hstate
        rw [hstate]
        exact ⟨hwriter, hsome⟩
      · intro _ _ hstate
        exact hstate
    · rename_i hnone
      apply triple_finishObject.weaken
      · intro state hstate
        rw [hstate]
        exact ⟨hwriter, by simpa using hnone⟩
      · intro _ _ hstate
        exact hstate
  · apply triple_get_bind
    intro writer ⟨hstored, hhasher, hbyteLength⟩
    apply triple_pure
    intro state hstate
    rw [hstate, hhasher, hbyteLength]
    exact ⟨hstored, rfl⟩

/-- A writer that stages chunks stores their concatenation, and its copy loops end. -/
theorem triple_stage (E : Encoding) (hpositive : 0 < size) (chunks : List (List UInt8)) :
    Triple (fun writer => ∃ store failures, writer = new store size failures) (stage E chunks)
      (fun uploaded writer =>
        (∃ stored, writer.store.object = some stored ∧ StoredAs size chunks.flatten stored) ∧
        uploaded = ⟨chunks.flatten.length, E.sha256 chunks.flatten⟩) Ends := by
  intro writer ⟨store, failures, hnew⟩
  have hcopied : Copied size store.object [] [] writer := by
    rw [hnew]
    exact ⟨rfl, rfl, rfl, rfl, rfl, by simp [new]⟩
  have hready : Ready size writer := by
    rw [hnew]
    exact ⟨hpositive, by simp [new]⟩
  refine triple_bind _ (triple_pushes hpositive chunks) (fun _ => ?_) writer ⟨hcopied, hready⟩
  exact triple_finish E

end Finishing

namespace StoredAs

variable {size : Nat} {total : List UInt8} {stored stored' : StoredObject}

theorem content_eq (h : StoredAs size total stored) : stored.content = total := by
  cases h with
  | whole _ => rfl
  | @multipart parts tail _ _ _ joined =>
    rw [StoredObject.content, List.flatten_append, ← joined]
    split
    · rename_i hempty
      rw [hempty]
      rfl
    · rw [List.flatten_singleton]

theorem isMultipart_iff (h : StoredAs size total stored) :
    (∃ parts, stored = .multipart parts) ↔ size ≤ total.length := by
  cases h with
  | whole short =>
    constructor
    · intro ⟨_, heq⟩
      cases heq
    · intro hle
      omega
  | @multipart parts tail nonempty full _ joined =>
    constructor
    · intro _
      obtain ⟨part, rest, rfl⟩ := List.exists_cons_of_ne_nil nonempty
      have hpart := full part List.mem_cons_self
      rw [← joined, List.flatten_cons, List.length_append, List.length_append]
      omega
    · intro _
      exact ⟨_, rfl⟩

theorem parts_full (hpositive : 0 < size) (h : StoredAs size total stored)
    {parts : List (List UInt8)} (hparts : stored = .multipart parts) :
    (∀ part ∈ parts.dropLast, part.length = size) ∧ ∀ part ∈ parts, part ≠ [] := by
  cases h with
  | whole _ => cases hparts
  | @multipart front tail _ full _ _ =>
    have hfront : ∀ part ∈ front, part ≠ [] := by
      intro part hpart hempty
      have hlength := full part hpart
      rw [hempty] at hlength
      exact absurd hlength (by simpa using hpositive.ne)
    obtain rfl := StoredObject.multipart.inj hparts
    split
    · rw [List.append_nil]
      exact ⟨fun part hpart => full part (List.mem_of_mem_dropLast hpart), hfront⟩
    · rename_i htail
      rw [List.dropLast_concat]
      refine ⟨full, ?_⟩
      intro part hpart
      rcases List.mem_append.mp hpart with hpart | hpart
      · exact hfront part hpart
      · rw [List.mem_singleton.mp hpart]
        exact htail

/-- Full blocks and a shorter tail are determined by what they join to. -/
theorem blocks_unique {blocks blocks' : List (List UInt8)} {tail tail' : List UInt8}
    (hfull : ∀ block ∈ blocks, block.length = size) (hshort : tail.length < size)
    (hfull' : ∀ block ∈ blocks', block.length = size) (hshort' : tail'.length < size)
    (hjoined : blocks.flatten ++ tail = blocks'.flatten ++ tail') :
    blocks = blocks' ∧ tail = tail' := by
  induction blocks generalizing blocks' with
  | nil =>
    cases blocks' with
    | nil => exact ⟨rfl, hjoined⟩
    | cons block' rest' =>
      -- a block does not fit into a tail
      have hblock' := hfull' block' List.mem_cons_self
      have hlength := congrArg List.length hjoined
      simp only [List.flatten_nil, List.nil_append, List.flatten_cons, List.length_append]
        at hlength
      omega
  | cons block rest ih =>
    have hblock := hfull block List.mem_cons_self
    cases blocks' with
    | nil =>
      have hlength := congrArg List.length hjoined
      simp only [List.flatten_nil, List.nil_append, List.flatten_cons, List.length_append]
        at hlength
      omega
    | cons block' rest' =>
      have hblock' := hfull' block' List.mem_cons_self
      rw [List.flatten_cons, List.flatten_cons, List.append_assoc, List.append_assoc] at hjoined
      obtain ⟨hhead, hrest⟩ := List.append_inj hjoined (hblock.trans hblock'.symm)
      obtain ⟨hrestEq, htail⟩ := ih (fun b hb => hfull b (List.mem_cons_of_mem _ hb))
        (fun b hb => hfull' b (List.mem_cons_of_mem _ hb)) hrest
      exact ⟨by rw [hhead, hrestEq], htail⟩

theorem unique (h : StoredAs size total stored) (h' : StoredAs size total stored') :
    stored = stored' := by
  have hiff := h.isMultipart_iff.trans h'.isMultipart_iff.symm
  cases h with
  | whole _ =>
    cases h' with
    | whole _ => rfl
    | multipart _ _ _ _ =>
      obtain ⟨_, heq⟩ := hiff.mpr ⟨_, rfl⟩
      cases heq
  | multipart _ full short joined =>
    cases h' with
    | whole _ =>
      obtain ⟨_, heq⟩ := hiff.mp ⟨_, rfl⟩
      cases heq
    | multipart _ full' short' joined' =>
      obtain ⟨rfl, rfl⟩ := blocks_unique full short full' short' (joined.trans joined'.symm)
      rfl

end StoredAs

end StagingWriter

open StagingWriter

/-- A staged upload stores exactly the bytes that were pushed, however they were cut into
chunks. -/
theorem staged_upload_exact (E : Encoding) {chunkSize : Nat} (hpositive : 0 < chunkSize)
    (store : StagingStore) (failures : Nat) (chunks : List (List UInt8)) :
    ((stage E chunks).exec (new store chunkSize failures)).1 ≠ .error .copying ∧
    ∀ uploaded writer,
      (stage E chunks).exec (new store chunkSize failures) = (.ok uploaded, writer) →
      ∃ stored, writer.store.object = some stored ∧ stored.content = chunks.flatten ∧
        uploaded.byteLength = chunks.flatten.length ∧ uploaded.digest = E.sha256 chunks.flatten ∧
        (∀ parts, stored = .multipart parts →
          (∀ part ∈ parts.dropLast, part.length = chunkSize) ∧ ∀ part ∈ parts, part ≠ []) ∧
        ((∃ parts, stored = .multipart parts) ↔ chunkSize ≤ chunks.flatten.length) ∧
        ∀ (store' : StagingStore) (failures' : Nat) (chunks' : List (List UInt8))
          (uploaded' : UploadedObject) (writer' : StagingWriter),
          chunks'.flatten = chunks.flatten →
          (stage E chunks').exec (new store' chunkSize failures') = (.ok uploaded', writer') →
          uploaded' = uploaded ∧ writer'.store.object = some stored := by
  constructor
  · intro herror
    have hends := (triple_stage E hpositive chunks).of_exec_error ⟨store, failures, rfl⟩
      (Prod.ext herror rfl)
    exact hends rfl
  · intro uploaded writer hexec
    obtain ⟨⟨stored, hobject, hstored⟩, huploaded⟩ :=
      (triple_stage E hpositive chunks).of_exec_ok ⟨store, failures, rfl⟩ hexec
    refine ⟨stored, hobject, hstored.content_eq, ?_, ?_, fun parts => hstored.parts_full hpositive,
      hstored.isMultipart_iff, ?_⟩
    · rw [huploaded]
    · rw [huploaded]
    · intro store' failures' chunks' uploaded' writer' hflatten hexec'
      obtain ⟨⟨stored', hobject', hstored'⟩, huploaded'⟩ :=
        (triple_stage E hpositive chunks').of_exec_ok ⟨store', failures', rfl⟩ hexec'
      rw [hflatten] at hstored' huploaded'
      exact ⟨huploaded'.trans huploaded.symm, by rw [hobject', hstored'.unique hstored]⟩

/-- Three bytes in three chunks, stored in parts of two. -/
theorem staged_upload_exact_two_parts :
    ∃ uploaded writer,
      (stage ⟨fun _ => none, fun bytes => ⟨bytes⟩, fun _ => "", some⟩ [[1], [2, 3], []]).exec
        (new ⟨none, fun _ => .done⟩ 2 0) = (.ok uploaded, writer) ∧
      ∃ stored, writer.store.object = some stored ∧ stored.content = [1, 2, 3] ∧
        ∃ parts, stored = .multipart parts := by
  refine ⟨_, _, rfl, ?_⟩
  obtain ⟨stored, hobject, hcontent, _, _, _, hmultipart, _⟩ :=
    (staged_upload_exact ⟨fun _ => none, fun bytes => ⟨bytes⟩, fun _ => "", some⟩ (by decide : 0 < 2)
      ⟨none, fun _ => .done⟩ 0 [[1], [2, 3], []]).2 _ _ rfl
  exact ⟨stored, hobject, hcontent, hmultipart.mpr (by decide)⟩

end StateKnot
