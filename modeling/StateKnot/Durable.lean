import StateKnot.JsonReading
import StateKnot.Budget.Usage
import StateKnot.Tool.Outcome

/-!
# Reading records back

A durable record is written field by field and read back through the checks that
build it, part by part.  `reread` is what a record becomes on that way, or `none`
where a check refuses it.  JSON values pass through the stored text
(`Encoding.transport`) and are read back under the default limits.

A value read under wider limits may not come back; everything else here does
where the text keeps the trees.
-/

namespace StateKnot

open Lib

variable {E : Encoding}

/-! ## JSON values -/

/-- Arrays in arrays, `n + 1` deep. -/
def Json.nested : Nat → Json
  | 0 => .arr []
  | n + 1 => .arr [nested n]

namespace BoundedJson

def reread (E : Encoding) (json : BoundedJson) : Option BoundedJson := do
  let tree ← E.transport json.value
  (deserialize tree).toOption

/-- A value that was read under some limits comes back exactly when it fits the default
ones. -/
theorem reread_eq_some (hE : E.KeepsTrees) {tree : Json} {limits : JsonLimits}
    {json json' : BoundedJson} (h : tryFromValueWithLimits tree limits = .ok json) :
    json.reread E = some json' ↔ json.value.FitsLimits .default ∧ json' = json := by
  rw [reread, hE, Option.bind_eq_bind, Option.bind_some, toOption_eq_some, deserialize,
    reread_eq_ok h]

end BoundedJson

/-! ## Costs and usage -/

namespace Costs

/-- The visitor of a sequence of costs stops at the bound, then collects. -/
def visitSeq (values : List Money) : Except CostCollectionError Costs := do
  reject (maxCostCurrencies < values.length) (.tooMany maxCostCurrencies (maxCostCurrencies + 1))
  tryNew values

theorem tryNew_values (costs : Costs) : tryNew costs.values = .ok costs := by
  rw [tryNew, attach_eq_ok]
  refine ⟨costs.values, ?_, ?_⟩
  · exact collect_accept_eq_ok.mpr ⟨rfl, costs.bounded, costs.sorted.nodup_keys⟩
  · exact congrArg Except.ok (ext_values costs.sorted.sortByKey_eq)

def reread (costs : Costs) : Option Costs := (visitSeq costs.values).toOption

@[simp] theorem reread_eq (costs : Costs) : costs.reread = some costs := by
  rw [reread, toOption_eq_some]
  simp only [visitSeq, bind_eq_ok, reject_eq_ok, exists_const, not_lt]
  exact ⟨costs.bounded, tryNew_values costs⟩

end Costs

namespace BudgetUsage

theorem build_fields (usage : BudgetUsage) :
    build usage.counts usage.knownCosts usage.unpricedCostEvents = .ok usage := by
  rw [build, attach_eq_ok]
  exact ⟨(), checkSubsets_eq_ok.mpr usage.subsets, rfl⟩

def reread (usage : BudgetUsage) : Option BudgetUsage := do
  let knownCosts ← usage.knownCosts.reread
  (build usage.counts knownCosts usage.unpricedCostEvents).toOption

@[simp] theorem reread_eq (usage : BudgetUsage) : usage.reread = some usage := by
  simp [reread, build_fields, Except.toOption]

end BudgetUsage

/-! ## Failures -/

theorem failureDetailsJsonLimits_narrower :
    Json.Narrower failureDetailsJsonLimits .default := by
  constructor <;> decide

namespace FailureDetails

def reread (E : Encoding) (details : FailureDetails) : Option FailureDetails := do
  let value ← details.value.reread E
  (tryNew details.schema value).toOption

/-- Details fit the default limits, which are the wider ones, and then their own again. -/
@[simp] theorem reread_eq (hE : E.KeepsTrees) (details : FailureDetails) :
    details.reread E = some details := by
  obtain ⟨tree, htree⟩ := details.within
  have hfits : details.value.value.FitsLimits failureDetailsJsonLimits :=
    BoundedJson.fitsLimits_of_read htree
  have hvalue : details.value.reread E = some details.value :=
    (BoundedJson.reread_eq_some hE htree).mpr ⟨hfits.mono failureDetailsJsonLimits_narrower, rfl⟩
  rw [reread, hvalue, Option.bind_eq_bind, Option.bind_some, toOption_eq_some, tryNew, attach_eq_ok]
  exact ⟨details.value, (BoundedJson.reread_eq_ok htree).mpr ⟨hfits, rfl⟩, rfl⟩

end FailureDetails

namespace Failure

def reread (E : Encoding) (failure : Failure) : Option Failure := do
  let details ← failure.details.mapM (FailureDetails.reread E)
  let bare ← (new failure.id failure.category failure.code failure.origin failure.message
    failure.retryAdvice).toOption
  return { bare with details := details, causedByEventId := failure.causedByEventId }

@[simp] theorem reread_eq (hE : E.KeepsTrees) (failure : Failure) :
    failure.reread E = some failure := by
  have hdetails : failure.details.mapM (FailureDetails.reread E) = some failure.details := by
    cases failure.details <;> simp [hE]
  have hnew : new failure.id failure.category failure.code failure.origin failure.message
      failure.retryAdvice =
        .ok { failure with details := none, causedByEventId := none } := by
    rw [new, attach_eq_ok]
    exact ⟨(), failure.recovery_ok, rfl⟩
  rw [reread, hdetails, hnew]
  rfl

end Failure

/-! ## Artifacts -/

namespace ArtifactRepresentation

def reread (representation : ArtifactRepresentation E) : Option (ArtifactRepresentation E) :=
  (new representation.mediaType representation.modality representation.byteLength
    representation.digest representation.schema).toOption

@[simp] theorem reread_eq (representation : ArtifactRepresentation E) :
    representation.reread = some representation := by
  rw [reread, toOption_eq_some, new, attach_eq_ok]
  exact ⟨(), representation.representation_ok, rfl⟩

end ArtifactRepresentation

namespace ArtifactRef

def reread (artifact : ArtifactRef E) : Option (ArtifactRef E) := do
  let representation ← artifact.representation.reread
  (new artifact.identity artifact.presentation representation artifact.metadata
    artifact.retentionClass artifact.provenance artifact.parents).toOption

@[simp] theorem reread_eq (artifact : ArtifactRef E) : artifact.reread = some artifact := by
  rw [reread, ArtifactRepresentation.reread_eq, Option.bind_eq_bind, Option.bind_some,
    toOption_eq_some, new, attach_eq_ok]
  exact ⟨(), artifact.ref_ok, rfl⟩

end ArtifactRef

namespace ToolArtifacts

theorem ext_values {a b : ToolArtifacts E} (h : a.values = b.values) : a = b := by
  have htotal : a.totalBytes = b.totalBytes :=
    Count.value_injective (by rw [a.total_eq, b.total_eq, h])
  cases a
  cases b
  simp_all

/-- A turn of the collecting loop appends an artifact wherever the longer list is one. -/
theorem push_eq_ok {artifacts pushed : ToolArtifacts E} {value : ArtifactRef E} :
    artifacts.push value = .ok pushed ↔ pushed.values = artifacts.values ++ [value] := by
  unfold push
  constructor
  · intro h
    split_ifs at h
    split at h
    · cases h
    · cases h
      rfl
  · intro h
    have hlength : artifacts.values.length ≠ 64 := by
      have hbounded := pushed.bounded
      rw [h, List.length_append, List.length_singleton] at hbounded
      omega
    have hdistinct := pushed.distinct
    have htotal := pushed.total_eq
    rw [h] at hdistinct htotal
    have hfresh := (nodup_map_append_singleton.mp hdistinct).2
    have hsum : artifacts.totalBytes.checkedAdd value.representation.byteLength =
        some pushed.totalBytes := by
      rw [Count.checkedAdd_eq_some, htotal, artifacts.total_eq]
      simp
    rw [dif_neg hlength, dif_neg hfresh]
    split
    · rename_i hnone
      rw [hsum] at hnone
      cases hnone
    · exact congrArg Except.ok (ext_values h.symm)

theorem exists_prefix {artifacts : ToolArtifacts E} {before after : List (ArtifactRef E)}
    (h : artifacts.values = before ++ after) :
    ∃ first : ToolArtifacts E, first.values = before := by
  have hbounded := artifacts.bounded
  have hdistinct := artifacts.distinct
  have htotal := artifacts.total_eq
  have hmax := artifacts.totalBytes.bounded
  rw [h, List.length_append] at hbounded
  rw [h, List.map_append] at hdistinct
  rw [h, List.map_append, List.sum_append] at htotal
  exact ⟨⟨before, ⟨(before.map (·.representation.byteLength.value)).sum, by omega⟩, by omega,
    hdistinct.of_append_left, rfl⟩, rfl⟩

theorem foldlM_push_eq_ok {values : List (ArtifactRef E)} :
    ∀ {artifacts collected : ToolArtifacts E},
      values.foldlM push artifacts = .ok collected ↔
        collected.values = artifacts.values ++ values := by
  induction values with
  | nil =>
    intro artifacts collected
    rw [List.foldlM_nil, List.append_nil]
    show Except.ok artifacts = .ok collected ↔ _
    rw [Except.ok.injEq]
    exact ⟨fun h => by rw [h], fun h => ext_values h.symm⟩
  | cons value values ih =>
    intro artifacts collected
    have hassoc : artifacts.values ++ value :: values = artifacts.values ++ [value] ++ values := by
      simp
    rw [List.foldlM_cons, bind_eq_ok, hassoc]
    constructor
    · intro ⟨pushed, hpush, hrest⟩
      rw [← push_eq_ok.mp hpush]
      exact ih.mp hrest
    · intro h
      obtain ⟨pushed, hpushed⟩ := exists_prefix h
      exact ⟨pushed, push_eq_ok.mpr hpushed, ih.mpr (by rw [h, hpushed])⟩

/-- One turn of the visitor, which checks before it collects. -/
def acceptVisited (seen : List (ArtifactRef E)) (value : ArtifactRef E) :
    Except ToolArtifactsError Unit := do
  reject (seen.length = 64) (.tooMany 64 65)
  reject (value.identity ∈ seen.map (·.identity)) .duplicateIdentity

/-- `visit_seq`. -/
def visitSeq (values : List (ArtifactRef E)) : Except ToolArtifactsError (ToolArtifacts E) := do
  let visited ← collect acceptVisited [] values
  tryNew visited

theorem collect_acceptVisited_eq_ok {values visited : List (ArtifactRef E)} :
    collect acceptVisited [] values = .ok visited ↔ visited = values ∧ values.length ≤ 64 ∧
      (values.map (·.identity)).Nodup :=
  collect_eq_ok (by simp [acceptVisited, bind_eq_ok])

def reread (artifacts : ToolArtifacts E) : Option (ToolArtifacts E) := do
  let values ← artifacts.values.mapM ArtifactRef.reread
  (visitSeq values).toOption

@[simp] theorem reread_eq (artifacts : ToolArtifacts E) : artifacts.reread = some artifacts := by
  have hvalues : artifacts.values.mapM ArtifactRef.reread = some artifacts.values :=
    mapM_eq_some_self fun value _ => value.reread_eq
  rw [reread, hvalues, Option.bind_eq_bind, Option.bind_some, toOption_eq_some, visitSeq,
    bind_eq_ok]
  exact ⟨artifacts.values,
    collect_acceptVisited_eq_ok.mpr ⟨rfl, artifacts.bounded, artifacts.distinct⟩,
    foldlM_push_eq_ok.mpr rfl⟩

end ToolArtifacts

end StateKnot
