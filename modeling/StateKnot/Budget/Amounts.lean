import StateKnot.Identity

/-!
# Budgets and usage

A resolved budget bounds nineteen counters, a deadline and known costs by
currency.  Usage is recorded under the same counters: sixteen of them add up, the
other three are high-water marks.  Charging a budget is checked arithmetic on
64-bit counts in a fixed order of dimensions, so the first violated dimension is
the one reported.

The records of the source have one field per counter; here they are functions of
the counter, and a check over all fields is a loop over `Counter.all`.
-/

namespace StateKnot

open Lib

/-! ## Counts -/

def Count.max : Nat := 18446744073709551615

/-- An unsigned 64-bit count: `ExecutionCount`, `TokenCount` and `ByteCount` alike. -/
structure Count where
  value : Nat
  bounded : value ≤ Count.max
deriving DecidableEq

namespace Count

theorem value_injective : Function.Injective (value : Count → Nat) := by
  intro a b h
  cases a
  cases b
  simpa using h

/-- A literal count: its bound is evaluated where it is written. -/
def ofNat (value : Nat) (h : decide (value ≤ Count.max) = true := by exact Eq.refl true) : Count :=
  ⟨value, of_decide_eq_true h⟩

theorem sub_bounded (a b : Count) : a.value - b.value ≤ Count.max :=
  (Nat.sub_le _ _).trans a.bounded

instance : LinearOrder Count := LinearOrder.lift' value value_injective

theorem le_iff {a b : Count} : a ≤ b ↔ a.value ≤ b.value := Iff.rfl

instance : Zero Count := ⟨⟨0, Nat.zero_le _⟩⟩

@[simp] theorem value_zero : (0 : Count).value = 0 := rfl

def checkedAdd (a b : Count) : Option Count :=
  if h : a.value + b.value ≤ Count.max then some ⟨a.value + b.value, h⟩ else none

def checkedSub (a b : Count) : Option Count :=
  if b.value ≤ a.value then
    some ⟨a.value - b.value, (Nat.sub_le _ _).trans a.bounded⟩
  else none

theorem checkedAdd_eq_some {a b c : Count} :
    a.checkedAdd b = some c ↔ c.value = a.value + b.value := by
  unfold checkedAdd
  have hbounded := c.bounded
  split
  · rw [Option.some.injEq, ← value_injective.eq_iff, eq_comm]
  · simp only [reduceCtorEq, false_iff]
    omega

theorem checkedSub_eq_some {a b c : Count} :
    a.checkedSub b = some c ↔ c.value + b.value = a.value := by
  unfold checkedSub
  split
  · rw [Option.some.injEq, ← value_injective.eq_iff]
    show a.value - b.value = c.value ↔ _
    omega
  · simp only [reduceCtorEq, false_iff]
    omega

/-- `byte_count_from_usize` and `execution_count_from_usize`. -/
def ofUsize (value : Nat) : Count := ⟨min value Count.max, Nat.min_le_right _ _⟩

/-- Counts are serialized as decimal strings. -/
def toJson (count : Count) : Json := .str (Nat.repr count.value)

end Count

/-! ## Costs -/

/-- A three-letter currency code, ordered bytewise. -/
abbrev CurrencyCode := Ident .currency

structure Money where
  currency : CurrencyCode
  microUnits : Count
deriving DecidableEq

def Money.toJson (money : Money) : Json :=
  .obj [("currency", money.currency.toJson), ("micro_units", money.microUnits.toJson)]

def maxCostCurrencies : Nat := 16

inductive CostCollectionError where
  | duplicateCurrency (currency : CurrencyCode)
  | tooMany (max observed : Nat)
  | overflow (currency : CurrencyCode)
deriving DecidableEq

/-- Amounts by currency, in ascending order of currency. -/
structure Costs where
  values : List Money
  sorted : StrictlySorted Money.currency values
  bounded : values.length ≤ maxCostCurrencies
deriving DecidableEq

/-- Ceilings by currency; a currency without one is not budgeted. -/
abbrev CostLimits := Costs
/-- Known charges by currency. -/
abbrev KnownCosts := Costs

namespace Costs

theorem ext_values {a b : Costs} (h : a.values = b.values) : a = b := by
  cases a
  cases b
  simpa using h

def empty : Costs := ⟨[], List.Pairwise.nil, Nat.zero_le _⟩

def get (costs : Costs) (currency : CurrencyCode) : Option Money :=
  binarySearchBy (fun money => compare money.currency currency) costs.values

/-- The amount of a currency, zero when it is not listed. -/
def amount (costs : Costs) (currency : CurrencyCode) : Nat :=
  ((costs.get currency).map (·.microUnits.value)).getD 0

def currencies (costs : Costs) : List CurrencyCode := costs.values.map Money.currency

/-- One turn of the loop of `collect_costs`. -/
def accept (collected : List Money) (money : Money) : Except CostCollectionError Unit := do
  reject (money.currency ∈ collected.map Money.currency) (.duplicateCurrency money.currency)
  reject (collected.length = maxCostCurrencies)
    (.tooMany maxCostCurrencies (maxCostCurrencies + 1))

theorem collect_accept_eq_ok {values collected : List Money} :
    collect accept [] values = .ok collected ↔ collected = values ∧
      values.length ≤ maxCostCurrencies ∧ (values.map Money.currency).Nodup :=
  collect_eq_ok (by simp [accept, bind_eq_ok, and_comm])

/-- `collect_costs`. -/
def tryNew (values : List Money) : Except CostCollectionError Costs :=
  attach (collect accept [] values) fun collected h =>
    .ok ⟨sortByKey Money.currency collected,
      strictlySorted_sortByKey (by
        obtain ⟨rfl, _, hnodup⟩ := collect_accept_eq_ok.mp h
        exact hnodup),
      by
        obtain ⟨rfl, hlength, _⟩ := collect_accept_eq_ok.mp h
        simpa using hlength⟩

theorem get_eq_some {costs : Costs} {currency : CurrencyCode} {money : Money} :
    costs.get currency = some money ↔ money ∈ costs.values ∧ money.currency = currency :=
  binarySearchBy_eq_some costs.sorted

theorem get_eq_none {costs : Costs} {currency : CurrencyCode} :
    costs.get currency = none ↔ currency ∉ costs.currencies := by
  simp [Option.eq_none_iff_forall_ne_some, get_eq_some, currencies]

/-- Gives every listed currency a new amount. -/
def mapAmounts (costs : Costs) (f : Money → Count) : Costs where
  values := costs.values.map (fun money => ⟨money.currency, f money⟩)
  sorted := costs.sorted.map_of_key_eq (fun _ _ => rfl)
  bounded := by simpa using costs.bounded

/-- Lists a new currency. -/
def insert (costs : Costs) (money : Money) (hfresh : money.currency ∉ costs.currencies)
    (hroom : costs.values.length ≠ maxCostCurrencies) : Costs where
  values := sortByKey Money.currency (money :: costs.values)
  sorted := strictlySorted_sortByKey (List.nodup_cons.mpr ⟨hfresh, costs.sorted.nodup_keys⟩)
  bounded := by
    have hbounded := costs.bounded
    rw [length_sortByKey, List.length_cons]
    omega

/-- One turn of the loop of `checked_accumulate`. -/
def charge (costs : Costs) (money : Money) : Except CostCollectionError Costs :=
  match hget : costs.get money.currency with
  | some existing => do
    let microUnits ← okOr (existing.microUnits.checkedAdd money.microUnits)
      (.overflow money.currency)
    return costs.mapAmounts
      (fun entry => if entry.currency = money.currency then microUnits else entry.microUnits)
  | none =>
    if hfull : costs.values.length = maxCostCurrencies then
      .error (.tooMany maxCostCurrencies (maxCostCurrencies + 1))
    else
      .ok (costs.insert money (get_eq_none.mp hget) hfull)

/-- Adds two sets of costs currency by currency. -/
def checkedAccumulate (costs other : Costs) : Except CostCollectionError Costs :=
  (costs.values ++ other.values).foldlM charge empty

/-- The ceilings in both sets, each at its smaller amount. -/
def mostRestrictive (costs other : Costs) : Costs where
  values := costs.values.filterMap fun left =>
    (other.get left.currency).map fun right =>
      ⟨left.currency, min left.microUnits right.microUnits⟩
  sorted := by
    refine List.pairwise_filterMap.mpr (costs.sorted.imp (fun {a b} hlt x hx y hy => ?_))
    simp only [Option.map_eq_some_iff] at hx hy
    obtain ⟨_, _, rfl⟩ := hx
    obtain ⟨_, _, rfl⟩ := hy
    exact hlt
  bounded := (List.length_filterMap_le _ _).trans costs.bounded

def toJson (costs : Costs) : Json := .arr (costs.values.map Money.toJson)

end Costs

/-! ## Dimensions -/

/-- Everything that a budget error can name. -/
inductive BudgetDimension where
  | deadline | graphDepth | graphSteps | modelAttempts | modelTurns | inputTokens
  | cachedInputTokens | reasoningTokens | outputTokens | toolCalls | writeCalls
  | remoteAgentDelegations | retries | concurrentBranches | fanOut | inputBytes | outputBytes
  | eventBytes | checkpointBytes | artifactBytes | costs
deriving DecidableEq

/-- The counters that budgets bound and usage records. -/
inductive Counter where
  | graphDepth | graphSteps | modelAttempts | modelTurns | inputTokens | cachedInputTokens
  | reasoningTokens | outputTokens | toolCalls | writeCalls | remoteAgentDelegations | retries
  | concurrentBranches | fanOut | inputBytes | outputBytes | eventBytes | checkpointBytes
  | artifactBytes
deriving DecidableEq

inductive CountKind where
  | execution | tokens | bytes

namespace Counter

/-- The counters in the order of the source's fields. -/
def all : List Counter :=
  [.graphDepth, .graphSteps, .modelAttempts, .modelTurns, .inputTokens, .cachedInputTokens,
    .reasoningTokens, .outputTokens, .toolCalls, .writeCalls, .remoteAgentDelegations, .retries,
    .concurrentBranches, .fanOut, .inputBytes, .outputBytes, .eventBytes, .checkpointBytes,
    .artifactBytes]

@[simp] theorem mem_all (counter : Counter) : counter ∈ all := by
  cases counter <;> decide

def dimension : Counter → BudgetDimension
  | .graphDepth => .graphDepth
  | .graphSteps => .graphSteps
  | .modelAttempts => .modelAttempts
  | .modelTurns => .modelTurns
  | .inputTokens => .inputTokens
  | .cachedInputTokens => .cachedInputTokens
  | .reasoningTokens => .reasoningTokens
  | .outputTokens => .outputTokens
  | .toolCalls => .toolCalls
  | .writeCalls => .writeCalls
  | .remoteAgentDelegations => .remoteAgentDelegations
  | .retries => .retries
  | .concurrentBranches => .concurrentBranches
  | .fanOut => .fanOut
  | .inputBytes => .inputBytes
  | .outputBytes => .outputBytes
  | .eventBytes => .eventBytes
  | .checkpointBytes => .checkpointBytes
  | .artifactBytes => .artifactBytes

def text : Counter → String
  | .graphDepth => "graph_depth"
  | .graphSteps => "graph_steps"
  | .modelAttempts => "model_attempts"
  | .modelTurns => "model_turns"
  | .inputTokens => "input_tokens"
  | .cachedInputTokens => "cached_input_tokens"
  | .reasoningTokens => "reasoning_tokens"
  | .outputTokens => "output_tokens"
  | .toolCalls => "tool_calls"
  | .writeCalls => "write_calls"
  | .remoteAgentDelegations => "remote_agent_delegations"
  | .retries => "retries"
  | .concurrentBranches => "concurrent_branches"
  | .fanOut => "fan_out"
  | .inputBytes => "input_bytes"
  | .outputBytes => "output_bytes"
  | .eventBytes => "event_bytes"
  | .checkpointBytes => "checkpoint_bytes"
  | .artifactBytes => "artifact_bytes"

def kind : Counter → CountKind
  | .inputTokens | .cachedInputTokens | .reasoningTokens | .outputTokens => .tokens
  | .inputBytes | .outputBytes | .eventBytes | .checkpointBytes | .artifactBytes => .bytes
  | _ => .execution

/-- High-water marks; the other counters accumulate. -/
def isPeak : Counter → Bool
  | .graphDepth | .concurrentBranches | .fanOut => true
  | _ => false

instance : Fintype Counter := ⟨⟨all, by decide⟩, fun counter => mem_all counter⟩

end Counter

/-- Counts of every counter. -/
abbrev Counts := Counter → Count

/-- Fills the fields of a record in order; the first error is the result. -/
def Counts.tryOf {ε : Type} (field : Counter → Except ε Count) : Except ε Counts := do
  forM Counter.all fun counter => do
    let _ ← field counter
    return ()
  return fun counter => (field counter).toOption.getD 0

theorem Counts.tryOf_eq_ok {ε : Type} {field : Counter → Except ε Count} {counts : Counts} :
    tryOf field = .ok counts ↔ ∀ counter, field counter = .ok (counts counter) := by
  simp only [tryOf, bind_eq_ok, forM_eq_ok, Counter.mem_all, true_implies, exists_const]
  constructor
  · rintro ⟨hfields, hreturn⟩ counter
    obtain ⟨count, hcount, _⟩ := hfields counter
    cases hreturn
    simp only [hcount, Except.toOption, Option.getD_some]
  · intro h
    refine ⟨fun counter => ⟨counts counter, h counter, rfl⟩, ?_⟩
    refine congrArg Except.ok (funext fun counter => ?_)
    simp only [h counter, Except.toOption, Option.getD_some]

/-- Counters that are part of another one. -/
def subsetPairs : List (Counter × Counter) :=
  [(.cachedInputTokens, .inputTokens), (.reasoningTokens, .outputTokens), (.writeCalls, .toolCalls)]

theorem isPeak_of_mem_subsetPairs :
    ∀ pair ∈ subsetPairs, pair.1.isPeak = false ∧ pair.2.isPeak = false := by
  simp [subsetPairs, Counter.isPeak]

/-- No part exceeds the counter it is part of. -/
def SubsetsWithin (counts : Counts) : Prop :=
  ∀ pair ∈ subsetPairs, counts pair.1 ≤ counts pair.2

instance (counts : Counts) : Decidable (SubsetsWithin counts) :=
  List.decidableBAll (fun pair : Counter × Counter => counts pair.1 ≤ counts pair.2) subsetPairs

/-- The three subset checks of budgets and usages. -/
def checkSubsets {ε : Type} (counts : Counts) (error : BudgetDimension → BudgetDimension → ε) :
    Except ε Unit :=
  forM subsetPairs fun pair =>
    reject (counts pair.1 > counts pair.2) (error pair.1.dimension pair.2.dimension)

theorem checkSubsets_eq_ok {ε : Type} {counts : Counts}
    {error : BudgetDimension → BudgetDimension → ε} {u : Unit} :
    checkSubsets counts error = .ok u ↔ SubsetsWithin counts := by
  rw [checkSubsets, forM_eq_ok]
  simp only [reject_eq_ok, not_lt, SubsetsWithin]

def countsJson (counts : Counts) : List (String × Json) :=
  Counter.all.map (fun counter => (counter.text, (counts counter).toJson))

end StateKnot
