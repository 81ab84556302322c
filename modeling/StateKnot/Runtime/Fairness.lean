import StateKnot.Lib.SmoothPicks
import StateKnot.Written
import StateKnot.Runtime.FairScheduler

/-!
# Fairness of the weighted schedule

The scores of the compiled cycle are the credits of smooth picks, so every tenant has
its exact share of a cycle and is never far ahead of it.  The starvation bound of a
tenant is the largest gap between its slots in the repeated cycle.
-/

namespace StateKnot

open Lib

/-! ## Selection -/

theorem preferScore_eq (left right : Int × Nat) :
    preferScore left right = left ∨ preferScore left right = right := by
  unfold preferScore
  split
  · exact .inl rfl
  · exact .inr rfl

theorem le_preferScore (left right : Int × Nat) :
    left.1 ≤ (preferScore left right).1 ∧ right.1 ≤ (preferScore left right).1 := by
  unfold preferScore
  rcases lt_trichotomy left.1 right.1 with h | h | h
  · rw [compare_lt_iff_lt.mpr h]
    exact ⟨h.le, le_refl _⟩
  · split
    · exact ⟨le_refl _, h.ge⟩
    · exact ⟨h.le, le_refl _⟩
  · rw [compare_gt_iff_gt.mpr h]
    exact ⟨le_refl _, h.le⟩

/-- The preferred entry is one of the list and no score exceeds its score. -/
theorem foldl_preferScore (first : Int × Nat) (rest : List (Int × Nat)) :
    rest.foldl preferScore first ∈ first :: rest ∧
      ∀ entry ∈ first :: rest, entry.1 ≤ (rest.foldl preferScore first).1 := by
  induction rest generalizing first with
  | nil => simp
  | cons second rest ih =>
    obtain ⟨hmem, hle⟩ := ih (preferScore first second)
    obtain ⟨hfirst, hsecond⟩ := le_preferScore first second
    have hbest := hle _ List.mem_cons_self
    rw [List.foldl_cons]
    constructor
    · rcases List.mem_cons.mp hmem with heq | hmem
      · rcases preferScore_eq first second with hprefer | hprefer
        · rw [heq, hprefer]
          exact List.mem_cons_self
        · rw [heq, hprefer]
          exact List.mem_cons_of_mem _ List.mem_cons_self
      · exact List.mem_cons_of_mem _ (List.mem_cons_of_mem _ hmem)
    · intro entry hentry
      rcases List.mem_cons.mp hentry with rfl | hentry
      · exact hfirst.trans hbest
      · rcases List.mem_cons.mp hentry with rfl | hentry
        · exact hsecond.trans hbest
        · exact hle entry (List.mem_cons_of_mem _ hentry)

/-- The selected index has the largest score. -/
theorem selectScore_spec {current : List Int} (hne : current ≠ []) :
    ∃ score, current[selectScore current]? = some score ∧ ∀ other ∈ current, other ≤ score := by
  unfold selectScore
  cases hindexed : current.zipIdx with
  | nil => simp at hindexed; exact absurd hindexed hne
  | cons first rest =>
    obtain ⟨hmem, hle⟩ := foldl_preferScore first rest
    rw [← hindexed] at hmem hle
    refine ⟨(rest.foldl preferScore first).1, List.mem_zipIdx_iff_getElem?.mp hmem, ?_⟩
    intro other hother
    obtain ⟨index, hindex⟩ := List.mem_iff_getElem?.mp hother
    exact hle (other, index) (List.mem_zipIdx_iff_getElem?.mpr hindex)

/-! ## The loop -/

section Loop

variable {weights : List Nat}

/-- The weight of an index. -/
def weightAt (weights : List Nat) (index : Nat) : Nat := weights.getD index 0

theorem sum_weightAt (weights : List Nat) :
    ∑ index ∈ Finset.range weights.length, weightAt weights index = weights.sum := by
  induction weights with
  | nil => rfl
  | cons weight weights ih =>
    rw [List.length_cons, Finset.sum_range_succ', List.sum_cons, ← ih, Nat.add_comm]
    rfl

/-- The scores are the credits of the picks so far. -/
structure Smooth (weights : List Nat) (state : List Int × List Nat) : Prop where
  scores : state.1 = (List.range weights.length).map
    (credit (Finset.range weights.length) (weightAt weights) state.2)
  picks : SmoothPicks (Finset.range weights.length) (weightAt weights) state.2

theorem smooth_initial (weights : List Nat) :
    Smooth weights (List.replicate weights.length 0, []) where
  scores := by
    have hzero : ∀ index, credit (Finset.range weights.length) (weightAt weights) [] index = 0 := by
      simp [credit]
    simp only [funext hzero, List.map_const', List.length_range]
  picks := .nil

theorem map_weightAt (weights : List Nat) :
    (List.range weights.length).map (weightAt weights) = weights := by
  refine List.ext_getElem (by simp) fun index h _ => ?_
  simp only [List.getElem_map, List.getElem_range, weightAt]
  exact List.getD_eq_getElem _ _ _

theorem modify_map_range (count selected : Nat) (score : Nat → Int) (total : Int) :
    ((List.range count).map score).modify selected (· - total) =
      (List.range count).map fun index => score index - if selected = index then total else 0 := by
  refine List.ext_getElem (by simp) fun index h _ => ?_
  rw [List.getElem_modify]
  by_cases hindex : selected = index
  · simp [hindex]
  · simp [hindex]

theorem Smooth.turn {state : List Int × List Nat} (h : Smooth weights state) (hne : weights ≠ []) :
    Smooth weights (smoothTurn weights weights.sum state) ∧
      (smoothTurn weights weights.sum state).2.length = state.2.length + 1 := by
  obtain ⟨scores, picks⟩ := state
  have hlength : weights.length ≠ 0 := fun hzero => hne (List.length_eq_zero_iff.mp hzero)
  have hscores := h.scores
  dsimp only at hscores
  have hcurrent : List.zipWith (fun (score : Int) (weight : Nat) => score + weight) scores weights =
      (List.range weights.length).map fun index =>
        credit (Finset.range weights.length) (weightAt weights) picks index +
          weightAt weights index := by
    conv_lhs => rw [← map_weightAt weights, hscores]
    rw [List.zipWith_map, List.zipWith_self]
  have hcandidates : List.zipWith (fun (score : Int) (weight : Nat) => score + weight) scores
      weights ≠ [] := by
    rw [hcurrent]
    simpa using hlength
  obtain ⟨score, hselected, hbest⟩ := selectScore_spec hcandidates
  -- the selected index is a candidate with the most credit
  have hpick : ∃ selected, selected < weights.length ∧
      selectScore (List.zipWith (fun (score : Int) (weight : Nat) => score + weight) scores weights) =
        selected ∧
      ∀ other ∈ Finset.range weights.length,
        credit (Finset.range weights.length) (weightAt weights) picks other +
            weightAt weights other ≤
          credit (Finset.range weights.length) (weightAt weights) picks selected +
            weightAt weights selected := by
    rw [hcurrent] at hselected hbest ⊢
    rw [List.getElem?_map, Option.map_eq_some_iff] at hselected
    obtain ⟨index, hindex, hscore⟩ := hselected
    obtain ⟨hlt, hget⟩ := List.getElem?_eq_some_iff.mp hindex
    rw [List.getElem_range] at hget
    rw [List.length_range] at hlt
    refine ⟨_, hlt, rfl, fun other hother => ?_⟩
    rw [hget, hscore]
    exact hbest _ (List.mem_map_of_mem (List.mem_range.mpr (Finset.mem_range.mp hother)))
  obtain ⟨selected, hlt, heq, hmost⟩ := hpick
  have hturn : smoothTurn weights weights.sum (scores, picks) =
      ((List.range weights.length).map
        (credit (Finset.range weights.length) (weightAt weights) (picks ++ [selected])),
        picks ++ [selected]) := by
    simp only [smoothTurn, heq]
    rw [hcurrent, modify_map_range]
    refine congrArg₂ Prod.mk (List.map_congr_left fun index _ => ?_) rfl
    rw [credit_concat, sum_weightAt]
  rw [hturn]
  refine ⟨⟨rfl, h.picks.pick (Finset.mem_range.mpr hlt) hmost⟩, ?_⟩
  rw [List.length_append, List.length_singleton]

theorem smooth_iterate (hne : weights ≠ []) (turns : Nat) :
    Smooth weights ((smoothTurn weights weights.sum)^[turns]
        (List.replicate weights.length 0, [])) ∧
      ((smoothTurn weights weights.sum)^[turns]
        (List.replicate weights.length 0, [])).2.length = turns := by
  induction turns with
  | zero => exact ⟨smooth_initial weights, rfl⟩
  | succ turns ih =>
    rw [Function.iterate_succ_apply']
    obtain ⟨hsmooth, hlength⟩ := ih.1.turn hne
    exact ⟨hsmooth, by rw [hlength, ih.2]⟩

end Loop

/-! ## The compiled cycle -/

section Cycle

variable {tenants : List TenantFairnessWeight}

/-- The number of slots of a cycle. -/
def totalWeight (tenants : List TenantFairnessWeight) : Nat := (tenants.map (·.weight)).sum

/-- The cycle of the tenants. -/
def cycleOf (tenants : List TenantFairnessWeight) : List Nat :=
  compileSmoothCycle tenants (totalWeight tenants)

theorem cycleOf_smooth (hne : tenants ≠ []) :
    SmoothPicks (Finset.range tenants.length) (weightAt (tenants.map (·.weight)))
      (cycleOf tenants) ∧ (cycleOf tenants).length = totalWeight tenants := by
  have hweights : tenants.map (·.weight) ≠ [] := by
    rwa [ne_eq, List.map_eq_nil_iff]
  obtain ⟨hsmooth, hlength⟩ := smooth_iterate hweights (totalWeight tenants)
  have hpicks := hsmooth.picks
  rw [List.length_map] at hpicks hlength
  exact ⟨hpicks, hlength⟩

variable {index : Nat} {tenant : TenantFairnessWeight}

theorem lt_of_mem_cycleOf (hne : tenants ≠ []) (h : index ∈ cycleOf tenants) :
    index < tenants.length :=
  Finset.mem_range.mp ((cycleOf_smooth hne).1.mem index h)

theorem sum_tenantWeights :
    ∑ index ∈ Finset.range tenants.length, weightAt (tenants.map (·.weight)) index =
      totalWeight tenants := by
  have hsum := sum_weightAt (tenants.map (·.weight))
  rwa [List.length_map] at hsum

theorem weightAt_eq
    (h : tenants[index]? = some tenant) :
    weightAt (tenants.map (·.weight)) index = tenant.weight := by
  rw [weightAt, List.getD_eq_getElem?_getD, List.getElem?_map, h]
  rfl

theorem count_cycleOf (hne : tenants ≠ [])
    (h : tenants[index]? = some tenant) : (cycleOf tenants).count index = tenant.weight := by
  obtain ⟨hsmooth, hlength⟩ := cycleOf_smooth hne
  have hlt : index < tenants.length := (List.getElem?_eq_some_iff.mp h).1
  rw [hsmooth.count_eq (by rw [hlength, sum_tenantWeights]) (Finset.mem_range.mpr hlt),
    weightAt_eq h]

theorem totalWeight_pos (hne : tenants ≠ []) : 0 < totalWeight tenants := by
  obtain ⟨tenant, rest, rfl⟩ := List.exists_cons_of_ne_nil hne
  have := tenant.positive
  simp only [totalWeight, List.map_cons, List.sum_cons]
  omega

/-- The first slots serve a tenant less than once more than its share. -/
theorem count_take_cycleOf (hne : tenants ≠ [])
    (h : tenants[index]? = some tenant) {slots : Nat} (hslots : slots ≤ totalWeight tenants) :
    totalWeight tenants * ((cycleOf tenants).take slots).count index <
      slots * tenant.weight + totalWeight tenants := by
  obtain ⟨hsmooth, hlength⟩ := cycleOf_smooth hne
  have hcount := (hsmooth.take slots).count_lt (by rw [sum_tenantWeights]; exact totalWeight_pos hne)
    index
  rwa [sum_tenantWeights, weightAt_eq h, List.length_take, hlength, min_eq_left hslots] at hcount

/-! ## Verification -/

theorem perTenant_keys {α : Type} (count : Nat) (entry : α) :
    (perTenant count entry).map Prod.fst = List.range count := by
  rw [perTenant, List.map_map]
  exact List.map_id _

theorem foldlM_countSlot {slots : List Nat} {count : Nat} (h : count + slots.length ≤ maxU16) :
    slots.foldlM countSlot count = .ok (count + slots.length) := by
  induction slots generalizing count with
  | nil => rfl
  | cons slot slots ih =>
    rw [List.length_cons] at h ⊢
    rw [List.foldlM_cons, countSlot, if_neg (by omega), ok_bind, ih (by omega)]
    exact congrArg Except.ok (by omega)

theorem length_opsFor_id (index : Nat) (cycle : List Nat) :
    (opsFor id index cycle).length = cycle.count index := by
  rw [opsFor, List.count_eq_countP, List.countP_eq_length_filter]
  rfl

/-- A loop over slots that updates the entry of the slot's tenant. -/
theorem foldlM_perTenant {α ω : Type} {keyOf : ω → Nat} {count : Nat} {init : α}
    {error : WeightedFairnessPolicyError} {step : α → ω → Except WeightedFairnessPolicyError α}
    {slots : List ω} (final : Nat → α) (hkeys : ∀ slot ∈ slots, keyOf slot < count)
    (hruns : ∀ index < count, (opsFor keyOf index slots).foldlM step init = .ok (final index)) :
    slots.foldlM (routeStep keyOf (fun _ => error) step) (perTenant count init) =
      .ok ((List.range count).map fun index => (index, final index)) := by
  have hrun : slots.foldlM (routeStep keyOf (fun _ => error) step) (perTenant count init) =
      .ok ((perTenant count init).map fun entry => (entry.1, final entry.1)) := by
    refine foldlM_routeStep_eq_map ?_ (fun slot hslot => ?_) (fun entry hentry => ?_)
    · rw [perTenant_keys]
      exact List.nodup_range
    · rw [perTenant_keys]
      exact List.mem_range.mpr (hkeys slot hslot)
    · obtain ⟨index, hindex, rfl⟩ := List.mem_map.mp hentry
      exact hruns index (List.mem_range.mp hindex)
  rw [hrun, perTenant, List.map_map]
  rfl

theorem verifyCycleCounts_cycleOf (hne : tenants ≠ []) :
    verifyCycleCounts tenants (cycleOf tenants) = .ok () := by
  have hcounts : (cycleOf tenants).foldlM (routeStep id (fun _ => .invalidCompiledCycle) countSlot)
      (perTenant tenants.length 0) =
        .ok ((List.range tenants.length).map fun index =>
          (index, (cycleOf tenants).count index)) := by
    refine foldlM_perTenant _ (fun index hindex => lt_of_mem_cycleOf hne hindex)
      (fun index hindex => ?_)
    have hcount := count_cycleOf hne (List.getElem?_eq_getElem hindex)
    have hbounded := tenants[index].bounded
    rw [foldlM_countSlot (by rw [length_opsFor_id, hcount, maxU16]; omega), length_opsFor_id,
      Nat.zero_add]
  unfold verifyCycleCounts
  rw [hcounts, ok_bind, reject, if_neg]
  simp only [List.any_eq_true, decide_eq_true_eq, not_exists, not_and, not_not]
  intro pair hpair
  obtain ⟨index, hindex⟩ := List.mem_iff_getElem?.mp hpair
  obtain ⟨hcount, htenant⟩ := List.getElem?_zip_eq_some.mp hindex
  have hlt : index < tenants.length := (List.getElem?_eq_some_iff.mp htenant).1
  rw [List.getElem?_map, List.getElem?_range hlt] at hcount
  rw [← Option.some.inj hcount]
  exact count_cycleOf hne htenant

/-! ## Starvation bounds -/

/-- The slots of a tenant in a cycle. -/
def positionsOf (cycle : List Nat) (index : Nat) : List Nat :=
  (opsFor Prod.fst index cycle.zipIdx).map Prod.snd

theorem mem_positionsOf {cycle : List Nat} {index position : Nat} :
    position ∈ positionsOf cycle index ↔ cycle[position]? = some index := by
  simp only [positionsOf, opsFor, List.mem_map, List.mem_filter, decide_eq_true_eq]
  constructor
  · rintro ⟨⟨_, _⟩, ⟨hslot, rfl⟩, rfl⟩
    exact List.mem_zipIdx_iff_getElem?.mp hslot
  · intro h
    exact ⟨(index, position), ⟨List.mem_zipIdx_iff_getElem?.mpr h, rfl⟩, rfl⟩

theorem inPeriod_positionsOf (cycle : List Nat) (index : Nat) :
    InPeriod cycle.length (positionsOf cycle index) where
  sorted := by
    refine List.pairwise_map.mpr (List.Pairwise.filter _ ?_)
    rw [← List.pairwise_map (f := Prod.snd), List.zipIdx_map_snd]
    exact List.pairwise_lt_range'
  lt position h := (List.getElem?_eq_some_iff.mp (mem_positionsOf.mp h)).1

/-- The largest gap between the slots of a tenant. -/
def maxGap (cycle : List Nat) (index : Nat) : Nat :=
  (gaps cycle.length (positionsOf cycle index)).max?.getD 0

theorem maxGap_spec {cycle : List Nat} (h : index ∈ cycle) :
    positionsOf cycle index ≠ [] ∧
      (gaps cycle.length (positionsOf cycle index)).max? = some (maxGap cycle index) := by
  obtain ⟨position, hposition⟩ := List.mem_iff_getElem?.mp h
  have hne : positionsOf cycle index ≠ [] := List.ne_nil_of_mem (mem_positionsOf.mpr hposition)
  refine ⟨hne, ?_⟩
  obtain ⟨first, rest, hcons⟩ := List.exists_cons_of_ne_nil hne
  have hgaps : gaps cycle.length (positionsOf cycle index) ≠ [] := by
    rw [hcons, gaps, successors_cons]
    simp
  obtain ⟨largest, hlargest⟩ := Option.ne_none_iff_exists'.mp
    (fun hnone => hgaps (List.max?_eq_none_iff.mp hnone))
  rw [maxGap, hlargest]
  rfl

theorem foldlM_pushSlot (slots : List (Nat × Nat)) (positions : List Nat) :
    slots.foldlM pushSlot positions = .ok (positions ++ slots.map Prod.snd) := by
  induction slots generalizing positions with
  | nil => simp [pure, Except.pure]
  | cons slot slots ih =>
    rw [List.foldlM_cons, pushSlot, ok_bind, ih, List.map_cons, List.append_assoc, List.singleton_append]

/-- Every tenant of the compiled cycle has its largest gap as its bound. -/
theorem deriveStarvationBounds_cycleOf (hne : tenants ≠ []) (hlength : totalWeight tenants ≤ maxU16) :
    deriveStarvationBounds tenants.length (cycleOf tenants) =
      .ok ((List.range tenants.length).map fun index => ⟨maxGap (cycleOf tenants) index⟩) := by
  have hpositions : (cycleOf tenants).zipIdx.foldlM
      (routeStep Prod.fst (fun _ => .invalidCompiledCycle) pushSlot)
      (perTenant tenants.length []) =
        .ok ((List.range tenants.length).map fun index =>
          (index, positionsOf (cycleOf tenants) index)) := by
    refine foldlM_perTenant _ (fun slot hslot => ?_) (fun index _ => ?_)
    · exact lt_of_mem_cycleOf hne (List.mem_of_getElem? (List.mem_zipIdx_iff_getElem?.mp hslot))
    · rw [foldlM_pushSlot]
      rfl
  unfold deriveStarvationBounds
  rw [hpositions, ok_bind, mapM_eq_ok, List.forall₂_map_left_iff, List.forall₂_map_right_iff,
    List.forall₂_same]
  intro index hindex
  have hlt := List.mem_range.mp hindex
  have hcount := count_cycleOf hne (List.getElem?_eq_getElem hlt)
  have hmem : index ∈ cycleOf tenants := by
    rw [← List.count_pos_iff, hcount]
    exact Nat.pos_of_ne_zero tenants[index].positive
  obtain ⟨hpositions, hmax⟩ := maxGap_spec hmem
  have hgap : maxGap (cycleOf tenants) index ≤ maxU16 := by
    have hle := (inPeriod_positionsOf (cycleOf tenants) index).gap_le (List.max?_mem hmax)
    rw [(cycleOf_smooth hne).2] at hle
    exact hle.trans hlength
  show starvationBoundOf _ (positionsOf (cycleOf tenants) index) = _
  rw [starvationBoundOf, reject, if_neg hpositions, hmax]
  simp only [okOr, ok_bind]
  rw [reject, if_neg (not_lt.mpr hgap)]
  rfl

end Cycle

/-! ## Policies -/

namespace WeightedFairnessPolicy

variable {E : Encoding} {shardId : SchedulerShardId} {tenants : List TenantFairnessWeight}
  {policy : WeightedFairnessPolicy}

theorem foldlM_addWeight {total : Nat} (h : total + totalWeight tenants ≤ maxCycleLength) :
    tenants.foldlM addWeight total = .ok (total + totalWeight tenants) := by
  induction tenants generalizing total with
  | nil => rfl
  | cons tenant tenants ih =>
    have hsum : totalWeight (tenant :: tenants) = tenant.weight + totalWeight tenants := by
      rw [totalWeight, List.map_cons, List.sum_cons, totalWeight]
    rw [hsum] at h ⊢
    rw [List.foldlM_cons, addWeight, if_pos (by omega), ok_bind, ih (by omega), Nat.add_assoc]

/-- Neighbours in a strictly sorted list are in order. -/
theorem lt_of_mem_zip_tail (hsorted : StrictlySorted (·.tenantId) tenants)
    {pair : TenantFairnessWeight × TenantFairnessWeight} (hpair : pair ∈ tenants.zip tenants.tail) :
    pair.1.tenantId < pair.2.tenantId := by
  induction tenants with
  | nil => cases hpair
  | cons first rest ih =>
    cases rest with
    | nil => cases hpair
    | cons second rest =>
      rw [List.tail_cons, List.zip_cons_cons] at hpair
      obtain ⟨hfirst, hrest⟩ := List.pairwise_cons.mp hsorted
      rcases List.mem_cons.mp hpair with rfl | hpair
      · exact hfirst second List.mem_cons_self
      · exact ih hrest hpair

/-- What a policy is made of. -/
structure Eligible (tenants : List TenantFairnessWeight) : Prop where
  nonempty : tenants ≠ []
  bounded : tenants.length ≤ maxTenants
  distinct : (tenants.map (·.tenantId)).Nodup
  total_le : totalWeight tenants ≤ maxCycleLength

/-- The tenants in the order of a policy. -/
def ordered (tenants : List TenantFairnessWeight) : List TenantFairnessWeight :=
  sortByKey (·.tenantId) tenants

theorem ordered_perm (tenants : List TenantFairnessWeight) : (ordered tenants).Perm tenants :=
  sortByKey_perm _ _

theorem totalWeight_ordered (tenants : List TenantFairnessWeight) :
    totalWeight (ordered tenants) = totalWeight tenants :=
  ((ordered_perm tenants).map _).sum_eq

namespace Eligible

variable (h : Eligible tenants)

include h

theorem ordered_ne_nil : ordered tenants ≠ [] := by
  intro hnil
  have hlength := (ordered_perm tenants).length_eq
  rw [hnil, List.length_nil] at hlength
  exact h.nonempty (List.length_eq_zero_iff.mp hlength.symm)

theorem ordered_sorted : StrictlySorted (·.tenantId) (ordered tenants) :=
  strictlySorted_sortByKey h.distinct

theorem neighbours_distinct : ¬ ((ordered tenants).zip (ordered tenants).tail).any
    (fun pair => pair.1.tenantId = pair.2.tenantId) = true := by
  simp only [List.any_eq_true, decide_eq_true_eq, not_exists, not_and]
  exact fun pair hpair => (lt_of_mem_zip_tail h.ordered_sorted hpair).ne

/-- An eligible set of tenants compiles; only its encoding or its registration can fail. -/
theorem new_eq (E : Encoding) (shardId : SchedulerShardId) : new E shardId tenants = (do
    let canonicalBytes ← okOr (E.toVec (toJson (ordered tenants))) .canonicalEncoding
    let registration ← (SchedulerFairnessPolicyRegistration.new E shardId canonicalBytes
      (totalWeight tenants)).mapError fun _ => .storeBinding
    return ⟨shardId, ordered tenants, cycleOf (ordered tenants),
      (List.range (ordered tenants).length).map fun index =>
        ⟨maxGap (cycleOf (ordered tenants)) index⟩, canonicalBytes, registration⟩) := by
  have hsum : (ordered tenants).foldlM addWeight 0 = .ok (totalWeight tenants) := by
    rw [foldlM_addWeight (by rw [totalWeight_ordered, Nat.zero_add]; exact h.total_le),
      totalWeight_ordered, Nat.zero_add]
  have hcycle : compileSmoothCycle (ordered tenants) (totalWeight tenants) =
      cycleOf (ordered tenants) := by
    rw [cycleOf, totalWeight_ordered]
  have hbounds := deriveStarvationBounds_cycleOf h.ordered_ne_nil (by
    rw [totalWeight_ordered]
    exact h.total_le.trans (by decide))
  have hsorted : sortByKey (·.tenantId) tenants = ordered tenants := rfl
  have hverify := verifyCycleCounts_cycleOf h.ordered_ne_nil
  simp only [new, reject, if_neg h.nonempty, gt_iff_lt, if_neg (not_lt.mpr h.bounded), hsorted,
    if_neg h.neighbours_distinct, hsum, hcycle, hverify, hbounds, ok_bind]

end Eligible

theorem fields_of_new (h : Eligible tenants) (hnew : new E shardId tenants = .ok policy) :
    policy.tenants = ordered tenants ∧ policy.cycle = cycleOf (ordered tenants) ∧
      policy.starvationBounds = (List.range (ordered tenants).length).map fun index =>
        ⟨maxGap (cycleOf (ordered tenants)) index⟩ := by
  rw [h.new_eq] at hnew
  simp only [bind_eq_ok, mapError_eq_ok, pure_eq_ok] at hnew
  obtain ⟨_, _, _, _, rfl⟩ := hnew
  exact ⟨rfl, rfl, rfl⟩

variable {tenant : TenantFairnessWeight} {index : Nat}

/-- The slots of a tenant are the ones of its index. -/
theorem tenantForSlot_eq (h : Eligible tenants) (hnew : new E shardId tenants = .ok policy) (htenant : (ordered tenants)[index]? = some tenant)
    (slot : Nat) :
    policy.tenantForSlot slot = some tenant.tenantId ↔
      (cycleOf (ordered tenants))[slot]? = some index := by
  obtain ⟨htenants, hcycle, _⟩ := fields_of_new h hnew
  simp only [tenantForSlot, htenants, hcycle, Option.bind_eq_bind, Option.bind_eq_some_iff, pure,
    Option.some.injEq]
  constructor
  · rintro ⟨other, hother, entry, hentry, hid⟩
    have hsame : entry = tenant := h.ordered_sorted.eq_of_key_eq (List.mem_of_getElem? hentry)
      (List.mem_of_getElem? htenant) hid
    subst hsame
    rw [hother, ← (List.getElem?_inj (List.getElem?_eq_some_iff.mp hentry).1
      h.ordered_sorted.nodup).mp (hentry.trans htenant.symm)]
  · intro hslot
    exact ⟨index, hslot, tenant, htenant, rfl⟩

/-- How often a tenant is served in the first slots of a cycle. -/
def served (policy : WeightedFairnessPolicy) (tenantId : TenantId) (slots : Nat) : Nat :=
  (List.range slots).countP fun slot => policy.tenantForSlot slot = some tenantId

variable (h : Eligible tenants)

include h

theorem served_eq (hnew : new E shardId tenants = .ok policy) (htenant : (ordered tenants)[index]? = some tenant)
    {slots : Nat} (hslots : slots ≤ (cycleOf (ordered tenants)).length) :
    policy.served tenant.tenantId slots =
      ((cycleOf (ordered tenants)).take slots).count index := by
  induction slots with
  | zero => simp [served]
  | succ slots ih =>
    have hlt : slots < (cycleOf (ordered tenants)).length := hslots
    rw [served, List.range_succ, List.countP_append, List.take_succ_eq_append_getElem hlt,
      List.count_append, ← ih (by omega), List.countP_singleton, List.count_singleton, served]
    have hslot := tenantForSlot_eq h hnew htenant slots
    rw [List.getElem?_eq_getElem hlt, Option.some.injEq] at hslot
    simp only [hslot, decide_eq_true_eq, beq_iff_eq]

theorem starvationBound_eq (hnew : new E shardId tenants = .ok policy)
    (htenant : (ordered tenants)[index]? = some tenant) :
    policy.starvationBound tenant.tenantId = some ⟨maxGap (cycleOf (ordered tenants)) index⟩ := by
  obtain ⟨htenants, _, hbounds⟩ := fields_of_new h hnew
  obtain ⟨hlt, hget⟩ := List.getElem?_eq_some_iff.mp htenant
  have hindex := (binarySearchIdx_eq_some h.ordered_sorted).mpr ⟨tenant, htenant, rfl⟩
  rw [starvationBound, htenants, hindex, hbounds]
  simp [hlt]

theorem error_of_new {error : WeightedFairnessPolicyError}
    (hnew : new E shardId tenants = .error error) :
    error = .canonicalEncoding ∨ error = .storeBinding := by
  rw [h.new_eq] at hnew
  cases hbytes : E.toVec (toJson (ordered tenants)) with
  | none =>
    rw [hbytes] at hnew
    cases hnew
    exact .inl rfl
  | some canonicalBytes =>
    rw [hbytes] at hnew
    simp only [okOr, ok_bind] at hnew
    cases hregistration : SchedulerFairnessPolicyRegistration.new E shardId canonicalBytes
        (totalWeight tenants) with
    | error source =>
      rw [hregistration] at hnew
      cases hnew
      exact .inr rfl
    | ok registration =>
      rw [hregistration] at hnew
      cases hnew

theorem Eligible.of_perm {tenants' : List TenantFairnessWeight}
    (hperm : tenants'.Perm tenants) : Eligible tenants' where
  nonempty := by
    intro hnil
    subst hnil
    exact h.nonempty hperm.nil_eq.symm
  bounded := by
    rw [hperm.length_eq]
    exact h.bounded
  distinct := (hperm.map _).nodup_iff.mpr h.distinct
  total_le := by
    rw [totalWeight, (hperm.map (·.weight)).sum_eq]
    exact h.total_le

theorem new_eq_of_perm {tenants' : List TenantFairnessWeight}
    (hperm : tenants'.Perm tenants) : new E shardId tenants' = new E shardId tenants := by
  have hordered : ordered tenants' = ordered tenants :=
    sortByKey_eq_of_perm hperm (h.of_perm hperm).distinct
  have hsum : totalWeight tenants' = totalWeight tenants := (hperm.map _).sum_eq
  rw [(h.of_perm hperm).new_eq, h.new_eq, hordered, hsum]

theorem cycleLength_of_new (hnew : new E shardId tenants = .ok policy) :
    policy.cycleLength = (cycleOf (ordered tenants)).length ∧
      policy.cycleLength = totalWeight tenants := by
  have hcycle : policy.cycleLength = (cycleOf (ordered tenants)).length := by
    rw [cycleLength, (fields_of_new h hnew).2.1]
  refine ⟨hcycle, ?_⟩
  rw [hcycle, (cycleOf_smooth h.ordered_ne_nil).2, totalWeight_ordered]

/-- The repeated cycle serves a tenant within its bound and not always earlier. -/
theorem starvationBound_exact (hnew : new E shardId tenants = .ok policy) (htenant : tenant ∈ tenants) :
    ∃ bound, policy.starvationBound tenant.tenantId = some bound ∧
      (∀ start, ∃ reservation, start ≤ reservation ∧
        reservation < start + bound.maximumReservationsUntilSelection ∧
        policy.tenantForSlot (reservation % policy.cycleLength) = some tenant.tenantId) ∧
      (1 < bound.maximumReservationsUntilSelection → ∃ start, ∀ reservation,
        start ≤ reservation →
        reservation < start + (bound.maximumReservationsUntilSelection - 1) →
        policy.tenantForSlot (reservation % policy.cycleLength) ≠ some tenant.tenantId) := by
  obtain ⟨index, hindex⟩ := List.mem_iff_getElem?.mp ((ordered_perm tenants).mem_iff.mpr htenant)
  have hperiod := inPeriod_positionsOf (cycleOf (ordered tenants)) index
  have hslots : ∀ slot, slot ∈ positionsOf (cycleOf (ordered tenants)) index ↔
      policy.tenantForSlot slot = some tenant.tenantId := fun slot =>
    mem_positionsOf.trans (tenantForSlot_eq h hnew hindex slot).symm
  have hmem : index ∈ cycleOf (ordered tenants) := by
    rw [← List.count_pos_iff, count_cycleOf h.ordered_ne_nil hindex]
    exact Nat.pos_of_ne_zero tenant.positive
  obtain ⟨hpositions, hmax⟩ := maxGap_spec hmem
  obtain ⟨hmember, hlargest⟩ := List.max?_eq_some_iff.mp hmax
  refine ⟨_, starvationBound_eq h hnew hindex, fun start => ?_, fun _ => ?_⟩
  · obtain ⟨reservation, hstart, hend, hhit⟩ := hperiod.exists_hit hpositions hlargest start
    rw [(cycleLength_of_new h hnew).1]
    exact ⟨reservation, hstart, hend, (hslots _).mp hhit⟩
  · obtain ⟨start, hmiss⟩ := hperiod.exists_miss hmember
    refine ⟨start, fun reservation hstart hend hhit => ?_⟩
    rw [(cycleLength_of_new h hnew).1] at hhit
    exact hmiss reservation hstart hend ((hslots _).mpr hhit)

/-- A cycle serves a tenant as its weight says, and never far ahead of its share. -/
theorem served_of_new (hnew : new E shardId tenants = .ok policy) (htenant : tenant ∈ tenants) :
    policy.served tenant.tenantId policy.cycleLength = tenant.weight ∧
      ∀ slots ≤ policy.cycleLength,
        policy.cycleLength * policy.served tenant.tenantId slots <
          slots * tenant.weight + policy.cycleLength := by
  obtain ⟨index, hindex⟩ := List.mem_iff_getElem?.mp ((ordered_perm tenants).mem_iff.mpr htenant)
  obtain ⟨hcycle, htotal⟩ := cycleLength_of_new h hnew
  refine ⟨?_, fun slots hle => ?_⟩
  · rw [served_eq h hnew hindex hcycle.le, hcycle, List.take_length,
      count_cycleOf h.ordered_ne_nil hindex]
  · rw [served_eq h hnew hindex (hcycle ▸ hle), htotal, ← totalWeight_ordered tenants]
    refine count_take_cycleOf h.ordered_ne_nil hindex ?_
    rw [totalWeight_ordered, ← htotal]
    exact hle

end WeightedFairnessPolicy

/-- The weighted schedule of distinct tenants within the limits is fair.  Compiling it fails at most
when it is encoded or registered, and does not depend on the order of the tenants.  A cycle has as
many slots as the weights sum to and serves a tenant as often as its weight says; the first slots
serve it less than once more than their share.  The starvation bound of a tenant is exact when the
cycle is repeated. -/
theorem weighted_fairness {E : Encoding} {shardId : SchedulerShardId}
    {tenants : List TenantFairnessWeight} (hnonempty : tenants ≠ [])
    (hdistinct : (tenants.map (·.tenantId)).Nodup)
    (hcount : tenants.length ≤ WeightedFairnessPolicy.maxTenants)
    (htotal : (tenants.map (·.weight)).sum ≤ WeightedFairnessPolicy.maxCycleLength) :
    (∀ error, WeightedFairnessPolicy.new E shardId tenants = .error error →
      error = .canonicalEncoding ∨ error = .storeBinding) ∧
    (∀ tenants' : List TenantFairnessWeight, tenants'.Perm tenants →
      WeightedFairnessPolicy.new E shardId tenants' =
        WeightedFairnessPolicy.new E shardId tenants) ∧
    ∀ policy, WeightedFairnessPolicy.new E shardId tenants = .ok policy →
      policy.cycleLength = (tenants.map (·.weight)).sum ∧
      ∀ tenant ∈ tenants,
        (policy.served tenant.tenantId policy.cycleLength = tenant.weight ∧
          ∀ slots ≤ policy.cycleLength,
            policy.cycleLength * policy.served tenant.tenantId slots <
              slots * tenant.weight + policy.cycleLength) ∧
        ∃ bound, policy.starvationBound tenant.tenantId = some bound ∧
          (∀ start, ∃ reservation, start ≤ reservation ∧
            reservation < start + bound.maximumReservationsUntilSelection ∧
            policy.tenantForSlot (reservation % policy.cycleLength) = some tenant.tenantId) ∧
          (1 < bound.maximumReservationsUntilSelection → ∃ start, ∀ reservation,
            start ≤ reservation →
            reservation < start + (bound.maximumReservationsUntilSelection - 1) →
            policy.tenantForSlot (reservation % policy.cycleLength) ≠ some tenant.tenantId) := by
  have h : WeightedFairnessPolicy.Eligible tenants := ⟨hnonempty, hcount, hdistinct, htotal⟩
  refine ⟨fun error herror => WeightedFairnessPolicy.error_of_new h herror,
    fun tenants' hperm => WeightedFairnessPolicy.new_eq_of_perm h hperm, fun policy hnew => ?_⟩
  refine ⟨(WeightedFairnessPolicy.cycleLength_of_new h hnew).2, fun tenant htenant => ?_⟩
  exact ⟨WeightedFairnessPolicy.served_of_new h hnew htenant,
    WeightedFairnessPolicy.starvationBound_exact h hnew htenant⟩

namespace WeightedFairnessPolicy.Sample

def gold : TenantFairnessWeight := ⟨⟨"gold"⟩, 2, by decide, by decide⟩

def silver : TenantFairnessWeight := ⟨⟨"silver"⟩, 1, by decide, by decide⟩

end WeightedFairnessPolicy.Sample

/-- Weights two and one, in either order: the first tenant is served in two of three slots. -/
theorem weighted_fairness_two_tenants :
    ∃ policy : WeightedFairnessPolicy,
      WeightedFairnessPolicy.new .compact ⟨"shard"⟩ [WeightedFairnessPolicy.Sample.silver,
        WeightedFairnessPolicy.Sample.gold] = .ok policy ∧
      policy.cycleLength = 3 ∧ policy.served ⟨"gold"⟩ 3 = 2 ∧
      ∃ bound, policy.starvationBound ⟨"gold"⟩ = some bound ∧
        bound.maximumReservationsUntilSelection = 2 := by
  have hsome : (((WeightedFairnessPolicy.new .compact ⟨"shard"⟩ [WeightedFairnessPolicy.Sample.gold,
      WeightedFairnessPolicy.Sample.silver]).toOption.any fun policy =>
        policy.starvationBound ⟨"gold"⟩ = some ⟨2⟩)) = true := by
    decide +kernel
  obtain ⟨policy, hnew, hbound⟩ := (Option.any_eq_true _ _).mp hsome
  rw [toOption_eq_some] at hnew
  have hfair := @weighted_fairness .compact ⟨"shard"⟩ [WeightedFairnessPolicy.Sample.gold,
    WeightedFairnessPolicy.Sample.silver] (by simp) (by decide) (by decide) (by decide)
  obtain ⟨_, horder, hpolicy⟩ := hfair
  obtain ⟨hlength, htenants⟩ := hpolicy policy hnew
  obtain ⟨⟨hserved, _⟩, _⟩ := htenants WeightedFairnessPolicy.Sample.gold (by simp)
  have hthree : policy.cycleLength = 3 := hlength
  rw [hthree] at hserved
  refine ⟨policy, ?_, hthree, hserved, _, of_decide_eq_true hbound, rfl⟩
  rw [horder _ (List.Perm.swap _ _ _)]
  exact hnew

end StateKnot
