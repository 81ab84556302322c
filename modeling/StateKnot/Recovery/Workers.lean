import StateKnot.Recovery.Agreement

/-!
# Workers across fencing epochs

`WorkerReusedAcrossEpoch` and `CurrentFenceAttemptReused` say that a higher epoch
must not reuse an earlier worker, but a history compares every attempt with its
predecessor only, and a recovery plan compares the current fence with the last
attempt of each node only.  So a worker never carries over into the next epoch,
but it may come back after another worker's epoch.  Workers differ between all
epochs exactly when no worker comes back after another one.
-/

namespace StateKnot

open Lib

variable {E : Encoding}

/-- A verifier takes a sequence of attempts exactly when identities are fresh and each attempt
may come after the one before it. -/
theorem foldlM_verifyNext_eq_ok {attempts : List (NodeAttempt E)}
    {history : NodeAttemptHistoryVerifier E} :
    attempts.foldlM NodeAttemptHistoryVerifier.verifyNext .new = .ok history ↔
      (attempts.map (·.start.attemptId)).Nodup ∧ attempts.IsChain NodeAttempt.Precedes ∧
      history = ⟨attempts.getLast?, (attempts.map (·.start.attemptId)).reverse⟩ := by
  induction attempts using List.reverseRecOn generalizing history with
  | nil =>
    simp only [List.foldlM_nil, pure_eq_ok, List.map_nil,
      List.nodup_nil, List.IsChain.nil, true_and, NodeAttemptHistoryVerifier.new,
      List.getLast?_nil, List.reverse_nil, eq_comm (b := history)]
  | append_singleton attempts attempt ih =>
    rw [List.foldlM_append, bind_eq_ok, nodup_map_append_singleton, List.isChain_append]
    simp only [ih, List.foldlM_cons, List.foldlM_nil, bind_pure,
      NodeAttemptHistoryVerifier.verifyNext_eq_ok]
    constructor
    · rintro ⟨_, ⟨hids, hchain, rfl⟩, hfresh, hprecedes, rfl⟩
      refine ⟨⟨hids, by simpa using hfresh⟩, ⟨hchain, .singleton _, fun last hlast next hnext => ?_⟩,
        by simp⟩
      simp only [List.head?_cons, Option.mem_def, Option.some.injEq] at hnext
      exact hnext ▸ hprecedes last hlast
    · rintro ⟨⟨hids, hfresh⟩, ⟨hchain, _, hprecedes⟩, rfl⟩
      exact ⟨_, ⟨hids, hchain, rfl⟩, by simpa using hfresh,
        fun last hlast => hprecedes last hlast attempt (by simp), by simp⟩

/-- Fences that follow one another: epochs do not go back and neighbours change their worker
exactly with the epoch. -/
def FenceChain (fences : List RunFence) : Prop :=
  fences.IsChain (fun historical current => current.Follows historical)

/-- No worker comes back after another one. -/
def NoWorkerReturns (fences : List RunFence) : Prop :=
  ∀ first middle last, [first, middle, last].Sublist fences →
    first.attemptId = last.attemptId → middle.attemptId = first.attemptId

/-- The worker of `current` does not come back after another one: once it appears among the
earlier fences, all later ones are its own. -/
def RunFence.NotReturning (current : RunFence) (fences : List RunFence) : Prop :=
  ∀ earlier later, [earlier, later].Sublist fences →
    earlier.attemptId = current.attemptId → later.attemptId = current.attemptId

namespace FenceChain

variable {fences : List RunFence} {first last : RunFence} {between : List RunFence}

theorem of_attempts {attempts : List (NodeAttempt E)}
    (h : attempts.IsChain NodeAttempt.Precedes) : FenceChain (attempts.map (·.start.fence)) :=
  List.isChain_map_of_isChain _ (fun _ _ hprecedes => hprecedes.fence_follows) h

theorem epochs_sorted (h : FenceChain fences) :
    fences.Pairwise (fun historical current => historical.epoch ≤ current.epoch) := by
  have htrans : IsTrans RunFence (fun historical current => historical.epoch ≤ current.epoch) :=
    ⟨fun _ _ _ => le_trans⟩
  exact List.isChain_iff_pairwise.mp (h.imp (fun _ _ hfollows => hfollows.epoch_le))

theorem worker_eq_of_epoch_eq (h : FenceChain fences) :
    fences.Pairwise (fun historical current =>
      historical.epoch = current.epoch → historical.attemptId = current.attemptId) := by
  have hsorted := h.epochs_sorted
  induction h with
  | nil => exact .nil
  | singleton => exact List.pairwise_singleton _ _
  | @cons_cons first next rest hfollows _ ih =>
    obtain ⟨_, hrest⟩ := List.pairwise_cons.mp hsorted
    have htail := ih hrest
    refine List.pairwise_cons.mpr ⟨fun current hcurrent hepoch => ?_, htail⟩
    rcases List.mem_cons.mp hcurrent with rfl | hlater
    · exact hfollows.worker_eq_iff.mpr hepoch
    · -- the next epoch lies between two equal ones
      have hle := (List.pairwise_cons.mp hrest).1 current hlater
      have hnext : first.epoch = next.epoch := le_antisymm hfollows.epoch_le (hepoch ▸ hle)
      exact (hfollows.worker_eq_iff.mpr hnext).trans
        ((List.pairwise_cons.mp htail).1 current hlater (hnext.symm.trans hepoch))

/-- Workers differ between all epochs exactly when no worker comes back after another one. -/
theorem worker_ne_iff (h : FenceChain fences) :
    fences.Pairwise (fun historical current =>
      historical.epoch ≠ current.epoch → historical.attemptId ≠ current.attemptId) ↔
    NoWorkerReturns fences := by
  constructor
  · intro hdistinct first middle last hsub hreturns
    have hepoch : first.epoch = last.epoch := by
      by_contra hne
      have hpair : [first, last].Sublist [first, middle, last] :=
        .cons_cons _ (List.sublist_cons_self _ _)
      exact List.pairwise_iff_forall_sublist.mp hdistinct (hpair.trans hsub) hne hreturns
    have hpart := h.epochs_sorted.sublist hsub
    simp only [List.pairwise_cons, List.mem_cons, List.not_mem_nil, or_false, forall_eq_or_imp,
      forall_eq] at hpart
    have hmiddle : first.epoch = middle.epoch :=
      le_antisymm hpart.1.1 (hepoch ▸ hpart.2.1)
    have hfirst : [first, middle].Sublist [first, middle, last] :=
      .cons_cons _ (.cons_cons _ (List.nil_sublist _))
    exact (List.pairwise_iff_forall_sublist.mp h.worker_eq_of_epoch_eq (hfirst.trans hsub)
      hmiddle).symm
  · intro hstays
    induction h with
    | nil => exact .nil
    | singleton => exact List.pairwise_singleton _ _
    | @cons_cons first next rest hfollows _ ih =>
      have htail := ih (fun a b c hsub => hstays a b c (hsub.cons _))
      refine List.pairwise_cons.mpr ⟨fun last hlast hepoch hworker => ?_, htail⟩
      rcases List.mem_cons.mp hlast with rfl | hlater
      · exact hepoch (hfollows.worker_eq_iff.mp hworker)
      · -- the next fence is the same worker's, hence of the same epoch, and differs from the last
        have hnext := hstays first next last
          (.cons_cons _ (.cons_cons _ (List.singleton_sublist.mpr hlater))) hworker
        have hsame := hfollows.worker_eq_iff.mp hnext.symm
        exact (List.pairwise_cons.mp htail).1 last hlater (hsame ▸ hepoch) (hnext.trans hworker)

theorem epoch_eq_of_worker_eq (h : FenceChain fences) {worker : AttemptId}
    (hworker : ∀ fence ∈ fences, fence.attemptId = worker) :
    fences.Pairwise (fun historical current => historical.epoch = current.epoch) := by
  refine (h.worker_ne_iff.mpr fun first middle last hsub _ => ?_).imp_of_mem ?_
  · rw [hworker middle (hsub.subset (by simp)), hworker first (hsub.subset (by simp))]
  · intro historical current hhistorical hcurrent hdistinct
    by_contra hne
    exact hdistinct hne ((hworker _ hhistorical).trans (hworker _ hcurrent).symm)

/-- A current fence differs in its worker from all fences of lower epochs exactly when its worker
does not come back. -/
theorem current_worker_ne_iff {current : RunFence} (h : FenceChain (fences ++ [current])) :
    (∀ fence ∈ fences, fence.epoch < current.epoch → fence.attemptId ≠ current.attemptId) ↔
      current.NotReturning fences := by
  have hsorted := List.pairwise_append.mp h.epochs_sorted
  constructor
  · intro hdistinct earlier later hsub hworker
    have hle := List.pairwise_iff_forall_sublist.mp hsorted.1 hsub
    have hlater : later ∈ fences := hsub.subset (by simp)
    have hearlier : current.epoch ≤ earlier.epoch :=
      not_lt.mp fun hlt => hdistinct earlier (hsub.subset (by simp)) hlt hworker
    have hepoch : later.epoch = current.epoch :=
      le_antisymm (hsorted.2.2 later hlater current (by simp)) (hearlier.trans hle)
    exact (List.pairwise_append.mp h.worker_eq_of_epoch_eq).2.2 later hlater current (by simp) hepoch
  · intro hstays fence hfence hlt hworker
    obtain ⟨before, after, rfl⟩ := List.append_of_mem hfence
    rw [List.append_assoc] at h
    -- from here on every fence is the current worker's
    have hown : ∀ other ∈ fence :: after ++ [current], other.attemptId = current.attemptId := by
      intro other hother
      rcases List.mem_append.mp hother with hother | hother
      · rcases List.mem_cons.mp hother with rfl | hlater
        · exact hworker
        · refine hstays fence other ?_ hworker
          exact (List.cons_sublist_cons.mpr (List.singleton_sublist.mpr hlater)).trans
            (List.sublist_append_right _ _)
      · rw [List.mem_singleton.mp hother]
    have hepochs := epoch_eq_of_worker_eq (List.IsChain.right_of_append h) hown
    exact hlt.ne ((List.pairwise_cons.mp hepochs).1 current (by simp))

theorem worker_ne_of_epoch_ne (h : FenceChain (first :: between ++ [last]))
    (hbetween : ∀ fence ∈ between, fence.epoch = first.epoch ∨ fence.epoch = last.epoch)
    (hepoch : first.epoch ≠ last.epoch) : first.attemptId ≠ last.attemptId := by
  induction between generalizing first with
  | nil =>
    have hfollows : last.Follows first := (List.isChain_cons_cons.mp h).1
    exact fun hworker => hepoch (hfollows.worker_eq_iff.mp hworker)
  | cons next rest ih =>
    have hfollows : next.Follows first := (List.isChain_cons_cons.mp h).1
    have htail : FenceChain (next :: rest ++ [last]) := (List.isChain_cons_cons.mp h).2
    rcases hbetween next List.mem_cons_self with hsame | hlast
    · -- still in the first epoch, under the first worker
      have hworker := hfollows.worker_eq_iff.mpr hsame.symm
      rw [hworker]
      refine ih htail (fun fence hfence => ?_) (hsame ▸ hepoch)
      rw [hsame]
      exact hbetween fence (List.mem_cons_of_mem _ hfence)
    · -- already in the last epoch, under the last worker
      rw [← (List.pairwise_cons.mp htail.worker_eq_of_epoch_eq).1 last (by simp) hlast]
      exact fun hworker => hepoch ((hfollows.worker_eq_iff.mp hworker).trans hlast)

end FenceChain

/-- A finished plan's fence follows the last attempt that was observed of every node. -/
theorem ReadyNodeRecoveryPlanner.follows_of_finish {planner : ReadyNodeRecoveryPlanner E}
    {checkpoint : Checkpoint E} {fence : RunFence} {observations : List (RecoveryObservation E)}
    {journalHead : JournalHead} {observedAt : Timestamp} {plan : ReadyNodeRecoveryPlan E}
    (hholds : planner.Holds checkpoint fence observations)
    (hfinish : planner.finish journalHead observedAt = .ok plan)
    {entry : NodeId × RecoveryEntry E} (hentry : entry ∈ planner.entries) {last : NodeAttempt E}
    (hlast : entry.2.attempts.last = some last) : fence.Follows last.start.fence := by
  obtain ⟨_, nodes, hnodes, rfl⟩ := finish_eq_ok.mp hfinish
  obtain ⟨node, _, hclassify⟩ := exists_of_forall₂_left hnodes hentry
  rw [hholds.fence_eq] at hclassify
  unfold classifyEntry at hclassify
  cases hresult : entry.2.result with
  | none =>
    simp only [hresult, hlast, bind_eq_ok, validateCurrentFence_eq_ok] at hclassify
    exact hclassify.choose_spec.1
  | some result =>
    -- the result was recorded by the last attempt, under its fence
    simp only [hresult, hlast, bind_eq_ok, reject_eq_ok, validateCurrentFence_eq_ok, not_exists,
      not_and, not_not, Option.some.injEq, forall_eq'] at hclassify
    obtain ⟨_, hfollows, _, hmatches, _⟩ := hclassify
    rw [← (NodeAttempt.of_result hmatches).2.1]
    exact hfollows

/-- The attempts that were observed of a node and the fence of a finished plan follow one
another. -/
theorem ReadyNodeRecoveryPlanner.fenceChain_of_finish {checkpoint : Checkpoint E}
    {fence : RunFence} {planner observed : ReadyNodeRecoveryPlanner E}
    {observations : List (RecoveryObservation E)} {journalHead : JournalHead}
    {observedAt : Timestamp} {plan : ReadyNodeRecoveryPlan E}
    (hnew : ReadyNodeRecoveryPlanner.new checkpoint fence = .ok planner)
    (hobserve : planner.observeAll observations = .ok observed)
    (hfinish : observed.finish journalHead observedAt = .ok plan) (nodeId : NodeId) :
    FenceChain ((attemptsIn (observationsOf nodeId observations)).map (·.start.fence) ++ [fence]) := by
  have hholds := holds_of_observeAll hnew hobserve
  cases hattempts : attemptsIn (observationsOf nodeId observations) with
  | nil => exact .singleton _
  | cons attempt rest =>
    -- an observed attempt belongs to a ready node
    obtain ⟨observation, hobservation, _⟩ := List.mem_filterMap.mp
      (show attempt ∈ attemptsIn (observationsOf nodeId observations) by simp [hattempts])
    obtain ⟨hmem, hnode⟩ := List.mem_filter.mp hobservation
    have hkey := hholds.expected observation hmem
    rw [of_decide_eq_true hnode] at hkey
    obtain ⟨entry, hentry, rfl⟩ := List.mem_map.mp hkey
    obtain ⟨activation, _, _, hhistory, hafter⟩ := hholds.entry_eq entry hentry
    rw [← hattempts]
    refine List.isChain_append.mpr ⟨FenceChain.of_attempts hhistory.chain, .singleton _, ?_⟩
    intro historical hlast current hcurrent
    rw [List.getLast?_map, Option.mem_def, Option.map_eq_some_iff] at hlast
    obtain ⟨last, hlast, rfl⟩ := hlast
    obtain rfl : fence = current := by simpa using hcurrent
    refine follows_of_finish hholds hfinish hentry ?_
    rw [hafter]
    exact hlast

/-- Two attempts of an accepted history with different epochs have different workers, for all of
them, exactly when no worker comes back after another one; the fence of a finished plan differs in
its worker from all observed attempts of a node under lower epochs exactly when its worker does
not come back.  In every accepted history epochs do not go back and the worker changes between two
epochs with no third one between them; in every finished plan the fence differs in its worker from
the attempts of a node's highest epoch, when that lies below the fence's. -/
theorem worker_changes_with_epoch :
    (∀ (attempts : List (NodeAttempt E)) (history : NodeAttemptHistoryVerifier E),
      attempts.foldlM NodeAttemptHistoryVerifier.verifyNext .new = .ok history →
      ((∀ earlier ∈ attempts, ∀ later ∈ attempts,
          earlier.start.fence.epoch ≠ later.start.fence.epoch →
          earlier.start.fence.attemptId ≠ later.start.fence.attemptId) ↔
        NoWorkerReturns (attempts.map (·.start.fence))) ∧
      attempts.Pairwise (fun earlier later =>
        earlier.start.fence.epoch ≤ later.start.fence.epoch) ∧
      ∀ before first between last after,
        attempts = before ++ (first :: between ++ [last]) ++ after →
        (∀ middle ∈ between, middle.start.fence.epoch = first.start.fence.epoch ∨
          middle.start.fence.epoch = last.start.fence.epoch) →
        first.start.fence.epoch ≠ last.start.fence.epoch →
        first.start.fence.attemptId ≠ last.start.fence.attemptId) ∧
    ∀ (checkpoint : Checkpoint E) (fence : RunFence) (planner observed : ReadyNodeRecoveryPlanner E)
      (observations : List (RecoveryObservation E)) (journalHead : JournalHead)
      (observedAt : Timestamp) (plan : ReadyNodeRecoveryPlan E),
      ReadyNodeRecoveryPlanner.new checkpoint fence = .ok planner →
      planner.observeAll observations = .ok observed →
      observed.finish journalHead observedAt = .ok plan →
      ∀ nodeId,
        ((∀ attempt ∈ attemptsIn (observationsOf nodeId observations),
            attempt.start.fence.epoch < fence.epoch →
            attempt.start.fence.attemptId ≠ fence.attemptId) ↔
          fence.NotReturning
            ((attemptsIn (observationsOf nodeId observations)).map (·.start.fence))) ∧
        ∀ attempt ∈ attemptsIn (observationsOf nodeId observations),
          (∀ other ∈ attemptsIn (observationsOf nodeId observations),
            other.start.fence.epoch ≤ attempt.start.fence.epoch) →
          attempt.start.fence.epoch < fence.epoch →
          attempt.start.fence.attemptId ≠ fence.attemptId := by
  refine ⟨fun attempts history haccepted => ?_, fun checkpoint fence planner observed observations
    journalHead observedAt plan hnew hobserve hfinish nodeId => ?_⟩
  · obtain ⟨_, hchain, _⟩ := foldlM_verifyNext_eq_ok.mp haccepted
    have hfences := FenceChain.of_attempts hchain
    refine ⟨?_, (List.pairwise_map (f := fun attempt : NodeAttempt E => attempt.start.fence)).mp
      hfences.epochs_sorted, ?_⟩
    · rw [← hfences.worker_ne_iff, List.pairwise_map]
      refine ⟨List.pairwise_of_forall_mem_list, fun hdistinct => ?_⟩
      have : Std.Symm fun earlier later : NodeAttempt E =>
          earlier.start.fence.epoch ≠ later.start.fence.epoch →
          earlier.start.fence.attemptId ≠ later.start.fence.attemptId :=
        ⟨fun _ _ h hepoch hworker => h hepoch.symm hworker.symm⟩
      exact fun _ hearlier _ hlater => hdistinct.forall_of_forall (fun _ _ h => absurd rfl h)
        hearlier hlater
    · rintro before first between last after rfl hbetween hepoch
      have hpart : FenceChain (first.start.fence :: between.map (·.start.fence) ++
          [last.start.fence]) := by
        have hmapped := FenceChain.of_attempts (hchain.left_of_append.right_of_append)
        simpa using hmapped
      refine hpart.worker_ne_of_epoch_ne (fun fence hfence => ?_) hepoch
      obtain ⟨middle, hmiddle, rfl⟩ := List.mem_map.mp hfence
      exact hbetween middle hmiddle
  · have hfences := ReadyNodeRecoveryPlanner.fenceChain_of_finish hnew hobserve hfinish nodeId
    refine ⟨?_, fun attempt hattempt hmax hlt => ?_⟩
    · rw [← hfences.current_worker_ne_iff, List.forall_mem_map]
    · obtain ⟨before, after, hsplit⟩ := List.append_of_mem hattempt
      rw [hsplit, List.map_append, List.map_cons, List.append_assoc] at hfences
      have hpart : FenceChain (attempt.start.fence :: after.map (·.start.fence) ++ [fence]) :=
        List.IsChain.right_of_append hfences
      refine hpart.worker_ne_of_epoch_ne (fun other hother => .inl ?_) hlt.ne
      have hle := (List.pairwise_cons.mp hpart.epochs_sorted).1 other
        (List.mem_append_left _ hother)
      obtain ⟨other, hmem, rfl⟩ := List.mem_map.mp hother
      exact le_antisymm (hmax other (by simp [hsplit, hmem])) hle

namespace RecoverySample

/-- Three attempts under the epochs one, two and three; the first worker comes back. -/
def returningWorker : Option (Checkpoint .compact × List (NodeAttempt .compact)) := do
  let checkpoint ← checkpoint [⟨"node"⟩]
  let first ← attempt checkpoint ⟨"attempt-1"⟩ (worker ⟨"first"⟩ .first) (journalHead (.ofNat 2))
  let second ← attempt checkpoint ⟨"attempt-2"⟩ (worker ⟨"second"⟩ (.ofNat 2))
    (journalHead (.ofNat 3))
  let third ← attempt checkpoint ⟨"attempt-3"⟩ (worker ⟨"first"⟩ (.ofNat 3))
    (journalHead (.ofNat 4))
  return (checkpoint, [first, second, third])

/-- The first two of the attempts, when there is a plan for them under the fence. -/
def planUnder (fence : RunFence) : Option (List (NodeAttempt .compact)) := do
  let (checkpoint, attempts) ← returningWorker
  let planner ← (ReadyNodeRecoveryPlanner.new checkpoint fence).toOption
  let observed ← (planner.observeAll ((attempts.take 2).map .attempt)).toOption
  let _ ← (observed.finish (journalHead (.ofNat 3)) (.ofMicros 0)).toOption
  return attempts.take 2

theorem exists_plan_of_planUnder {fence : RunFence} {attempts : List (NodeAttempt .compact)}
    (h : planUnder fence = some attempts) :
    ∃ checkpoint planner observed plan,
      ReadyNodeRecoveryPlanner.new checkpoint fence = .ok planner ∧
      planner.observeAll (attempts.map .attempt) = .ok observed ∧
      observed.finish (journalHead (.ofNat 3)) (.ofMicros 0) = .ok plan := by
  simp only [planUnder, Option.bind_eq_bind, Option.bind_eq_some_iff, toOption_eq_some, pure,
    Option.some.injEq] at h
  obtain ⟨⟨checkpoint, attempts⟩, _, planner, hnew, observed, hobserve, plan, hfinish, rfl⟩ := h
  exact ⟨checkpoint, planner, observed, plan, hnew, hobserve, hfinish⟩

end RecoverySample

/-- Accepted attempts of the first and the third epoch, and a plan of the third epoch over the
first two, with the same worker. -/
theorem worker_returns_after_another_epoch :
    (∃ (attempts : List (NodeAttempt .compact)) (history : NodeAttemptHistoryVerifier .compact),
      attempts.foldlM NodeAttemptHistoryVerifier.verifyNext .new = .ok history ∧
      ∃ earlier ∈ attempts, ∃ later ∈ attempts,
        earlier.start.fence.epoch ≠ later.start.fence.epoch ∧
        earlier.start.fence.attemptId = later.start.fence.attemptId) ∧
    ∃ (checkpoint : Checkpoint .compact) (fence : RunFence)
      (planner observed : ReadyNodeRecoveryPlanner .compact)
      (observations : List (RecoveryObservation .compact)) (journalHead : JournalHead)
      (observedAt : Timestamp) (plan : ReadyNodeRecoveryPlan .compact),
      ReadyNodeRecoveryPlanner.new checkpoint fence = .ok planner ∧
      planner.observeAll observations = .ok observed ∧
      observed.finish journalHead observedAt = .ok plan ∧
      ∃ nodeId, ∃ attempt ∈ attemptsIn (observationsOf nodeId observations),
        attempt.start.fence.epoch < fence.epoch ∧
        attempt.start.fence.attemptId = fence.attemptId := by
  constructor
  · have hsome : (RecoverySample.returningWorker.any (fun sample =>
        (sample.2.foldlM NodeAttemptHistoryVerifier.verifyNext .new).toOption.isSome ∧
        ∃ earlier ∈ sample.2, ∃ later ∈ sample.2,
          earlier.start.fence.epoch ≠ later.start.fence.epoch ∧
          earlier.start.fence.attemptId = later.start.fence.attemptId)) = true := by
      decide +kernel
    obtain ⟨⟨checkpoint, attempts⟩, _, hattempts⟩ := (Option.any_eq_true _ _).mp hsome
    obtain ⟨haccepted, hreturns⟩ := of_decide_eq_true hattempts
    obtain ⟨history, hhistory⟩ := Option.isSome_iff_exists.mp haccepted
    exact ⟨attempts, history, toOption_eq_some.mp hhistory, hreturns⟩
  · have hsome : ((RecoverySample.planUnder (RecoverySample.worker ⟨"first"⟩ (.ofNat 3))).any
        (fun attempts => ∃ attempt ∈ attemptsIn (observationsOf ⟨"node"⟩ (attempts.map .attempt)),
          attempt.start.fence.epoch <
            (RecoverySample.worker ⟨"first"⟩ (.ofNat 3)).epoch ∧
          attempt.start.fence.attemptId =
            (RecoverySample.worker ⟨"first"⟩ (.ofNat 3)).attemptId)) = true := by
      decide +kernel
    obtain ⟨attempts, hplan, hattempt⟩ := (Option.any_eq_true _ _).mp hsome
    obtain ⟨_, _, _, _, hnew, hobserve, hfinish⟩ := RecoverySample.exists_plan_of_planUnder hplan
    exact ⟨_, _, _, _, _, _, _, _, hnew, hobserve, hfinish, _, of_decide_eq_true hattempt⟩

/-- Attempts of two workers in two epochs and a plan of the second worker in its own epoch: no
worker comes back, so the workers of different epochs differ. -/
theorem worker_changes_with_epoch_two_workers :
    let first := RecoverySample.worker ⟨"first"⟩ .first
    let second := RecoverySample.worker ⟨"second"⟩ (.ofNat 2)
    ∃ (attempts : List (NodeAttempt .compact)) (history : NodeAttemptHistoryVerifier .compact)
      (checkpoint : Checkpoint .compact) (planner observed : ReadyNodeRecoveryPlanner .compact)
      (plan : ReadyNodeRecoveryPlan .compact),
      attempts.map (·.start.fence) = [first, second] ∧
      attempts.foldlM NodeAttemptHistoryVerifier.verifyNext .new = .ok history ∧
      (∀ earlier ∈ attempts, ∀ later ∈ attempts,
        earlier.start.fence.epoch ≠ later.start.fence.epoch →
        earlier.start.fence.attemptId ≠ later.start.fence.attemptId) ∧
      ReadyNodeRecoveryPlanner.new checkpoint second = .ok planner ∧
      planner.observeAll (attempts.map .attempt) = .ok observed ∧
      observed.finish (RecoverySample.journalHead (.ofNat 3)) (.ofMicros 0) = .ok plan ∧
      (attemptsIn (observationsOf ⟨"node"⟩ (attempts.map .attempt))).map (·.start.fence) =
        [first, second] ∧
      ∀ attempt ∈ attemptsIn (observationsOf ⟨"node"⟩ (attempts.map .attempt)),
        attempt.start.fence.epoch < second.epoch →
        attempt.start.fence.attemptId ≠ second.attemptId := by
  intro first second
  have hsome : ((RecoverySample.planUnder second).any (fun attempts =>
      (attempts.foldlM NodeAttemptHistoryVerifier.verifyNext .new).toOption.isSome ∧
      attempts.map (·.start.fence) = [first, second] ∧
      (attemptsIn (observationsOf ⟨"node"⟩ (attempts.map .attempt))).map (·.start.fence) =
        [first, second])) = true := by
    decide +kernel
  obtain ⟨attempts, hplan, hattempts⟩ := (Option.any_eq_true _ _).mp hsome
  obtain ⟨haccepted, hfences, hobserved⟩ := of_decide_eq_true hattempts
  obtain ⟨checkpoint, planner, observed, plan, hnew, hobserve, hfinish⟩ :=
    RecoverySample.exists_plan_of_planUnder hplan
  obtain ⟨history, hhistory⟩ := Option.isSome_iff_exists.mp haccepted
  rw [toOption_eq_some] at hhistory
  refine ⟨_, history, checkpoint, planner, observed, plan, hfences, hhistory, ?_, hnew, hobserve,
    hfinish, hobserved, ?_⟩
  · refine (worker_changes_with_epoch.1 _ history hhistory).1.mpr fun a b c hsub => ?_
    rw [hfences] at hsub
    exact absurd hsub.length_le (by simp)
  · refine (worker_changes_with_epoch.2 _ _ _ _ _ _ _ _ hnew hobserve hfinish _).1.mpr
      fun earlier later hsub hworker => ?_
    rw [hobserved] at hsub
    obtain ⟨rfl, rfl⟩ : earlier = first ∧ later = second := by simpa using hsub.eq_of_length rfl
    rfl

end StateKnot
