import QwenVLPaged.SchedulerCache

/-!
# Lifetime reservations

The scheduler counts in one number the blocks that its active requests may need. Admission adds a
reservation and preemption gives it back, so the number is the sum over the active queue. Two calls
break this: `cancel` gives back the reservation of a preempted request a second time, and `resume`
takes a reservation again without looking at the pool.
-/

namespace QwenVLPaged

/-- Blocks reserved by the requests of a queue. -/
def reservedBlocks (queue : List Request) : ℕ := (queue.map (·.lifetimeBlocks)).sum

/-- The swapped blocks of a request fit into the free frames, as `swapInRequest` checks. -/
def KVCacheManager.canSwapIn (cache : KVCacheManager) (requestId : RequestId) : Bool :=
  let needed := cache.swappedBlocksOf (cache.sequencesFor requestId)
  decide (needed = 0) || cache.allocator.canAllocate needed

namespace Scheduler

open KVCacheManager (Backed)

/-- A call that keeps the counter exact: the 32-bit sum does not wrap, and no reservation of a
preempted request is given back again. -/
def LifetimeSafe (scheduler : Scheduler) : SchedulerOp → Prop
  | .scheduleNext => ∀ request ∈ scheduler.pending,
      lifetimeBlocksFor scheduler.cache request ≤ scheduler.totalBlocks →
      max scheduler.lifetimeHeld scheduler.totalBlocks +
        lifetimeBlocksFor scheduler.cache request < 2 ^ 32
  | .resume requestId => ∀ request ∈ findRequest scheduler.preempted requestId,
      scheduler.cache.canSwapIn requestId →
      scheduler.lifetimeHeld + request.lifetimeBlocks < 2 ^ 32
  | .cancel requestId => findRequest scheduler.pending requestId = none →
      findRequest scheduler.active requestId = none →
      ∀ request ∈ findRequest scheduler.preempted requestId,
        request.lifetimeBlocks = 0 ∨ scheduler.lifetimeHeld < request.lifetimeBlocks
  | .cache _ => False
  | .enqueue _ | .completeStep _ _ | .preempt _ _ => True

/-- A call that keeps the reservations within the pool: besides, a request is resumed only while
its reservation fits. -/
def CommitmentSafe (scheduler : Scheduler) : SchedulerOp → Prop
  | .scheduleNext => ∀ request ∈ scheduler.pending,
      lifetimeBlocksFor scheduler.cache request ≤ scheduler.totalBlocks →
      scheduler.totalBlocks + lifetimeBlocksFor scheduler.cache request < 2 ^ 32
  | .resume requestId => ∀ request ∈ findRequest scheduler.preempted requestId,
      scheduler.cache.canSwapIn requestId →
      scheduler.lifetimeHeld + request.lifetimeBlocks ≤ scheduler.totalBlocks
  | op => scheduler.LifetimeSafe op

instance LifetimeSafe.decidable (scheduler : Scheduler) (op : SchedulerOp) :
    Decidable (scheduler.LifetimeSafe op) :=
  match op with
  | .scheduleNext => inferInstanceAs (Decidable (∀ request ∈ scheduler.pending,
      lifetimeBlocksFor scheduler.cache request ≤ scheduler.totalBlocks →
      max scheduler.lifetimeHeld scheduler.totalBlocks +
        lifetimeBlocksFor scheduler.cache request < 2 ^ 32))
  | .resume requestId => inferInstanceAs (Decidable
      (∀ request ∈ findRequest scheduler.preempted requestId,
        scheduler.cache.canSwapIn requestId →
        scheduler.lifetimeHeld + request.lifetimeBlocks < 2 ^ 32))
  | .cancel requestId => inferInstanceAs (Decidable
      (findRequest scheduler.pending requestId = none →
        findRequest scheduler.active requestId = none →
        ∀ request ∈ findRequest scheduler.preempted requestId,
          request.lifetimeBlocks = 0 ∨ scheduler.lifetimeHeld < request.lifetimeBlocks))
  | .cache _ => inferInstanceAs (Decidable False)
  | .enqueue _ | .completeStep _ _ | .preempt _ _ => inferInstanceAs (Decidable True)

instance CommitmentSafe.decidable (scheduler : Scheduler) (op : SchedulerOp) :
    Decidable (scheduler.CommitmentSafe op) :=
  match op with
  | .scheduleNext => inferInstanceAs (Decidable (∀ request ∈ scheduler.pending,
      lifetimeBlocksFor scheduler.cache request ≤ scheduler.totalBlocks →
      scheduler.totalBlocks + lifetimeBlocksFor scheduler.cache request < 2 ^ 32))
  | .resume requestId => inferInstanceAs (Decidable
      (∀ request ∈ findRequest scheduler.preempted requestId,
        scheduler.cache.canSwapIn requestId →
        scheduler.lifetimeHeld + request.lifetimeBlocks ≤ scheduler.totalBlocks))
  | .cancel requestId => inferInstanceAs (Decidable (scheduler.LifetimeSafe (.cancel requestId)))
  | .cache op => inferInstanceAs (Decidable (scheduler.LifetimeSafe (.cache op)))
  | .enqueue request => inferInstanceAs (Decidable (scheduler.LifetimeSafe (.enqueue request)))
  | .completeStep requestId producedTokens =>
      inferInstanceAs (Decidable (scheduler.LifetimeSafe (.completeStep requestId producedTokens)))
  | .preempt requestId reason =>
      inferInstanceAs (Decidable (scheduler.LifetimeSafe (.preempt requestId reason)))

/-! ## Sums over a queue -/

theorem reservedBlocks_append (front back : List Request) :
    reservedBlocks (front ++ back) = reservedBlocks front + reservedBlocks back := by
  simp [reservedBlocks]

@[simp]
theorem reservedBlocks_singleton (request : Request) :
    reservedBlocks [request] = request.lifetimeBlocks := by
  simp [reservedBlocks]

theorem reservedBlocks_found {queue : List Request} {requestId : RequestId} {request : Request}
    (found : findRequest queue requestId = some request) :
    reservedBlocks queue = request.lifetimeBlocks +
      reservedBlocks (eraseRequest queue requestId) := by
  obtain ⟨front, back, queue_eq, erased, -⟩ := findRequest_split found
  rw [erased, queue_eq]
  simp only [reservedBlocks, List.map_append, List.map_cons, List.sum_append, List.sum_cons]
  omega

theorem heldWithout_add (blocks rest : ℕ) : heldWithout (blocks + rest) blocks = rest := by
  unfold heldWithout
  split <;> omega

@[simp]
theorem lifetimeBlocks_complete (request : Request) (producedTokens : ℕ) :
    (request.complete producedTokens).lifetimeBlocks = request.lifetimeBlocks := by
  unfold Request.complete
  repeat' split
  all_goals rfl

theorem reservedBlocks_completeStep (scheduler : Scheduler) (requestId : RequestId)
    (producedTokens : ℕ) :
    reservedBlocks (scheduler.completeStep requestId producedTokens).active =
      reservedBlocks scheduler.active := by
  unfold reservedBlocks completeStep
  refine congrArg List.sum (List.ext_getElem? fun position => ?_)
  simp only [List.getElem?_map, List.getElem?_modify]
  cases scheduler.active[position]? with
  | none => rfl
  | some request => split <;> simp

/-! ## The invariant -/

/-- The counter is the sum over the active queue, and waiting requests hold nothing. -/
structure Exact (config : AllocatorConfig) (scheduler : Scheduler) : Prop where
  backed : Backed config scheduler.cache
  unreserved : ∀ request ∈ scheduler.pending, request.lifetimeBlocks = 0
  held : scheduler.lifetimeHeld = reservedBlocks scheduler.active

theorem exact_preempt {config : AllocatorConfig} {scheduler : Scheduler}
    (valid : Exact config scheduler) (requestId : RequestId) (reason : String) :
    Exact config (scheduler.preempt requestId reason).2 ∧
      (scheduler.preempt requestId reason).2.lifetimeHeld ≤ scheduler.lifetimeHeld := by
  have backed := backed_preempt valid.backed requestId reason
  unfold preempt at backed ⊢
  split
  · exact ⟨valid, le_rfl⟩
  · rename_i request found
    simp only [found] at backed
    have given : heldWithout scheduler.lifetimeHeld request.lifetimeBlocks =
        reservedBlocks (eraseRequest scheduler.active requestId) := by
      rw [valid.held, reservedBlocks_found found, heldWithout_add]
    refine ⟨⟨backed, valid.unreserved, given⟩, ?_⟩
    rw [valid.held, reservedBlocks_found found]
    exact (heldWithout_add _ _).le.trans (Nat.le_add_left _ _)

/-- The state of the admission loop: the counter stays below a bound to which every waiting
request can still be added. -/
structure Admitting (config : AllocatorConfig) (bound : ℕ) (scheduler : Scheduler) : Prop where
  valid : Exact config scheduler
  held : scheduler.lifetimeHeld ≤ bound
  pool : config.maxBlocks ≤ bound
  addable : ∀ request ∈ scheduler.pending, config.lifetimeBlocks request ≤ config.maxBlocks →
    bound + config.lifetimeBlocks request < 2 ^ 32

theorem admitting_action {config : AllocatorConfig} {bound : ℕ} {scheduler after : Scheduler}
    {plan planned : BatchPlan} (action : AdmissionStep (scheduler, plan) (after, planned))
    (admitting : Admitting config bound scheduler) : Admitting config bound after := by
  have backed := backed_action action admitting.valid.backed
  obtain ⟨valid, held, pool, addable⟩ := admitting
  cases action with
  | @reclaim _ _ victim watermark older found =>
      have frame := reclaimed_preempt scheduler victim.requestId "cache pressure watermark"
      obtain ⟨exact', less⟩ := exact_preempt valid victim.requestId "cache pressure watermark"
      exact ⟨exact', less.trans held, pool, frame.pending.symm ▸ addable⟩
  | refuse waiting refused =>
      exact ⟨⟨backed, valid.unreserved, valid.held⟩, held, pool, addable⟩
  | @accept _ _ position candidate cache waiting fits =>
      have need := lifetimeBlocksFor_eq valid.backed candidate
      have total := totalBlocks_eq valid.backed
      have inPool := fits.pool
      rw [need, total] at inPool
      have small := addable candidate (List.mem_of_getElem? waiting) inPool
      have sum : wrap32 (scheduler.lifetimeHeld + lifetimeBlocksFor scheduler.cache candidate) =
          scheduler.lifetimeHeld + lifetimeBlocksFor scheduler.cache candidate := by
        refine wrap32_of_lt ?_
        rw [need]
        omega
      refine ⟨⟨backed, ?_, ?_⟩, ?_, pool, ?_⟩
      · intro request member
        obtain ⟨earlier, inside, skips, rfl⟩ := mem_skipBefore member
        exact valid.unreserved earlier inside
      · simp only [admitAt]
        rw [sum, reservedBlocks_append, reservedBlocks_singleton, ← valid.held]
        rfl
      · have bounded := fits.held
        rw [total] at bounded
        exact bounded.trans pool
      · intro request member
        obtain ⟨earlier, inside, skips, rfl⟩ := mem_skipBefore member
        exact addable earlier inside

theorem admitting_scheduleNext {config : AllocatorConfig} {bound : ℕ} {scheduler : Scheduler}
    (admitting : Admitting config bound scheduler) :
    Admitting config bound scheduler.scheduleNext.2 :=
  scheduleNext_induction (motive := fun after _ => Admitting config bound after)
    (fun _ _ _ _ action holds => admitting_action action holds) admitting

/-- A successful swap-in passed the check of the free frames. -/
theorem canSwapIn_of_swapInRequest {cache after : KVCacheManager} {requestId : RequestId}
    (restored : cache.swapInRequest requestId = (true, after)) :
    cache.canSwapIn requestId = true := by
  simp only [KVCacheManager.swapInRequest] at restored
  split at restored
  · simp at restored
  · rename_i fits
    simp only [gt_iff_lt, Bool.and_eq_true, decide_eq_true_eq, Bool.not_eq_true', not_and,
      Bool.not_eq_false] at fits
    simp only [KVCacheManager.canSwapIn, Bool.or_eq_true, decide_eq_true_eq]
    exact (Nat.eq_zero_or_pos _).imp_right fits

theorem exact_step {config : AllocatorConfig} {scheduler : Scheduler} {op : SchedulerOp}
    (valid : Exact config scheduler) (safe : scheduler.LifetimeSafe op) :
    Exact config (scheduler.step op) := by
  have own : OwnCall op := by
    cases op <;> trivial
  have backed := backed_step valid.backed own
  cases op with
  | enqueue request =>
      refine ⟨backed, ?_, valid.held⟩
      intro waiting member
      rcases List.mem_append.mp member with old | new
      · exact valid.unreserved waiting old
      · rw [List.mem_singleton.mp new]
        rfl
  | scheduleNext =>
      have start : Admitting config (max scheduler.lifetimeHeld config.maxBlocks) scheduler := by
        refine ⟨valid, le_max_left _ _, le_max_right _ _, ?_⟩
        intro request member fits
        have small := safe request member
        rw [lifetimeBlocksFor_eq valid.backed, totalBlocks_eq valid.backed] at small
        exact small fits
      exact (admitting_scheduleNext start).valid
  | completeStep requestId producedTokens =>
      refine ⟨backed, valid.unreserved, ?_⟩
      exact valid.held.trans (reservedBlocks_completeStep scheduler requestId producedTokens).symm
  | preempt requestId reason => exact (exact_preempt valid requestId reason).1
  | resume requestId =>
      obtain ⟨cache, failed⟩ | ⟨request, cache, state, found, restored, -, resumed⟩ :=
        scheduler.resume_cases requestId
      · rw [step, failed] at backed ⊢
        exact ⟨backed, valid.unreserved, valid.held⟩
      · have small := safe request found (canSwapIn_of_swapInRequest restored)
        rw [step, resumed] at backed ⊢
        refine ⟨backed, valid.unreserved, ?_⟩
        simp only
        rw [wrap32_of_lt small, reservedBlocks_append, reservedBlocks_singleton, valid.held]
  | cancel requestId =>
      simp only [step, cancel] at backed ⊢
      split
      · rename_i request found
        simp only [found] at backed
        refine ⟨backed, fun waiting member => valid.unreserved waiting (mem_eraseRequest member),
          ?_⟩
        simp only
        rw [valid.unreserved request (mem_of_findRequest found), ← valid.held]
        rfl
      · rename_i missing
        simp only [missing] at backed
        split
        · rename_i request found
          simp only [found] at backed
          refine ⟨backed, valid.unreserved, ?_⟩
          simp only
          rw [valid.held, reservedBlocks_found found, heldWithout_add]
        · rename_i inactive
          simp only [inactive] at backed
          split
          · rename_i request found
            simp only [found] at backed
            refine ⟨backed, valid.unreserved, ?_⟩
            have kept : heldWithout scheduler.lifetimeHeld request.lifetimeBlocks =
                scheduler.lifetimeHeld := by
              have guarded := safe missing inactive request found
              unfold heldWithout
              split <;> omega
            exact kept.trans valid.held
          · exact valid
  | cache op => exact safe.elim

theorem exact_create (config : SchedulerConfig) {pool : AllocatorConfig} {cache : KVCacheManager}
    (backed : Backed pool cache) : Exact pool (create config cache) :=
  ⟨backed, by simp [create], rfl⟩

/-- The counter is exact in every run of safe calls. -/
theorem lifetime_held_exact (config : SchedulerConfig) (pool : AllocatorConfig)
    (slab : ℕ → UInt8) (swapSlots : Option ℕ) (ops : List SchedulerOp)
    (safe : Execution.Along step LifetimeSafe
      (create config (.overPool pool slab swapSlots)) ops) :
    let scheduler := (create config (.overPool pool slab swapSlots)).run ops
    scheduler.lifetimeHeld = (scheduler.active.map (·.lifetimeBlocks)).sum :=
  (Execution.Along.invariant (fun _ _ => exact_step)
    (exact_create config (KVCacheManager.backed_overPool pool slab swapSlots)) safe).held

/-- Two requests of two blocks each, one of them preempted, resumed and preempted again. -/
def parkingOps : List SchedulerOp :=
  [.enqueue (.ofTokens 1 2 0), .enqueue (.ofTokens 2 2 0), .scheduleNext,
    .preempt 1 "caller", .resume 1, .preempt 1 "caller"]

/-- The parked request holds nothing. -/
theorem lifetime_held_exact_parking :
    ((create plainConfig (.overPool fourFrames (fun _ => 0) (some 4))).run
      parkingOps).lifetimeHeld = 2 ∧
    ((create plainConfig (.overPool fourFrames (fun _ => 0) (some 4))).run
      parkingOps).lifetimeHeld =
    (((create plainConfig (.overPool fourFrames (fun _ => 0) (some 4))).run
      parkingOps).active.map (·.lifetimeBlocks)).sum :=
  ⟨by decide +kernel, lifetime_held_exact plainConfig fourFrames (fun _ => 0) (some 4) parkingOps
    (by decide +kernel)⟩

/-- Cancelling it gives its reservation back a second time: the other request still holds two
blocks and the counter is zero. -/
theorem lifetime_held_lost_by_cancel :
    let scheduler := (create plainConfig (.overPool fourFrames (fun _ => 0) (some 4))).run
      (parkingOps ++ [.cancel 1])
    scheduler.lifetimeHeld = 0 ∧ (scheduler.active.map (·.lifetimeBlocks)).sum = 2 := by
  decide +kernel

/-! ## Over-commitment -/

theorem CommitmentSafe.lifetimeSafe {config : AllocatorConfig} {scheduler : Scheduler}
    {op : SchedulerOp} (backed : Backed config scheduler.cache)
    (within : scheduler.lifetimeHeld ≤ config.maxBlocks) (safe : scheduler.CommitmentSafe op) :
    scheduler.LifetimeSafe op := by
  have total := totalBlocks_eq backed
  cases op with
  | scheduleNext =>
      intro request member fits
      rw [max_eq_right (total.symm ▸ within)]
      exact safe request member fits
  | resume requestId =>
      intro request found fits
      have small := safe request found fits
      rw [total] at small
      exact small.trans_lt config.maxBlocks_lt
  | enqueue request => exact safe
  | completeStep requestId producedTokens => exact safe
  | preempt requestId reason => exact safe
  | cancel requestId => exact safe
  | cache op => exact safe

theorem heldWithout_le (held blocks : ℕ) : heldWithout held blocks ≤ held := by
  unfold heldWithout
  split <;> omega

theorem lifetimeHeld_cancel_le (scheduler : Scheduler) (requestId : RequestId) :
    (scheduler.cancel requestId).lifetimeHeld ≤ scheduler.lifetimeHeld := by
  simp only [cancel]
  repeat' split
  · exact heldWithout_le _ _
  · exact heldWithout_le _ _
  · exact heldWithout_le _ _
  · exact le_rfl

/-- The counter is exact and within the pool. -/
structure Committed (config : AllocatorConfig) (scheduler : Scheduler) : Prop where
  valid : Exact config scheduler
  within : scheduler.lifetimeHeld ≤ config.maxBlocks

theorem committed_step {config : AllocatorConfig} {scheduler : Scheduler} {op : SchedulerOp}
    (committed : Committed config scheduler) (safe : scheduler.CommitmentSafe op) :
    Committed config (scheduler.step op) := by
  obtain ⟨valid, within⟩ := committed
  refine ⟨exact_step valid (safe.lifetimeSafe valid.backed within), ?_⟩
  cases op with
  | enqueue request => exact within
  | scheduleNext =>
      have start : Admitting config config.maxBlocks scheduler := by
        refine ⟨valid, within, le_rfl, ?_⟩
        intro request member fits
        have small := safe request member
        rw [lifetimeBlocksFor_eq valid.backed, totalBlocks_eq valid.backed] at small
        exact small fits
      exact (admitting_scheduleNext start).held
  | completeStep requestId producedTokens => exact within
  | preempt requestId reason => exact (exact_preempt valid requestId reason).2.trans within
  | resume requestId =>
      obtain ⟨cache, failed⟩ | ⟨request, cache, state, found, restored, -, resumed⟩ :=
        scheduler.resume_cases requestId
      · rw [step, failed]
        exact within
      · have small := safe request found (canSwapIn_of_swapInRequest restored)
        rw [totalBlocks_eq valid.backed] at small
        rw [step, resumed]
        exact (Nat.mod_le _ _).trans small
  | cancel requestId => exact (scheduler.lifetimeHeld_cancel_le requestId).trans within
  | cache op => exact safe.elim

/-- The reservations of the active requests fit the pool in every run of safe calls. -/
theorem reservations_within_pool (config : SchedulerConfig) (pool : AllocatorConfig)
    (slab : ℕ → UInt8) (swapSlots : Option ℕ) (ops : List SchedulerOp)
    (safe : Execution.Along step CommitmentSafe
      (create config (.overPool pool slab swapSlots)) ops) :
    let scheduler := (create config (.overPool pool slab swapSlots)).run ops
    (scheduler.active.map (·.lifetimeBlocks)).sum ≤ scheduler.totalBlocks := by
  intro scheduler
  have start : Committed pool (create config (.overPool pool slab swapSlots)) :=
    ⟨exact_create config (KVCacheManager.backed_overPool pool slab swapSlots), Nat.zero_le _⟩
  have final : Committed pool scheduler :=
    Execution.Along.invariant (fun _ _ => committed_step) start safe
  rw [totalBlocks_eq final.valid.backed]
  exact final.valid.held.symm.le.trans final.within

/-- A request is parked, resumed while nothing else runs, and the next one has to wait. -/
def patientOps : List SchedulerOp :=
  [.enqueue (.ofTokens 1 1 3), .scheduleNext, .preempt 1 "caller", .resume 1,
    .enqueue (.ofTokens 2 1 3), .scheduleNext]

theorem reservations_within_pool_patient :
    ((create plainConfig (.overPool fourFrames (fun _ => 0) (some 4))).run
      patientOps).pending.map (·.requestId) = [2] ∧
    (((create plainConfig (.overPool fourFrames (fun _ => 0) (some 4))).run
      patientOps).active.map (·.lifetimeBlocks)).sum ≤
    ((create plainConfig (.overPool fourFrames (fun _ => 0) (some 4))).run
      patientOps).totalBlocks :=
  ⟨by decide +kernel, reservations_within_pool plainConfig fourFrames (fun _ => 0) (some 4)
    patientOps (by decide +kernel)⟩

/-- A request is resumed after another one took the whole pool: eight blocks are reserved in a
pool of four. -/
theorem reservations_exceed_pool_after_resume :
    let scheduler := (create plainConfig (.overPool fourFrames (fun _ => 0) (some 4))).run
      [.enqueue (.ofTokens 1 1 3), .scheduleNext, .preempt 1 "caller",
        .enqueue (.ofTokens 2 1 3), .scheduleNext, .resume 1]
    (scheduler.active.map (·.lifetimeBlocks)).sum = 8 ∧ scheduler.totalBlocks = 4 := by
  decide +kernel

end Scheduler
end QwenVLPaged
