import QwenVLPaged.CacheRun
import QwenVLPaged.Scheduler

/-!
# Runs of the scheduler

The calls a driver may make, and what the admission loop of `scheduleNext` can do: it preempts a
victim, it refuses a candidate after opening its root, or it admits a waiting request. Every
admission loop is a sequence of these actions, so an invariant of `scheduleNext` is an invariant
of each of them.
-/

namespace QwenVLPaged

/-- A call of the scheduler, or a call the driver makes on the cache manager beside it. -/
inductive SchedulerOp
  | enqueue (request : Request)
  | scheduleNext
  | completeStep (requestId : RequestId) (producedTokens : ℕ)
  | preempt (requestId : RequestId) (reason : String)
  | resume (requestId : RequestId)
  | cancel (requestId : RequestId)
  | cache (op : CacheOp)

namespace Scheduler

/-- Execute one call and keep the new state. -/
def step (scheduler : Scheduler) : SchedulerOp → Scheduler
  | .enqueue request => scheduler.enqueue request
  | .scheduleNext => scheduler.scheduleNext.2
  | .completeStep requestId producedTokens => scheduler.completeStep requestId producedTokens
  | .preempt requestId reason => (scheduler.preempt requestId reason).2
  | .resume requestId => (scheduler.resume requestId).2
  | .cancel requestId => scheduler.cancel requestId
  | .cache op => { scheduler with cache := scheduler.cache.step op }

/-- Execute a list of calls. -/
def run (scheduler : Scheduler) (ops : List SchedulerOp) : Scheduler :=
  Execution.run step scheduler ops

end Scheduler

/-- A cache call that publishes no prefix. -/
def CacheOp.Silent : CacheOp → Prop
  | .publishPrefix _ _ => False
  | _ => True

/-- A small pool for closed runs: four frames of one token. -/
def fourFrames : AllocatorConfig := ⟨⟨1, 1, 1, 1, 1, 0⟩, 1, 4, four_lt_word⟩

/-- A cache over the small pool with four swap slots. -/
def fourFrameCache : KVCacheManager := .fresh fourFrames (fun _ => 0) 4

/-- Room for eight requests and eight tokens, without automatic preemption. -/
def Scheduler.plainConfig : SchedulerConfig := ⟨8, 8, 0, false, 0, by decide⟩

/-! ## Queues -/

/-- A request found in a queue splits it, and erasing removes just that request. -/
theorem findRequest_split {queue : List Request} {requestId : RequestId} {request : Request}
    (found : findRequest queue requestId = some request) :
    ∃ front back, queue = front ++ request :: back ∧
      eraseRequest queue requestId = front ++ back ∧ request.requestId = requestId ∧
      ∀ other ∈ front, other.requestId ≠ requestId := by
  obtain ⟨named, front, back, split, before⟩ := List.find?_eq_some_iff_append.mp found
  refine ⟨front, back, split, ?_, by simpa using named, by simpa using before⟩
  rw [eraseRequest, split, List.eraseP_append_right _ (by simpa using before)]
  simp [named]

theorem findRequest_none {queue : List Request} {requestId : RequestId} :
    findRequest queue requestId = none ↔ ∀ request ∈ queue, request.requestId ≠ requestId := by
  simp [findRequest]

theorem mem_of_findRequest {queue : List Request} {requestId : RequestId} {request : Request}
    (found : findRequest queue requestId = some request) : request ∈ queue :=
  List.mem_of_find?_eq_some found

theorem eraseRequest_eq_eraseIdx (queue : List Request) (requestId : RequestId) :
    eraseRequest queue requestId =
      queue.eraseIdx (queue.findIdx fun request => request.requestId == requestId) := by
  induction queue with
  | nil => rfl
  | cons front queue induction =>
      by_cases named : front.requestId = requestId
      · simp [eraseRequest, List.findIdx_cons, named]
      · have other : (front.requestId == requestId) = false := by simpa using named
        simpa [eraseRequest, List.findIdx_cons, other] using induction

theorem modify_findRequest {front back : List Request} {request : Request}
    {requestId : RequestId} (named : request.requestId = requestId)
    (before : ∀ other ∈ front, other.requestId ≠ requestId) (update : Request → Request) :
    (front ++ request :: back).modify
        ((front ++ request :: back).findIdx fun other => other.requestId == requestId) update =
      front ++ update request :: back := by
  induction front with
  | nil => simp [List.findIdx_cons, named]
  | cons first front induction =>
      have other : (first.requestId == requestId) = false := by
        simpa using before first List.mem_cons_self
      simpa [List.findIdx_cons, other] using
        induction fun other member => before other (List.mem_cons_of_mem _ member)

/-! ## Eviction -/

/-- Eviction gives frames back but changes neither their bytes nor their number. -/
structure Evicted (before after : MemoryAllocator) : Prop where
  config : after.config = before.config
  blocks : after.blocks = before.blocks
  infos : after.infos.length = before.infos.length

theorem Evicted.refl (allocator : MemoryAllocator) : Evicted allocator allocator :=
  ⟨rfl, rfl, rfl⟩

theorem Evicted.trans {first second third : MemoryAllocator} (front : Evicted first second)
    (back : Evicted second third) : Evicted first third :=
  ⟨back.config.trans front.config, back.blocks.trans front.blocks,
    back.infos.trans front.infos⟩

theorem evicted_swapOut (allocator : MemoryAllocator) (id : PhysicalBlockId) :
    Evicted allocator (allocator.swapOut id).2 := by
  unfold MemoryAllocator.swapOut
  repeat' split
  all_goals exact ⟨rfl, rfl, by simp⟩

namespace KVCacheManager

theorem evicted_swapOutEntries (allocator : MemoryAllocator) (table : BlockTable)
    (indices : List ℕ) : Evicted allocator (swapOutEntries allocator table indices).2.1 := by
  induction indices generalizing allocator table with
  | nil => exact .refl allocator
  | cons index indices induction =>
      rw [swapOutEntries]
      split
      · exact induction allocator table
      · rename_i entry _
        have first := evicted_swapOut allocator entry.physicalId
        split
        · rename_i failed
          rw [failed] at first
          exact first.trans (induction _ table)
        · rename_i stored
          rw [stored] at first
          exact first.trans (induction _ _)

theorem evicted_swapOutTables (allocator : MemoryAllocator) (tables : List BlockTable) :
    Evicted allocator (swapOutTables allocator tables).2.1 := by
  induction tables generalizing allocator with
  | nil => exact .refl allocator
  | cons table tables induction =>
      exact (evicted_swapOutEntries allocator table _).trans (induction _)

theorem evicted_swapOutSequence (manager : KVCacheManager) (sequenceId : SequenceId) :
    Evicted manager.allocator (manager.swapOutSequence sequenceId).2.allocator ∧
      (manager.swapOutSequence sequenceId).2.prefixIndex = manager.prefixIndex := by
  unfold swapOutSequence
  split
  · exact ⟨.refl _, rfl⟩
  · exact ⟨evicted_swapOutTables _ _, rfl⟩

theorem evicted_swapOutRequest (manager : KVCacheManager) (requestId : RequestId) :
    Evicted manager.allocator (manager.swapOutRequest requestId).2.allocator ∧
      (manager.swapOutRequest requestId).2.prefixIndex = manager.prefixIndex := by
  have one (middle : KVCacheManager) (sequenceId : SequenceId)
      (holds : Evicted manager.allocator middle.allocator ∧
        middle.prefixIndex = manager.prefixIndex) :
      Evicted manager.allocator (middle.swapOutSequence sequenceId).2.allocator ∧
        (middle.swapOutSequence sequenceId).2.prefixIndex = manager.prefixIndex := by
    have last := evicted_swapOutSequence middle sequenceId
    exact ⟨holds.1.trans last.1, last.2.trans holds.2⟩
  exact swapOutSequences_induction
    (motive := fun middle => Evicted manager.allocator middle.allocator ∧
      middle.prefixIndex = manager.prefixIndex)
    one ⟨.refl _, rfl⟩ (manager.sequencesFor requestId)

end KVCacheManager

namespace Scheduler

/-! ## Preempting -/

/-- What preempting for admission leaves alone. -/
structure Reclaimed (before after : Scheduler) : Prop where
  config : after.config = before.config
  pending : after.pending = before.pending
  prefixIndex : after.cache.prefixIndex = before.cache.prefixIndex
  evicted : Evicted before.cache.allocator after.cache.allocator

theorem Reclaimed.refl (scheduler : Scheduler) : Reclaimed scheduler scheduler :=
  ⟨rfl, rfl, rfl, .refl _⟩

theorem Reclaimed.trans {first second third : Scheduler} (front : Reclaimed first second)
    (back : Reclaimed second third) : Reclaimed first third :=
  ⟨back.config.trans front.config, back.pending.trans front.pending,
    back.prefixIndex.trans front.prefixIndex, front.evicted.trans back.evicted⟩

theorem reclaimed_preempt (scheduler : Scheduler) (requestId : RequestId) (reason : String) :
    Reclaimed scheduler (scheduler.preempt requestId reason).2 := by
  unfold preempt
  split
  · exact .refl scheduler
  · rename_i request _
    have swapped := scheduler.cache.evicted_swapOutRequest request.requestId
    exact ⟨rfl, rfl, swapped.2, swapped.1⟩

theorem Reclaimed.totalBlocks {before after : Scheduler} (reclaimed : Reclaimed before after) :
    after.totalBlocks = before.totalBlocks := reclaimed.evicted.infos

/-- Block counts depend on the frames and the prefix index only. -/
theorem lifetimeBlocksFor_congr {before after : KVCacheManager}
    (prefixIndex : after.prefixIndex = before.prefixIndex)
    (front : after.allocator.block 0 = before.allocator.block 0) (request : Request) :
    lifetimeBlocksFor after request = lifetimeBlocksFor before request := by
  have cached : cachedTokens after request = cachedTokens before request := by
    rw [cachedTokens, cachedTokens, KVCacheManager.prefixTokenCount,
      KVCacheManager.prefixTokenCount, prefixIndex]
  have blocks (tokenCount : ℕ) :
      blocksForTokens after tokenCount = blocksForTokens before tokenCount := by
    rw [blocksForTokens, blocksForTokens, front]
  rw [lifetimeBlocksFor, lifetimeBlocksFor, cached, blocks]

theorem Reclaimed.lifetimeBlocksFor {before after : Scheduler}
    (reclaimed : Reclaimed before after) (request : Request) :
    lifetimeBlocksFor after.cache request = lifetimeBlocksFor before.cache request := by
  refine lifetimeBlocksFor_congr reclaimed.prefixIndex ?_ request
  rw [MemoryAllocator.block, MemoryAllocator.block, reclaimed.evicted.blocks]

/-! ## The admission loop -/

/-- A waiting request that passed every check of `tryAdmit`. -/
structure Fits (scheduler : Scheduler) (plan : BatchPlan) (candidate : Request)
    (cache : KVCacheManager) : Prop where
  budget : plan.scheduledTokens < scheduler.config.maxBatchTokens
  pool : lifetimeBlocksFor scheduler.cache candidate ≤ scheduler.totalBlocks
  held : wrap32 (scheduler.lifetimeHeld + lifetimeBlocksFor scheduler.cache candidate) ≤
    scheduler.totalBlocks
  opened : openRoot scheduler.cache candidate = (true, cache)

/-- The state after the request at a pending position is admitted. -/
def admitAt (scheduler : Scheduler) (position : ℕ) (candidate : Request)
    (cache : KVCacheManager) : Scheduler :=
  let needed := lifetimeBlocksFor scheduler.cache candidate
  { scheduler with
    cache
    pending := (skipBefore scheduler.pending position).eraseIdx position
    active := scheduler.active ++ [admittedRequest candidate needed]
    lifetimeHeld := wrap32 (scheduler.lifetimeHeld + needed) }

/-- One action of the admission loop. -/
inductive AdmissionStep : Scheduler × BatchPlan → Scheduler × BatchPlan → Prop
  | reclaim {scheduler : Scheduler} {plan : BatchPlan} {victim : Request}
      (watermark : scheduler.config.preemptionWatermarkBlocks ≠ 0)
      (older : plan.prefillRequests.length < scheduler.active.length)
      (newest : scheduler.active[scheduler.active.length - plan.prefillRequests.length - 1]? =
        some victim) :
      AdmissionStep (scheduler, plan)
        ((scheduler.preempt victim.requestId "cache pressure watermark").2, plan)
  | refuse {scheduler : Scheduler} {plan : BatchPlan} {candidate : Request}
      {cache : KVCacheManager} (waiting : candidate ∈ scheduler.pending)
      (refused : openRoot scheduler.cache candidate = (false, cache)) :
      AdmissionStep (scheduler, plan) ({ scheduler with cache }, plan)
  | accept {scheduler : Scheduler} {plan : BatchPlan} {position : ℕ} {candidate : Request}
      {cache : KVCacheManager} (waiting : scheduler.pending[position]? = some candidate)
      (fits : Fits scheduler plan candidate cache) :
      AdmissionStep (scheduler, plan)
        (scheduler.admitAt position candidate cache,
          schedulePrefillChunk scheduler.config
            (admittedRequest candidate (lifetimeBlocksFor scheduler.cache candidate)) plan)

/-- Any number of actions. -/
abbrev AdmissionSteps := Relation.ReflTransGen AdmissionStep

theorem reclaimLoop_steps (needed required total fuel : ℕ) {scheduler : Scheduler}
    {plan : BatchPlan} (watermark : scheduler.config.preemptionWatermarkBlocks ≠ 0) :
    let after := reclaimLoop needed required total plan.prefillRequests.length fuel scheduler
    AdmissionSteps (scheduler, plan) (after, plan) ∧ Reclaimed scheduler after := by
  induction fuel generalizing scheduler with
  | zero => exact ⟨.refl, .refl scheduler⟩
  | succ fuel induction =>
      simp only [reclaimLoop]
      split
      · rename_i pressed
        split
        · exact ⟨.refl, .refl scheduler⟩
        · rename_i victim newest
          have taken := AdmissionStep.reclaim watermark pressed.1 newest
          have frame := reclaimed_preempt scheduler victim.requestId "cache pressure watermark"
          split
          · rename_i failed
            rw [failed] at taken frame
            exact ⟨.single taken, frame⟩
          · rename_i preempted
            rw [preempted] at taken frame
            split
            · exact ⟨.single taken, frame⟩
            · obtain ⟨later, rest⟩ := induction (frame.config ▸ watermark)
              exact ⟨.head taken later, frame.trans rest⟩
      · exact ⟨.refl, .refl scheduler⟩

theorem reclaimForAdmission_steps (scheduler : Scheduler) (plan : BatchPlan)
    (promptTokens decodeTokens : ℕ) :
    let after := scheduler.reclaimForAdmission promptTokens decodeTokens
      plan.prefillRequests.length
    AdmissionSteps (scheduler, plan) (after, plan) ∧ Reclaimed scheduler after := by
  simp only [reclaimForAdmission]
  split
  · exact ⟨.refl, .refl scheduler⟩
  · rename_i watermark
    split
    · exact ⟨.refl, .refl scheduler⟩
    · exact reclaimLoop_steps _ _ _ _ watermark

/-- `tryAdmit` reclaims and then refuses, or reclaims and then opens the root. -/
theorem tryAdmit_cases {scheduler : Scheduler} {candidate : Request} (plan : BatchPlan)
    (waiting : candidate ∈ scheduler.pending) :
    (∃ after, scheduler.tryAdmit candidate plan plan.prefillRequests.length = (none, after) ∧
      AdmissionSteps (scheduler, plan) (after, plan) ∧ after.pending = scheduler.pending ∧
      after.config = scheduler.config) ∨
    ∃ middle cache, AdmissionSteps (scheduler, plan) (middle, plan) ∧
      middle.pending = scheduler.pending ∧ middle.config = scheduler.config ∧
      Fits middle plan candidate cache ∧
      scheduler.tryAdmit candidate plan plan.prefillRequests.length =
        (some (admittedRequest candidate (lifetimeBlocksFor middle.cache candidate),
          schedulePrefillChunk middle.config
            (admittedRequest candidate (lifetimeBlocksFor middle.cache candidate)) plan),
          { middle with
            cache
            lifetimeHeld :=
              wrap32 (middle.lifetimeHeld + lifetimeBlocksFor middle.cache candidate) }) := by
  simp only [tryAdmit]
  split
  · exact Or.inl ⟨_, rfl, .refl, rfl, rfl⟩
  rename_i budget
  split
  · exact Or.inl ⟨_, rfl, .refl, rfl, rfl⟩
  rename_i pool
  obtain ⟨steps, frame⟩ := reclaimForAdmission_steps scheduler plan candidate.promptTokens
    candidate.sampling.maxDecodeTokens
  generalize scheduler.reclaimForAdmission candidate.promptTokens
    candidate.sampling.maxDecodeTokens plan.prefillRequests.length = middle at steps frame ⊢
  rw [← frame.lifetimeBlocksFor, ← frame.totalBlocks, not_lt] at pool
  rw [← frame.lifetimeBlocksFor]
  split
  · exact Or.inl ⟨_, rfl, steps, frame.pending, frame.config⟩
  rename_i held
  split
  · rename_i refused
    exact Or.inl ⟨_, rfl, steps.tail (.refuse (frame.pending ▸ waiting) refused),
      frame.pending, frame.config⟩
  · rename_i cache opened
    refine Or.inr ⟨middle, cache, steps, frame.pending, frame.config, ⟨?_, pool, ?_, opened⟩, ?_⟩
    · rw [frame.config]
      exact not_le.mp budget
    · exact not_lt.mp held
    · rw [frame.config]

/-- The scan refuses everybody, or refuses up to the position that it admits. -/
theorem admitScan_cases (plan : BatchPlan) {scheduler : Scheduler} {candidates : List Request}
    (waiting : ∀ candidate ∈ candidates, candidate ∈ scheduler.pending) :
    (∃ after, admitScan plan scheduler candidates = (none, after) ∧
      AdmissionSteps (scheduler, plan) (after, plan) ∧ after.pending = scheduler.pending ∧
      after.config = scheduler.config) ∨
    ∃ middle cache position candidate, AdmissionSteps (scheduler, plan) (middle, plan) ∧
      middle.pending = scheduler.pending ∧ middle.config = scheduler.config ∧
      candidates[position]? = some candidate ∧ Fits middle plan candidate cache ∧
      admitScan plan scheduler candidates =
        (some (position, admittedRequest candidate (lifetimeBlocksFor middle.cache candidate),
          schedulePrefillChunk middle.config
            (admittedRequest candidate (lifetimeBlocksFor middle.cache candidate)) plan),
          { middle with
            cache
            lifetimeHeld :=
              wrap32 (middle.lifetimeHeld + lifetimeBlocksFor middle.cache candidate) }) := by
  induction candidates generalizing scheduler with
  | nil => exact Or.inl ⟨scheduler, rfl, .refl, rfl, rfl⟩
  | cons front rest induction =>
      obtain ⟨after, refused, steps, pending, config⟩ |
          ⟨middle, cache, steps, pending, config, fits, admitted⟩ :=
        tryAdmit_cases plan (waiting front (by simp))
      · have later : ∀ candidate ∈ rest, candidate ∈ after.pending := by
          intro candidate member
          rw [pending]
          exact waiting candidate (by simp [member])
        obtain ⟨final, none_left, others, pending', config'⟩ |
            ⟨middle, cache, position, candidate, others, pending', config', found, fits,
              admitted⟩ := induction later
        · refine Or.inl ⟨final, ?_, steps.trans others, pending'.trans pending,
            config'.trans config⟩
          simp [admitScan, refused, none_left]
        · refine Or.inr ⟨middle, cache, position + 1, candidate, steps.trans others,
            pending'.trans pending, config'.trans config, by simpa using found, fits, ?_⟩
          simp [admitScan, refused, admitted]
      · refine Or.inr ⟨middle, cache, 0, front, steps, pending, config, rfl, fits, ?_⟩
        simp [admitScan, admitted]

/-- A round of the admission loop admits nobody and keeps the queue, or admits the request at one
position: the head, or a later one when the head may be skipped. -/
theorem admitRound_cases (scheduler : Scheduler) (plan : BatchPlan) :
    (∃ after, scheduler.admitRound plan = (none, after) ∧
      AdmissionSteps (scheduler, plan) (after, plan) ∧ after.pending = scheduler.pending ∧
      after.config = scheduler.config) ∨
    ∃ after position planned, scheduler.admitRound plan = (some (position, planned), after) ∧
      AdmissionSteps (scheduler, plan) (after, planned) ∧
      after.pending = (skipBefore scheduler.pending position).eraseIdx position ∧
      after.config = scheduler.config ∧ position < scheduler.pending.length ∧
      (position = 0 ∨ ∃ front, scheduler.pending.head? = some front ∧
        mustTakeHead scheduler.config front = false) := by
  unfold admitRound
  split
  · exact Or.inl ⟨_, rfl, .refl, rfl, rfl⟩
  rename_i front rest queue
  split
  · exact Or.inl ⟨_, rfl, .refl, rfl, rfl⟩
  split
  · obtain ⟨after, refused, steps, pending, config⟩ |
        ⟨middle, cache, steps, pending, config, fits, admitted⟩ :=
      tryAdmit_cases plan (queue ▸ List.mem_cons_self : front ∈ scheduler.pending)
    · rw [refused]
      exact Or.inl ⟨after, rfl, steps, pending, config⟩
    · rw [admitted]
      have waiting : middle.pending[0]? = some front := by simp [pending, queue]
      have last := AdmissionStep.accept waiting fits
      refine Or.inr ⟨_, 0, _, rfl, ?_, by simp [skipBefore, queue], config, by simp [queue],
        Or.inl rfl⟩
      have equal : middle.admitAt 0 front cache =
          { middle with
            cache
            pending := rest
            active := middle.active ++
              [admittedRequest front (lifetimeBlocksFor middle.cache front)]
            lifetimeHeld :=
              wrap32 (middle.lifetimeHeld + lifetimeBlocksFor middle.cache front) } := by
        simp [admitAt, skipBefore, pending, queue]
      rw [equal] at last
      exact steps.tail last
  · rename_i skippable
    obtain ⟨after, refused, steps, pending, config⟩ |
        ⟨middle, cache, position, candidate, steps, pending, config, found, fits, admitted⟩ :=
      admitScan_cases plan (fun candidate member => member :
        ∀ candidate ∈ scheduler.pending, candidate ∈ scheduler.pending)
    · rw [refused]
      exact Or.inl ⟨after, rfl, steps, pending, config⟩
    · rw [admitted]
      have last := AdmissionStep.accept (pending.symm ▸ found) fits
      refine Or.inr ⟨_, position, _, rfl, ?_, by simp [queue], config, ?_,
        Or.inr ⟨front, by simp [queue], by simpa using skippable⟩⟩
      · rw [admitAt, pending] at last
        exact steps.tail last
      · exact (List.getElem?_eq_some_iff.mp found).1

theorem admitFromPending_steps (fuel : ℕ) (scheduler : Scheduler) (plan : BatchPlan) :
    AdmissionSteps (scheduler, plan)
      ((admitFromPending fuel scheduler plan).2.2, (admitFromPending fuel scheduler plan).2.1) := by
  induction fuel generalizing scheduler plan with
  | zero => exact .refl
  | succ fuel induction =>
      obtain ⟨after, ended, steps, -, -⟩ | ⟨after, position, planned, admitted, steps, -⟩ :=
        admitRound_cases scheduler plan
      · simpa [admitFromPending, ended] using steps
      · simpa [admitFromPending, admitted] using steps.trans (induction after planned)

/-- The admission loop of `scheduleNext` is a sequence of actions. -/
theorem scheduleNext_steps (scheduler : Scheduler) :
    AdmissionSteps (scheduler, .empty) (scheduler.scheduleNext.2, scheduler.admitPending.2.1) :=
  admitFromPending_steps _ scheduler .empty

/-- What every action preserves, `scheduleNext` preserves. -/
theorem scheduleNext_induction {motive : Scheduler → BatchPlan → Prop}
    (action : ∀ scheduler plan after planned,
      AdmissionStep (scheduler, plan) (after, planned) → motive scheduler plan →
        motive after planned)
    {scheduler : Scheduler} (start : motive scheduler .empty) :
    motive scheduler.scheduleNext.2 scheduler.admitPending.2.1 := by
  have whole (state : Scheduler × BatchPlan)
      (steps : AdmissionSteps (scheduler, .empty) state) : motive state.1 state.2 := by
    induction steps with
    | refl => exact start
    | tail _ last induction => exact action _ _ _ _ last induction
  exact whole _ (scheduleNext_steps scheduler)

/-- Requests skipped by an admission differ in their skip counter only. -/
theorem mem_skipBefore {pending : List Request} {position : ℕ} {request : Request}
    (member : request ∈ (skipBefore pending position).eraseIdx position) :
    ∃ waiting ∈ pending, ∃ skips, request = { waiting with admissionSkips := skips } := by
  rcases List.mem_append.mp (List.mem_of_mem_eraseIdx member) with skipped | behind
  · obtain ⟨waiting, inside, rfl⟩ := List.mem_map.mp skipped
    exact ⟨waiting, List.mem_of_mem_take inside, _, rfl⟩
  · exact ⟨request, List.mem_of_mem_drop behind, request.admissionSkips, rfl⟩

/-! ## The pending queue -/

theorem pending_scheduleNext {property : Request → Prop}
    (skipped : ∀ request skips, property request →
      property { request with admissionSkips := skips })
    {scheduler : Scheduler} (holds : ∀ request ∈ scheduler.pending, property request) :
    ∀ request ∈ scheduler.scheduleNext.2.pending, property request := by
  refine scheduleNext_induction
    (motive := fun scheduler _ => ∀ request ∈ scheduler.pending, property request) ?_ holds
  intro scheduler plan after planned action holds
  cases action with
  | @reclaim _ _ victim watermark older found =>
      rwa [(reclaimed_preempt scheduler victim.requestId "cache pressure watermark").pending]
  | refuse waiting refused => exact holds
  | accept waiting fits =>
      intro request member
      obtain ⟨earlier, inside, skips, rfl⟩ := mem_skipBefore member
      exact skipped earlier skips (holds earlier inside)

theorem pending_cancel (scheduler : Scheduler) (requestId : RequestId) :
    (scheduler.cancel requestId).pending = eraseRequest scheduler.pending requestId ∧
      (scheduler.cancel requestId).config = scheduler.config := by
  unfold cancel
  split
  · exact ⟨rfl, rfl⟩
  · rename_i missing
    have unchanged : eraseRequest scheduler.pending requestId = scheduler.pending :=
      List.eraseP_of_forall_not (by simpa using findRequest_none.mp missing)
    rw [unchanged]
    repeat' split
    all_goals exact ⟨rfl, rfl⟩

theorem pending_resume (scheduler : Scheduler) (requestId : RequestId) :
    (scheduler.resume requestId).2.pending = scheduler.pending ∧
      (scheduler.resume requestId).2.config = scheduler.config := by
  unfold resume
  repeat' split
  all_goals exact ⟨rfl, rfl⟩

theorem mem_eraseRequest {queue : List Request} {requestId : RequestId} {request : Request}
    (member : request ∈ eraseRequest queue requestId) : request ∈ queue :=
  List.mem_of_mem_eraseP member

theorem config_action {scheduler after : Scheduler} {plan planned : BatchPlan}
    (action : AdmissionStep (scheduler, plan) (after, planned)) :
    after.config = scheduler.config := by
  cases action with
  | @reclaim _ _ victim watermark older found =>
      exact (reclaimed_preempt scheduler victim.requestId _).config
  | refuse waiting refused => rfl
  | accept waiting fits => rfl

theorem config_scheduleNext (scheduler : Scheduler) :
    scheduler.scheduleNext.2.config = scheduler.config :=
  scheduleNext_induction (motive := fun after _ => after.config = scheduler.config)
    (fun _ _ _ _ action same => (config_action action).trans same) rfl

theorem config_step (scheduler : Scheduler) (op : SchedulerOp) :
    (scheduler.step op).config = scheduler.config := by
  cases op with
  | enqueue request => rfl
  | scheduleNext => exact scheduler.config_scheduleNext
  | completeStep requestId producedTokens => rfl
  | preempt requestId reason => exact (reclaimed_preempt scheduler requestId reason).config
  | resume requestId => exact (scheduler.pending_resume requestId).2
  | cancel requestId => exact (scheduler.pending_cancel requestId).2
  | cache op => rfl

theorem config_run (scheduler : Scheduler) (ops : List SchedulerOp) :
    (scheduler.run ops).config = scheduler.config :=
  Execution.run_induction (motive := fun (after : Scheduler) _ => after.config = scheduler.config)
    (fun after op _ same => (after.config_step op).trans same) rfl

/-- What every waiting request satisfies, whatever its skip counter, waiting requests go on to
satisfy. -/
theorem pending_step {property : Request → Prop}
    (skipped : ∀ request skips, property request →
      property { request with admissionSkips := skips })
    {scheduler : Scheduler} {op : SchedulerOp}
    (holds : ∀ request ∈ scheduler.pending, property request)
    (entering : ∀ request, op = .enqueue request → property request.enqueued) :
    ∀ request ∈ (scheduler.step op).pending, property request := by
  cases op with
  | enqueue request =>
      intro waiting member
      rcases List.mem_append.mp member with old | new
      · exact holds waiting old
      · rw [List.mem_singleton.mp new]
        exact entering request rfl
  | scheduleNext => exact pending_scheduleNext skipped holds
  | completeStep requestId producedTokens => exact holds
  | preempt requestId reason =>
      intro waiting member
      refine holds waiting ?_
      rwa [← (reclaimed_preempt scheduler requestId reason).pending]
  | resume requestId =>
      intro waiting member
      refine holds waiting ?_
      rwa [← (scheduler.pending_resume requestId).1]
  | cancel requestId =>
      intro waiting member
      have kept : waiting ∈ eraseRequest scheduler.pending requestId := by
        rwa [← (scheduler.pending_cancel requestId).1]
      exact holds waiting (mem_eraseRequest kept)
  | cache op => exact holds

theorem pending_run {property : Request → Prop}
    (skipped : ∀ request skips, property request →
      property { request with admissionSkips := skips })
    {scheduler : Scheduler} {ops : List SchedulerOp}
    (holds : ∀ request ∈ scheduler.pending, property request)
    (entering : ∀ request, .enqueue request ∈ ops → property request.enqueued) :
    ∀ request ∈ (scheduler.run ops).pending, property request := by
  refine (Execution.run_induction
    (motive := fun (scheduler : Scheduler) ops =>
      (∀ request ∈ scheduler.pending, property request) ∧
        ∀ request, .enqueue request ∈ ops → property request.enqueued)
    ?_ ⟨holds, entering⟩).1
  intro scheduler op ops ⟨holds, entering⟩
  refine ⟨pending_step skipped holds ?_, fun request member => ?_⟩
  · rintro request rfl
    exact entering request List.mem_cons_self
  · exact entering request (List.mem_cons_of_mem _ member)

/-! ## Calls on one request -/

/-- Preempting does nothing, or parks the request it finds. -/
theorem preempt_cases (scheduler : Scheduler) (requestId : RequestId) (reason : String) :
    (scheduler.preempt requestId reason).2 = scheduler ∨
      ∃ request cache preemptionInfo lifetimeHeld,
        findRequest scheduler.active requestId = some request ∧
        (scheduler.preempt requestId reason).2 =
          { scheduler with
            cache
            active := eraseRequest scheduler.active requestId
            preempted := scheduler.preempted ++ [{ request with state := .preempted }]
            preemptionInfo
            lifetimeHeld } := by
  unfold preempt
  split
  · exact Or.inl rfl
  · rename_i request found
    exact Or.inr ⟨request, _, _, _, found, rfl⟩

/-- `resume` changes the reservations only when the swap-in succeeds. -/
theorem resume_cases (scheduler : Scheduler) (requestId : RequestId) :
    (∃ cache, scheduler.resume requestId = (false, { scheduler with cache })) ∨
      ∃ request cache state, findRequest scheduler.preempted requestId = some request ∧
        scheduler.cache.swapInRequest requestId = (true, cache) ∧
        state = (if 0 < request.remainingPrefillTokens then .prefill else .decode) ∧
        scheduler.resume requestId = (true,
          { scheduler with
            cache
            preempted := eraseRequest scheduler.preempted requestId
            preemptionInfo := scheduler.preemptionInfo.erase requestId
            active := scheduler.active ++ [{ request with state }]
            lifetimeHeld := wrap32 (scheduler.lifetimeHeld + request.lifetimeBlocks) }) := by
  unfold resume
  split
  · exact Or.inl ⟨scheduler.cache, rfl⟩
  · rename_i request found
    obtain ⟨-, -, -, -, same, -⟩ := findRequest_split found
    split
    · rename_i cache _
      exact Or.inl ⟨cache, rfl⟩
    · rename_i cache restored
      exact Or.inr ⟨request, cache, _, found, same ▸ restored, rfl, rfl⟩

/-- Completing a step does nothing, or moves the first active request of that id on. -/
theorem completeStep_cases (scheduler : Scheduler) (requestId : RequestId) (producedTokens : ℕ) :
    (findRequest scheduler.active requestId = none ∧
      scheduler.completeStep requestId producedTokens = scheduler) ∨
    ∃ request front back, findRequest scheduler.active requestId = some request ∧
      request.requestId = requestId ∧ scheduler.active = front ++ request :: back ∧
      scheduler.completeStep requestId producedTokens =
        { scheduler with active := front ++ request.complete producedTokens :: back } := by
  rcases found : findRequest scheduler.active requestId with _ | request
  · refine Or.inl ⟨rfl, ?_⟩
    have outside : scheduler.active.findIdx (fun other => other.requestId == requestId) =
        scheduler.active.length := by
      rw [List.findIdx_eq_length]
      simpa using findRequest_none.mp found
    rw [completeStep, outside, List.modify_eq_self le_rfl]
  · obtain ⟨front, back, queue, -, named, before⟩ := findRequest_split found
    refine Or.inr ⟨request, front, back, rfl, named, queue, ?_⟩
    simp only [completeStep]
    rw [queue, modify_findRequest named before]

theorem mem_completeStep {scheduler : Scheduler} {requestId : RequestId} {producedTokens : ℕ}
    {request : Request}
    (member : request ∈ (scheduler.completeStep requestId producedTokens).active) :
    ∃ earlier ∈ scheduler.active,
      request = earlier ∨ request = earlier.complete producedTokens := by
  obtain ⟨position, found⟩ := List.getElem?_of_mem member
  simp only [completeStep, List.getElem?_modify, Option.map_eq_map, Option.map_eq_some_iff] at found
  obtain ⟨earlier, inside, rfl⟩ := found
  refine ⟨earlier, List.mem_of_getElem? inside, ?_⟩
  split
  · exact Or.inr rfl
  · exact Or.inl rfl

theorem mem_cancel {scheduler : Scheduler} {requestId : RequestId} {request : Request} :
    (request ∈ (scheduler.cancel requestId).pending → request ∈ scheduler.pending) ∧
      (request ∈ (scheduler.cancel requestId).active → request ∈ scheduler.active) ∧
      (request ∈ (scheduler.cancel requestId).preempted → request ∈ scheduler.preempted) := by
  unfold cancel
  repeat' split
  all_goals exact ⟨by first | exact mem_eraseRequest | exact id,
    by first | exact mem_eraseRequest | exact id, by first | exact mem_eraseRequest | exact id⟩

@[simp]
theorem length_skipBefore (pending : List Request) (position : ℕ) :
    (skipBefore pending position).length = pending.length := by
  simp only [skipBefore, List.length_append, List.length_map, List.length_take, List.length_drop]
  omega

/-! ## Fuel

Both loops shorten a queue in every round, so the fuel they are given never cuts them short. -/

theorem length_active_preempt {scheduler after : Scheduler} {requestId : RequestId}
    {reason : String} (preempted : scheduler.preempt requestId reason = (true, after)) :
    after.active.length + 1 = scheduler.active.length := by
  unfold preempt at preempted
  split at preempted
  · simp at preempted
  · rename_i request found
    obtain ⟨front, back, queue, erased, -⟩ := findRequest_split found
    obtain ⟨-, rfl⟩ := Prod.mk.inj preempted
    rw [erased, queue]
    simp only [List.length_append, List.length_cons]
    omega

theorem reclaimLoop_fuel (needed required total admittedThisStep : ℕ) {fuel : ℕ}
    {scheduler : Scheduler} (enough : scheduler.active.length ≤ fuel) :
    reclaimLoop needed required total admittedThisStep (fuel + 1) scheduler =
      reclaimLoop needed required total admittedThisStep fuel scheduler := by
  induction fuel generalizing scheduler with
  | zero =>
      have empty : scheduler.active.length = 0 := Nat.le_zero.mp enough
      simp [reclaimLoop, empty]
  | succ fuel induction =>
      rw [reclaimLoop, reclaimLoop]
      split
      · split
        · rfl
        · split
          · rfl
          · rename_i preempted
            have shorter := length_active_preempt preempted
            split
            · rfl
            · exact induction (by omega)
      · rfl

theorem admitFromPending_fuel {fuel : ℕ} {scheduler : Scheduler} (plan : BatchPlan)
    (enough : scheduler.pending.length ≤ fuel) :
    admitFromPending (fuel + 1) scheduler plan = admitFromPending fuel scheduler plan := by
  induction fuel generalizing scheduler plan with
  | zero =>
      have empty : scheduler.pending = [] := List.length_eq_zero_iff.mp (Nat.le_zero.mp enough)
      simp [admitFromPending, admitRound, empty]
  | succ fuel induction =>
      rw [admitFromPending, admitFromPending]
      obtain ⟨after, ended, -⟩ | ⟨after, position, planned, admitted, -, pending, -, inside, -⟩ :=
        admitRound_cases scheduler plan
      · rw [ended]
      · have shorter : after.pending.length + 1 = scheduler.pending.length := by
          rw [pending, List.length_eraseIdx_of_lt (by rwa [length_skipBefore]),
            length_skipBefore]
          omega
        simp only [admitted, induction planned (by omega : after.pending.length ≤ fuel)]

/-! ## What the calls do to the cache

Every call is a run of cache calls, so it keeps what each of them keeps. The scheduler itself never
publishes a prefix. -/

theorem openRoot_induction {motive : KVCacheManager → Prop}
    (each : ∀ cache (op : CacheOp), op.Silent → motive cache → motive (cache.step op))
    {cache : KVCacheManager} (start : motive cache) (candidate : Request) :
    motive (openRoot cache candidate).2 := by
  have created := each cache (.createSequence candidate.metadata) trivial start
  simp only [KVCacheManager.step] at created
  unfold openRoot
  rcases created_eq : cache.createSequence candidate.metadata with ⟨_ | _, opened⟩
  · rwa [created_eq] at created
  · rw [created_eq] at created
    simp only
    have joined : motive (if 0 < cachedTokens opened candidate ∧
        cachedTokens opened candidate ≤ candidate.promptTokens then
          opened.attachPrefix candidate.rootSequenceId candidate.prefixKey else (0, opened)).2 := by
      split
      · exact each opened (.attachPrefix candidate.rootSequenceId candidate.prefixKey) trivial
          created
      · exact created
    generalize (if 0 < cachedTokens opened candidate ∧
        cachedTokens opened candidate ≤ candidate.promptTokens then
          opened.attachPrefix candidate.rootSequenceId candidate.prefixKey
        else (0, opened)) = attached at joined ⊢
    have grown : motive (if 0 < candidate.promptTokens - attached.1 then
        attached.2.reserveTokens candidate.rootSequenceId (candidate.promptTokens - attached.1)
        else (true, attached.2)).2 := by
      split
      · exact each attached.2 (.reserveTokens candidate.rootSequenceId _) trivial joined
      · exact joined
    generalize (if 0 < candidate.promptTokens - attached.1 then
        attached.2.reserveTokens candidate.rootSequenceId (candidate.promptTokens - attached.1)
        else (true, attached.2)) = reserved at grown ⊢
    have released := each reserved.2 (.releaseRequest candidate.requestId) trivial grown
    split
    · exact released
    · split
      · exact released
      · exact grown

theorem cache_preempt {motive : KVCacheManager → Prop}
    (each : ∀ cache (op : CacheOp), op.Silent → motive cache → motive (cache.step op))
    {scheduler : Scheduler} (start : motive scheduler.cache) (requestId : RequestId) (reason : String) :
    motive (scheduler.preempt requestId reason).2.cache := by
  unfold preempt
  split
  · exact start
  · rename_i request _
    exact each scheduler.cache (.swapOutRequest request.requestId) trivial start

theorem cache_action {motive : KVCacheManager → Prop}
    (each : ∀ cache (op : CacheOp), op.Silent → motive cache → motive (cache.step op))
    {scheduler after : Scheduler} {plan planned : BatchPlan} (action : AdmissionStep (scheduler, plan) (after, planned))
    (start : motive scheduler.cache) : motive after.cache := by
  cases action with
  | reclaim => exact cache_preempt each start _ _
  | @refuse _ _ candidate _ _ refused =>
      have opened := openRoot_induction each start candidate
      rwa [refused] at opened
  | @accept _ _ _ candidate _ _ fits =>
      have opened := openRoot_induction each start candidate
      rwa [fits.opened] at opened

theorem cache_step {motive : KVCacheManager → Prop}
    (each : ∀ cache (op : CacheOp), op.Silent → motive cache → motive (cache.step op))
    {scheduler : Scheduler} (start : motive scheduler.cache) {op : SchedulerOp}
    (own : ∀ called, op = .cache called → motive (scheduler.cache.step called)) :
    motive (scheduler.step op).cache := by
  cases op with
  | enqueue request => exact start
  | scheduleNext =>
      exact scheduleNext_induction (motive := fun state _ => motive state.cache)
        (fun _ _ _ _ action => cache_action each action) start
  | completeStep requestId producedTokens => exact start
  | preempt requestId reason => exact cache_preempt each start requestId reason
  | resume requestId =>
      simp only [step, resume]
      split
      · exact start
      · rename_i request _
        have restored := each scheduler.cache (.swapInRequest request.requestId) trivial start
        simp only [KVCacheManager.step] at restored
        split
        · rename_i cache failed
          rwa [failed] at restored
        · rename_i cache success
          rwa [success] at restored
  | cancel requestId =>
      simp only [step, cancel]
      repeat' split
      all_goals first
        | exact start
        | exact each scheduler.cache (.releaseRequest _) trivial start
  | cache op => exact own op rfl

/-- What every cache call keeps holds of the cache in every run of the scheduler. -/
theorem cache_run {motive : KVCacheManager → Prop}
    (each : ∀ cache op, motive cache → motive (cache.step op)) {scheduler : Scheduler}
    (start : motive scheduler.cache) (ops : List SchedulerOp) :
    motive (scheduler.run ops).cache := by
  induction ops generalizing scheduler with
  | nil => exact start
  | cons op ops induction => exact induction (cache_step (fun cache op _ => each cache op) start
        fun called _ => each _ called start)

end Scheduler
end QwenVLPaged
