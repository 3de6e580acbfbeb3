import QwenVLPaged.DrainedReplay
import QwenVLPaged.PoolInduction

/-!
# Stranded frames

A reference count that wraps to zero while the frame is shared strands the frame: no call counts it
again, and none puts it on the free list. A request with `2 ^ 32 - 1` samples and a prefix key
strands the frame of its prompt, and its replay completes all the same.
-/

namespace QwenVLPaged

namespace MemoryAllocator

/-! ## A frame without references that is not free -/

/-- The frame is labelled as shared, has no references and is not on the free list. -/
structure Stranded (frame : PhysicalBlockId) (allocator : MemoryAllocator) : Prop where
  labelled : ∃ info, allocator.infos[frame]? = some info ∧ info.refCount = 0 ∧ info.state = .shared
  lost : frame ∉ allocator.freeList

/-- The records of other frames changed, and other frames were freed. -/
theorem Stranded.keep {frame : PhysicalBlockId} {before after : MemoryAllocator}
    (stranded : Stranded frame before) (infos : after.infos[frame]? = before.infos[frame]?)
    (freed : frame ∈ after.freeList → frame ∈ before.freeList) : Stranded frame after := by
  obtain ⟨labelled, lost⟩ := stranded
  constructor
  · rwa [infos]
  · exact fun free => lost (freed free)

theorem Stranded.allocate {frame : PhysicalBlockId} {allocator : MemoryAllocator}
    (stranded : Stranded frame allocator) : Stranded frame allocator.allocate.2 := by
  unfold MemoryAllocator.allocate
  split
  · exact stranded
  · rename_i id rest free
    have different : id ≠ frame := by
      rintro rfl
      exact stranded.lost (free ▸ List.mem_cons_self)
    refine stranded.keep ?_ fun member => free ▸ List.mem_cons_of_mem id member
    simp [different]

/-- The record of a frame with references is replaced. -/
theorem Stranded.set {frame id : PhysicalBlockId} {allocator after : MemoryAllocator}
    (stranded : Stranded frame allocator) {old new : PhysicalBlockInfo}
    (found : allocator.infos[id]? = some old) (referenced : old.refCount ≠ 0)
    (infos : after.infos = allocator.infos.set id new)
    (freed : ∀ other ∈ after.freeList, other = id ∨ other ∈ allocator.freeList) :
    Stranded frame after := by
  have different : id ≠ frame := by
    rintro rfl
    obtain ⟨info, known, unreferenced, -⟩ := stranded.labelled
    obtain rfl := Option.some.inj (found.symm.trans known)
    exact referenced unreferenced
  refine stranded.keep ?_ fun member => (freed frame member).resolve_left different.symm
  rw [infos, List.getElem?_set_ne different]

theorem Stranded.release {frame : PhysicalBlockId} {allocator : MemoryAllocator}
    (stranded : Stranded frame allocator) (id : PhysicalBlockId) :
    Stranded frame (allocator.release id) := by
  unfold MemoryAllocator.release
  split
  · exact stranded
  · rename_i info found
    split
    · exact stranded
    · rename_i referenced
      split
      · exact stranded.set found referenced rfl fun other member => List.mem_cons.mp member
      · split
        · exact stranded.set found referenced rfl fun other member => Or.inr member
        · exact stranded.set found referenced rfl fun other member => Or.inr member

theorem Stranded.retain {frame : PhysicalBlockId} {allocator : MemoryAllocator}
    (stranded : Stranded frame allocator) (id : PhysicalBlockId) :
    Stranded frame (allocator.retain id) := by
  unfold MemoryAllocator.retain
  split
  · exact stranded
  · rename_i info found
    split
    · exact stranded
    · rename_i referenced
      exact stranded.set found referenced rfl fun other member => Or.inr member

theorem Stranded.swapOut {frame : PhysicalBlockId} {allocator : MemoryAllocator}
    (stranded : Stranded frame allocator) (id : PhysicalBlockId) :
    Stranded frame (allocator.swapOut id).2 := by
  unfold MemoryAllocator.swapOut
  split
  · rename_i backend info installed found
    split
    · exact stranded
    · rename_i single
      have referenced : info.refCount ≠ 0 := by omega
      split
      · exact stranded
      · split
        · exact stranded
        · exact stranded.set found referenced rfl fun other member => List.mem_cons.mp member
  · exact stranded

theorem Stranded.swapIn {frame : PhysicalBlockId} {allocator : MemoryAllocator}
    (stranded : Stranded frame allocator) (slot : SwapSlotId) :
    Stranded frame (allocator.swapIn slot).2 := by
  have taken := stranded.allocate
  unfold MemoryAllocator.swapIn
  split
  · exact stranded
  · split
    · rename_i failed
      rwa [failed] at taken
    · rename_i success
      rw [success] at taken
      split
      · exact taken.release _
      · exact taken.keep rfl fun member => member

/-- A stranded frame stays stranded, whatever is called. -/
theorem stable_stranded (frame : PhysicalBlockId) : Stable (Stranded frame) where
  allocate _ stranded := stranded.allocate
  release _ id stranded := stranded.release id
  retain _ id stranded := stranded.retain id
  copyBlock allocator source destination stranded := by
    unfold MemoryAllocator.copyBlock
    split
    · exact stranded.keep rfl fun member => member
    · exact stranded
  writeFrame _ _ _ stranded := stranded.keep rfl fun member => member
  swapOut _ id stranded := stranded.swapOut id
  swapIn _ slot stranded := stranded.swapIn slot
  discardSwapped _ _ stranded := stranded.keep rfl fun member => member

/-- With a stranded frame not all frames are free. -/
theorem Stranded.freeBlocks_ne {frame : PhysicalBlockId} {allocator : MemoryAllocator}
    (stranded : Stranded frame allocator) :
    allocator.stats.freeBlocks ≠ allocator.stats.totalBlocks := by
  intro all_free
  obtain ⟨info, found, -, shared⟩ := stranded.labelled
  have free := List.countP_eq_length.mp all_free info (List.mem_of_getElem? found)
  rw [shared] at free
  exact Bool.noConfusion free

end MemoryAllocator

namespace PagedReplay

theorem stranded_of_runs {allowed : SchedulerOp → Prop} {before after : PagedState}
    {frame : PhysicalBlockId} (runs : Runs allowed before after)
    (stranded : before.scheduler.cache.allocator.Stranded frame) :
    after.scheduler.cache.allocator.Stranded frame :=
  runs.keeps (motive := fun scheduler => scheduler.cache.allocator.Stranded frame)
    (fun _ _ _ holds => Scheduler.cache_step
      (motive := fun cache => cache.allocator.Stranded frame)
      (fun _ op _ kept =>
        KVCacheManager.stable_step (MemoryAllocator.stable_stranded frame) kept op) holds
      fun called _ =>
        KVCacheManager.stable_step (MemoryAllocator.stable_stranded frame) holds called) stranded

/-! ## A request with as many samples as the counter has values -/

def wideRequest : TraceRequest :=
  ⟨1, 1, 0, 1, 2 ^ 32 - 1, "p", one_lt_word, zero_lt_word, one_lt_word, by norm_num⟩

def wideTrace : Trace := ⟨⟨1, 1, 1, 1⟩, [wideRequest]⟩

/-- One block of two tokens, prefixes on. -/
def wideConfig : ReplayConfig :=
  ⟨2, 1, 8, 64, 0, 0, false, 8, true, 16, 2, two_lt_word, one_lt_word, eight_lt_word⟩

/-- The first step has its plan. -/
def widePlanned : PagedState := call .scheduleNext (begin (initial wideTrace wideConfig fun _ => 0))

/-- The prompt is written. -/
def wideWritten : PagedState :=
  writeChunk wideConfig 1 1
    (greeted wideConfig (freshProgress wideRequest) widePlanned.scheduler.cache)
    (greet wideConfig 1 (freshProgress wideRequest) widePlanned)

/-- The prefix is published, and the branches come next. -/
def widePublished : PagedState := call (.cache (.publishPrefix 1 "p")) wideWritten

/-- One table with one block in the first frame. -/
structure Forkable (root : SequenceState) : Prop where
  resident : KVCacheManager.anySwapped root.tables = false
  frames : KVCacheManager.physicalIdsOf root.tables = [0]
  sizes : root.tables.map (·.size) = [1]

theorem textTable_single {state : SequenceState} (sizes : state.tables.map (·.size) = [1]) :
    state.textTable.size = 1 := by
  obtain ⟨table, tables, size⟩ := List.map_eq_singleton_iff.mp sizes
  rw [SequenceState.textTable, tables]
  exact size

/-- The branches opened so far: nothing else changed, and the frame has a reference for each. -/
structure Branching (root : SequenceState) (count : ℕ) (state : PagedState) : Prop where
  queues : state.scheduler = { widePublished.scheduler with cache := state.scheduler.cache }
  moving : state.progressMade = true
  live : state.live = [1]
  counters : countersOf state = countersOf widePublished
  entry : ∃ sequences,
    state.progress.lookup 1 = some ⟨wideRequest, sequences, 1, 0, 0, true, false⟩ ∧
      ∀ id ∈ sequences, ∃ sequence, state.scheduler.cache.sequences.lookup id = some sequence ∧
        sequence.textTable.size = 1
  rooted : state.scheduler.cache.sequences.lookup 1 = some root
  fresh : ∀ id, state.nextForkSequence ≤ id →
    state.scheduler.cache.sequences.lookup id = none
  shared : ∃ info, state.scheduler.cache.allocator.infos[0]? = some info ∧
    info.refCount = wrap32 (count + 2) ∧ info.state = .shared
  taken : state.scheduler.cache.allocator.freeList = []

/-- One more branch, one more reference. -/
theorem branching_openBranch {root : SequenceState} (forkable : Forkable root) {count : ℕ}
    {state : PagedState} (branching : Branching root count state) (room : count + 2 < 2 ^ 32) :
    Branching root (count + 1) (openBranch 1 state) := by
  obtain ⟨queues, moving, live, counters, ⟨sequences, found, held⟩, rooted, fresh,
    ⟨info, first, count_eq, -⟩, taken⟩ := branching
  rw [wrap32_of_lt room] at count_eq
  have unused := fresh state.nextForkSequence le_rfl
  have retained : KVCacheManager.retainAll state.scheduler.cache.allocator
      (KVCacheManager.physicalIdsOf
        (root.tables.map fun table => table.fork state.nextForkSequence)) =
      { state.scheduler.cache.allocator with
        infos := state.scheduler.cache.allocator.infos.set 0
          { info with refCount := wrap32 (count + 1 + 2), state := .shared } } := by
    rw [KVCacheManager.physicalIdsOf_fork, forkable.frames]
    simp only [KVCacheManager.retainAll, List.foldl_cons, List.foldl_nil, MemoryAllocator.retain,
      first, count_eq]
    rw [if_neg (by omega)]
  let child : SequenceState :=
    { metadata := ⟨state.nextForkSequence, 1⟩
      tables := root.tables.map fun table => table.fork state.nextForkSequence
      prefixKey := ""
      prefixHash := 0 }
  have child_size : child.textTable.size = 1 := by
    refine textTable_single (Eq.trans ?_ forkable.sizes)
    simp [child, BlockTable.fork, BlockTable.size]
  have forked : state.scheduler.cache.forkSequence 1 ⟨state.nextForkSequence, 1⟩ =
      (true,
        { state.scheduler.cache with
          allocator :=
            { state.scheduler.cache.allocator with
              infos := state.scheduler.cache.allocator.infos.set 0
                { info with refCount := wrap32 (count + 1 + 2), state := .shared } }
          sequences := state.scheduler.cache.sequences.insert state.nextForkSequence child
          }.indexSequence 1 state.nextForkSequence) := by
    simp only [KVCacheManager.forkSequence, rooted, unused, Option.isSome_none,
      Bool.false_eq_true, if_false, forkable.resident, retained, child]
  have opened : openBranch 1 state =
      { setProgress 1 ⟨wideRequest, sequences ++ [state.nextForkSequence], 1, 0, 0, true, false⟩
          { call (.cache (.forkSequence 1 ⟨state.nextForkSequence, 1⟩)) state with
            nextForkSequence := state.nextForkSequence + 1 } with
        metrics := { state.metrics with forks := state.metrics.forks + 1 } } := by
    have accepted := congrArg Prod.fst forked
    simp only [openBranch, found]
    exact if_pos accepted
  have cache : (openBranch 1 state).scheduler.cache =
      (state.scheduler.cache.forkSequence 1 ⟨state.nextForkSequence, 1⟩).2 := by
    rw [opened]
    rfl
  rw [forked] at cache
  have lookups (id : SequenceId) : (openBranch 1 state).scheduler.cache.sequences.lookup id =
      (state.scheduler.cache.sequences.insert state.nextForkSequence child).lookup id := by
    rw [cache]
    rfl
  have kept {id : SequenceId} {sequence : SequenceState}
      (old : state.scheduler.cache.sequences.lookup id = some sequence) :
      (openBranch 1 state).scheduler.cache.sequences.lookup id = some sequence := by
    have different : id ≠ state.nextForkSequence := by
      rintro rfl
      simp [unused] at old
    rw [lookups, AList.lookup_insert_ne different, old]
  constructor
  case queues =>
    have step : (openBranch 1 state).scheduler =
        { state.scheduler with cache := (openBranch 1 state).scheduler.cache } := by
      rw [opened]
      rfl
    refine step.trans ?_
    exact congrArg (fun scheduler : Scheduler =>
      { scheduler with cache := (openBranch 1 state).scheduler.cache }) queues
  case moving =>
    rw [opened]
    exact moving
  case live =>
    rw [opened]
    exact live
  case counters =>
    rw [opened]
    exact counters
  case entry =>
    refine ⟨sequences ++ [state.nextForkSequence], ?_, fun id member => ?_⟩
    · rw [opened]
      exact AList.lookup_insert _
    · rcases List.mem_append.mp member with old | new
      · obtain ⟨sequence, inside, size⟩ := held id old
        exact ⟨sequence, kept inside, size⟩
      · obtain rfl := List.mem_singleton.mp new
        exact ⟨child, by rw [lookups, AList.lookup_insert], child_size⟩
  case rooted => exact kept rooted
  case fresh =>
    intro id later
    have next : (openBranch 1 state).nextForkSequence = state.nextForkSequence + 1 := by
      rw [opened]
      rfl
    rw [next] at later
    have beyond : state.nextForkSequence < id := later
    rw [lookups, AList.lookup_insert_ne beyond.ne']
    exact fresh id beyond.le
  case shared =>
    rw [cache]
    have inside : 0 < state.scheduler.cache.allocator.infos.length :=
      (List.getElem?_eq_some_iff.mp first).1
    exact ⟨_, List.getElem?_set_self inside, rfl, rfl⟩
  case taken =>
    rw [cache]
    exact taken

theorem branching_openBranches {root : SequenceState} (forkable : Forkable root) (more : ℕ) :
    ∀ {count : ℕ} {state : PagedState}, Branching root count state → count + more + 1 < 2 ^ 32 →
      Branching root (count + more) (openBranches 1 more state) := by
  induction more with
  | zero => exact fun branching _ => branching
  | succ more induction =>
      intro count state branching room
      have one := branching_openBranch forkable branching (by omega)
      have rest := induction one (by omega)
      rw [openBranches]
      rwa [Nat.add_assoc, Nat.add_comm 1 more] at rest

/-! ## The run -/

theorem widePublished_root : ∃ root,
    widePublished.scheduler.cache.sequences.lookup 1 = some root ∧ Forkable root := by
  have only : (widePublished.scheduler.cache.sequences.lookup 1).any (fun root =>
      !KVCacheManager.anySwapped root.tables &&
        decide (KVCacheManager.physicalIdsOf root.tables = [0]) &&
        decide (root.tables.map (·.size) = [1])) = true := by
    decide +kernel
  obtain ⟨root, found, shape⟩ := (Option.any_eq_true _ _).mp only
  simp only [Bool.and_eq_true, Bool.not_eq_true', decide_eq_true_eq] at shape
  exact ⟨root, found, shape.1.1, shape.1.2, shape.2⟩

theorem widePublished_shared : ∃ info,
    widePublished.scheduler.cache.allocator.infos[0]? = some info ∧
      info.refCount = wrap32 (0 + 2) ∧ info.state = .shared := by
  have only : (widePublished.scheduler.cache.allocator.infos[0]?).any (fun info =>
      decide (info.refCount = wrap32 (0 + 2)) && decide (info.state = .shared)) = true := by
    decide +kernel
  obtain ⟨info, found, counted⟩ := (Option.any_eq_true _ _).mp only
  simp only [Bool.and_eq_true, decide_eq_true_eq] at counted
  exact ⟨info, found, counted⟩

theorem branching_widePublished {root : SequenceState} (forkable : Forkable root)
    (found : widePublished.scheduler.cache.sequences.lookup 1 = some root) :
    Branching root 0 widePublished where
  queues := rfl
  moving := by decide +kernel
  live := by decide +kernel
  counters := rfl
  entry := by
    refine ⟨[1], by decide +kernel, fun id member => ?_⟩
    rw [List.mem_singleton.mp member]
    exact ⟨root, found, textTable_single forkable.sizes⟩
  rooted := found
  fresh := by
    intro id later
    have next : widePublished.nextForkSequence = 2 := by decide +kernel
    have keys : widePublished.scheduler.cache.sequences.keys = [1] := by decide +kernel
    rw [next] at later
    refine AList.lookup_eq_none.mpr fun member => ?_
    rw [AList.mem_keys, keys, List.mem_singleton] at member
    rw [member] at later
    exact absurd later (by decide)
  shared := widePublished_shared
  taken := by decide +kernel

/-- The prompt is complete, and all branches are open. -/
theorem branching_prefill :
    ∃ root, Branching root (2 ^ 32 - 2) (prefillLoop wideConfig [(1, 1)] widePlanned) := by
  have found : widePlanned.progress.lookup 1 = some (freshProgress wideRequest) := by
    decide +kernel
  have decoding : wideWritten.scheduler.stateOf 1 = some .decode := by decide +kernel
  have request : (greeted wideConfig (freshProgress wideRequest)
      widePlanned.scheduler.cache).request = wideRequest := rfl
  have keyed : wideConfig.prefixCaching = true ∧ wideRequest.prefixKey ≠ "" := by decide
  have opened : prefillLoop wideConfig [(1, 1)] widePlanned =
      openBranches 1 (wideRequest.numParallelSamples - 1) widePublished := by
    calc
      prefillLoop wideConfig [(1, 1)] widePlanned = prefillOne wideConfig 1 1 widePlanned := rfl
      _ = completePrompt wideConfig 1 (greeted wideConfig (freshProgress wideRequest)
          widePlanned.scheduler.cache).request wideWritten := by
        rw [(prefillOne_eq wideConfig 1 found).2]
        exact if_pos decoding
      _ = openBranches 1 (wideRequest.numParallelSamples - 1) widePublished := by
        rw [request, completePrompt, if_pos keyed]
        rfl
  obtain ⟨root, rooted, forkable⟩ := widePublished_root
  have few : 0 + (wideRequest.numParallelSamples - 1) + 1 < 2 ^ 32 := by decide
  have branching := branching_openBranches forkable (wideRequest.numParallelSamples - 1)
    (branching_widePublished forkable rooted) few
  have count : 0 + (wideRequest.numParallelSamples - 1) = 2 ^ 32 - 2 := by decide
  rw [count, ← opened] at branching
  exact ⟨root, branching⟩

/-- The last branch wraps the reference count of the frame to zero. -/
theorem Branching.stranded {root : SequenceState} {state : PagedState}
    (branching : Branching root (2 ^ 32 - 2) state) :
    state.scheduler.cache.allocator.Stranded 0 := by
  obtain ⟨info, found, count, shared⟩ := branching.shared
  constructor
  · exact ⟨info, found, count.trans (by decide), shared⟩
  · rw [branching.taken]
    exact List.not_mem_nil

theorem Branching.completed {root : SequenceState} {count : ℕ} {state : PagedState}
    (branching : Branching root count state) : state.completed = 0 := by
  have same : state.completed = widePublished.completed :=
    congrArg Counters.completed branching.counters
  rw [same]
  decide +kernel

theorem Branching.preemptedIds {root : SequenceState} {count : ℕ} {state : PagedState}
    (branching : Branching root count state) : state.preemptedIds = [] := by
  have same : state.preemptedIds = widePublished.preemptedIds :=
    congrArg Counters.preemptedIds branching.counters
  rw [same]
  decide +kernel

theorem Branching.unparked {root : SequenceState} {count : ℕ} {state : PagedState}
    (branching : Branching root count state) :
    state.scheduler.preemptionInfo.lookup 1 = none := by
  rw [branching.queues]
  dsimp only
  decide +kernel

/-- Nobody is finished or parked, so nothing is settled. -/
theorem settle_idle {state : PagedState} {id : RequestId} (live : state.live = [id])
    (ids : state.preemptedIds = []) (unfinished : isFinished state id = false)
    (unparked : state.scheduler.preemptionInfo.lookup id = none) : settle state = state := by
  have recorded : recordParked state id = state := by
    rw [recordParked, if_neg (by simp [unfinished]), unparked]
    simp only [ids, List.filter_nil]
    rw [← ids]
  have resumed : tryResume state id = state := by
    rw [tryResume, if_pos (by simp [ids])]
  simp only [settle, live, List.foldl_cons, List.foldl_nil, recorded, resumed, ite_self,
    List.filter_cons, unfinished, List.filter_nil, Bool.not_false, if_true]
  rw [← live]

/-- With nobody waiting the plan comes from the active requests. -/
theorem scheduleNext_idle {scheduler : Scheduler} (idle : scheduler.pending = []) :
    scheduler.scheduleNext = (Scheduler.scheduleDecodeTokens scheduler.config scheduler.active
      (Scheduler.schedulePrefills scheduler.config scheduler.active .empty), scheduler) := by
  simp only [Scheduler.scheduleNext, Scheduler.admitPending, idle, List.length_nil,
    Scheduler.admitFromPending]

/-- Sequences that hold the block of the position need not grow. -/
theorem growAll_held {tokensPerBlock position : ℕ} {sequences : List SequenceId}
    {state : PagedState} (held : ∀ id ∈ sequences, ∃ sequence,
      state.scheduler.cache.sequences.lookup id = some sequence ∧
        position / tokensPerBlock < sequence.textTable.size) :
    growAll tokensPerBlock position sequences state = (true, state) := by
  induction sequences with
  | nil => rfl
  | cons id rest induction =>
      obtain ⟨sequence, found, mapped⟩ := held id List.mem_cons_self
      have enough : ensureCapacity tokensPerBlock id position state = (true, state) := by
        simp only [ensureCapacity, found, if_pos mapped]
      rw [growAll, enough]
      exact induction fun other member => held other (List.mem_cons_of_mem id member)

/-- The first step opens all branches. -/
theorem oneStep_opens {root : SequenceState} {count : ℕ} {branched : PagedState}
    (opened : prefillLoop wideConfig [(1, 1)] widePlanned = branched)
    (branching : Branching root count branched) :
    oneStep wideTrace wideConfig (initial wideTrace wideConfig fun _ => 0) =
      account wideTrace wideConfig
        (initial wideTrace wideConfig fun _ => 0).scheduler.scheduleNext.1 branched := by
  have chunks : (initial wideTrace wideConfig fun _ => 0).scheduler.scheduleNext.1.chunks =
      [(1, 1)] := by
    decide +kernel
  have decodes :
      (initial wideTrace wideConfig fun _ => 0).scheduler.scheduleNext.1.decodeRequests = [] := by
    decide +kernel
  obtain ⟨sequences, found, -⟩ := branching.entry
  have settled := settle_idle branching.live branching.preemptedIds (isFinished_found found)
    branching.unparked
  have planned : call .scheduleNext (begin (initial wideTrace wideConfig fun _ => 0)) =
      widePlanned := rfl
  rw [oneStep, chunks, decodes, planned, opened, decodeLoop, settled]

/-- A step of the opened branches decodes the token and finishes the request. -/
theorem oneStep_finishes {root : SequenceState} {count : ℕ} {branched state : PagedState}
    (branching : Branching root count branched)
    (scheduler : state.scheduler = branched.scheduler)
    (progress : state.progress = branched.progress) :
    (oneStep wideTrace wideConfig state).completed = state.completed + 1 := by
  obtain ⟨sequences, found, held⟩ := branching.entry
  have queues := branching.queues
  have unparked := branching.unparked
  rw [← scheduler] at queues held unparked
  have idle : state.scheduler.pending = [] := by
    rw [queues]
    dsimp only
    decide +kernel
  have planned : state.scheduler.scheduleNext.1.chunks = [] ∧
      state.scheduler.scheduleNext.1.decodeRequests = [1] := by
    rw [scheduleNext_idle idle, queues]
    dsimp only
    decide +kernel
  have stepped : (call .scheduleNext (begin state)).scheduler = state.scheduler := by
    change state.scheduler.scheduleNext.2 = state.scheduler
    rw [scheduleNext_idle idle]
  have entered : (call .scheduleNext (begin state)).progress.lookup 1 =
      some ⟨wideRequest, sequences, 1, 0, 0, true, false⟩ := by
    change state.progress.lookup 1 = _
    rw [progress, found]
  have mapped := @growAll_held wideConfig.tokensPerBlock 1 sequences
    (call .scheduleNext (begin state)) fun id member => by
      obtain ⟨sequence, inside, size⟩ := held id member
      rw [stepped]
      exact ⟨sequence, inside, by rw [size]; decide⟩
  have decoded : decodeOne wideConfig state.scheduler.scheduleNext.1 1
      (call .scheduleNext (begin state)) =
      commitToken wideConfig 1 ⟨wideRequest, sequences, 1, 0, 0, true, false⟩
        (call .scheduleNext (begin state)) := by
    simp only [decodeOne, entered, stepped, unparked, Option.isSome_none, Bool.false_eq_true,
      if_false, mapped]
  have due : wideRequest.decodeActual ≤ wrap32 (0 + 1) := by decide
  have counted := (counters_commitToken wideConfig 1
    ⟨wideRequest, sequences, 1, 0, 0, true, false⟩ (call .scheduleNext (begin state))).trans
      (if_pos due)
  rw [oneStep, planned.1, planned.2, prefillLoop, decodeLoop, decoded, decodeLoop]
  generalize commitToken wideConfig 1 ⟨wideRequest, sequences, 1, 0, 0, true, false⟩
    (call .scheduleNext (begin state)) = committed at counted
  obtain ⟨_, _, _, settled⟩ := counters_settle committed
  calc
    (account wideTrace wideConfig state.scheduler.scheduleNext.1 (settle committed)).completed =
        (settle committed).completed := rfl
    _ = committed.completed := congrArg Counters.completed settled
    _ = state.completed + 1 := congrArg Counters.completed counted

/-- Two steps are all. -/
theorem final_wide {first : PagedState}
    (opened : oneStep wideTrace wideConfig (initial wideTrace wideConfig fun _ => 0) = first)
    (moved : first.noProgressSteps = 0) (completed : first.completed = 0) :
    final wideTrace wideConfig (fun _ => 0) = oneStep wideTrace wideConfig first := by
  have begun : (initial wideTrace wideConfig fun _ => 0).completed < wideTrace.requests.length := by
    decide +kernel
  have going : first.completed < wideTrace.requests.length := by
    rw [completed]
    decide
  have steps : wideConfig.maxSteps = 1 + 1 := rfl
  rw [final, steps, stepLoop, if_pos begun, opened]
  dsimp only
  rw [if_neg (by omega), stepLoop, if_pos going]
  dsimp only [stepLoop]
  exact ite_self _

/-- Counting at the end of a step changes nothing else. -/
theorem account_keeps (trace : Trace) (config : ReplayConfig) (plan : BatchPlan)
    (state : PagedState) :
    (account trace config plan state).scheduler = state.scheduler ∧
      (account trace config plan state).progress = state.progress ∧
      (account trace config plan state).completed = state.completed ∧
      (state.progressMade = true → (account trace config plan state).noProgressSteps = 0) :=
  ⟨rfl, rfl, rfl, fun moving => if_pos moving⟩

theorem completed_of_final {trace : Trace} {config : ReplayConfig} {slab : ℕ → UInt8}
    (whole : (final trace config slab).completed = trace.requests.length) :
    (runPaged trace config slab).completed = true :=
  decide_eq_true whole

theorem leaks_of_stranded {trace : Trace} {config : ReplayConfig} {slab : ℕ → UInt8}
    {frame : PhysicalBlockId}
    (stranded : (final trace config slab).scheduler.cache.allocator.Stranded frame) :
    (runPaged trace config slab).leakFree = false :=
  decide_eq_false fun unused => stranded.freeBlocks_ne unused.1

/-- The replay completes, and the frame of its prompt is lost. -/
theorem leak_of_wrapped_count :
    (wideTrace.requests.map (·.requestId)).Nodup ∧
      (runPaged wideTrace wideConfig fun _ => 0).completed = true ∧
      (runPaged wideTrace wideConfig fun _ => 0).leakFree = false := by
  obtain ⟨root, branching⟩ := branching_prefill
  generalize opened : prefillLoop wideConfig [(1, 1)] widePlanned = branched at branching
  have first := oneStep_opens opened branching
  generalize (initial wideTrace wideConfig fun _ => 0).scheduler.scheduleNext.1 = plan at first
  obtain ⟨scheduler, progress, completed, moved⟩ :=
    account_keeps wideTrace wideConfig plan branched
  generalize account wideTrace wideConfig plan branched = state at *
  have begun := completed.trans branching.completed
  have last := final_wide first (moved branching.moving) begun
  have finishes := oneStep_finishes branching scheduler progress
  have single : (wideTrace.requests.map (·.requestId)).Nodup := by decide
  refine ⟨single, completed_of_final ?_, @leaks_of_stranded _ _ _ 0 ?_⟩
  · rw [last, finishes, begun]
    rfl
  · rw [last]
    have stranded := branching.stranded
    rw [← scheduler] at stranded
    exact stranded_of_runs (runs_oneStep wideTrace wideConfig state) stranded

end PagedReplay
end QwenVLPaged
