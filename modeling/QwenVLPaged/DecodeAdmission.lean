import QwenVLPaged.LifeCycle
import QwenVLPaged.LifetimeAccounting

/-!
# Decode-aware admission

Admission reserves the blocks of prompt plus decode as a number only; the frames are taken block
by block as the request grows. While the reservations stay within the pool, every request maps at
most its own share, and every other frame is free: growth up to the decode budget cannot fail.
-/

namespace QwenVLPaged

/-- Blocks of one table that prompt plus decode fill. -/
def AllocatorConfig.wantedBlocks (config : AllocatorConfig) (request : Request) : ℕ :=
  (request.promptTokens + request.sampling.maxDecodeTokens + config.tokensPerBlock - 1) /
    config.tokensPerBlock

/-- The block counts of a request do not wrap. -/
structure Request.Sized (config : AllocatorConfig) (request : Request) : Prop where
  tokens : request.promptTokens + request.sampling.maxDecodeTokens + config.tokensPerBlock < 2 ^ 32
  blocks : config.wantedBlocks request * config.tableCount < 2 ^ 32

instance (config : AllocatorConfig) (request : Request) : Decidable (request.Sized config) :=
  decidable_of_iff (_ ∧ _) ⟨fun ⟨tokens, blocks⟩ => ⟨tokens, blocks⟩,
    fun sized => ⟨sized.tokens, sized.blocks⟩⟩

namespace Scheduler

open KVCacheManager (Backed Rooted)

theorem tableCount_pos (config : AllocatorConfig) : 0 < config.tableCount := by
  unfold AllocatorConfig.tableCount BlockShape.perLayerFrames
  split
  · omega
  · split
    · rename_i layered
      simp only [Bool.and_eq_true, decide_eq_true_eq] at layered
      omega
    · omega

theorem lifetimeBlocks_eq {config : AllocatorConfig} {request : Request}
    (sized : request.Sized config) :
    config.lifetimeBlocks request = config.wantedBlocks request * config.tableCount := by
  have tokens := sized.tokens
  rw [AllocatorConfig.lifetimeBlocks, AllocatorConfig.blocksForTokens]
  split
  · rename_i flat
    simp [AllocatorConfig.wantedBlocks, flat]
  have sum : wrap32 (request.promptTokens + request.sampling.maxDecodeTokens) =
      request.promptTokens + request.sampling.maxDecodeTokens := wrap32_of_lt (by omega)
  have rounded : wrap32 (request.promptTokens + request.sampling.maxDecodeTokens +
      config.tokensPerBlock - 1) = request.promptTokens + request.sampling.maxDecodeTokens +
      config.tokensPerBlock - 1 := wrap32_of_lt (by omega)
  rw [sum, rounded]
  exact wrap32_of_lt sized.blocks

theorem blocksNeeded_le_wanted {config : AllocatorConfig} {request : Request}
    (sized : request.Sized config) :
    KVCacheManager.blocksNeeded request.promptTokens config.tokensPerBlock ≤
      config.wantedBlocks request := by
  have tokens := sized.tokens
  rw [KVCacheManager.blocksNeeded, wrap32_of_lt (by omega : _ < 2 ^ 32)]
  exact Nat.div_le_div_right (by omega)

/-- A block below the last wanted position is a wanted block. -/
theorem lt_wantedBlocks {config : AllocatorConfig} {request : Request}
    (blocky : 0 < config.tokensPerBlock) {blocks position : ℕ}
    (past : config.tokensPerBlock * blocks ≤ position)
    (below : position < request.promptTokens + request.sampling.maxDecodeTokens) :
    blocks < config.wantedBlocks request := by
  rw [AllocatorConfig.wantedBlocks, Nat.lt_iff_add_one_le, Nat.le_div_iff_mul_le blocky,
    Nat.add_mul, Nat.one_mul, Nat.mul_comm blocks]
  omega

/-! ## The invariant -/

/-- The blocks of a root stay within the share of its request: every table has the same number of
blocks, at most the wanted one. -/
structure Share (config : AllocatorConfig) (request : Request) (state : SequenceState) :
    Prop where
  sized : request.Sized config
  reserved : request.lifetimeBlocks = config.wantedBlocks request * config.tableCount
  even : ∀ table ∈ state.tables, table.entries.length = state.textTable.size
  within : state.textTable.size ≤ config.wantedBlocks request

/-- Every active request maps at most its share, and nobody else maps anything. -/
structure Shared (config : AllocatorConfig) (scheduler : Scheduler) : Prop where
  rooted : Rooted config scheduler.owners scheduler.cache
  unparked : scheduler.preempted = []
  sized : ∀ request ∈ scheduler.pending, request.Sized config
  shares : ∀ request ∈ scheduler.active, ∀ state,
    scheduler.cache.sequences.lookup request.rootSequenceId = some state →
    Share config request state

/-- The shares are reserved, within the pool. -/
structure Covered (config : AllocatorConfig) (scheduler : Scheduler) : Prop where
  committed : Committed config scheduler
  shared : Shared config scheduler

theorem Share.blockCount {config : AllocatorConfig} {request : Request} {state : SequenceState}
    (share : Share config request state) (count : state.tables.length = config.tableCount) :
    state.blockCount = state.textTable.size * config.tableCount := by
  have lengths : state.tables.map (·.entries.length) =
      List.replicate config.tableCount state.textTable.size := by
    rw [List.eq_replicate_iff, List.length_map]
    refine ⟨count, fun length member => ?_⟩
    obtain ⟨table, inside, rfl⟩ := List.mem_map.mp member
    exact share.even table inside
  rw [SequenceState.blockCount, lengths, List.sum_replicate, smul_eq_mul, Nat.mul_comm]

/-- Blocks that the root of a request maps. -/
def mappedBlocks (scheduler : Scheduler) (request : Request) : ℕ :=
  ((scheduler.cache.sequences.lookup request.rootSequenceId).map (·.blockCount)).getD 0

theorem mappedBlocks_of_root {scheduler : Scheduler} {request : Request} {state : SequenceState}
    (root : scheduler.cache.sequences.lookup request.rootSequenceId = some state) :
    scheduler.mappedBlocks request = state.blockCount := by
  rw [mappedBlocks, root, Option.map_some, Option.getD_some]

/-- All live blocks belong to active requests. -/
theorem Shared.liveEntries_le {config : AllocatorConfig} {scheduler : Scheduler}
    (shared : Shared config scheduler) :
    scheduler.cache.liveEntries.length ≤ (scheduler.active.map scheduler.mappedBlocks).sum := by
  let weight (id : SequenceId) : ℕ :=
    ((scheduler.cache.sequences.lookup id).map (·.blockCount)).getD 0
  have live : scheduler.cache.liveEntries.length ≤
      ((scheduler.active.map (·.rootSequenceId)).map weight).sum := by
    refine AList.length_gather_le fun id other found => ⟨?_, ?_⟩
    · have member := shared.rooted.live id other found
      rw [owners, shared.unparked, List.append_nil] at member
      obtain ⟨owner, inside, same⟩ := List.mem_map.mp member
      rw [← shared.rooted.owner_eq found, ← same]
      exact List.mem_map_of_mem inside
    · simp only [weight, found, Option.map_some, Option.getD_some]
      exact (KVCacheManager.blockCount_eq_length other).ge
  rwa [List.map_map] at live

theorem Shared.mappedBlocks_le {config : AllocatorConfig} {scheduler : Scheduler}
    (shared : Shared config scheduler) {request : Request} (active : request ∈ scheduler.active) :
    scheduler.mappedBlocks request ≤ request.lifetimeBlocks := by
  have member : request.metadata ∈ scheduler.owners :=
    List.mem_map_of_mem (List.mem_append_left _ active)
  obtain ⟨state, root, -⟩ := shared.rooted.rooted _ member
  change scheduler.cache.sequences.lookup request.rootSequenceId = some state at root
  have share := shared.shares request active state root
  have count := (shared.rooted.backed.accounted.tabled _ state root).count
  rw [shared.rooted.backed.configured] at count
  rw [mappedBlocks_of_root root, share.blockCount count, share.reserved]
  exact Nat.mul_le_mul_right _ share.within

/-- Every frame that is not free backs a live block. -/
theorem Shared.maxBlocks_le {config : AllocatorConfig} {scheduler : Scheduler}
    (shared : Shared config scheduler) :
    config.maxBlocks ≤
      scheduler.cache.allocator.freeList.length + scheduler.cache.liveEntries.length := by
  have backed := shared.rooted.backed
  have pool := backed.accounted.maxBlocks_le
  have places : scheduler.cache.places.length = scheduler.cache.liveEntries.length := by
    simp [KVCacheManager.places, KVCacheManager.pinnedIds, backed.unpublished]
  rwa [backed.configured, places] at pool

/-- All live blocks belong to active requests, within their shares. -/
theorem Covered.liveEntries_le {config : AllocatorConfig} {scheduler : Scheduler}
    (covered : Covered config scheduler) {request : Request} (active : request ∈ scheduler.active)
    {slack : ℕ} (spare : scheduler.mappedBlocks request + slack ≤ request.lifetimeBlocks) :
    scheduler.cache.liveEntries.length + slack ≤ config.maxBlocks := by
  have live := covered.shared.liveEntries_le
  have share (other : Request) (inside : other ∈ scheduler.active) :=
    covered.shared.mappedBlocks_le inside
  obtain ⟨front, back, queue⟩ := List.append_of_mem active
  have held := covered.committed.valid.held.symm.le.trans covered.committed.within
  rw [queue] at live held share
  simp only [reservedBlocks, List.map_append, List.map_cons, List.sum_append,
    List.sum_cons] at live held
  have before : (front.map scheduler.mappedBlocks).sum ≤ (front.map (·.lifetimeBlocks)).sum :=
    List.sum_le_sum fun other inside => share other (List.mem_append_left _ inside)
  have behind : (back.map scheduler.mappedBlocks).sum ≤ (back.map (·.lifetimeBlocks)).sum :=
    List.sum_le_sum fun other inside => share other (by simp [inside])
  omega

/-! ## Growing -/

/-- The driver may ask for the block of a position below the budget of an active request that lies
past the mapped blocks. -/
def Growable (config : AllocatorConfig) (scheduler : Scheduler) (sequenceId : SequenceId) : Prop :=
  ∃ request ∈ scheduler.active, request.rootSequenceId = sequenceId ∧
    ∃ position < request.promptTokens + request.sampling.maxDecodeTokens,
      ∀ state, scheduler.cache.sequences.lookup sequenceId = some state →
        config.tokensPerBlock * state.textTable.size ≤ position

instance (config : AllocatorConfig) (scheduler : Scheduler) (sequenceId : SequenceId) :
    Decidable (scheduler.Growable config sequenceId) :=
  inferInstanceAs (Decidable (∃ request ∈ scheduler.active,
    request.rootSequenceId = sequenceId ∧
      ∃ position < request.promptTokens + request.sampling.maxDecodeTokens,
        ∀ state ∈ scheduler.cache.sequences.lookup sequenceId,
          config.tokensPerBlock * state.textTable.size ≤ position))

theorem blocksNeeded_one {tokensPerBlock : ℕ} (positive : 0 < tokensPerBlock)
    (small : tokensPerBlock < 2 ^ 32) : KVCacheManager.blocksNeeded 1 tokensPerBlock = 1 := by
  rw [KVCacheManager.blocksNeeded, Nat.add_comm, Nat.add_sub_cancel, wrap32_of_lt small]
  exact Nat.div_self positive

/-- Growth within the budget finds its frames. -/
theorem grow_within_share {config : AllocatorConfig} {scheduler : Scheduler}
    (covered : Covered config scheduler) (blocky : 0 < config.tokensPerBlock)
    {request : Request} (active : request ∈ scheduler.active) {state : SequenceState}
    (root : scheduler.cache.sequences.lookup request.rootSequenceId = some state) {position : ℕ}
    (below : position < request.promptTokens + request.sampling.maxDecodeTokens)
    (past : config.tokensPerBlock * state.textTable.size ≤ position) :
    ∃ after added, scheduler.cache.reserveTokens request.rootSequenceId 1 = (true, after) ∧
      KVCacheManager.Grown scheduler.cache after request.rootSequenceId state 1 added true := by
  have share := covered.shared.shares request active state root
  have backed := covered.shared.rooted.backed
  have count := (backed.accounted.tabled _ state root).count
  rw [backed.configured] at count
  have wanted := lt_wantedBlocks blocky past below
  have tokens := share.sized.tokens
  -- The next block of every table is still reserved, so as many frames are free.
  have spare : scheduler.mappedBlocks request + config.tableCount ≤ request.lifetimeBlocks := by
    rw [mappedBlocks_of_root root, share.blockCount count, share.reserved, ← Nat.succ_mul]
    exact Nat.mul_le_mul_right _ wanted
  have live := covered.liveEntries_le active spare
  have pool := covered.shared.maxBlocks_le
  have free : config.tableCount ≤ scheduler.cache.allocator.freeList.length := by omega
  have size : scheduler.cache.tokensPerBlock = config.tokensPerBlock := by
    rw [KVCacheManager.tokensPerBlock_eq backed.accounted.ledger.formed.sound, backed.configured]
  have blocks : KVCacheManager.blocksNeeded 1 scheduler.cache.tokensPerBlock = 1 := by
    rw [size]
    exact blocksNeeded_one blocky (by omega)
  have tables := tableCount_pos config
  have bound := share.sized.blocks
  have room : scheduler.cache.RoomFor request.rootSequenceId 1 := by
    intro found lookup table member
    obtain rfl := Option.some.inj (root.symm.trans lookup)
    rw [share.even table member, KVCacheManager.newBlocks, blocks]
    have wide : config.wantedBlocks request ≤ config.wantedBlocks request * config.tableCount :=
      Nat.le_mul_of_pos_right _ tables
    have one := min_le_left 1 scheduler.cache.allocator.freeList.length
    omega
  have fits : wrap32 (KVCacheManager.blocksNeeded 1 scheduler.cache.tokensPerBlock *
      state.tables.length) ≤ scheduler.cache.allocator.freeList.length := by
    rw [blocks, Nat.one_mul, count]
    exact (Nat.mod_le _ _).trans free
  obtain ⟨after, added, complete, run_eq, grown⟩ := KVCacheManager.reserveTokens_grown
    backed.accounted room root (size.symm ▸ blocky.ne') fits
  rw [blocks] at grown
  obtain rfl : complete = true :=
    grown.reserved.enough (by rw [Nat.one_mul, count]; exact free)
  exact ⟨after, added, run_eq, grown⟩

theorem root_injective {scheduler : Scheduler} (distinct : Distinct scheduler.owners)
    {first second : Request} (inside : first ∈ scheduler.active)
    (inside' : second ∈ scheduler.active)
    (same : first.rootSequenceId = second.rootSequenceId) : first = second := by
  have roots := (distinct_active distinct).roots
  rw [List.map_map] at roots
  exact List.inj_on_of_nodup_map roots inside inside' same

theorem shared_grow {config : AllocatorConfig} {scheduler : Scheduler}
    (covered : Covered config scheduler) (distinct : Distinct scheduler.owners)
    (blocky : 0 < config.tokensPerBlock) {request : Request} (active : request ∈ scheduler.active)
    {position : ℕ} (below : position < request.promptTokens + request.sampling.maxDecodeTokens)
    (past : ∀ state, scheduler.cache.sequences.lookup request.rootSequenceId = some state →
      config.tokensPerBlock * state.textTable.size ≤ position) :
    (scheduler.cache.reserveTokens request.rootSequenceId 1).1 = true ∧
      Shared config { scheduler with
        cache := (scheduler.cache.reserveTokens request.rootSequenceId 1).2 } := by
  obtain ⟨committed, shared⟩ := covered
  have member : request.metadata ∈ scheduler.owners :=
    List.mem_map_of_mem (List.mem_append_left _ active)
  obtain ⟨state, root, -⟩ := shared.rooted.rooted _ member
  obtain ⟨after, added, run_eq, grown⟩ := grow_within_share ⟨committed, shared⟩ blocky active root
    below (past state root)
  have index := 
    (KVCacheManager.unlisted_reserveTokens scheduler.cache request.rootSequenceId 1).index
  have share := shared.shares request active state root
  have wanted := lt_wantedBlocks blocky (past state root) below
  have backed := shared.rooted.backed.grown grown
  rw [run_eq] at index ⊢
  have rooted := shared.rooted.update backed root grown.sequences index
  refine ⟨rfl, rooted, shared.unparked, shared.sized, ?_⟩
  intro other inside found lookup
  have tabled := (backed.accounted.tabled _ found lookup)
  rw [backed.configured] at tabled
  have lookup' := AList.lookup_inserted grown.sequences other.rootSequenceId
  rw [lookup] at lookup'
  split at lookup'
  · rename_i same
    obtain rfl : other = request := root_injective distinct inside active same
    obtain rfl := Option.some.inj lookup'
    have longer : ∀ table ∈ (KVCacheManager.extendAll state.tables added),
        table.entries.length = state.textTable.size + 1 := by
      intro table table_mem
      obtain ⟨source, source_mem, entries, entries_mem, rfl⟩ :=
        KVCacheManager.exists_of_mem_extendAll table_mem
      rw [BlockTable.extend, List.length_append, share.even source source_mem,
        grown.reserved.full rfl entries entries_mem]
    have first := longer _ (SequenceState.textTable_mem_of_pos (by rw [tabled.count]; exact tableCount_pos config))
    refine ⟨share.sized, share.reserved, fun table table_mem => ?_, ?_⟩
    · exact (longer table table_mem).trans first.symm
    · exact first.le.trans wanted
  · exact shared.shares other inside found lookup'.symm

/-! ## Admitting and cancelling -/

theorem Share.congr {config : AllocatorConfig} {request other : Request} {state : SequenceState}
    (share : Share config request state) (prompt : other.promptTokens = request.promptTokens)
    (sampling : other.sampling = request.sampling)
    (blocks : other.lifetimeBlocks = request.lifetimeBlocks) : Share config other state := by
  have wanted : config.wantedBlocks other = config.wantedBlocks request := by
    rw [AllocatorConfig.wantedBlocks, AllocatorConfig.wantedBlocks, prompt, sampling]
  obtain ⟨⟨tokens, product⟩, reserved, even, within⟩ := share
  refine ⟨⟨?_, ?_⟩, ?_, even, ?_⟩
  · rwa [prompt, sampling]
  · rwa [wanted]
  · rwa [blocks, wanted]
  · rwa [wanted]

/-- An admitted request starts with the blocks of its prompt, within its share. -/
theorem share_admitted {config : AllocatorConfig} {cache : KVCacheManager} {candidate : Request}
    {state : SequenceState} (backed : Backed config cache) (sized : candidate.Sized config)
    (opened : KVCacheManager.OpenedRoot config candidate state)
    (count : state.tables.length = config.tableCount) :
    Share config (admittedRequest candidate (lifetimeBlocksFor cache candidate)) state := by
  have first := opened.blocks _ (SequenceState.textTable_mem_of_pos (by rw [count]; exact tableCount_pos config))
  have reserved : lifetimeBlocksFor cache candidate =
      config.wantedBlocks candidate * config.tableCount := by
    rw [lifetimeBlocksFor_eq backed, lifetimeBlocks_eq sized]
  refine ⟨⟨sized.tokens, sized.blocks⟩, reserved, fun table member => ?_, ?_⟩
  · exact (opened.blocks table member).trans first.symm
  · exact first.le.trans (blocksNeeded_le_wanted sized)

theorem shared_action {config : AllocatorConfig} {scheduler after : Scheduler}
    {plan planned : BatchPlan} (action : AdmissionStep (scheduler, plan) (after, planned))
    (unwatched : scheduler.config.preemptionWatermarkBlocks = 0)
    (distinct : Distinct scheduler.identities) (shared : Shared config scheduler) :
    Shared config after := by
  cases action with
  | reclaim watermark older found => exact absurd unwatched watermark
  | @refuse _ _ candidate cache waiting refused =>
      obtain ⟨newRequest, newRoot⟩ := waiting_fresh distinct waiting
      rcases shared.rooted.openRoot newRequest newRoot with
        ⟨final, result, rooted, lookups⟩ | ⟨final, state, result, -⟩
      · obtain rfl : final = cache := congrArg Prod.snd (result.symm.trans refused)
        refine ⟨rooted, shared.unparked, shared.sized, fun request member state found => ?_⟩
        rw [lookups] at found
        exact shared.shares request member state found
      · simp [refused] at result
  | @accept _ _ position candidate cache waiting fits =>
      have member := List.mem_of_getElem? waiting
      obtain ⟨newRequest, newRoot⟩ := waiting_fresh distinct member
      rcases shared.rooted.openRoot newRequest newRoot with
        ⟨final, result, -⟩ | ⟨final, state, result, rooted, opened, lookups⟩
      · simp [fits.opened] at result
      · obtain rfl : final = cache := congrArg Prod.snd (result.symm.trans fits.opened)
        have owners := scheduler.owners_admitAt position candidate final
        refine ⟨rooted.perm owners.symm, shared.unparked, ?_, ?_⟩
        · intro request inside
          obtain ⟨earlier, old, skips, rfl⟩ := mem_skipBefore inside
          exact ⟨(shared.sized earlier old).tokens, (shared.sized earlier old).blocks⟩
        · intro request inside other found
          have tabled := rooted.backed.accounted.tabled _ other found
          simp only [admitAt, lookups] at found
          rcases List.mem_append.mp inside with old | new
          · have owner : request.metadata ∈ scheduler.owners :=
              List.mem_map_of_mem (List.mem_append_left _ old)
            have different : request.rootSequenceId ≠ candidate.rootSequenceId := newRoot _ owner
            rw [if_neg different] at found
            exact shared.shares request old other found
          · rw [List.mem_singleton.mp new] at found ⊢
            obtain rfl := Option.some.inj ((if_pos rfl).symm.trans found)
            have count := tabled.count
            rw [rooted.backed.configured] at count
            exact share_admitted shared.rooted.backed (shared.sized candidate member)
              opened count

theorem shared_cancel {config : AllocatorConfig} {scheduler : Scheduler}
    (shared : Shared config scheduler) (distinct : Distinct scheduler.identities)
    (requestId : RequestId) : Shared config (scheduler.cancel requestId) := by
  simp only [cancel]
  split
  · rename_i request found
    have idle := (waiting_fresh distinct (mem_of_findRequest found)).1
    rw [KVCacheManager.releaseRequest_idle (shared.rooted.idle _ idle)]
    exact ⟨shared.rooted, shared.unparked,
      fun other inside => shared.sized other (mem_eraseRequest inside), shared.shares⟩
  split
  · rename_i request found
    have split : scheduler.owners.Perm (request.metadata ::
        (eraseRequest scheduler.active requestId ++ scheduler.preempted).map
          Request.metadata) := by
      simpa [owners] using ((perm_of_findRequest found).map Request.metadata).append_right
        (scheduler.preempted.map Request.metadata)
    obtain ⟨rooted, kept⟩ := released_root (shared.rooted.perm split)
      ((distinct_owners distinct).perm split)
    refine ⟨rooted, shared.unparked, shared.sized, fun other inside state lookup => ?_⟩
    exact shared.shares other (mem_eraseRequest inside) state (kept _ state lookup)
  · simp only [shared.unparked, findRequest, List.find?_nil]
    exact shared

theorem shared_completeStep {config : AllocatorConfig} {scheduler : Scheduler}
    (shared : Shared config scheduler) (requestId : RequestId) (producedTokens : ℕ) :
    Shared config (scheduler.completeStep requestId producedTokens) := by
  refine ⟨?_, shared.unparked, shared.sized, ?_⟩
  · rw [owners_completeStep]
    exact shared.rooted
  · intro request member state found
    obtain ⟨earlier, inside, rfl | rfl⟩ := mem_completeStep member
    · exact shared.shares _ inside state found
    · have root := congrArg SequenceMetadata.sequenceId
        (metadata_complete earlier producedTokens)
      have share := shared.shares earlier inside state
        ((congrArg (scheduler.cache.sequences.lookup ·) root).symm.trans found)
      refine share.congr ?_ ?_ (lifetimeBlocks_complete earlier producedTokens)
      all_goals
        unfold Request.complete
        repeat' split
        all_goals rfl

/-! ## Runs -/

/-- A call of a driver without preemption, prefixes and forks: requests whose block counts do not
wrap, and one block at a time for a root that may grow. -/
def DriverCall (config : AllocatorConfig) (scheduler : Scheduler) : SchedulerOp → Prop
  | .enqueue request => request.prefixKey = "" ∧ request.Sized config
  | .scheduleNext | .completeStep _ _ | .cancel _ => True
  | .preempt _ _ | .resume _ => False
  | .cache (.reserveTokens sequenceId tokenCount) =>
      tokenCount = 1 ∧ scheduler.Growable config sequenceId
  | .cache _ => False

instance (config : AllocatorConfig) (scheduler : Scheduler) :
    DecidablePred (scheduler.DriverCall config)
  | .enqueue request => inferInstanceAs (Decidable (_ = "" ∧ request.Sized config))
  | .scheduleNext | .completeStep _ _ | .cancel _ => .isTrue trivial
  | .preempt _ _ | .resume _ => .isFalse id
  | .cache (.reserveTokens sequenceId tokenCount) =>
      inferInstanceAs (Decidable (tokenCount = 1 ∧ scheduler.Growable config sequenceId))
  | .cache (.createSequence _) | .cache (.forkSequence _ _) | .cache (.ensureTokenWritable _ _ _)
  | .cache (.writeToken _ _ _ _) | .cache (.swapOutSequence _) | .cache (.swapOutRequest _)
  | .cache (.swapInSequence _) | .cache (.swapInRequest _) | .cache (.publishPrefix _ _)
  | .cache (.attachPrefix _ _) | .cache (.releaseSequence _) | .cache (.releaseRequest _) =>
      .isFalse id

theorem covered_scheduleNext {config : AllocatorConfig} {scheduler : Scheduler}
    (covered : Covered config scheduler) (distinct : Distinct scheduler.identities)
    (unwatched : scheduler.config.preemptionWatermarkBlocks = 0)
    (double : 2 * config.maxBlocks < 2 ^ 32) : Covered config scheduler.scheduleNext.2 := by
  have start : Admitting config config.maxBlocks scheduler := by
    refine ⟨covered.committed.valid, covered.committed.within, le_rfl, ?_⟩
    intro request _ fits
    omega
  have final := scheduleNext_induction
    (motive := fun after _ => Admitting config config.maxBlocks after ∧ Shared config after ∧
      Distinct after.identities ∧ after.config = scheduler.config)
    (fun _ _ _ _ action ⟨admitting, shared, distinct, same⟩ =>
      ⟨admitting_action action admitting,
        shared_action action (same ▸ unwatched) distinct shared,
        distinct.perm (identities_action action).symm, (config_action action).trans same⟩)
    ⟨start, covered.shared, distinct, rfl⟩
  exact ⟨⟨final.1.valid, final.1.held⟩, final.2.1⟩

theorem covered_step {config : AllocatorConfig} {scheduler : Scheduler} {op : SchedulerOp}
    (covered : Covered config scheduler) (distinct : Distinct scheduler.identities)
    (unwatched : scheduler.config.preemptionWatermarkBlocks = 0)
    (blocky : 0 < config.tokensPerBlock) (double : 2 * config.maxBlocks < 2 ^ 32)
    (driven : scheduler.DriverCall config op) : Covered config (scheduler.step op) := by
  obtain ⟨committed, shared⟩ := covered
  cases op with
  | enqueue request =>
      refine ⟨committed_step committed trivial, shared.rooted, shared.unparked, ?_,
        shared.shares⟩
      intro waiting member
      rcases List.mem_append.mp member with old | new
      · exact shared.sized waiting old
      · rw [List.mem_singleton.mp new]
        exact ⟨driven.2.tokens, driven.2.blocks⟩
  | scheduleNext => exact covered_scheduleNext ⟨committed, shared⟩ distinct unwatched double
  | completeStep requestId producedTokens =>
      exact ⟨committed_step committed trivial, shared_completeStep shared _ _⟩
  | preempt requestId reason => exact driven.elim
  | resume requestId => exact driven.elim
  | cancel requestId =>
      refine ⟨committed_step committed ?_, shared_cancel shared distinct requestId⟩
      intro _ _ request found
      simp [shared.unparked, findRequest] at found
  | cache op =>
      cases op with
      | reserveTokens sequenceId tokenCount =>
          obtain ⟨rfl, request, active, rfl, position, below, past⟩ := driven
          obtain ⟨-, grown⟩ := shared_grow ⟨committed, shared⟩ (distinct_owners distinct) blocky
            active below past
          exact ⟨⟨⟨grown.rooted.backed, committed.valid.unreserved, committed.valid.held⟩,
            committed.within⟩, grown⟩
      | _ => exact driven.elim

theorem covered_create (config : SchedulerConfig) (pool : AllocatorConfig) (slab : ℕ → UInt8)
    (swapSlots : Option ℕ) : Covered pool (create config (.overPool pool slab swapSlots)) := by
  refine ⟨⟨exact_create config (KVCacheManager.backed_overPool pool slab swapSlots),
    Nat.zero_le _⟩, KVCacheManager.rooted_overPool pool slab swapSlots, rfl, ?_, ?_⟩
  · simp [create]
  · simp [create]

/-- In a pool that has frames of at least one token, an admitted request can always grow to its
full decode budget, whatever the other requests do. -/
theorem decode_growth_succeeds (config : SchedulerConfig) (pool : AllocatorConfig)
    (slab : ℕ → UInt8) (swapSlots : Option ℕ) (ops : List SchedulerOp)
    (unwatched : config.preemptionWatermarkBlocks = 0) (frames : 0 < pool.maxBlocks)
    (blocky : 0 < pool.blockShape.tokensPerBlock) (double : 2 * pool.maxBlocks < 2 ^ 32)
    (distinct : Distinct (enqueuedIdentities ops))
    (driven : Execution.Along step (DriverCall pool)
      (create config (.overPool pool slab swapSlots)) ops) :
    let scheduler := (create config (.overPool pool slab swapSlots)).run ops
    ∀ sequenceId, scheduler.Growable pool sequenceId →
      (scheduler.cache.reserveTokens sequenceId 1).1 = true := by
  intro scheduler sequenceId growable
  have blocky' : 0 < pool.tokensPerBlock := by
    rwa [AllocatorConfig.tokensPerBlock, if_neg frames.ne']
  have both : Covered pool scheduler ∧ scheduler.config = config ∧
      Distinct scheduler.identities := by
    have preserved : ∀ before op, Covered pool before ∧ before.config = config →
        Distinct before.identities → before.DriverCall pool op →
        Covered pool (before.step op) ∧ (before.step op).config = config := by
      intro before op ⟨covered, same⟩ distinct driven
      exact ⟨covered_step covered distinct (same ▸ unwatched) blocky' double driven,
        (config_step before op).trans same⟩
    obtain ⟨holds, unique⟩ := distinct_invariant preserved
      ⟨covered_create config pool slab swapSlots, rfl⟩
      (by simpa [identities, owners, create] using distinct) driven
    exact ⟨holds.1, holds.2, unique⟩
  obtain ⟨request, active, rfl, position, below, past⟩ := growable
  exact (shared_grow both.1 (distinct_owners both.2.2) blocky' active below past).1

/-- Two requests share the pool; the first one has grown by one block. -/
def growingOps : List SchedulerOp :=
  [.enqueue (.ofTokens 1 1 1), .enqueue (.ofTokens 2 1 1), .scheduleNext, .completeStep 1 1,
    .cache (.reserveTokens 1 1)]

/-- The second request can still grow. -/
theorem decode_growth_succeeds_growing :
    ((create plainConfig (.overPool fourFrames (fun _ => 0) none)).run growingOps).Growable
        fourFrames 2 ∧
      (((create plainConfig (.overPool fourFrames (fun _ => 0) none)).run
        growingOps).cache.reserveTokens 2 1).1 = true := by
  have growable : ((create plainConfig (.overPool fourFrames (fun _ => 0) none)).run
      growingOps).Growable fourFrames 2 := by
    decide +kernel
  exact ⟨growable, decode_growth_succeeds plainConfig fourFrames (fun _ => 0) none growingOps
    rfl (by decide) (by decide) (by decide) ⟨by decide, by decide⟩ (by decide +kernel) 2 growable⟩

/-- A pool without frames. -/
def noFrames : AllocatorConfig := ⟨⟨1, 1, 1, 1, 1, 0⟩, 1, 0, zero_lt_word⟩

/-- Without a frame every block count is zero: the request is admitted and its first block is
refused. -/
theorem decode_growth_fails_without_frames :
    Execution.Along step (DriverCall noFrames)
        (create plainConfig (.overPool noFrames (fun _ => 0) none))
        [.enqueue (.ofTokens 1 0 1), .scheduleNext] ∧
      ((create plainConfig (.overPool noFrames (fun _ => 0) none)).run
        [.enqueue (.ofTokens 1 0 1), .scheduleNext]).Growable noFrames 1 ∧
      (((create plainConfig (.overPool noFrames (fun _ => 0) none)).run
        [.enqueue (.ofTokens 1 0 1), .scheduleNext]).cache.reserveTokens 1 1).1 = false := by
  decide +kernel

end Scheduler
end QwenVLPaged
