import QwenVLPaged.Conservation
import QwenVLPaged.SchedulerRun

/-!
# The cache under the scheduler

The scheduler never publishes a prefix. In a run of scheduler calls over a fresh pool the accounts
of the cache manager are kept, no prefix is indexed, and the block counts of the scheduler depend
on the configuration of the pool only.
-/

namespace QwenVLPaged

/-- Frames that a number of tokens occupies in a pool. -/
def AllocatorConfig.blocksForTokens (config : AllocatorConfig) (tokenCount : ℕ) : ℕ :=
  if config.tokensPerBlock = 0 then
    0
  else
    wrap32 (wrap32 (tokenCount + config.tokensPerBlock - 1) / config.tokensPerBlock *
      config.tableCount)

/-- Frames reserved for a request whose prefix is not cached. -/
def AllocatorConfig.lifetimeBlocks (config : AllocatorConfig) (request : Request) : ℕ :=
  config.blocksForTokens (wrap32 (request.promptTokens + request.sampling.maxDecodeTokens))

namespace KVCacheManager

/-- A manager over a fresh pool, with an empty host swap space or without one. -/
def overPool (config : AllocatorConfig) (slab : ℕ → UInt8) (swapSlots : Option ℕ) :
    KVCacheManager :=
  .create (.create config slab (swapSlots.map .create))

/-- A cache with valid accounts over a configured pool and without prefixes. -/
structure Backed (config : AllocatorConfig) (cache : KVCacheManager) : Prop where
  accounted : cache.Accounted
  configured : cache.allocator.config = config
  unpublished : cache.prefixIndex = ∅

theorem backed_overPool (config : AllocatorConfig) (slab : ℕ → UInt8) (swapSlots : Option ℕ) :
    Backed config (overPool config slab swapSlots) := by
  refine ⟨⟨?_, by simp [overPool, create], by simp [overPool, create]⟩, rfl, rfl⟩
  have empty : (overPool config slab swapSlots).places = [] := by
    simp [places, liveEntries, pinnedIds, overPool, create]
  rw [empty]
  refine Ledger.create config slab _ ?_
  intro installed equal
  obtain ⟨slots, -, rfl⟩ := Option.map_eq_some_iff.mp equal
  rfl

/-! ## Single sequences -/

theorem Backed.createSequence {config : AllocatorConfig} {cache : KVCacheManager}
    (backed : Backed config cache) (metadata : SequenceMetadata) :
    Backed config (cache.createSequence metadata).2 := by
  rcases createSequence_cases backed.accounted metadata with same | ⟨after, run_eq, opened, -⟩
  · rwa [same]
  · rw [run_eq]
    exact ⟨opened.accounted backed.accounted, opened.booked.config.trans backed.configured,
      opened.prefixIndex.trans backed.unpublished⟩

theorem Backed.grown {config : AllocatorConfig} {cache after : KVCacheManager} {id : SequenceId}
    {state : SequenceState} {blocks : ℕ} {added : List (List BlockTableEntry)} {complete : Bool}
    (backed : Backed config cache) (grown : Grown cache after id state blocks added complete) :
    Backed config after := by
  obtain ⟨fresh, -, booked⟩ := grown.booked
  exact ⟨grown.accounted backed.accounted, booked.config.trans backed.configured,
    grown.prefixIndex.trans backed.unpublished⟩

theorem Backed.reserveTokens {config : AllocatorConfig} {cache : KVCacheManager}
    (backed : Backed config cache) {sequenceId : SequenceId} {tokenCount : ℕ}
    (room : cache.RoomFor sequenceId tokenCount) :
    Backed config (cache.reserveTokens sequenceId tokenCount).2 := by
  rcases reserveTokens_cases backed.accounted sequenceId tokenCount room with
    same | ⟨after, state, added, complete, run_eq, -, grown⟩
  · rwa [same]
  · rw [run_eq]
    exact backed.grown grown

theorem Backed.moved {config : AllocatorConfig} {cache after : KVCacheManager} {id : SequenceId}
    {state : SequenceState} {tables : List BlockTable} (backed : Backed config cache)
    (moved : Moved cache after id state tables) : Backed config after := by
  obtain ⟨owned, -, -, booked⟩ := moved.booked
  exact ⟨moved.accounted backed.accounted, booked.config.trans backed.configured,
    moved.prefixIndex.trans backed.unpublished⟩

theorem Backed.swapOutSequence {config : AllocatorConfig} {cache : KVCacheManager}
    (backed : Backed config cache) (sequenceId : SequenceId) :
    Backed config (cache.swapOutSequence sequenceId).2 := by
  rcases swapOutSequence_cases backed.accounted sequenceId with same | ⟨_, _, _, _, run_eq, moved⟩
  · rwa [same]
  · rw [run_eq]
    exact backed.moved moved

theorem Backed.swapInSequence {config : AllocatorConfig} {cache : KVCacheManager}
    (backed : Backed config cache) (sequenceId : SequenceId) :
    Backed config (cache.swapInSequence sequenceId).2 := by
  rcases swapInSequence_cases backed.accounted sequenceId with
    ⟨_, same, -⟩ | ⟨_, _, _, _, run_eq, moved, -⟩
  · rwa [same]
  · rw [run_eq]
    exact backed.moved moved

theorem UserDropped.of_empty {before after : AList fun _ : String => List PrefixRecord}
    {key : String} {hash : UInt64} {freed : List PhysicalBlockId}
    (dropped : UserDropped before after key hash freed) (empty : before = ∅) : after = ∅ := by
  cases dropped with
  | missing _ same => exact same.trans empty
  | kept _ found => simp [empty] at found
  | last _ found => simp [empty] at found

theorem Backed.releaseSequence {config : AllocatorConfig} {cache : KVCacheManager}
    (backed : Backed config cache) (sequenceId : SequenceId) :
    Backed config (cache.releaseSequence sequenceId) := by
  rcases releaseSequence_cases backed.accounted sequenceId with ⟨-, same⟩ | ⟨_, released⟩
  · rwa [same]
  · obtain ⟨freed, dropped⟩ := released.dropped
    exact ⟨released.accounted backed.accounted,
      released.booked.config.trans backed.configured, dropped.of_empty backed.unpublished⟩

/-! ## Requests -/

theorem Backed.swapOutRequest {config : AllocatorConfig} {cache : KVCacheManager}
    (backed : Backed config cache) (requestId : RequestId) :
    Backed config (cache.swapOutRequest requestId).2 :=
  swapOutSequences_induction (fun _ id holds => holds.swapOutSequence id) backed _

theorem Backed.swapInRequest {config : AllocatorConfig} {cache : KVCacheManager}
    (backed : Backed config cache) (requestId : RequestId) :
    Backed config (cache.swapInRequest requestId).2 :=
  swapInRequest_induction (fun _ id holds => holds.swapInSequence id) backed requestId

theorem Backed.releaseRequest {config : AllocatorConfig} {cache : KVCacheManager}
    (backed : Backed config cache) (requestId : RequestId) :
    Backed config (cache.releaseRequest requestId) :=
  releaseRequest_induction (fun _ id holds => holds.releaseSequence id) backed requestId

end KVCacheManager

namespace Scheduler

open KVCacheManager (Backed)

/-! ## Block counts -/

theorem totalBlocks_eq {config : AllocatorConfig} {scheduler : Scheduler}
    (backed : Backed config scheduler.cache) : scheduler.totalBlocks = config.maxBlocks := by
  rw [← backed.configured]
  exact backed.accounted.ledger.formed.infos_length

theorem cachedTokens_eq_zero {config : AllocatorConfig} {cache : KVCacheManager}
    (backed : Backed config cache) (request : Request) : cachedTokens cache request = 0 := by
  unfold cachedTokens KVCacheManager.prefixTokenCount
  rw [backed.unpublished]
  simp

theorem blocksForTokens_eq {config : AllocatorConfig} {cache : KVCacheManager}
    (backed : Backed config cache) (tokenCount : ℕ) :
    blocksForTokens cache tokenCount = config.blocksForTokens tokenCount := by
  have zero := KVCacheManager.block_zero backed.accounted.ledger.formed.sound
  rw [backed.configured] at zero
  unfold blocksForTokens AllocatorConfig.blocksForTokens AllocatorConfig.tokensPerBlock
    AllocatorConfig.tableCount
  split at zero
  · rename_i empty
    simp [zero, empty]
  · rename_i nonempty
    obtain ⟨block, found, shape⟩ := zero
    simp only [found, shape, if_neg nonempty]

theorem lifetimeBlocksFor_eq {config : AllocatorConfig} {cache : KVCacheManager}
    (backed : Backed config cache) (request : Request) :
    lifetimeBlocksFor cache request = config.lifetimeBlocks request := by
  simp [lifetimeBlocksFor, cachedTokens_eq_zero backed, blocksForTokens_eq backed,
    AllocatorConfig.lifetimeBlocks]

/-! ## Opening a root -/

/-- Without prefixes a root is opened by reserving its whole prompt. -/
theorem openRoot_eq {config : AllocatorConfig} {cache : KVCacheManager}
    (backed : Backed config cache) (candidate : Request) :
    openRoot cache candidate =
      match cache.createSequence candidate.metadata with
      | (false, same) => (false, same)
      | (true, opened) =>
          if candidate.promptTokens = 0 then
            (true, opened)
          else
            match opened.reserveTokens candidate.rootSequenceId candidate.promptTokens with
            | (false, grown) => (false, grown.releaseRequest candidate.requestId)
            | (true, grown) => (true, grown) := by
  have still := backed.createSequence candidate.metadata
  unfold openRoot
  generalize cache.createSequence candidate.metadata = result at still
  obtain ⟨created, opened⟩ := result
  cases created with
  | false => rfl
  | true =>
      simp only [cachedTokens_eq_zero still, lt_self_iff_false, false_and, if_false,
        Nat.sub_zero]
      rcases Nat.eq_zero_or_pos candidate.promptTokens with none | some
      · simp [none]
      · simp only [if_pos some, some.ne', if_false, and_false]
        generalize opened.reserveTokens candidate.rootSequenceId candidate.promptTokens = result
        obtain ⟨reserved, grown⟩ := result
        cases reserved <;> rfl

/-- There is room for any prompt in a sequence that was just created. -/
theorem roomFor_created {config : AllocatorConfig} {cache after : KVCacheManager}
    {metadata : SequenceMetadata} (backed : Backed config cache)
    (created : cache.createSequence metadata = (true, after)) (tokenCount : ℕ) :
    after.RoomFor metadata.sequenceId tokenCount := by
  rcases KVCacheManager.createSequence_cases backed.accounted metadata with
    same | ⟨opened, run_eq, effect, -⟩
  · rw [same] at created
    simp at created
  · obtain rfl : opened = after := congrArg Prod.snd (run_eq.symm.trans created)
    intro state found table member
    rw [effect.sequences, AList.lookup_insert, Option.mem_some_iff] at found
    rw [← found] at member
    rw [KVCacheManager.initialState_empty _ _ table member, List.length_nil, Nat.zero_add,
      KVCacheManager.newBlocks, KVCacheManager.blocksNeeded]
    calc
      min _ _ ≤ wrap32 (tokenCount + opened.tokensPerBlock - 1) / opened.tokensPerBlock :=
        min_le_left _ _
      _ ≤ wrap32 (tokenCount + opened.tokensPerBlock - 1) := Nat.div_le_self _ _
      _ ≤ 2 ^ 32 := (wrap32_lt _).le

theorem backed_openRoot {config : AllocatorConfig} {cache : KVCacheManager}
    (backed : Backed config cache) (candidate : Request) :
    Backed config (openRoot cache candidate).2 := by
  have created := backed.createSequence candidate.metadata
  rw [openRoot_eq backed]
  cases result : cache.createSequence candidate.metadata with
  | mk done opened =>
      rw [result] at created
      cases done with
      | false => exact created
      | true =>
          simp only
          split
          · exact created
          · have room := roomFor_created backed result candidate.promptTokens
            have grown := created.reserveTokens room
            change Backed config (opened.reserveTokens candidate.rootSequenceId _).2 at grown
            split
            · rename_i failed
              rw [failed] at grown
              exact grown.releaseRequest _
            · rename_i reserved
              rwa [reserved] at grown

/-! ## Runs -/

theorem backed_preempt {config : AllocatorConfig} {scheduler : Scheduler}
    (backed : Backed config scheduler.cache) (requestId : RequestId) (reason : String) :
    Backed config (scheduler.preempt requestId reason).2.cache := by
  unfold preempt
  split
  · exact backed
  · exact backed.swapOutRequest _

theorem backed_action {config : AllocatorConfig} {scheduler after : Scheduler}
    {plan planned : BatchPlan} (action : AdmissionStep (scheduler, plan) (after, planned))
    (backed : Backed config scheduler.cache) : Backed config after.cache := by
  cases action with
  | @reclaim _ _ victim watermark older found => exact backed_preempt backed _ _
  | @refuse _ _ candidate cache waiting refused =>
      have opened := backed_openRoot backed candidate
      rwa [refused] at opened
  | @accept _ _ position candidate cache waiting fits =>
      have opened := backed_openRoot backed candidate
      rwa [fits.opened] at opened

/-- A call of the scheduler itself. -/
def OwnCall : SchedulerOp → Prop
  | .cache _ => False
  | _ => True

theorem backed_step {config : AllocatorConfig} {scheduler : Scheduler} {op : SchedulerOp}
    (backed : Backed config scheduler.cache) (own : OwnCall op) :
    Backed config (scheduler.step op).cache := by
  cases op with
  | enqueue request => exact backed
  | scheduleNext =>
      exact scheduleNext_induction (motive := fun after _ => Backed config after.cache)
        (fun _ _ _ _ action holds => backed_action action holds) backed
  | completeStep requestId producedTokens => exact backed
  | preempt requestId reason => exact backed_preempt backed requestId reason
  | resume requestId =>
      simp only [step, resume]
      split
      · exact backed
      · rename_i request _
        have restored := backed.swapInRequest request.requestId
        split
        all_goals
          rename_i result
          rwa [result] at restored
  | cancel requestId =>
      simp only [step, cancel]
      split
      · exact backed.releaseRequest _
      · split
        · exact backed.releaseRequest _
        · split
          · exact backed.releaseRequest _
          · exact backed
  | cache op => exact own.elim

end Scheduler
end QwenVLPaged
