import QwenVLPaged.DecodeAdmission

/-!
# Reservations and sharing

The reservation of a request counts the blocks of its own root: prompt plus decode, less what an
attached prefix supplies at admission. A forked child, the copy that a published tail forces and a
prefix that outlives its publisher are in no reservation, so the counter bounds the frames in use
only while nothing is shared.
-/

namespace QwenVLPaged
namespace Scheduler

open KVCacheManager (Backed)

/-! ## The driver -/

/-- Positions that a request may fill: its prompt and its decode budget. -/
def reach (request : Request) : ℕ := request.promptTokens + request.sampling.maxDecodeTokens

/-- The sequence belongs to an active request that may fill the position. -/
def Reaches (scheduler : Scheduler) (sequenceId : SequenceId) (position : ℕ) : Prop :=
  ∃ request ∈ scheduler.active, sequenceId ∈ scheduler.cache.sequencesFor request.requestId ∧
    position < reach request

instance (scheduler : Scheduler) (sequenceId : SequenceId) (position : ℕ) :
    Decidable (scheduler.Reaches sequenceId position) :=
  inferInstanceAs (Decidable (∃ request ∈ scheduler.active, _ ∧ _))

/-- The sequence may take one more block: a position past its blocks is still to be filled. -/
def MayGrow (config : AllocatorConfig) (scheduler : Scheduler) (sequenceId : SequenceId) : Prop :=
  ∃ request ∈ scheduler.active, sequenceId ∈ scheduler.cache.sequencesFor request.requestId ∧
    ∃ position < reach request, ∀ state ∈ scheduler.cache.sequences.lookup sequenceId,
      config.tokensPerBlock * state.textTable.size ≤ position

instance (config : AllocatorConfig) (scheduler : Scheduler) (sequenceId : SequenceId) :
    Decidable (scheduler.MayGrow config sequenceId) :=
  inferInstanceAs (Decidable (∃ request ∈ scheduler.active, _ ∧ ∃ position < reach request, _))

/-- A call of a driver that shares: a request in decode may publish its root under its own key and
may have as many sequences as it has samples. -/
def SharingCall (config : AllocatorConfig) (scheduler : Scheduler) : SchedulerOp → Prop
  | .enqueue _ | .scheduleNext | .completeStep _ _ => True
  | .cancel requestId => ∃ request ∈ scheduler.active, request.requestId = requestId
  | .cache (.publishPrefix sequenceId key) => ∃ request ∈ scheduler.active,
      request.rootSequenceId = sequenceId ∧ request.prefixKey = key ∧ request.state = .decode
  | .cache (.forkSequence parentId child) => ∃ request ∈ scheduler.active,
      request.rootSequenceId = parentId ∧ child.requestId = request.requestId ∧
        (scheduler.cache.sequencesFor request.requestId).length <
          request.sampling.numParallelSamples
  | .cache (.ensureTokenWritable sequenceId token _)
  | .cache (.writeToken sequenceId token _ _) => scheduler.Reaches sequenceId token
  | .cache (.reserveTokens sequenceId tokenCount) =>
      tokenCount = 1 ∧ scheduler.MayGrow config sequenceId
  | _ => False

instance (config : AllocatorConfig) (scheduler : Scheduler) :
    DecidablePred (scheduler.SharingCall config)
  | .enqueue _ | .scheduleNext | .completeStep _ _ => .isTrue trivial
  | .cancel requestId =>
      inferInstanceAs (Decidable (∃ request ∈ scheduler.active, request.requestId = requestId))
  | .cache (.publishPrefix _ _) =>
      inferInstanceAs (Decidable (∃ request ∈ scheduler.active, _ ∧ _ ∧ _))
  | .cache (.forkSequence _ _) =>
      inferInstanceAs (Decidable (∃ request ∈ scheduler.active, _ ∧ _ ∧ _ < _))
  | .cache (.ensureTokenWritable sequenceId token _)
  | .cache (.writeToken sequenceId token _ _) =>
      inferInstanceAs (Decidable (scheduler.Reaches sequenceId token))
  | .cache (.reserveTokens _ _) => inferInstanceAs (Decidable (_ = 1 ∧ _))
  | .preempt _ _ | .resume _ | .cache (.createSequence _) | .cache (.swapOutSequence _)
  | .cache (.swapOutRequest _) | .cache (.swapInSequence _) | .cache (.swapInRequest _)
  | .cache (.attachPrefix _ _) | .cache (.releaseSequence _) | .cache (.releaseRequest _) =>
      .isFalse id

/-- Frames that are not on the free list. -/
def usedFrames (scheduler : Scheduler) : ℕ :=
  scheduler.cache.allocator.config.maxBlocks - scheduler.cache.allocator.freeList.length

/-- A driver's run over a fresh pool after which more frames are in use than the counter holds. -/
def Overdrawn (pool : AllocatorConfig) (ops : List SchedulerOp) : Prop :=
  let start := create plainConfig (.overPool pool (fun _ => 0) none)
  Execution.Along step (SharingCall pool) start ops ∧
    (start.run ops).lifetimeHeld < (start.run ops).usedFrames

instance (pool : AllocatorConfig) (ops : List SchedulerOp) : Decidable (Overdrawn pool ops) :=
  inferInstanceAs (Decidable (_ ∧ _ < _))

/-- A small pool of four frames of two tokens. -/
def pairFrames : AllocatorConfig := ⟨⟨2, 1, 1, 1, 1, 0⟩, 1, 4, four_lt_word⟩

/-- A request with a prefix key. -/
def keyed (request : Request) (key : String) : Request := { request with prefixKey := key }

/-- A request that decodes into several branches. -/
def branching (request : Request) (samples : ℕ) : Request :=
  { request with sampling := { request.sampling with numParallelSamples := samples } }

/-- The child and its parent both grow to the budget of their request. -/
def branchOps : List SchedulerOp :=
  [.enqueue (branching (.ofTokens 1 1 1) 2), .scheduleNext, .completeStep 1 1,
    .cache (.forkSequence 1 ⟨2, 1⟩), .cache (.reserveTokens 1 1), .cache (.reserveTokens 2 1)]

/-- The publisher copies its pinned tail to decode into it. -/
def tailOps : List SchedulerOp :=
  [.enqueue (keyed (.ofTokens 1 1 1) "image"), .scheduleNext, .completeStep 1 1,
    .cache (.publishPrefix 1 "image"), .cache (.ensureTokenWritable 1 1 0)]

/-- The prefix outlives its publisher, and only the publisher had reserved it. -/
def orphanOps : List SchedulerOp :=
  [.enqueue (keyed (.ofTokens 1 1 1) "image"), .scheduleNext, .completeStep 1 1,
    .cache (.publishPrefix 1 "image"), .enqueue (keyed (.ofTokens 2 1 1) "image"), .scheduleNext,
    .completeStep 2 1, .cancel 1, .cache (.reserveTokens 2 1)]

/-- Prompt plus decode wraps to zero tokens. -/
def wrappedOps : List SchedulerOp := [.enqueue (.ofTokens 1 1 (2 ^ 32 - 1)), .scheduleNext]

/-- A call that shares nothing: no fork and no publication, and the block counts of a request do
not wrap. -/
def Unshared (config : AllocatorConfig) : SchedulerOp → Prop
  | .enqueue request => request.Sized config
  | .cache (.forkSequence _ _) | .cache (.publishPrefix _ _) => False
  | _ => True

instance (config : AllocatorConfig) : DecidablePred (Unshared config)
  | .enqueue request => inferInstanceAs (Decidable (request.Sized config))
  | .scheduleNext | .completeStep _ _ | .preempt _ _ | .resume _ | .cancel _
  | .cache (.createSequence _) | .cache (.reserveTokens _ _) | .cache (.ensureTokenWritable _ _ _)
  | .cache (.writeToken _ _ _ _) | .cache (.swapOutSequence _) | .cache (.swapOutRequest _)
  | .cache (.swapInSequence _) | .cache (.swapInRequest _) | .cache (.attachPrefix _ _)
  | .cache (.releaseSequence _) | .cache (.releaseRequest _) => .isTrue trivial
  | .cache (.forkSequence _ _) | .cache (.publishPrefix _ _) => .isFalse id

theorem Share.relocated {config : AllocatorConfig} {request : Request} {state : SequenceState}
    {tables : List BlockTable} (share : Share config request state)
    (lengths : tables.map (·.entries.length) = state.tables.map (·.entries.length)) :
    Share config request { state with tables } := by
  have size : ({ state with tables } : SequenceState).textTable.size = state.textTable.size := by
    unfold SequenceState.textTable
    cases tables_eq : tables with
    | nil =>
        rw [tables_eq, List.map_nil, eq_comm, List.map_eq_nil_iff] at lengths
        rw [lengths]
    | cons table others =>
        cases olds : state.tables with
        | nil => simp [tables_eq, olds] at lengths
        | cons old rest =>
            rw [tables_eq, olds, List.map_cons, List.map_cons, List.cons.injEq] at lengths
            exact lengths.1
  refine ⟨share.sized, share.reserved, fun table member => ?_, size.le.trans share.within⟩
  have listed : table.entries.length ∈ state.tables.map (·.entries.length) :=
    lengths ▸ List.mem_map_of_mem member
  obtain ⟨old, inside, same⟩ := List.mem_map.mp listed
  rw [size, ← same]
  exact share.even old inside

/-- Placing the blocks of one sequence elsewhere keeps every share. -/
theorem Covered.relocated {config : AllocatorConfig} {scheduler : Scheduler}
    (covered : Covered config scheduler) {after : KVCacheManager} (backed : Backed config after)
    {id : SequenceId} {state : SequenceState} {tables : List BlockTable}
    (found : scheduler.cache.sequences.lookup id = some state)
    (sequences : after.sequences = scheduler.cache.sequences.insert id { state with tables })
    (lengths : tables.map (·.entries.length) = state.tables.map (·.entries.length))
    (index : after.sequencesByRequest = scheduler.cache.sequencesByRequest) :
    Covered config { scheduler with cache := after } := by
  obtain ⟨committed, shared⟩ := covered
  refine ⟨⟨⟨backed, committed.valid.unreserved, committed.valid.held⟩, committed.within⟩,
    shared.rooted.update backed found sequences index, shared.unparked, shared.sized, ?_⟩
  intro request active other lookup
  have lookup' := AList.lookup_inserted sequences request.rootSequenceId
  rw [lookup] at lookup'
  split at lookup'
  · rename_i same
    obtain rfl := Option.some.inj lookup'
    exact (shared.shares request active state (same ▸ found)).relocated lengths
  · exact shared.shares request active other lookup'.symm

theorem covered_ensureTokenWritable {config : AllocatorConfig} {scheduler : Scheduler}
    (covered : Covered config scheduler) (sequenceId : SequenceId) (token layer : ℕ) :
    Covered config { scheduler with
      cache := (scheduler.cache.ensureTokenWritable sequenceId token layer).2 } := by
  have backed := covered.shared.rooted.backed
  have index := 
    (KVCacheManager.unlisted_ensureTokenWritable scheduler.cache sequenceId token layer).index
  rcases KVCacheManager.ensureTokenWritable_cases backed.accounted sequenceId token layer with
    refused | ⟨after, state, tables, frame, ensured, moved, -⟩
  · rwa [refused]
  · rw [ensured] at index ⊢
    exact covered.relocated (backed.moved moved) moved.found moved.sequences moved.lengths index

theorem covered_writeToken {config : AllocatorConfig} {scheduler : Scheduler}
    (covered : Covered config scheduler) (sequenceId : SequenceId) (token layer : ℕ)
    (stores : List TokenStore) :
    Covered config { scheduler with
      cache := (scheduler.cache.writeToken sequenceId token layer stores).2 } := by
  have backed := covered.shared.rooted.backed
  have index := 
    (KVCacheManager.unlisted_writeToken scheduler.cache sequenceId token layer stores).index
  rcases KVCacheManager.writeToken_cases backed.accounted sequenceId token layer stores with
    refused | ⟨middle, after, state, tables, frame, written, moved, -, stored⟩
  · rwa [refused]
  · rw [written] at index ⊢
    have between := backed.moved moved
    have final : Backed config after :=
      ⟨stored.accounted between.accounted, stored.config.trans between.configured,
        stored.prefixIndex.trans between.unpublished⟩
    exact covered.relocated final moved.found (stored.sequences.trans moved.sequences)
      moved.lengths index

/-- Without forks the only sequence of an active request is its root. -/
theorem MayGrow.growable {config : AllocatorConfig} {scheduler : Scheduler}
    {sequenceId : SequenceId} (shared : Shared config scheduler)
    (grows : scheduler.MayGrow config sequenceId) : scheduler.Growable config sequenceId := by
  obtain ⟨request, active, listed, position, below, past⟩ := grows
  have owner : request.metadata ∈ scheduler.owners :=
    List.mem_map_of_mem (List.mem_append_left _ active)
  have sequences : scheduler.cache.sequencesFor request.requestId = [request.rootSequenceId] :=
    shared.rooted.listed _ owner
  rw [sequences, List.mem_singleton] at listed
  exact ⟨request, active, listed.symm, position, below, past⟩

theorem covered_grow {config : AllocatorConfig} {scheduler : Scheduler}
    (covered : Covered config scheduler) (distinct : Distinct scheduler.owners)
    {sequenceId : SequenceId} (grows : scheduler.MayGrow config sequenceId) :
    Covered config { scheduler with
      cache := (scheduler.cache.reserveTokens sequenceId 1).2 } := by
  have backed := covered.shared.rooted.backed
  rcases Nat.eq_zero_or_pos config.tokensPerBlock with flat | blocky
  · have size : scheduler.cache.tokensPerBlock = 0 := by
      rw [KVCacheManager.tokensPerBlock_eq backed.accounted.ledger.formed.sound, backed.configured, flat]
    have refused : scheduler.cache.reserveTokens sequenceId 1 = (false, scheduler.cache) := by
      rw [KVCacheManager.reserveTokens]
      split
      · rfl
      · rw [if_pos size]
    rwa [refused]
  · obtain ⟨request, active, rfl, position, below, past⟩ := grows.growable covered.shared
    obtain ⟨-, grown⟩ := shared_grow covered distinct blocky active below past
    exact ⟨⟨⟨grown.rooted.backed, covered.committed.valid.unreserved,
      covered.committed.valid.held⟩, covered.committed.within⟩, grown⟩

theorem covered_unshared {config : AllocatorConfig} {scheduler : Scheduler} {op : SchedulerOp}
    (covered : Covered config scheduler) (distinct : Distinct scheduler.identities)
    (unwatched : scheduler.config.preemptionWatermarkBlocks = 0)
    (double : 2 * config.maxBlocks < 2 ^ 32) (called : scheduler.SharingCall config op)
    (unshared : Unshared config op) : Covered config (scheduler.step op) := by
  cases op with
  | enqueue request =>
      obtain ⟨committed, shared⟩ := covered
      refine ⟨committed_step committed trivial, shared.rooted, shared.unparked, ?_,
        shared.shares⟩
      intro waiting member
      rcases List.mem_append.mp member with old | new
      · exact shared.sized waiting old
      · rw [List.mem_singleton.mp new]
        exact ⟨unshared.tokens, unshared.blocks⟩
  | scheduleNext => exact covered_scheduleNext covered distinct unwatched double
  | completeStep requestId producedTokens =>
      exact ⟨committed_step covered.committed trivial, shared_completeStep covered.shared _ _⟩
  | preempt requestId reason => exact called.elim
  | resume requestId => exact called.elim
  | cancel requestId =>
      refine ⟨committed_step covered.committed ?_,
        shared_cancel covered.shared distinct requestId⟩
      intro _ _ request found
      simp [covered.shared.unparked, findRequest] at found
  | cache op =>
      cases op with
      | reserveTokens sequenceId tokenCount =>
          obtain ⟨rfl, grows⟩ := called
          exact covered_grow covered (distinct_owners distinct) grows
      | ensureTokenWritable sequenceId token layer =>
          exact covered_ensureTokenWritable covered sequenceId token layer
      | writeToken sequenceId token layer stores =>
          exact covered_writeToken covered sequenceId token layer stores
      | forkSequence parentId child => exact unshared.elim
      | publishPrefix sequenceId key => exact unshared.elim
      | _ => exact called.elim

/-- The reservations of the active requests cover the blocks they map. -/
theorem Covered.usedFrames_le {config : AllocatorConfig} {scheduler : Scheduler}
    (covered : Covered config scheduler) : scheduler.usedFrames ≤ scheduler.lifetimeHeld := by
  have pool := covered.shared.maxBlocks_le
  have live := covered.shared.liveEntries_le
  have mapped : (scheduler.active.map scheduler.mappedBlocks).sum ≤
      (scheduler.active.map (·.lifetimeBlocks)).sum :=
    List.sum_le_sum fun _ inside => covered.shared.mappedBlocks_le inside
  rw [usedFrames, covered.shared.rooted.backed.configured, covered.committed.valid.held,
    reservedBlocks]
  omega

/-- Two requests; the first one fills its second block. -/
def plainOps : List SchedulerOp :=
  [.enqueue (.ofTokens 1 1 1), .enqueue (.ofTokens 2 1 1), .scheduleNext, .completeStep 1 1,
    .cache (.reserveTokens 1 1), .cache (.ensureTokenWritable 1 1 0)]

end Scheduler
end QwenVLPaged
