import QwenVLPaged.PoolRun
import QwenVLPaged.ReplayBooks
import QwenVLPaged.ReplayFamilies

/-!
# What a replay holds

As long as the samples of a family fit into a reference count, the counters of the pool are exact in
every state that a replay reaches, and only requests in an owning queue hold anything. So a replay
that completes gives everything back, whatever was shared, copied, swapped or cancelled on the way.
-/

namespace QwenVLPaged

namespace MemoryAllocator

/-- If all frames are free and no slot is resident then the statistics show an unused pool. -/
theorem Formed.stats_of_free {allocator : MemoryAllocator} (formed : allocator.Formed)
    (free : ∀ frame, frame < allocator.config.maxBlocks → frame ∈ allocator.freeList)
    (unswapped : allocator.residentKeys = []) :
    allocator.stats.freeBlocks = allocator.stats.totalBlocks ∧
      allocator.stats.activeBlocks = 0 ∧ allocator.stats.sharedBlocks = 0 ∧
      allocator.stats.swappedBlocks = 0 := by
  have whole : allocator.stats.freeBlocks = allocator.stats.totalBlocks := by
    refine List.countP_eq_length.mpr fun info member => ?_
    obtain ⟨frame, found⟩ := List.mem_iff_getElem?.mp member
    have listed := free frame (formed.lt_of_info found)
    have unreferenced := ((formed.mem_free frame).mp listed).2
    rw [refCount_eq_of_info found] at unreferenced
    rw [formed.states frame info found, unreferenced]
    rfl
  have parts := formed.stats_partition
  have slots : allocator.stats.swappedBlocks = 0 := by
    cases installed : allocator.swapBackend with
    | none => simp [stats, installed, wrap32]
    | some backend =>
        have none_left : backend.slots.entries = [] := by
          simpa [residentKeys, installed, AList.keys, List.keys] using unswapped
        simp [stats, installed, HostSwapBackend.residentSlots, none_left, wrap32]
  exact ⟨whole, by omega, by omega, slots⟩

end MemoryAllocator

namespace PagedReplay

open Scheduler (Rationed)

/-! ## Reached states -/

/-- The pool and the queues agree: the counters of the cache are exact, a sequence belongs to a
request that owns cache, and nobody has more sequences than samples. -/
structure Balanced (trace : Trace) (state : PagedState) : Prop where
  conserved : state.scheduler.cache.Conserved
  pins : state.scheduler.cache.PinsExact
  owned : ∀ id sequence, state.scheduler.cache.sequences.lookup id = some sequence →
    ∃ request ∈ state.scheduler.owning, request.requestId = sequence.metadata.requestId
  samples : ∀ request ∈ trace.requests,
    (state.scheduler.cache.sequencesFor request.requestId).length ≤
      max 1 request.numParallelSamples

/-- A sequence is listed for its request, which owns cache. -/
theorem owner_of_lookup {Family : Type*} [DecidableEq Family] {quota : Quota Family} {base : ℕ}
    {scheduler : Scheduler} (rationed : Rationed quota base scheduler) {id : SequenceId}
    {sequence : SequenceState} (found : scheduler.cache.sequences.lookup id = some sequence) :
    ∃ request ∈ scheduler.owning, request.requestId = sequence.metadata.requestId := by
  have listed : id ∈ scheduler.cache.sequencesFor sequence.metadata.requestId :=
    (rationed.tended.listed.members _ id).mpr ⟨sequence, found, rfl⟩
  have owner := rationed.owned sequence.metadata.requestId (List.ne_nil_of_mem listed)
  rw [Scheduler.owners_ids] at owner
  exact List.mem_map.mp owner

/-- In every reached state reference counts and prefix pins are exact, and only requests that are
active or parked hold sequences, each at most its samples. -/
theorem holdings_balanced (trace : Trace) (config : ReplayConfig) (slab : ℕ → UInt8)
    (distinct : (trace.requests.map (·.requestId)).Nodup)
    (counted : BranchesCounted trace.requests config) (state : PagedState)
    (reached : Reached trace config slab (fun _ => True) state) : Balanced trace state := by
  have rationed := (sampled_reached distinct counted reached).rationed
  refine ⟨rationed.tended.accounts.1.conserved, rationed.tended.accounts.exact,
    fun id sequence found => owner_of_lookup rationed found, fun request member => ?_⟩
  have few := rationed.tended.within request.requestId
  change _ ≤ samplesOf trace.requests request.requestId at few
  rwa [samplesOf, requestOf_eq distinct member] at few

/-- Two requests with one prefix and two samples each, and a third one. -/
def sharedTrace : Trace :=
  ⟨⟨1, 1, 1, 1⟩,
    [⟨1, 3, 2, 3, 2, "p", three_lt_word, two_lt_word, three_lt_word, two_lt_word⟩,
      ⟨2, 3, 2, 2, 2, "p", three_lt_word, two_lt_word, two_lt_word, two_lt_word⟩,
      ⟨3, 2, 2, 2, 1, "", two_lt_word, two_lt_word, two_lt_word, one_lt_word⟩]⟩

/-- Eight blocks of two tokens, swap space for four, prefixes on. -/
def sharedConfig (maxSteps : ℕ) : ReplayConfig :=
  ⟨2, 8, 8, 64, 0, 4, true, 8, true, 16, maxSteps, two_lt_word, eight_lt_word, eight_lt_word⟩

/-- After one step five sequences are open and one prefix is published. -/
theorem holdings_balanced_shared :
    let state := final sharedTrace (sharedConfig 1) fun _ => 0
    (state.scheduler.cache.sequences.entries.length = 5 ∧
      state.scheduler.cache.prefixIndex.entries.length = 1) ∧ Balanced sharedTrace state :=
  ⟨by decide +kernel, holdings_balanced sharedTrace (sharedConfig 1) (fun _ => 0) (by decide)
    (by decide +kernel) _ (reached_final _ _ _)⟩

/-! ## Completed replays -/

/-- With empty queues nothing is held. -/
theorem sequences_of_unqueued {Family : Type*} [DecidableEq Family] {quota : Quota Family}
    {base : ℕ} {scheduler : Scheduler} (rationed : Rationed quota base scheduler)
    (queued : scheduler.queued = []) : scheduler.cache.sequences = ∅ := by
  refine AList.ext ?_
  by_contra some_left
  obtain ⟨⟨id, sequence⟩, member⟩ := List.exists_mem_of_ne_nil _ some_left
  have found : scheduler.cache.sequences.lookup id = some sequence :=
    Option.mem_def.mp (AList.mem_lookup_iff.mpr member)
  obtain ⟨request, owning, -⟩ := owner_of_lookup rationed found
  have inside : request ∈ scheduler.queued := List.mem_append_right _ owning
  rw [queued] at inside
  exact List.not_mem_nil inside

/-- A replay that completes leaks nothing, as long as the samples of a family fit into a reference
count. -/
theorem leak_free_of_completed (trace : Trace) (config : ReplayConfig) (slab : ℕ → UInt8)
    (distinct : (trace.requests.map (·.requestId)).Nodup)
    (counted : BranchesCounted trace.requests config)
    (completed : (runPaged trace config slab).completed = true) :
    (runPaged trace config slab).leakFree = true ∧
      (runPaged trace config slab).requestsCompleted = wrap32 trace.requests.length := by
  have reached := reached_final trace config slab
  have rationed := (sampled_reached distinct counted reached).rationed
  have finished := (completed_iff_finished trace config slab distinct).mp completed
  have emptied := emptied_of_finished distinct reached finished
  have gone := sequences_of_unqueued rationed emptied.queued
  obtain ⟨-, free, unswapped⟩ := rationed.tended.accounts.exact.drained gone
  have formed := rationed.tended.accounts.1.ledger.formed
  constructor
  · exact decide_eq_true (formed.stats_of_free free unswapped)
  · exact congrArg wrap32 (of_decide_eq_true completed)

/-- The requests share a prefix and copy its tail, two of them are preempted, and all is given
back. -/
theorem leak_free_of_completed_shared :
    let metrics := runPaged sharedTrace (sharedConfig 8) fun _ => 0
    (metrics.prefixHits = 1 ∧ metrics.cowEvents = 3 ∧ metrics.preemptions = 2) ∧
      metrics.leakFree = true ∧ metrics.requestsCompleted = wrap32 3 :=
  ⟨by decide +kernel, leak_free_of_completed sharedTrace (sharedConfig 8) (fun _ => 0) (by decide)
    (by decide +kernel) (by decide +kernel)⟩

end PagedReplay
end QwenVLPaged
