import QwenVLPaged.RequestIndex
import QwenVLPaged.SchedulerCache

/-!
# Root sequences

In a run of scheduler calls every admitted request owns exactly one sequence, its root. What a
call on a request does to the cache is then what the call does to that root: the roots of all
other requests stay as they are.
-/

namespace QwenVLPaged

/-- No block of the sequence is swapped out. -/
def SequenceState.Resident (state : SequenceState) : Prop :=
  ∀ table ∈ state.tables, ∀ entry ∈ table.entries, entry.swapSlot = none

/-- Number of blocks that a sequence maps, over all its tables. -/
def SequenceState.blockCount (state : SequenceState) : ℕ :=
  (state.tables.map (·.entries.length)).sum

namespace KVCacheManager

/-! ## Calls on a request with one sequence -/

theorem swapOutRequest_root {cache : KVCacheManager} {requestId : RequestId} {root : SequenceId}
    (listed : cache.sequencesFor requestId = [root]) :
    (cache.swapOutRequest requestId).2 = (cache.swapOutSequence root).2 := by
  simp [swapOutRequest, listed, swapOutSequences]

theorem swapInRequest_root {cache : KVCacheManager} {requestId : RequestId} {root : SequenceId}
    (listed : cache.sequencesFor requestId = [root]) :
    cache.swapInRequest requestId = (false, cache) ∨
      cache.swapInRequest requestId = cache.swapInSequence root := by
  simp only [swapInRequest, listed]
  split
  · exact Or.inl rfl
  · refine Or.inr ?_
    simp only [swapInSequences]
    cases cache.swapInSequence root with
    | mk restored after => cases restored <;> rfl

theorem releaseRequest_root {cache : KVCacheManager} {requestId : RequestId} {root : SequenceId}
    (listed : cache.sequencesFor requestId = [root]) :
    cache.releaseRequest requestId = cache.releaseSequence root := by
  simp [releaseRequest, listed]

theorem releaseRequest_idle {cache : KVCacheManager} {requestId : RequestId}
    (idle : cache.sequencesFor requestId = []) : cache.releaseRequest requestId = cache := by
  simp [releaseRequest, idle]

/-! ## Owners -/

/-- Every owner has exactly its root sequence, and nobody else has any. -/
structure Rooted (config : AllocatorConfig) (owners : List SequenceMetadata)
    (cache : KVCacheManager) : Prop where
  backed : Backed config cache
  listed : ∀ owner ∈ owners, cache.sequencesFor owner.requestId = [owner.sequenceId]
  rooted : ∀ owner ∈ owners, ∃ state, cache.sequences.lookup owner.sequenceId = some state ∧
    state.metadata = owner
  idle : ∀ requestId, (∀ owner ∈ owners, owner.requestId ≠ requestId) →
    cache.sequencesFor requestId = []
  live : ∀ id state, cache.sequences.lookup id = some state → state.metadata ∈ owners

theorem rooted_overPool (config : AllocatorConfig) (slab : ℕ → UInt8) (swapSlots : Option ℕ) :
    Rooted config [] (overPool config slab swapSlots) :=
  ⟨backed_overPool config slab swapSlots, by simp, by simp,
    by simp [overPool, create, sequencesFor], by simp [overPool, create]⟩

theorem Rooted.perm {config : AllocatorConfig} {owners owners' : List SequenceMetadata}
    {cache : KVCacheManager} (rooted : Rooted config owners cache) (same : owners.Perm owners') :
    Rooted config owners' cache where
  backed := rooted.backed
  listed owner member := rooted.listed owner (same.mem_iff.mpr member)
  rooted owner member := rooted.rooted owner (same.mem_iff.mpr member)
  idle requestId other := rooted.idle requestId fun owner member =>
    other owner (same.mem_iff.mp member)
  live id state found := same.mem_iff.mp (rooted.live id state found)

theorem Rooted.owner_eq {config : AllocatorConfig} {owners : List SequenceMetadata}
    {cache : KVCacheManager} (rooted : Rooted config owners cache) {id : SequenceId}
    {state : SequenceState} (found : cache.sequences.lookup id = some state) :
    state.metadata.sequenceId = id :=
  (rooted.backed.accounted.tabled id state found).owner

theorem Rooted.absent {config : AllocatorConfig} {owners : List SequenceMetadata}
    {cache : KVCacheManager} (rooted : Rooted config owners cache) {id : SequenceId}
    (fresh : ∀ owner ∈ owners, owner.sequenceId ≠ id) : cache.sequences.lookup id = none := by
  cases found : cache.sequences.lookup id with
  | none => rfl
  | some state => exact absurd (rooted.owner_eq found) (fresh _ (rooted.live id state found))

/-- A call that only replaces the tables of one sequence keeps the owners. -/
theorem Rooted.update {config : AllocatorConfig} {owners : List SequenceMetadata}
    {cache after : KVCacheManager} (rooted : Rooted config owners cache)
    (backed : Backed config after) {id : SequenceId} {state : SequenceState}
    {tables : List BlockTable} (found : cache.sequences.lookup id = some state)
    (sequences : after.sequences = cache.sequences.insert id { state with tables })
    (index : after.sequencesByRequest = cache.sequencesByRequest) :
    Rooted config owners after := by
  have same (requestId : RequestId) : after.sequencesFor requestId =
      cache.sequencesFor requestId := by
    rw [sequencesFor, sequencesFor, index]
  refine ⟨backed, fun owner member => (same _).trans (rooted.listed owner member), ?_,
    fun requestId other => (same _).trans (rooted.idle requestId other), ?_⟩
  · intro owner member
    obtain ⟨old, old_found, metadata⟩ := rooted.rooted owner member
    rw [sequences]
    by_cases touched : owner.sequenceId = id
    · rw [touched, AList.lookup_insert]
      rw [touched, found] at old_found
      obtain rfl := Option.some.inj old_found
      exact ⟨_, rfl, metadata⟩
    · rw [AList.lookup_insert_ne touched]
      exact ⟨old, old_found, metadata⟩
  · intro other new new_found
    rw [sequences] at new_found
    by_cases touched : other = id
    · rw [touched, AList.lookup_insert] at new_found
      rw [← Option.some.inj new_found]
      exact rooted.live id state found
    · rw [AList.lookup_insert_ne touched] at new_found
      exact rooted.live other new new_found

theorem Rooted.create {config : AllocatorConfig} {owners : List SequenceMetadata}
    {cache : KVCacheManager} (rooted : Rooted config owners cache) (owner : SequenceMetadata)
    (newRequest : ∀ other ∈ owners, other.requestId ≠ owner.requestId)
    (newRoot : ∀ other ∈ owners, other.sequenceId ≠ owner.sequenceId) :
    ∃ after, cache.createSequence owner = (true, after) ∧
      Rooted config (owner :: owners) after ∧
      after.sequences = cache.sequences.insert owner.sequenceId
        (initialState config.tableCount owner) := by
  have absent := rooted.absent newRoot
  have backed := rooted.backed.createSequence owner
  rcases createSequence_cases rooted.backed.accounted owner with
    same | ⟨after, run_eq, opened, -⟩
  · simp [KVCacheManager.createSequence, absent] at same
  · have index := sequencesFor_createSequence run_eq
    have sequences := opened.sequences
    rw [rooted.backed.configured] at sequences
    rw [run_eq] at backed
    refine ⟨after, run_eq, ⟨backed, ?_, ?_, ?_, ?_⟩, sequences⟩
    · intro other member
      rcases List.mem_cons.mp member with rfl | old
      · rw [index, if_pos rfl, rooted.idle _ newRequest]
        rfl
      · rw [index, if_neg (newRequest other old)]
        exact rooted.listed other old
    · intro other member
      rw [sequences]
      rcases List.mem_cons.mp member with rfl | old
      · exact ⟨_, AList.lookup_insert _, rfl⟩
      · rw [AList.lookup_insert_ne (newRoot other old)]
        exact rooted.rooted other old
    · intro requestId others
      rw [index, if_neg (others owner List.mem_cons_self).symm]
      exact rooted.idle requestId fun other member => others other (List.mem_cons_of_mem _ member)
    · intro id state found
      rw [sequences] at found
      by_cases created : id = owner.sequenceId
      · rw [created, AList.lookup_insert] at found
        rw [← Option.some.inj found]
        exact List.mem_cons_self
      · rw [AList.lookup_insert_ne created] at found
        exact List.mem_cons_of_mem _ (rooted.live id state found)

theorem Rooted.release {config : AllocatorConfig} {owners : List SequenceMetadata}
    {cache : KVCacheManager} {owner : SequenceMetadata}
    (rooted : Rooted config (owner :: owners) cache)
    (newRequest : ∀ other ∈ owners, other.requestId ≠ owner.requestId)
    (newRoot : ∀ other ∈ owners, other.sequenceId ≠ owner.sequenceId) :
    Rooted config owners (cache.releaseRequest owner.requestId) ∧
      (cache.releaseRequest owner.requestId).sequences =
        cache.sequences.erase owner.sequenceId := by
  have listed := rooted.listed owner List.mem_cons_self
  obtain ⟨state, found, metadata⟩ := rooted.rooted owner List.mem_cons_self
  have backed := rooted.backed.releaseRequest owner.requestId
  rw [releaseRequest_root listed] at backed ⊢
  have index := sequencesFor_releaseSequence found
  rw [metadata] at index
  rcases releaseSequence_cases rooted.backed.accounted owner.sequenceId with
    ⟨missing, -⟩ | ⟨_, released⟩
  · simp [found] at missing
  refine ⟨⟨backed, ?_, ?_, ?_, ?_⟩, released.sequences⟩
  · intro other member
    rw [index, if_neg (newRequest other member)]
    exact rooted.listed other (List.mem_cons_of_mem _ member)
  · intro other member
    rw [released.sequences, AList.lookup_erase_ne (newRoot other member)]
    exact rooted.rooted other (List.mem_cons_of_mem _ member)
  · intro requestId others
    rw [index]
    split
    · rename_i same
      rw [same, listed]
      simp
    · rename_i different
      refine rooted.idle requestId fun other member => ?_
      rcases List.mem_cons.mp member with rfl | old
      · exact Ne.symm different
      · exact others other old
  · intro id other other_found
    rw [released.sequences] at other_found
    by_cases gone : id = owner.sequenceId
    · rw [gone, AList.lookup_erase] at other_found
      simp at other_found
    · rw [AList.lookup_erase_ne gone] at other_found
      have member := rooted.live id other other_found
      refine (List.mem_cons.mp member).resolve_left fun same => gone ?_
      rw [← rooted.owner_eq other_found, same]

/-! ## Swapping a root -/

theorem blockCount_eq_length (state : SequenceState) :
    state.blockCount = (state.tables.flatMap (·.entries)).length := by
  rw [SequenceState.blockCount, List.length_flatMap]

/-- With fewer than `2 ^ 32` blocks, none is swapped out when the counter says so. -/
theorem resident_of_swappedBlocks {state : SequenceState} (few : state.blockCount < 2 ^ 32)
    (nothing : swappedBlocks state.tables = 0) : state.Resident := by
  have counted : (state.tables.flatMap (·.entries)).countP (fun entry => entry.swapSlot.isSome) <
      2 ^ 32 := by
    rw [blockCount_eq_length] at few
    exact List.countP_le_length.trans_lt few
  rw [swappedBlocks, wrap32_of_lt counted, List.countP_eq_zero] at nothing
  intro table member entry inside
  simpa using nothing entry (List.mem_flatMap.mpr ⟨table, member, inside⟩)

theorem Rooted.swapOut {config : AllocatorConfig} {owners : List SequenceMetadata}
    {cache : KVCacheManager} (rooted : Rooted config owners cache) {owner : SequenceMetadata}
    (member : owner ∈ owners) {state : SequenceState}
    (found : cache.sequences.lookup owner.sequenceId = some state) :
    let after := (cache.swapOutRequest owner.requestId).2
    Rooted config owners after ∧
      ∃ tables, after.sequences =
          cache.sequences.insert owner.sequenceId { state with tables } ∧
        tables.map (·.entries.length) = state.tables.map (·.entries.length) := by
  intro after
  have backed : Backed config after := rooted.backed.swapOutRequest owner.requestId
  have index : after.sequencesByRequest = cache.sequencesByRequest := by
    simp only [after]
    rw [swapOutRequest_root (rooted.listed owner member)]
    exact (unlisted_swapOutSequence cache owner.sequenceId).index
  have same : after = (cache.swapOutSequence owner.sequenceId).2 :=
    swapOutRequest_root (rooted.listed owner member)
  obtain ⟨tables, sequences, lengths⟩ : ∃ tables, after.sequences =
      cache.sequences.insert owner.sequenceId { state with tables } ∧
      tables.map (·.entries.length) = state.tables.map (·.entries.length) := by
    obtain ⟨swapped, allocator, tables, run_eq, relocated⟩ := swapOutTables_spec
      cache.allocator state.tables (rooted.backed.accounted.tabled _ state found).indexed
    refine ⟨tables, ?_, relocated.lengths⟩
    simp [same, swapOutSequence, found, run_eq]
  exact ⟨rooted.update backed found sequences index, tables, sequences, lengths⟩

theorem Rooted.swapIn {config : AllocatorConfig} {owners : List SequenceMetadata}
    {cache after : KVCacheManager} (rooted : Rooted config owners cache)
    {owner : SequenceMetadata} (member : owner ∈ owners) {state : SequenceState}
    (found : cache.sequences.lookup owner.sequenceId = some state) {done : Bool}
    (restored : cache.swapInRequest owner.requestId = (done, after)) :
    Rooted config owners after ∧
      ∃ final, (after.sequences = cache.sequences ∧ final = state ∨
          after.sequences = cache.sequences.insert owner.sequenceId final) ∧
        final.metadata = state.metadata ∧
        final.tables.map (·.entries.length) = state.tables.map (·.entries.length) ∧
        (state.blockCount < 2 ^ 32 → done = true → final.Resident) := by
  have backed := rooted.backed.swapInRequest owner.requestId
  rcases swapInRequest_root (rooted.listed owner member) with refused | called
  · rw [refused] at restored
    obtain ⟨rfl, rfl⟩ := Prod.mk.inj restored
    exact ⟨rooted, state, Or.inl ⟨rfl, rfl⟩, rfl, rfl, by simp⟩
  · rw [restored] at backed
    rw [called] at restored
    rcases swapInSequence_cases rooted.backed.accounted owner.sequenceId with
      ⟨_, same, resident⟩ | ⟨_, old, _, tables, run_eq, moved, resident⟩
    · rw [same] at restored
      obtain ⟨rfl, rfl⟩ := Prod.mk.inj restored
      refine ⟨rooted, state, Or.inl ⟨rfl, rfl⟩, rfl, rfl, fun few finished => ?_⟩
      obtain ⟨again, again_found, nothing⟩ := resident finished
      obtain rfl : state = again := Option.some.inj (found.symm.trans again_found)
      exact resident_of_swappedBlocks few nothing
    · have index := (unlisted_swapInSequence cache owner.sequenceId).index
      rw [run_eq] at restored index
      obtain ⟨rfl, rfl⟩ := Prod.mk.inj restored
      obtain rfl : state = old := Option.some.inj (found.symm.trans moved.found)
      exact ⟨rooted.update backed found moved.sequences index, { state with tables },
        Or.inr moved.sequences, rfl, moved.lengths, fun _ finished => resident finished⟩

/-! ## Opening a root -/

theorem blocksNeeded_zero (tokensPerBlock : ℕ) : blocksNeeded 0 tokensPerBlock = 0 := by
  rcases Nat.eq_zero_or_pos tokensPerBlock with rfl | positive
  · simp [blocksNeeded]
  · refine Nat.div_eq_of_lt ((Nat.mod_le _ _).trans_lt ?_)
    omega

theorem extendAll_empty {tables : List BlockTable} {added : List (List BlockTableEntry)}
    (lengths : added.length = tables.length) (empty : ∀ table ∈ tables, table.entries = []) :
    (extendAll tables added).map (·.entries.length) = added.map (·.length) := by
  induction tables generalizing added with
  | nil => simp_all
  | cons table tables induction =>
      cases added with
      | nil => simp at lengths
      | cons entries added =>
          have rest := induction (by simpa using lengths)
            fun other member => empty other (List.mem_cons_of_mem _ member)
          simp [BlockTable.extend, empty table List.mem_cons_self, rest]

/-- A root that was just opened for a prompt: its blocks are resident, at most as many as the
pool has, and every table holds the prompt. -/
structure OpenedRoot (config : AllocatorConfig) (candidate : Request) (state : SequenceState) :
    Prop where
  metadata : state.metadata = candidate.metadata
  resident : state.Resident
  few : state.blockCount ≤ config.maxBlocks
  blocks : ∀ table ∈ state.tables,
    table.entries.length = blocksNeeded candidate.promptTokens config.tokensPerBlock

theorem openedRoot_initial (config : AllocatorConfig) {candidate : Request}
    (promptless : candidate.promptTokens = 0) :
    OpenedRoot config candidate (initialState config.tableCount candidate.metadata) := by
  have empty := initialState_empty config.tableCount candidate.metadata
  refine ⟨rfl, ?_, ?_, ?_⟩
  · intro table member entry inside
    simp [empty table member] at inside
  · have nothing : (initialState config.tableCount candidate.metadata).blockCount = 0 := by
      rw [blockCount_eq_length, List.flatMap_eq_nil_iff.mpr empty, List.length_nil]
    omega
  · intro table member
    rw [empty table member, promptless, blocksNeeded_zero]
    rfl

theorem openedRoot_grown {config : AllocatorConfig} {cache after : KVCacheManager}
    {candidate : Request} {added : List (List BlockTableEntry)}
    (backed : Backed config cache)
    (grown : Grown cache after candidate.rootSequenceId
      (initialState config.tableCount candidate.metadata)
      (blocksNeeded candidate.promptTokens config.tokensPerBlock) added true) :
    OpenedRoot config candidate { initialState config.tableCount candidate.metadata with
      tables := extendAll (initialState config.tableCount candidate.metadata).tables added } := by
  have empty := initialState_empty config.tableCount candidate.metadata
  have reserved := grown.reserved
  refine ⟨rfl, ?_, ?_, ?_⟩
  · intro table member entry inside
    obtain ⟨source, source_mem, entries, entries_mem, rfl⟩ := exists_of_mem_extendAll member
    rw [BlockTable.extend, empty source source_mem, List.nil_append] at inside
    exact reserved.reserved.resident entry (List.mem_flatten.mpr ⟨entries, entries_mem, inside⟩)
  · rw [SequenceState.blockCount, extendAll_empty reserved.lengths empty, ← List.length_flatten]
    have free := congrArg List.length reserved.reserved.free
    rw [List.length_append, List.length_map] at free
    have pool := backed.accounted.ledger.formed.free_length_le
    rw [backed.configured] at pool
    omega
  · intro table member
    obtain ⟨source, source_mem, entries, entries_mem, rfl⟩ := exists_of_mem_extendAll member
    rw [BlockTable.extend, empty source source_mem, List.nil_append]
    exact reserved.full rfl entries entries_mem

/-- A refused candidate leaves every sequence as it was. An admitted one gets its root. -/
theorem Rooted.openRoot {config : AllocatorConfig} {owners : List SequenceMetadata}
    {cache : KVCacheManager} (rooted : Rooted config owners cache) {candidate : Request}
    (newRequest : ∀ other ∈ owners, other.requestId ≠ candidate.requestId)
    (newRoot : ∀ other ∈ owners, other.sequenceId ≠ candidate.rootSequenceId) :
    (∃ after, Scheduler.openRoot cache candidate = (false, after) ∧
      Rooted config owners after ∧
      ∀ other, after.sequences.lookup other = cache.sequences.lookup other) ∨
    ∃ after state, Scheduler.openRoot cache candidate = (true, after) ∧
      Rooted config (candidate.metadata :: owners) after ∧
      OpenedRoot config candidate state ∧
      ∀ other, after.sequences.lookup other =
        if other = candidate.rootSequenceId then some state
        else cache.sequences.lookup other := by
  have absent : cache.sequences.lookup candidate.rootSequenceId = none := rooted.absent newRoot
  obtain ⟨opened, created, owned, sequences⟩ :=
    rooted.create candidate.metadata newRequest newRoot
  have room := Scheduler.roomFor_created rooted.backed created candidate.promptTokens
  have found : opened.sequences.lookup candidate.rootSequenceId =
      some (initialState config.tableCount candidate.metadata) := by
    rw [sequences]
    exact AList.lookup_insert _
  -- Releasing the new root again restores every lookup.
  have released {grown : KVCacheManager}
      (owned' : Rooted config (candidate.metadata :: owners) grown)
      (others : ∀ other ≠ candidate.rootSequenceId,
        grown.sequences.lookup other = cache.sequences.lookup other) :
      Rooted config owners (grown.releaseRequest candidate.requestId) ∧
        ∀ other, (grown.releaseRequest candidate.requestId).sequences.lookup other =
          cache.sequences.lookup other := by
    obtain ⟨final, erased⟩ := owned'.release newRequest newRoot
    refine ⟨final, fun other => ?_⟩
    change (grown.releaseRequest candidate.metadata.requestId).sequences.lookup other = _
    rw [erased]
    by_cases same : other = candidate.rootSequenceId
    · rw [same, absent]
      exact AList.lookup_erase _ _
    · exact (AList.lookup_erase_ne same).trans (others other same)
  rw [Scheduler.openRoot_eq rooted.backed, created]
  simp only
  split
  · rename_i promptless
    exact Or.inr ⟨opened, _, rfl, owned, openedRoot_initial config promptless,
      AList.lookup_inserted sequences⟩
  · have index := (unlisted_reserveTokens opened candidate.rootSequenceId
      candidate.promptTokens).index
    rcases reserveTokens_cases owned.backed.accounted candidate.rootSequenceId
        candidate.promptTokens room with
      same | ⟨after, state, added, complete, run_eq, -, grown⟩
    · rw [same]
      obtain ⟨final, lookups⟩ := released owned
        fun other different => AList.lookup_inserted_ne sequences other different
      exact Or.inl ⟨_, rfl, final, lookups⟩
    · obtain rfl := Option.some.inj (grown.found.symm.trans found)
      rw [run_eq] at index ⊢
      have owned' := owned.update (owned.backed.grown grown) found grown.sequences index
      have others : ∀ other ≠ candidate.rootSequenceId,
          after.sequences.lookup other = cache.sequences.lookup other := by
        intro other different
        rw [AList.lookup_inserted_ne grown.sequences other different]
        exact AList.lookup_inserted_ne sequences other different
      cases complete with
      | false =>
          obtain ⟨final, lookups⟩ := released owned' others
          exact Or.inl ⟨_, rfl, final, lookups⟩
      | true =>
          rw [tokensPerBlock_eq owned.backed.accounted.ledger.formed.sound,
            owned.backed.configured] at grown
          refine Or.inr ⟨after, _, rfl, owned', openedRoot_grown owned.backed grown, ?_⟩
          intro other
          rw [AList.lookup_inserted grown.sequences]
          split
          · rfl
          · rename_i different
            exact AList.lookup_inserted_ne sequences other different

end KVCacheManager
end QwenVLPaged
