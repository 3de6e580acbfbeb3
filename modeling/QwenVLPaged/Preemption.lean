import QwenVLPaged.CacheSoundness
import QwenVLPaged.RequestIndex
import QwenVLPaged.SchedulerCache

/-!
# What a preemption reclaims

Swapping out a request frees as many frames as it reports and fills as many slots. A block of the
request that stays resident was refused by the pool when its turn came; the tables of all other
requests, the prefix records and the bytes of all frames stay as they are.
-/

namespace QwenVLPaged

namespace KVCacheManager

open MemoryAllocator (Evictions Refused)

/-- What swapping out a list of sequences does. -/
structure SequencesEvicted (before after : KVCacheManager) (ids : List SequenceId)
    (moves : List (PhysicalBlockId × SwapSlotId)) : Prop where
  effect : Evictions before.allocator after.allocator moves
  prefixIndex : after.prefixIndex = before.prefixIndex
  unlisted : Unlisted before after
  others : ∀ id, id ∉ ids → after.sequences.lookup id = before.sequences.lookup id
  refused : ∀ id ∈ ids, ∀ state, after.sequences.lookup id = some state →
    ∀ table ∈ state.tables, ∀ entry ∈ table.entries, entry.swapSlot = none →
      Refused before.allocator after.allocator entry.physicalId
  traced : ∀ entry ∈ after.liveEntries, ∀ slot, entry.swapSlot = some slot →
    entry ∈ before.liveEntries ∨ (entry.physicalId, slot) ∈ moves

/-- A block that is resident after the loop was refused. -/
theorem EntriesEvicted.refused {before after : MemoryAllocator}
    {moves : List (PhysicalBlockId × SwapSlotId)} {entries entries' : List BlockTableEntry}
    (evicted : EntriesEvicted before after moves entries entries') {entry : BlockTableEntry}
    (member : entry ∈ entries') (resident : entry.swapSlot = none) :
    Refused before after entry.physicalId := by
  obtain ⟨position, inside, entry_eq⟩ := List.mem_iff_getElem.mp member
  have related := (List.forall₂_iff_get.mp evicted.blocks).2 position
    (evicted.blocks.length_eq ▸ inside) inside
  rw [List.get_eq_getElem, List.get_eq_getElem, entry_eq] at related
  rcases related with ⟨same, refused⟩ | ⟨-, slot, -, changed⟩
  · rw [same] at resident ⊢
    exact refused resident
  · simp [changed] at resident

/-- A block that is swapped out after the loop was so before, or was moved by it. -/
theorem EntriesEvicted.traced {before after : MemoryAllocator}
    {moves : List (PhysicalBlockId × SwapSlotId)} {entries entries' : List BlockTableEntry}
    (evicted : EntriesEvicted before after moves entries entries') {entry : BlockTableEntry}
    (member : entry ∈ entries') {slot : SwapSlotId} (swapped : entry.swapSlot = some slot) :
    entry ∈ entries ∨ (entry.physicalId, slot) ∈ moves := by
  obtain ⟨position, inside, entry_eq⟩ := List.mem_iff_getElem.mp member
  have within : position < entries.length := evicted.blocks.length_eq ▸ inside
  have related := (List.forall₂_iff_get.mp evicted.blocks).2 position within inside
  rw [List.get_eq_getElem, List.get_eq_getElem, entry_eq] at related
  rcases related with ⟨same, -⟩ | ⟨-, slot', moved, changed⟩
  · rw [same]
    exact Or.inl (List.getElem_mem within)
  · rw [changed] at swapped ⊢
    exact Or.inr (Option.some.inj swapped ▸ moved)

theorem swapOutSequence_evicts {manager : KVCacheManager} (sound : manager.Sound)
    (sequenceId : SequenceId) :
    ∃ moves after, manager.swapOutSequence sequenceId = (moves.length, after) ∧
      SequencesEvicted manager after [sequenceId] moves := by
  have unlisted := unlisted_swapOutSequence manager sequenceId
  unfold swapOutSequence at unlisted ⊢
  cases found : manager.sequences.lookup sequenceId with
  | none =>
      refine ⟨[], manager, rfl, Evictions.refl sound.pool, rfl, Unlisted.refl manager,
        fun _ _ => rfl, ?_, fun _ member _ _ => Or.inl member⟩
      intro id member state lookup
      rw [List.mem_singleton.mp member, found] at lookup
      simp at lookup
  | some state =>
      obtain ⟨moves, allocator, tables, run_eq, evicted⟩ := swapOutTables_evicts sound.pool
        state.tables fun table member =>
          (sound.regular sequenceId state found table member).indexed
      simp only [found, run_eq] at unlisted ⊢
      rw [wrap32_of_lt evicted.effect.length_lt]
      refine ⟨moves, _, rfl, evicted.effect, rfl, unlisted, ?_, ?_, ?_⟩
      · intro id outside
        exact AList.lookup_insert_ne (by simpa using outside)
      · intro id member state' lookup table table_mem entry entry_mem resident
        rw [List.mem_singleton.mp member, AList.lookup_insert] at lookup
        rw [← Option.some.inj lookup] at table_mem
        exact evicted.refused (List.mem_flatMap.mpr ⟨table, table_mem, entry_mem⟩) resident
      · intro entry member slot swapped
        obtain ⟨id, state', lookup, inside⟩ := mem_liveEntries.mp member
        by_cases same : id = sequenceId
        · rw [same, AList.lookup_insert] at lookup
          rw [← Option.some.inj lookup] at inside
          exact (evicted.traced inside swapped).imp_left fun old =>
            mem_liveEntries.mpr ⟨sequenceId, state, found, old⟩
        · rw [AList.lookup_insert_ne same] at lookup
          exact Or.inl (mem_liveEntries.mpr ⟨id, state', lookup, inside⟩)

theorem swapOutSequences_evicts {manager : KVCacheManager} (sound : manager.Sound)
    (ids : List SequenceId) :
    ∃ moves after, manager.swapOutSequences ids = (moves.length, after) ∧
      SequencesEvicted manager after ids moves := by
  induction ids generalizing manager with
  | nil =>
      exact ⟨[], manager, rfl, Evictions.refl sound.pool, rfl, Unlisted.refl manager,
        fun _ _ => rfl, by simp, fun _ member _ _ => Or.inl member⟩
  | cons id ids induction =>
      obtain ⟨front, middle, head_eq, head⟩ := swapOutSequence_evicts sound id
      have middle_sound : middle.Sound := by
        have kept := sound.swapOutSequence id
        rwa [head_eq] at kept
      obtain ⟨back, after, tail_eq, tail⟩ := induction middle_sound
      refine ⟨front ++ back, after, ?_, head.effect.trans tail.effect,
        tail.prefixIndex.trans head.prefixIndex, head.unlisted.trans tail.unlisted, ?_, ?_, ?_⟩
      · simp only [swapOutSequences, head_eq, tail_eq, List.length_append]
      · intro other outside
        simp only [List.mem_cons, not_or] at outside
        rw [tail.others other outside.2, head.others other (by simpa using outside.1)]
      · intro other member state lookup table table_mem entry entry_mem resident
        by_cases later : other ∈ ids
        · exact (tail.refused other later state lookup table table_mem entry entry_mem
            resident).before head.effect
        · have first : other ∈ [id] := by
            rcases List.mem_cons.mp member with same | inside
            · exact List.mem_singleton.mpr same
            · exact absurd inside later
          rw [tail.others other later] at lookup
          exact (head.refused other first state lookup table table_mem entry entry_mem
            resident).after tail.effect
      · intro entry member slot swapped
        rcases tail.traced entry member slot swapped with middle_mem | moved
        · exact (head.traced entry middle_mem slot swapped).imp_right (List.mem_append_left _)
        · exact Or.inr (List.mem_append_right _ moved)

/-- What the preemption of a request does: `swapped` frames become free and as many slots are
filled, every block of the request that is still resident was refused, and everybody else finds
tables, records and bytes as before. -/
structure Reclaimed (before after : KVCacheManager) (requestId : RequestId) (swapped : ℕ) :
    Prop where
  free : after.allocator.stats.freeBlocks = before.allocator.stats.freeBlocks + swapped
  slots : ∃ added, added.length = swapped ∧
    after.allocator.residentKeys = added ++ before.allocator.residentKeys
  refused : ∀ id state, after.sequences.lookup id = some state →
    state.metadata.requestId = requestId → ∀ table ∈ state.tables, ∀ entry ∈ table.entries,
      entry.swapSlot = none → Refused before.allocator after.allocator entry.physicalId
  others : ∀ id state, before.sequences.lookup id = some state →
    state.metadata.requestId ≠ requestId → after.sequences.lookup id = some state
  records : after.prefixIndex = before.prefixIndex
  bytes : ∀ frame, after.allocator.frameBytes frame = before.allocator.frameBytes frame

theorem swapOutRequest_reclaims {manager : KVCacheManager} (sound : manager.Sound)
    (listed : manager.Listed) (requestId : RequestId) :
    Reclaimed manager (manager.swapOutRequest requestId).2 requestId
      (manager.swapOutRequest requestId).1 := by
  obtain ⟨moves, after, run_eq, evicted⟩ :=
    swapOutSequences_evicts sound (manager.sequencesFor requestId)
  have after_listed := listed.unlisted evicted.unlisted
  have lists : after.sequencesFor requestId = manager.sequencesFor requestId := by
    simp [sequencesFor, evicted.unlisted.index]
  simp only [swapOutRequest, run_eq, wrap32_of_lt evicted.effect.length_lt]
  refine ⟨?_, ⟨_, ?_, evicted.effect.residentKeys⟩, ?_, ?_, evicted.prefixIndex,
    evicted.effect.frameBytes⟩
  · rw [evicted.effect.sound.freeBlocks_eq, sound.pool.freeBlocks_eq, evicted.effect.freeList]
    simp [Nat.add_comm]
  · simp
  · intro id state lookup owner
    refine evicted.refused id ?_ state lookup
    rw [← lists, after_listed.members]
    exact ⟨state, lookup, owner⟩
  · intro id state lookup stranger
    rw [evicted.others id, lookup]
    rw [listed.members]
    rintro ⟨state', lookup', owner⟩
    rw [lookup] at lookup'
    exact stranger (Option.some.inj lookup' ▸ owner)

/-- No call changes the configuration of the pool. -/
theorem config_step {manager : KVCacheManager} (sound : manager.Sound) (op : CacheOp) :
    (manager.step op).allocator.config = manager.allocator.config := by
  cases op with
  | createSequence metadata => exact (sound.createSequence metadata).config
  | forkSequence parentId childMetadata => exact (sound.forkSequence parentId childMetadata).config
  | reserveTokens sequenceId tokenCount => exact (sound.reserveTokens sequenceId tokenCount).config
  | ensureTokenWritable sequenceId token layer =>
      exact (sound.ensureTokenWritable sequenceId token layer).config
  | writeToken sequenceId token layer stores =>
      exact (sound.writeToken sequenceId token layer stores).config
  | swapOutSequence sequenceId =>
      obtain ⟨moves, after, run_eq, evicted⟩ := swapOutSequence_evicts sound sequenceId
      simpa only [step, run_eq] using evicted.effect.config
  | swapOutRequest requestId =>
      obtain ⟨moves, after, run_eq, evicted⟩ :=
        swapOutSequences_evicts sound (manager.sequencesFor requestId)
      simpa only [step, swapOutRequest, run_eq] using evicted.effect.config
  | swapInSequence sequenceId => exact (sound.swapInSequence sequenceId).config
  | swapInRequest requestId =>
      refine (swapInRequest_induction (motive := Kept manager) ?_ (Kept.refl sound)
        requestId).config
      exact fun _ id kept => kept.trans (kept.sound.swapInSequence id)
  | publishPrefix sequenceId key => exact (sound.publishPrefix sequenceId key).config
  | attachPrefix sequenceId key => exact (sound.attachPrefix sequenceId key).config
  | releaseSequence sequenceId => exact (sound.releaseSequence sequenceId).config
  | releaseRequest requestId =>
      refine (releaseRequest_induction (motive := Kept manager) ?_ (Kept.refl sound)
        requestId).config
      exact fun _ id kept => kept.trans (kept.sound.releaseSequence id)

/-- The cache and the request index after any calls. -/
theorem sound_listed_overPool (config : AllocatorConfig) (slab : ℕ → UInt8)
    (swapSlots : Option ℕ) (ops : List CacheOp) :
    ((overPool config slab swapSlots).run ops).Sound ∧
      ((overPool config slab swapSlots).run ops).Listed := by
  have pool : (MemoryAllocator.create config slab (swapSlots.map .create)).Sound := by
    refine MemoryAllocator.sound_create config slab _ ?_
    intro installed equal
    obtain ⟨slots, -, rfl⟩ := Option.map_eq_some_iff.mp equal
    rfl
  exact ⟨sound_run (sound_create pool) ops, listed_run (listed_create _) ops⟩

end KVCacheManager

/-- In every reachable cache state a preemption reclaims exactly what it reports, and the report of
the scheduler is the change in free blocks. -/
theorem Scheduler.preemption_reclaims_exactly (config : AllocatorConfig) (slab : ℕ → UInt8)
    (swapSlots : Option ℕ) (ops : List CacheOp) (requestId : RequestId) (scheduler : Scheduler)
    (reason : String) :
    let cache := (KVCacheManager.overPool config slab swapSlots).run ops
    let before := { scheduler with cache }
    KVCacheManager.Reclaimed cache (cache.swapOutRequest requestId).2 requestId
        (cache.swapOutRequest requestId).1 ∧
      match before.preempt requestId reason with
      | (false, after) => after = before
      | (true, after) => ∃ info, after.preemptionInfo.lookup requestId = some info ∧
          after.freeBlocks = before.freeBlocks + info.swappedBlocks := by
  intro cache before
  obtain ⟨sound, listed⟩ := KVCacheManager.sound_listed_overPool config slab swapSlots ops
  have reclaimed := KVCacheManager.swapOutRequest_reclaims sound listed requestId
  refine ⟨reclaimed, ?_⟩
  cases found : findRequest before.active requestId with
  | none => simp only [Scheduler.preempt, found]
  | some request =>
      have named : request.requestId = requestId := by
        simpa using List.find?_some found
      simp only [Scheduler.preempt, found, named]
      exact ⟨_, AList.lookup_insert _, reclaimed.free⟩

end QwenVLPaged
