import QwenVLPaged.Preemption

/-!
# What a reservation takes

`reserve_tokens` takes the frames it needs off the free list, or leaves everything alone. The
frames go to the tables in order, each table growing by the same number of blocks.
-/

namespace QwenVLPaged

namespace MemoryAllocator

/-- The listed frames were taken off the free list, with one reference each. -/
structure Taken (before after : MemoryAllocator) (frames : List PhysicalBlockId) : Prop where
  free : before.freeList = frames ++ after.freeList
  config : after.config = before.config
  blocks : after.blocks = before.blocks
  backend : after.swapBackend = before.swapBackend
  infos : ∀ id, after.infos[id]? =
    if id ∈ frames then
      before.infos[id]?.map fun info => { info with state := .active, refCount := 1 }
    else before.infos[id]?

theorem Taken.refl (allocator : MemoryAllocator) : Taken allocator allocator [] :=
  ⟨rfl, rfl, rfl, rfl, by simp⟩

theorem Taken.trans {first second third : MemoryAllocator} {front back : List PhysicalBlockId}
    (left : Taken first second front) (right : Taken second third back) :
    Taken first third (front ++ back) := by
  refine ⟨by rw [left.free, right.free, List.append_assoc], right.config.trans left.config,
    right.blocks.trans left.blocks, right.backend.trans left.backend, fun id => ?_⟩
  rw [right.infos, left.infos]
  by_cases early : id ∈ front <;> by_cases late : id ∈ back <;>
    simp [early, late, Function.comp_def]

theorem taken_allocate {before after : MemoryAllocator} {id : PhysicalBlockId}
    (taken : before.allocate = (some id, after)) : Taken before after [id] := by
  unfold allocate at taken
  split at taken
  · simp at taken
  · rename_i head rest stack
    simp only [Prod.mk.injEq, Option.some.injEq] at taken
    obtain ⟨rfl, rfl⟩ := taken
    refine ⟨stack, rfl, rfl, rfl, fun other => ?_⟩
    rw [List.getElem?_modify]
    by_cases same : other = head
    · subst same
      simp
    · simp [same, Ne.symm same]

end MemoryAllocator

namespace KVCacheManager

open MemoryAllocator (Taken)

/-! ## The growing loops -/

theorem reserveBlocks_takes (sequenceId : SequenceId) (tokensPerBlock baseIndex : ℕ)
    (remaining offset : ℕ) (allocator : MemoryAllocator) (table : BlockTable) :
    ∃ after grown,
      reserveBlocks sequenceId tokensPerBlock baseIndex remaining offset allocator table =
        (decide (remaining ≤ allocator.freeList.length), after, grown) ∧
      Taken allocator after (allocator.freeList.take remaining) := by
  induction remaining generalizing offset allocator table with
  | zero => exact ⟨allocator, table, by simp [reserveBlocks], by simpa using Taken.refl allocator⟩
  | succ remaining induction =>
      rw [reserveBlocks]
      rcases taken_eq : allocator.allocate with ⟨_ | physical, middle⟩
      · obtain ⟨empty, rfl⟩ := MemoryAllocator.allocate_eq_none taken_eq
        exact ⟨middle, table, by simp [empty], by simpa [empty] using Taken.refl middle⟩
      · have first := MemoryAllocator.taken_allocate taken_eq
        have free : allocator.freeList = physical :: middle.freeList := first.free
        obtain ⟨after, grown, run_eq, rest⟩ := induction (offset + 1) middle
          (table.map ⟨sequenceId, wrap32 (baseIndex + offset), table.cacheKind,
            wrap32 (wrap32 (baseIndex + offset) * tokensPerBlock), tokensPerBlock⟩ physical true)
        refine ⟨after, grown, ?_, ?_⟩
        · simp only [run_eq, free, List.length_cons, Nat.add_le_add_iff_right]
        · rw [free, List.take_succ_cons]
          exact first.trans rest

theorem reserveTables_takes (sequenceId : SequenceId) (tokensPerBlock blocks : ℕ)
    (allocator : MemoryAllocator) (tables : List BlockTable) :
    ∃ after grown,
      reserveTables sequenceId tokensPerBlock blocks allocator tables =
        (decide (blocks * tables.length ≤ allocator.freeList.length), after, grown) ∧
      Taken allocator after (allocator.freeList.take (blocks * tables.length)) := by
  induction tables generalizing allocator with
  | nil => exact ⟨allocator, [], by simp [reserveTables], by simpa using Taken.refl allocator⟩
  | cons table tables induction =>
      obtain ⟨middle, grown, run_eq, head⟩ := reserveBlocks_takes sequenceId tokensPerBlock
        (wrap32 table.size) blocks 0 allocator table
      have total : blocks * (table :: tables).length = blocks + blocks * tables.length := by
        rw [List.length_cons, Nat.mul_succ, Nat.add_comm]
      rw [reserveTables, run_eq, total]
      by_cases fits : blocks ≤ allocator.freeList.length
      · obtain ⟨after, others, rest_eq, rest⟩ := induction middle
        have lengths := congrArg List.length head.free
        rw [List.length_append, List.length_take_of_le fits] at lengths
        refine ⟨after, grown :: others, ?_, ?_⟩
        · have same : (blocks * tables.length ≤ middle.freeList.length) =
              (blocks + blocks * tables.length ≤ allocator.freeList.length) := by
            apply propext
            omega
          simp only [fits, decide_true, rest_eq, same]
        · have split : allocator.freeList.take (blocks + blocks * tables.length) =
              allocator.freeList.take blocks ++ middle.freeList.take (blocks * tables.length) := by
            conv_lhs => rw [head.free]
            rw [List.take_append, List.length_take_of_le fits, List.take_take]
            simp
          rw [split]
          exact head.trans rest
      · refine ⟨middle, grown :: tables, ?_, ?_⟩
        · have short : ¬ blocks + blocks * tables.length ≤ allocator.freeList.length := by omega
          simp only [fits, short, decide_false]
        · rw [List.take_of_length_le (by omega)] at head ⊢
          exact head

/-! ## The whole call -/

/-- With enough frames the call runs the growing loops to their end. -/
theorem reserveTokens_grows {manager : KVCacheManager} (sound : manager.Sound)
    {sequenceId : SequenceId} {state : SequenceState} {tokenCount blocks : ℕ}
    (found : manager.sequences.lookup sequenceId = some state)
    (blocky : manager.tokensPerBlock ≠ 0)
    (blocks_eq : blocksNeeded tokenCount manager.tokensPerBlock = blocks)
    (enough : blocks * state.tables.length ≤ manager.allocator.freeList.length) :
    ∃ allocator tables,
      reserveTables sequenceId manager.tokensPerBlock blocks manager.allocator state.tables =
        (true, allocator, tables) ∧
      manager.reserveTokens sequenceId tokenCount =
        (true, { manager with
          allocator
          sequences := manager.sequences.insert sequenceId { state with tables } }) := by
  obtain ⟨allocator, tables, run_eq, -⟩ := reserveTables_takes sequenceId manager.tokensPerBlock
    blocks manager.allocator state.tables
  rw [decide_eq_true enough] at run_eq
  have small : blocks * state.tables.length < 2 ^ 32 :=
    (enough.trans sound.pool.free_length_le).trans_lt manager.allocator.config.maxBlocks_lt
  have accepted : manager.allocator.canAllocate
      (wrap32 (blocks * state.tables.length)) = true := by
    rw [wrap32_of_lt small]
    exact decide_eq_true enough
  refine ⟨allocator, tables, run_eq, ?_⟩
  simp only [reserveTokens, found, if_neg blocky, blocks_eq, accepted, Bool.not_true,
    Bool.false_eq_true, if_false, run_eq]

/-- A call that reports success had enough frames. -/
theorem reserveTokens_enough {manager : KVCacheManager} {sequenceId : SequenceId}
    {state : SequenceState} {tokenCount : ℕ}
    (found : manager.sequences.lookup sequenceId = some state)
    (success : (manager.reserveTokens sequenceId tokenCount).1 = true) :
    manager.tokensPerBlock ≠ 0 ∧
      blocksNeeded tokenCount manager.tokensPerBlock * state.tables.length ≤
        manager.allocator.freeList.length := by
  obtain ⟨allocator, tables, run_eq, -⟩ := reserveTables_takes sequenceId manager.tokensPerBlock
    (blocksNeeded tokenCount manager.tokensPerBlock) manager.allocator state.tables
  simp only [reserveTokens, found, run_eq] at success
  split at success
  · simp at success
  · rename_i blocky
    split at success
    · simp at success
    · exact ⟨blocky, of_decide_eq_true success⟩

/-- A refused reservation changes nothing while the frame count fits 32 bits. -/
theorem reserveTokens_refused {manager : KVCacheManager} {sequenceId : SequenceId}
    {state : SequenceState} {tokenCount : ℕ}
    (found : manager.sequences.lookup sequenceId = some state)
    (small : blocksNeeded tokenCount manager.tokensPerBlock * state.tables.length < 2 ^ 32)
    (refused : (manager.reserveTokens sequenceId tokenCount).1 = false) :
    (manager.reserveTokens sequenceId tokenCount).2 = manager := by
  obtain ⟨allocator, tables, run_eq, -⟩ := reserveTables_takes sequenceId manager.tokensPerBlock
    (blocksNeeded tokenCount manager.tokensPerBlock) manager.allocator state.tables
  simp only [reserveTokens, found, run_eq] at refused ⊢
  split
  · rfl
  · rename_i blocky
    rw [if_neg blocky] at refused
    split
    · rfl
    · rename_i accepted
      rw [if_neg accepted] at refused
      simp only [wrap32_of_lt small, MemoryAllocator.canAllocate] at accepted
      simp_all

/-- Blocks that hold the tokens, while the sum fits 32 bits. -/
theorem blocksNeeded_of_lt {tokenCount tokensPerBlock : ℕ}
    (small : tokenCount + tokensPerBlock - 1 < 2 ^ 32) :
    blocksNeeded tokenCount tokensPerBlock = ceilDiv tokenCount tokensPerBlock := by
  rw [blocksNeeded, ceilDiv, wrap32_of_lt small]

/-- The state after a reservation: every table keeps its entries and gains `blocks` entries at the
next indices, mapped to distinct frames that were free and have one reference now; nothing else
changes. -/
structure ExactlyReserved (before after : KVCacheManager) (sequenceId : SequenceId)
    (state : SequenceState) (blocks : ℕ) (added : List (List BlockTableEntry)) : Prop where
  sequences : after.sequences = before.sequences.insert sequenceId
    { state with tables := extendAll state.tables added }
  tables : added.length = state.tables.length
  each : ∀ (layer : ℕ) (table : BlockTable) (entries : List BlockTableEntry),
    state.tables[layer]? = some table → added[layer]? = some entries →
      entries.length = blocks ∧ ∀ (position : ℕ) (entry : BlockTableEntry),
        entries[position]? = some entry → entry.logical.index = table.size + position ∧
          entry.swapSlot = none
  frames : (added.flatten.map (·.physicalId)).length = blocks * state.tables.length
  distinct : (added.flatten.map (·.physicalId)).Nodup
  taken : MemoryAllocator.Taken before.allocator after.allocator
    (added.flatten.map (·.physicalId))
  counted : ∀ frame ∈ added.flatten.map (·.physicalId), after.allocator.refCount frame = 1
  index : after.sequencesByRequest = before.sequencesByRequest
  records : after.prefixIndex = before.prefixIndex

theorem refCount_of_taken {before after : MemoryAllocator} {frames : List PhysicalBlockId}
    (sound : before.Sound) (taken : MemoryAllocator.Taken before after frames)
    {frame : PhysicalBlockId} (member : frame ∈ frames) : after.refCount frame = 1 := by
  have free : frame ∈ before.freeList := by
    rw [taken.free]
    exact List.mem_append_left _ member
  obtain ⟨info, found⟩ := sound.info_of_lt (sound.unreferenced frame free).1
  rw [MemoryAllocator.refCount, taken.infos, if_pos member, found]
  rfl

theorem length_flatten_of_full {added : List (List BlockTableEntry)} {blocks : ℕ}
    (full : ∀ entries ∈ added, entries.length = blocks) :
    added.flatten.length = blocks * added.length := by
  rw [List.length_flatten, List.map_congr_left full, List.map_const', List.sum_replicate,
    smul_eq_mul, Nat.mul_comm]

/-- A reservation for which the frames and the logical indices suffice. -/
theorem exactlyReserved_of_enough {manager : KVCacheManager} (sound : manager.Sound)
    {sequenceId : SequenceId} {state : SequenceState} {blocks : ℕ}
    (found : manager.sequences.lookup sequenceId = some state)
    (enough : blocks * state.tables.length ≤ manager.allocator.freeList.length)
    (room : ∀ table ∈ state.tables, table.size + blocks ≤ 2 ^ 32) :
    ∃ allocator added,
      reserveTables sequenceId manager.tokensPerBlock blocks manager.allocator state.tables =
        (true, allocator, extendAll state.tables added) ∧
      ExactlyReserved manager { manager with
          allocator
          sequences := manager.sequences.insert sequenceId
            { state with tables := extendAll state.tables added } }
        sequenceId state blocks added := by
  obtain ⟨added, allocator, complete, run_eq, reserved⟩ := reserveTables_spec sequenceId
    manager.tokensPerBlock blocks manager.allocator state.tables
    (fun table member => (sound.regular sequenceId state found table member).indexed)
    (fun table member => (Nat.add_le_add_left (min_le_left _ _) _).trans (room table member))
  obtain ⟨_, _, again, taken⟩ := reserveTables_takes sequenceId manager.tokensPerBlock blocks
    manager.allocator state.tables
  obtain rfl := reserved.enough enough
  obtain ⟨rfl, -⟩ := Prod.mk.inj (Prod.mk.inj (again.symm.trans run_eq)).2
  have frames : manager.allocator.freeList.take (blocks * state.tables.length) =
      added.flatten.map (·.physicalId) :=
    List.append_cancel_right (taken.free.symm.trans reserved.reserved.free)
  rw [frames] at taken
  have full := reserved.full rfl
  refine ⟨_, added, run_eq, rfl, reserved.lengths, ?_, ?_, ?_, taken,
    fun frame member => refCount_of_taken sound.pool taken member, rfl, rfl⟩
  · intro layer table entries table_eq entries_eq
    refine ⟨full entries (List.mem_of_getElem? entries_eq), fun position entry entry_eq => ?_⟩
    have grown : table.extend entries ∈ extendAll state.tables added := by
      refine List.mem_of_getElem? (i := layer) ?_
      simp [extendAll, List.getElem?_zipWith, table_eq, entries_eq]
    constructor
    · refine reserved.indexed _ grown (table.size + position) entry ?_
      rw [BlockTable.extend, BlockTable.size, List.getElem?_append_right (Nat.le_add_right _ _),
        Nat.add_sub_cancel_left]
      exact entry_eq
    · exact reserved.reserved.resident entry (List.mem_flatten.mpr
        ⟨entries, List.mem_of_getElem? entries_eq, List.mem_of_getElem? entry_eq⟩)
  · rw [List.length_map, length_flatten_of_full full, reserved.lengths]
  · have distinct := sound.pool.free_nodup
    rw [taken.free] at distinct
    exact (List.nodup_append.mp distinct).1

/-- In every reachable state a reservation in the 32-bit range succeeds exactly if the frames
suffice, is exact as long as the logical indices last, and otherwise changes nothing. -/
theorem reserve_tokens_exact (config : AllocatorConfig) (slab : ℕ → UInt8)
    (swapSlots : Option ℕ) (ops : List CacheOp) (sequenceId : SequenceId) (tokenCount : ℕ)
    (state : SequenceState) :
    let manager := (overPool config slab swapSlots).run ops
    let blocks := ceilDiv tokenCount manager.tokensPerBlock
    let result := manager.reserveTokens sequenceId tokenCount
    manager.sequences.lookup sequenceId = some state → manager.tokensPerBlock ≠ 0 →
    tokenCount + manager.tokensPerBlock - 1 < 2 ^ 32 → blocks * state.tables.length < 2 ^ 32 →
      (result.1 = true ↔ blocks * state.tables.length ≤ manager.allocator.stats.freeBlocks) ∧
      (result.1 = true → (∀ table ∈ state.tables, table.size + blocks ≤ 2 ^ 32) →
        ∃ added, ExactlyReserved manager result.2 sequenceId state blocks added) ∧
      (result.1 = false → result.2 = manager) := by
  intro manager blocks result found blocky small product
  have sound : manager.Sound := (sound_listed_overPool config slab swapSlots ops).1
  have blocks_eq : blocksNeeded tokenCount manager.tokensPerBlock = blocks :=
    blocksNeeded_of_lt small
  rw [sound.pool.freeBlocks_eq]
  by_cases enough : blocks * state.tables.length ≤ manager.allocator.freeList.length
  · obtain ⟨allocator, tables, run_eq, result_eq⟩ :=
      reserveTokens_grows sound found blocky blocks_eq enough
    have success : result = (true, _) := result_eq
    refine ⟨by simp [success, enough], fun _ room => ?_, by simp [success]⟩
    obtain ⟨_, added, again, exact⟩ := exactlyReserved_of_enough sound found enough room
    obtain ⟨rfl, rfl⟩ := Prod.mk.inj (Prod.mk.inj (run_eq.symm.trans again)).2
    rw [success]
    exact ⟨added, exact⟩
  · have failure : result = (false, manager) := by
      simp only [result, reserveTokens, found, if_neg blocky, blocks_eq, wrap32_of_lt product,
        MemoryAllocator.canAllocate, enough, decide_false, Bool.not_false, if_true]
    exact ⟨by simp [failure, enough], by simp [failure], fun _ => by rw [failure]⟩

/-- Eight frames of two tokens, one for each of two layers. -/
def pairedLayersConfig : AllocatorConfig := ⟨⟨2, 2, 1, 1, 1, 1⟩, 1, 8, eight_lt_word⟩

/-- Three more tokens behind three tokens, in two tables. -/
theorem reserve_tokens_exact_layered :
    let manager := (overPool pairedLayersConfig (fun _ => 0) none).run
      [.createSequence ⟨1, 1⟩, .reserveTokens 1 3]
    ∃ state added, manager.sequences.lookup 1 = some state ∧
      ExactlyReserved manager (manager.reserveTokens 1 3).2 1 state 2 added := by
  intro manager
  have sizes : (manager.sequences.lookup 1).map (fun state => state.tables.map (·.size)) =
      some [2, 2] := by decide +kernel
  obtain ⟨state, found, tables⟩ := Option.map_eq_some_iff.mp sizes
  have width : state.tables.length = 2 := by simpa using congrArg List.length tables
  have block_size : manager.tokensPerBlock = 2 := by decide +kernel
  have success : (manager.reserveTokens 1 3).1 = true := by decide +kernel
  obtain ⟨-, exact, -⟩ := reserve_tokens_exact pairedLayersConfig (fun _ => 0) none
    [.createSequence ⟨1, 1⟩, .reserveTokens 1 3] 1 3 state found (by decide +kernel)
    (by decide +kernel) (by
      rw [width]
      decide +kernel)
  have blocks : ceilDiv 3 manager.tokensPerBlock = 2 := by rw [block_size]; rfl
  obtain ⟨added, reserved⟩ := exact success fun table member => by
    have size : table.size ∈ [2, 2] := tables ▸ List.mem_map_of_mem member
    have small : table.size = 2 := by simpa using size
    rw [small, show ceilDiv 3 _ = 2 from blocks]
    norm_num
  exact ⟨state, added, found, blocks ▸ reserved⟩

/-- The entry mapped past the last index replaces an old one, so the table does not grow. -/
theorem not_exactlyReserved_evicted {count : ℕ} (wraps : wrap32 count = 0) (positive : 0 < count)
    (added : List (List BlockTableEntry)) :
    ¬ ExactlyReserved (evicted count) ((evicted count).reserveTokens 1 1).2 1
      ⟨⟨1, 1⟩, [evictedTable count], "", 0⟩ 1 added := by
  intro exact
  have stepped := step_reserveTokens_evicted count
  rw [remapped_evictedTable wraps positive, step] at stepped
  have length : (evictedTable count).entries.length = count := by simp [evictedTable]
  obtain ⟨entries, rfl⟩ := List.length_eq_one_iff.mp exact.tables
  have one := (exact.each 0 (evictedTable count) entries rfl rfl).1
  have tables := congrArg (fun sequences : AList fun _ : SequenceId => SequenceState =>
    sequences.lookup 1) exact.sequences
  simp only [stepped, mapped, lookup_singleSequence, AList.lookup_insert, Option.some.injEq,
    SequenceState.mk.injEq, extendAll_cons, extendAll_nil, List.cons.injEq, BlockTable.extend,
    BlockTable.mk.injEq] at tables
  have sizes := congrArg List.length tables.2.1.1.2.2
  simp only [List.length_cons, List.length_tail, List.length_append, length, one] at sizes
  omega

theorem reserveTokens_succeeds_evicted (count : ℕ) :
    ((evicted count).reserveTokens 1 1).1 = true := by
  have block_size : (evicted count).tokensPerBlock = 1 := rfl
  obtain ⟨after, tables, run_eq, -⟩ := reserveTables_takes 1 1 1 (evicted count).allocator
    [evictedTable count]
  have found : (evicted count).sequences.lookup 1 =
      some ⟨⟨1, 1⟩, [evictedTable count], "", 0⟩ := lookup_singleSequence _
  have one_block : blocksNeeded 1 1 = 1 := by decide
  have available : (evicted count).allocator.canAllocate (wrap32 (1 * 1)) = true := rfl
  have enough : decide (1 * [evictedTable count].length ≤
      (evicted count).allocator.freeList.length) = true := rfl
  rw [enough] at run_eq
  simp only [reserveTokens, found, block_size, one_block, List.length_singleton, available, run_eq,
    one_ne_zero, Bool.not_true, Bool.false_eq_true, if_false]

theorem inexact_evicted {count : ℕ} (wraps : wrap32 count = 0) (positive : 0 < count) :
    ∃ state, (evicted count).sequences.lookup 1 = some state ∧ (evicted count).tokensPerBlock = 1 ∧
      state.tables.length = 1 ∧ ((evicted count).reserveTokens 1 1).1 = true ∧
      ∀ added, ¬ ExactlyReserved (evicted count) ((evicted count).reserveTokens 1 1).2 1 state 1
        added :=
  ⟨⟨⟨1, 1⟩, [evictedTable count], "", 0⟩, lookup_singleSequence _, rfl, rfl,
    reserveTokens_succeeds_evicted count, not_exactlyReserved_evicted wraps positive⟩

/-- Past the last logical index a reservation succeeds without growing the table. -/
theorem reserve_tokens_inexact_past_last_index :
    ∃ ops, let manager := (overPool singleConfig (fun _ => 0) (some (2 ^ 32))).run ops
      ∃ state, manager.sequences.lookup 1 = some state ∧ manager.tokensPerBlock = 1 ∧
        state.tables.length = 1 ∧ (manager.reserveTokens 1 1).1 = true ∧
        ∀ added, ¬ ExactlyReserved manager (manager.reserveTokens 1 1).2 1 state 1 added := by
  have run_eq : (overPool singleConfig (fun _ => 0) (some (2 ^ 32))).run
      (.createSequence ⟨1, 1⟩ :: rounds (2 ^ 32)) = evicted (2 ^ 32) := by
    have rounds_eq := (run_rounds (2 ^ 32) 0 (by omega)).1
    rw [Nat.zero_add] at rounds_eq
    have start := step_createSequence_single
    rw [run, Execution.run_cons]
    exact (congrArg (fun manager => Execution.run step manager (rounds (2 ^ 32))) start).trans
      rounds_eq
  refine ⟨.createSequence ⟨1, 1⟩ :: rounds (2 ^ 32), ?_⟩
  simp only [run_eq]
  exact inexact_evicted (by simp [wrap32]) (by norm_num)

end KVCacheManager
end QwenVLPaged
