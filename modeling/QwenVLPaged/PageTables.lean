import QwenVLPaged.HeldFrames
import QwenVLPaged.TableWidths

/-!
# Well-formed page tables

As long as the sums of block counts fit 32 bits, all the tables of a sequence have the same
length, their entries describe the blocks `0, 1, 2, …` of that sequence, and its resident blocks
lie in distinct frames. The reference counts need not fit: a frame whose count started over is
never handed out again.
-/

namespace QwenVLPaged

namespace KVCacheManager

open MemoryAllocator (Holds)

/-- Frames of the resident blocks. -/
def residentFrames (entries : List BlockTableEntry) : List PhysicalBlockId :=
  (entries.filter fun entry => entry.swapSlot.isNone).map (·.physicalId)

/-- Every block is described as the manager describes it. -/
def Described (id : SequenceId) (tokensPerBlock : ℕ) (entries : List BlockTableEntry) : Prop :=
  ∀ entry ∈ entries, ∃ index kind, entry.logical = logicalAt id kind tokensPerBlock index

end KVCacheManager

/-- Page tables of one sequence. -/
structure SequenceState.Paged (config : AllocatorConfig) (id : SequenceId)
    (state : SequenceState) : Prop where
  owner : state.metadata.sequenceId = id
  level : ∃ size, ∀ table ∈ state.tables, table.size = size
  described : KVCacheManager.Described id config.tokensPerBlock (state.tables.flatMap (·.entries))
  distinct : (KVCacheManager.residentFrames (state.tables.flatMap (·.entries))).Nodup

/-- If the first table is empty then all are. -/
theorem SequenceState.Paged.all_empty {config : AllocatorConfig} {id : SequenceId}
    {state : SequenceState} (paged : state.Paged config id) (text : state.textTable.entries = []) :
    ∀ table ∈ state.tables, table.entries = [] := by
  obtain ⟨size, level⟩ := paged.level
  intro table member
  have first := level _ (SequenceState.textTable_mem_of_pos (List.length_pos_of_mem member))
  rw [BlockTable.size, text] at first
  exact List.length_eq_zero_iff.mp ((level table member).trans first.symm)

namespace KVCacheManager

/-! ## Distinct frames -/

@[simp]
theorem residentFrames_append (front back : List BlockTableEntry) :
    residentFrames (front ++ back) = residentFrames front ++ residentFrames back := by
  simp [residentFrames]

theorem residentFrames_resident {entry : BlockTableEntry} (resident : entry.swapSlot = none)
    (entries : List BlockTableEntry) :
    residentFrames (entry :: entries) = entry.physicalId :: residentFrames entries := by
  simp [residentFrames, resident]

theorem residentFrames_swapped {entry : BlockTableEntry} {slot : SwapSlotId}
    (swapped : entry.swapSlot = some slot) (entries : List BlockTableEntry) :
    residentFrames (entry :: entries) = residentFrames entries := by
  simp [residentFrames, swapped]

theorem residentFrames_perm {entries entries' : List BlockTableEntry}
    (same : entries.Perm entries') : (residentFrames entries).Perm (residentFrames entries') :=
  (same.filter _).map _

/-- A free frame holds no resident block. -/
theorem free_not_resident {allocator : MemoryAllocator} {entries : List BlockTableEntry}
    {rest : List Holding} (holds : allocator.Holds (holdingsOf false entries ++ rest))
    {id : PhysicalBlockId} (free : id ∈ allocator.freeList) : id ∉ residentFrames entries := by
  intro member
  obtain ⟨entry, inside, rfl⟩ := List.mem_map.mp member
  exact holds.used (holdingOf false entry)
    (List.mem_append_left _ (List.mem_map_of_mem inside)) free

/-- The pool covers the blocks of a sequence, which lie in distinct frames, and everything
else. -/
structure Spread (rest : List Holding) (allocator : MemoryAllocator)
    (entries : List BlockTableEntry) : Prop where
  holds : allocator.Holds (holdingsOf false entries ++ rest)
  distinct : (residentFrames entries).Nodup

theorem evictionKept_spread (rest : List Holding) : EvictionKept (Spread rest) := by
  intro allocator after front entry back slot spread resident evicted
  refine ⟨evictionKept_holds false rest allocator after front entry back slot spread.holds resident
    evicted, ?_⟩
  have distinct := spread.distinct
  rw [residentFrames_append, residentFrames_resident resident] at distinct
  rw [residentFrames_append, residentFrames_swapped rfl]
  exact (List.nodup_cons.mp (List.nodup_middle.mp distinct)).2

/-- A resident block in a frame that was free. -/
theorem nodup_with_free {allocator : MemoryAllocator} {front back : List BlockTableEntry}
    {rest : List Holding} (holds : allocator.Holds (holdingsOf false (front ++ back) ++ rest))
    (distinct : (residentFrames (front ++ back)).Nodup) {entry : BlockTableEntry}
    (resident : entry.swapSlot = none) (free : entry.physicalId ∈ allocator.freeList) :
    (residentFrames (front ++ entry :: back)).Nodup := by
  have fresh := free_not_resident holds free
  rw [residentFrames_append] at fresh distinct
  rw [residentFrames_append, residentFrames_resident resident]
  exact List.nodup_middle.mpr (List.nodup_cons.mpr ⟨fresh, distinct⟩)

theorem restorationKept_spread (rest : List Holding) : RestorationKept (Spread rest) := by
  refine ⟨?_, fun allocator after entries slot spread failed =>
    ⟨spread.holds.swapIn_none failed, spread.distinct⟩⟩
  intro allocator after front entry back slot id spread swapped restored
  refine ⟨(restorationKept_holds false rest).moved allocator after front entry back slot id
    spread.holds swapped restored, ?_⟩
  obtain ⟨-, effect⟩ := spread.holds.sound.swapIn restored
  have same : holdingsOf false (front ++ entry :: back) = holdingsOf false (front ++ back) := by
    rw [holdingsOf_append, holdingsOf_swapped swapped, holdingsOf_append]
  have frames : residentFrames (front ++ entry :: back) = residentFrames (front ++ back) := by
    rw [residentFrames_append, residentFrames_swapped swapped, residentFrames_append]
  refine nodup_with_free (same ▸ spread.holds) (frames ▸ spread.distinct) rfl ?_
  rw [effect.was_free]
  exact List.mem_cons_self

theorem mappingKept_spread (rest : List Holding) : MappingKept Allocates true (Spread rest) := by
  intro allocator after front replaced back logical id spread taken
  refine ⟨mappingKept_allocates false rest allocator after front replaced back logical id
    spread.holds taken, ?_⟩
  obtain ⟨-, effect⟩ := spread.holds.sound.allocate taken
  have fewer : (front ++ back).Sublist (front ++ replaced ++ back) := by
    rw [List.append_assoc]
    exact (List.sublist_append_right _ _).append_left _
  have kept : allocator.Holds (holdingsOf false (front ++ back) ++ rest) :=
    spread.holds.subperm (((fewer.filter _).map _).append_right _).subperm
  refine nodup_with_free kept (((fewer.filter _).map _).nodup spread.distinct) rfl ?_
  rw [effect.was_free]
  exact List.mem_cons_self

/-! ## Described blocks -/

theorem described_around {id : SequenceId} {tokensPerBlock : ℕ} {front back : List BlockTableEntry}
    {old new : BlockTableEntry} (described : Described id tokensPerBlock (front ++ old :: back))
    (same : new.logical = old.logical) : Described id tokensPerBlock (front ++ new :: back) := by
  intro entry member
  simp only [Described, List.mem_append, List.mem_cons] at member described
  rcases member with early | rfl | late
  · exact described entry (Or.inl early)
  · rw [same]
    exact described old (Or.inr (Or.inl rfl))
  · exact described entry (Or.inr (Or.inr late))

theorem evictionKept_described (id : SequenceId) (tokensPerBlock : ℕ) :
    EvictionKept fun _ entries => Described id tokensPerBlock entries :=
  fun _ _ _ _ _ _ described _ _ => described_around described rfl

theorem restorationKept_described (id : SequenceId) (tokensPerBlock : ℕ) :
    RestorationKept fun _ entries => Described id tokensPerBlock entries :=
  ⟨fun _ _ _ _ _ _ _ described _ _ => described_around described rfl,
    fun _ _ _ _ described _ => described⟩

theorem Described.perm {id : SequenceId} {tokensPerBlock : ℕ} {entries entries' : List BlockTableEntry}
    (described : Described id tokensPerBlock entries) (same : entries'.Perm entries) :
    Described id tokensPerBlock entries' :=
  fun entry member => described entry (same.mem_iff.mp member)

/-! ## The invariant -/

/-- The sums of block counts in the call fit 32 bits: the frames that a reservation asks for, and
the index behind its last block. -/
def SumsFit (manager : KVCacheManager) : CacheOp → Prop
  | .reserveTokens sequenceId tokenCount =>
      ∀ state ∈ manager.sequences.lookup sequenceId,
        blocksNeeded tokenCount manager.tokensPerBlock * state.tables.length < 2 ^ 32 ∧
        ∀ table ∈ state.tables,
          table.size + blocksNeeded tokenCount manager.tokensPerBlock ≤ 2 ^ 32
  | _ => True

instance decidableSumsFit (manager : KVCacheManager) (op : CacheOp) :
    Decidable (manager.SumsFit op) :=
  match op with
  | .reserveTokens sequenceId _ =>
      inferInstanceAs (Decidable (∀ state ∈ manager.sequences.lookup sequenceId, _))
  | .createSequence _ | .forkSequence _ _ | .ensureTokenWritable _ _ _ | .writeToken _ _ _ _
  | .swapOutSequence _ | .swapOutRequest _ | .swapInSequence _ | .swapInRequest _
  | .publishPrefix _ _ | .attachPrefix _ _ | .releaseSequence _ | .releaseRequest _ =>
      inferInstanceAs (Decidable True)

/-- Every sequence has well-formed page tables. -/
def AllPaged (config : AllocatorConfig) (manager : KVCacheManager) : Prop :=
  ∀ id state, manager.sequences.lookup id = some state → state.Paged config id

/-- Every record pins distinct frames, not more than a sequence can map. -/
def SlimRecords (config : AllocatorConfig) (manager : KVCacheManager) : Prop :=
  ∀ key records, manager.prefixIndex.lookup key = some records → ∀ record ∈ records,
    record.physicalIds.Nodup ∧ record.physicalIds.length ≤ config.tableCount * 2 ^ 32

/-- What the page tables rest on. -/
structure WellPaged (config : AllocatorConfig) (manager : KVCacheManager) : Prop where
  sound : manager.Sound
  config_eq : manager.allocator.config = config
  covered : manager.Covered false
  wide : manager.Wide config.tableCount
  paged : manager.AllPaged config
  slim : manager.SlimRecords config

theorem AllPaged.insert {config : AllocatorConfig} {before after : KVCacheManager}
    (paged : before.AllPaged config) {id : SequenceId} {state : SequenceState}
    (sequences : after.sequences = before.sequences.insert id state)
    (own : state.Paged config id) : after.AllPaged config := by
  intro other found lookup
  rw [AList.lookup_inserted sequences] at lookup
  split at lookup
  · rename_i same
    exact Option.some.inj lookup ▸ same ▸ own
  · exact paged other found lookup

theorem level_of_sizes {tables tables' : List BlockTable}
    (level : ∃ size, ∀ table ∈ tables, table.size = size)
    (sizes : tables'.map BlockTable.size = tables.map BlockTable.size) :
    ∃ size, ∀ table ∈ tables', table.size = size := by
  obtain ⟨size, all⟩ := level
  refine ⟨size, fun table member => ?_⟩
  have inside := List.mem_map_of_mem (f := BlockTable.size) member
  rw [sizes] at inside
  obtain ⟨source, source_mem, same⟩ := List.mem_map.mp inside
  rw [← same, all source source_mem]

/-! ## Every call -/

theorem AllPaged.createSequence {config : AllocatorConfig} {manager : KVCacheManager}
    (paged : manager.AllPaged config) (metadata : SequenceMetadata) :
    (manager.createSequence metadata).2.AllPaged config := by
  unfold KVCacheManager.createSequence
  split
  · exact paged
  · have empty : (List.replicate manager.tableCount
        (BlockTable.create metadata.sequenceId)).flatMap (·.entries) = [] := by
      simp [List.flatMap_replicate, BlockTable.create]
    refine paged.insert rfl ⟨rfl, ⟨0, ?_⟩, ?_, ?_⟩
    · intro table member
      rw [(List.mem_replicate.mp member).2]
      rfl
    · rw [empty]
      simp [Described]
    · rw [empty]
      simp [residentFrames]

theorem AllPaged.forkSequence {config : AllocatorConfig} {manager : KVCacheManager}
    (paged : manager.AllPaged config) (parentId : SequenceId) (childMetadata : SequenceMetadata) :
    (manager.forkSequence parentId childMetadata).2.AllPaged config := by
  unfold KVCacheManager.forkSequence
  cases found : manager.sequences.lookup parentId with
  | none => exact paged
  | some parent =>
      simp only
      split
      · exact paged
      · split
        · exact paged
        · have own := paged parentId parent found
          refine paged.insert rfl ⟨rfl, ?_, ?_, ?_⟩
          · refine level_of_sizes own.level ?_
            simp [BlockTable.size, BlockTable.fork, Function.comp_def]
          · intro entry member
            rw [entries_fork] at member
            obtain ⟨source, source_mem, rfl⟩ := List.mem_map.mp member
            obtain ⟨index, kind, logical⟩ := own.described source source_mem
            exact ⟨index, kind, by simp [logical, logicalAt]⟩
          · have frames : residentFrames ((parent.tables.map fun table =>
                table.fork childMetadata.sequenceId).flatMap (·.entries)) =
                residentFrames (parent.tables.flatMap (·.entries)) := by
              rw [entries_fork, residentFrames, residentFrames, List.filter_map, List.map_map]
              rfl
            rw [frames]
            exact own.distinct

theorem WellPaged.spread {config : AllocatorConfig} {manager : KVCacheManager}
    (well : manager.WellPaged config) {id : SequenceId} {state : SequenceState}
    (found : manager.sequences.lookup id = some state) :
    Spread (manager.holdingsWithout false id) manager.allocator
      (state.tables.flatMap (·.entries)) :=
  ⟨well.covered.split found, (well.paged id state found).distinct⟩

theorem WellPaged.indexed {config : AllocatorConfig} {manager : KVCacheManager}
    (well : manager.WellPaged config) {id : SequenceId} {state : SequenceState}
    (found : manager.sequences.lookup id = some state) : ∀ table ∈ state.tables, table.Indexed :=
  fun table member => (well.sound.regular id state found table member).indexed

theorem WellPaged.swapOutSequence {config : AllocatorConfig} {manager : KVCacheManager}
    (well : manager.WellPaged config) (sequenceId : SequenceId) :
    (manager.swapOutSequence sequenceId).2.AllPaged config := by
  unfold KVCacheManager.swapOutSequence
  cases found : manager.sequences.lookup sequenceId with
  | none => exact well.paged
  | some state =>
      have own := well.paged sequenceId state found
      have indexed := well.indexed found
      exact well.paged.insert rfl ⟨own.owner,
        level_of_sizes own.level (sizes_swapOutTables manager.allocator state.tables),
        swapOutTables_rule (evictionKept_described sequenceId _) indexed own.described,
        (swapOutTables_rule (evictionKept_spread _) indexed (well.spread found)).distinct⟩

theorem WellPaged.swapInSequence {config : AllocatorConfig} {manager : KVCacheManager}
    (well : manager.WellPaged config) (sequenceId : SequenceId) :
    (manager.swapInSequence sequenceId).2.AllPaged config := by
  unfold KVCacheManager.swapInSequence
  cases found : manager.sequences.lookup sequenceId with
  | none => exact well.paged
  | some state =>
      have own := well.paged sequenceId state found
      have indexed := well.indexed found
      simp only
      split
      · exact well.paged
      · split
        · exact well.paged
        · exact well.paged.insert rfl ⟨own.owner,
            level_of_sizes own.level (sizes_swapInTables manager.allocator state.tables),
            swapInTables_rule (restorationKept_described sequenceId _) indexed own.described,
            (swapInTables_rule (restorationKept_spread _) indexed (well.spread found)).distinct⟩

theorem WellPaged.ensureTokenWritable {config : AllocatorConfig} {manager : KVCacheManager}
    (well : manager.WellPaged config) (sequenceId : SequenceId) (token layer : ℕ) :
    (manager.ensureTokenWritable sequenceId token layer).2.AllPaged config := by
  rcases ensureTokenWritable_effect well.sound sequenceId token layer with
    same | ⟨state, table, index, entry, frame, -, made⟩
  · rw [same]
    exact well.paged
  · have own := well.paged sequenceId state made.found
    obtain ⟨front, back, old, new⟩ := entries_privatized made.table_eq made.entry_eq frame
    have spread := well.spread made.found
    rw [old] at spread
    refine well.paged.insert made.sequences ⟨own.owner, ?_, ?_, ?_⟩
    · refine level_of_sizes own.level (map_size_set made.table_eq ?_)
      simp [BlockTable.size]
    · rw [new]
      have described := own.described
      rw [old] at described
      exact described_around described rfl
    · rw [new]
      rcases made.pool with ⟨-, rfl, -⟩ | ⟨taken, taken_eq, -⟩
      · have distinct := spread.distinct
        have still : ({ entry with writable := true } : BlockTableEntry).swapSlot = none :=
          made.resident
        rw [residentFrames_append, residentFrames_resident made.resident] at distinct
        rw [residentFrames_append, residentFrames_resident still]
        exact distinct
      · obtain ⟨-, effect⟩ := well.sound.pool.allocate taken_eq
        have fewer : (front ++ back).Sublist (front ++ entry :: back) :=
          (List.sublist_cons_self _ _).append_left _
        have kept : manager.allocator.Holds (holdingsOf false (front ++ back) ++
            manager.holdingsWithout false sequenceId) :=
          spread.holds.subperm (((fewer.filter _).map _).append_right _).subperm
        refine nodup_with_free kept (((fewer.filter _).map _).nodup spread.distinct)
          made.resident ?_
        rw [effect.was_free]
        exact List.mem_cons_self

theorem WellPaged.tokensPerBlock_eq {config : AllocatorConfig} {manager : KVCacheManager}
    (well : manager.WellPaged config) : manager.tokensPerBlock = config.tokensPerBlock := by
  rw [KVCacheManager.tokensPerBlock_eq well.sound.pool, well.config_eq]

theorem WellPaged.reserveTokens {config : AllocatorConfig} {manager : KVCacheManager}
    (well : manager.WellPaged config) (sequenceId : SequenceId) (tokenCount : ℕ)
    (fits : manager.SumsFit (.reserveTokens sequenceId tokenCount)) :
    (manager.reserveTokens sequenceId tokenCount).2.AllPaged config := by
  unfold KVCacheManager.reserveTokens
  cases found : manager.sequences.lookup sequenceId with
  | none => exact well.paged
  | some state =>
      obtain ⟨frames_fit, indices_fit⟩ := fits state found
      have own := well.paged sequenceId state found
      simp only
      split
      · exact well.paged
      · split
        · exact well.paged
        · rename_i granted
          have enough : blocksNeeded tokenCount manager.tokensPerBlock * state.tables.length ≤
              manager.allocator.freeList.length := by
            simpa [MemoryAllocator.canAllocate, wrap32_of_lt frames_fit] using granted
          obtain ⟨added, after, complete, run_eq, reserved⟩ := reserveTables_spec sequenceId
            manager.tokensPerBlock (blocksNeeded tokenCount manager.tokensPerBlock)
            manager.allocator state.tables (well.indexed found)
            (fun table member =>
              (Nat.add_le_add_left (min_le_left _ _) _).trans (indices_fit table member))
          have spread := reserveTables_rule (mappingKept_spread _) sequenceId
            manager.tokensPerBlock (blocksNeeded tokenCount manager.tokensPerBlock)
            (well.spread found)
          rw [run_eq] at spread ⊢
          have full := reserved.full (reserved.enough enough)
          refine well.paged.insert rfl ⟨own.owner, ?_, ?_, spread.distinct⟩
          · obtain ⟨size, level⟩ := own.level
            refine ⟨size + blocksNeeded tokenCount manager.tokensPerBlock, fun table member => ?_⟩
            obtain ⟨source, source_mem, entries, entries_mem, rfl⟩ :=
              exists_of_mem_extendAll member
            simp [BlockTable.size, BlockTable.extend, full entries entries_mem,
              ← level source source_mem]
          · refine Described.perm ?_ (entries_extendAll reserved.lengths)
            intro entry member
            rcases List.mem_append.mp member with new | old
            · obtain ⟨index, kind, logical⟩ := reserved.logicals entry new
              exact ⟨index, kind, well.tokensPerBlock_eq ▸ logical⟩
            · exact own.described entry old

/-! ## Prefixes -/

theorem SlimRecords.insert {config : AllocatorConfig} {before after : KVCacheManager}
    (slim : before.SlimRecords config) {key : String} {records : List PrefixRecord}
    (prefixIndex : after.prefixIndex = before.prefixIndex.insert key records)
    (own : ∀ record ∈ records,
      record.physicalIds.Nodup ∧ record.physicalIds.length ≤ config.tableCount * 2 ^ 32) :
    after.SlimRecords config := by
  intro other found lookup
  rw [AList.lookup_inserted prefixIndex] at lookup
  split at lookup
  · exact Option.some.inj lookup ▸ own
  · exact slim other found lookup

theorem SlimRecords.at_key {config : AllocatorConfig} {manager : KVCacheManager}
    (slim : manager.SlimRecords config) (key : String) :
    ∀ record ∈ (manager.prefixIndex.lookup key).getD [],
      record.physicalIds.Nodup ∧ record.physicalIds.length ≤ config.tableCount * 2 ^ 32 := by
  cases found : manager.prefixIndex.lookup key with
  | none => simp
  | some records => exact slim key records found

theorem physicalIdsOf_whole {tables : List BlockTable} (whole : anySwapped tables = false) :
    physicalIdsOf tables = residentFrames (tables.flatMap (·.entries)) := by
  have all : (tables.flatMap (·.entries)).filter (fun entry => entry.swapSlot.isNone) =
      tables.flatMap (·.entries) :=
    List.filter_eq_self.mpr fun entry member => by simp [resident_of_whole whole member]
  rw [physicalIdsOf_eq, residentFrames, all]

theorem WellPaged.publishPrefix {config : AllocatorConfig} {manager : KVCacheManager}
    (well : manager.WellPaged config) (sequenceId : SequenceId) (key : String) :
    (manager.publishPrefix sequenceId key).2.AllPaged config ∧
      (manager.publishPrefix sequenceId key).2.SlimRecords config := by
  simp only [KVCacheManager.publishPrefix]
  split
  · exact ⟨well.paged, well.slim⟩
  · cases found : manager.sequences.lookup sequenceId with
    | none => exact ⟨well.paged, well.slim⟩
    | some state =>
        have own := well.paged sequenceId state found
        have named : ({ state with
            prefixKey := key, prefixHash := manager.contentHashOf state.tables } :
              SequenceState).Paged config sequenceId :=
          ⟨own.owner, own.level, own.described, own.distinct⟩
        simp only
        split
        · exact ⟨well.paged, well.slim⟩
        · split
          · exact ⟨well.paged, well.slim⟩
          · split
            · exact ⟨well.paged, well.slim⟩
            · split
              · exact ⟨well.paged, well.slim⟩
              · rename_i unswapped
                have slim := well.slim.at_key key
                split
                · rename_i existing rest search
                  refine ⟨well.paged.insert rfl named, well.slim.insert rfl ?_⟩
                  have split_eq := List.takeWhile_append_dropWhile
                    (l := (manager.prefixIndex.lookup key).getD [])
                    (p := fun record => record.contentHash != manager.contentHashOf state.tables)
                  rw [search] at split_eq
                  rw [← split_eq] at slim
                  intro record member
                  simp only [List.mem_append, List.mem_cons] at member slim
                  rcases member with early | rfl | late
                  · exact slim record (Or.inl early)
                  · exact slim existing (Or.inr (Or.inl rfl))
                  · exact slim record (Or.inr (Or.inr late))
                · have whole : anySwapped state.tables = false := by simpa using unswapped
                  refine ⟨well.paged.insert rfl named, well.slim.insert rfl ?_⟩
                  intro record member
                  rcases List.mem_append.mp member with old | new
                  · exact slim record old
                  · rw [List.mem_singleton.mp new]
                    have bounded := length_physicalIdsOf fun table member =>
                      (well.sound.regular sequenceId state found table member).bounded
                    rw [well.wide sequenceId state found] at bounded
                    refine ⟨?_, bounded⟩
                    simpa only [physicalIdsOf_whole whole] using own.distinct

theorem WellPaged.attachPrefix {config : AllocatorConfig} {manager : KVCacheManager}
    (well : manager.WellPaged config) (sequenceId : SequenceId) (key : String) :
    (manager.attachPrefix sequenceId key).2.AllPaged config ∧
      (manager.attachPrefix sequenceId key).2.SlimRecords config := by
  simp only [KVCacheManager.attachPrefix]
  split
  · exact ⟨well.paged, well.slim⟩
  · cases found : manager.sequences.lookup sequenceId with
    | none => exact ⟨well.paged, well.slim⟩
    | some state =>
        have own := well.paged sequenceId state found
        simp only
        split
        · exact ⟨well.paged, well.slim⟩
        · rename_i text
          split
          · rename_i record records
            split
            · exact ⟨well.paged, well.slim⟩
            · rename_i proper
              split
              · exact ⟨well.paged, well.slim⟩
              · rename_i even
                obtain ⟨distinct, bounded⟩ := well.slim key [record] records record
                  (List.mem_singleton_self _)
                have width := well.wide sequenceId state found
                simp only [Bool.or_eq_true, decide_eq_true_eq, not_or] at proper
                have some_tables : 0 < state.tables.length := Nat.pos_of_ne_zero proper.2
                have empty := own.all_empty (by simpa using text)
                have total : record.physicalIds.length =
                    record.physicalIds.length / state.tables.length * state.tables.length :=
                  (Nat.div_mul_cancel (Nat.dvd_of_mod_eq_zero (Decidable.not_not.mp even))).symm
                have room : record.physicalIds.length / state.tables.length ≤ 2 ^ 32 := by
                  refine Nat.div_le_of_le_mul ?_
                  rw [width]
                  exact bounded
                obtain ⟨added, run_eq, attached⟩ := attachTables_spec sequenceId
                  manager.tokensPerBlock (record.physicalIds.length / state.tables.length)
                  record.physicalIds manager.allocator state.tables empty total room
                rw [run_eq]
                have blank : state.tables.flatMap (·.entries) = [] :=
                  List.flatMap_eq_nil_iff.mpr empty
                have entries := entries_extendAll attached.lengths
                rw [blank, List.append_nil] at entries
                refine ⟨well.paged.insert rfl ⟨own.owner, ?_, ?_, ?_⟩, well.slim.insert rfl ?_⟩
                · refine ⟨record.physicalIds.length / state.tables.length, fun table member => ?_⟩
                  obtain ⟨source, source_mem, rows, rows_mem, rfl⟩ := exists_of_mem_extendAll member
                  simp [BlockTable.size, BlockTable.extend, empty source source_mem,
                    attached.full rows rows_mem]
                · refine Described.perm ?_ entries
                  intro entry member
                  obtain ⟨index, kind, logical⟩ := attached.logicals entry member
                  exact ⟨index, kind, well.tokensPerBlock_eq ▸ logical⟩
                · have all : added.flatten.filter (fun entry => entry.swapSlot.isNone) =
                      added.flatten :=
                    List.filter_eq_self.mpr fun entry member => by
                      simp [attached.resident entry member]
                  rw [(residentFrames_perm entries).nodup_iff, residentFrames, all,
                    attached.physical]
                  exact distinct
                · intro other member
                  rw [List.mem_singleton.mp member]
                  exact ⟨distinct, bounded⟩
          · exact ⟨well.paged, well.slim⟩

theorem WellPaged.releaseSequence {config : AllocatorConfig} {manager : KVCacheManager}
    (well : manager.WellPaged config) (sequenceId : SequenceId) :
    (manager.releaseSequence sequenceId).AllPaged config ∧
      (manager.releaseSequence sequenceId).SlimRecords config := by
  constructor
  · intro id state found
    rw [sequences_releaseSequence] at found
    by_cases same : id = sequenceId
    · rw [same, AList.lookup_erase] at found
      simp at found
    · rw [AList.lookup_erase_ne same] at found
      exact well.paged id state found
  · unfold KVCacheManager.releaseSequence
    split
    · exact well.slim
    · rename_i state _
      obtain ⟨freed, dropped, -⟩ := dropPrefixUser_cases manager state
      simpa [SlimRecords] using dropped.records_all
        (fun ids => ids.Nodup ∧ ids.length ≤ config.tableCount * 2 ^ 32) well.slim

/-! ## Whole runs -/

theorem WellPaged.of_paged {config : AllocatorConfig} {manager : KVCacheManager}
    (well : manager.WellPaged config) (op : CacheOp) (paged : (manager.step op).AllPaged config)
    (slim : (manager.step op).SlimRecords config) : (manager.step op).WellPaged config where
  sound := sound_step well.sound op
  config_eq := (config_step well.sound op).trans well.config_eq
  covered := covered_step well.sound well.covered op
  wide := by
    have wide := well.wide
    rw [← well.config_eq] at wide ⊢
    exact wide_step well.sound wide op
  paged := paged
  slim := slim

theorem SlimRecords.of_index {config : AllocatorConfig} {before after : KVCacheManager}
    (slim : before.SlimRecords config) (prefixIndex : after.prefixIndex = before.prefixIndex) :
    after.SlimRecords config := by
  rw [SlimRecords, prefixIndex]
  exact slim

theorem WellPaged.step_swapOutSequence {config : AllocatorConfig} {manager : KVCacheManager}
    (well : manager.WellPaged config) (sequenceId : SequenceId) :
    (manager.swapOutSequence sequenceId).2.WellPaged config := by
  refine well.of_paged (.swapOutSequence sequenceId) (well.swapOutSequence sequenceId)
    (well.slim.of_index ?_)
  simp only [step, KVCacheManager.swapOutSequence]
  split <;> rfl

theorem WellPaged.step_swapInSequence {config : AllocatorConfig} {manager : KVCacheManager}
    (well : manager.WellPaged config) (sequenceId : SequenceId) :
    (manager.swapInSequence sequenceId).2.WellPaged config := by
  refine well.of_paged (.swapInSequence sequenceId) (well.swapInSequence sequenceId)
    (well.slim.of_index ?_)
  simp only [step, KVCacheManager.swapInSequence]
  repeat' split
  all_goals rfl

theorem WellPaged.step_ensureTokenWritable {config : AllocatorConfig} {manager : KVCacheManager}
    (well : manager.WellPaged config) (sequenceId : SequenceId) (token layer : ℕ) :
    (manager.ensureTokenWritable sequenceId token layer).2.WellPaged config := by
  refine well.of_paged (.ensureTokenWritable sequenceId token layer)
    (well.ensureTokenWritable sequenceId token layer) (well.slim.of_index ?_)
  rcases ensureTokenWritable_effect well.sound sequenceId token layer with
    same | ⟨_, _, _, _, _, -, made⟩
  · rw [step, same]
  · exact made.prefixIndex

theorem WellPaged.writeToken {config : AllocatorConfig} {manager : KVCacheManager}
    (well : manager.WellPaged config) (sequenceId : SequenceId) (token layer : ℕ)
    (stores : List TokenStore) :
    (manager.writeToken sequenceId token layer stores).2.WellPaged config := by
  have ensured := well.step_ensureTokenWritable sequenceId token layer
  have written : (manager.writeToken sequenceId token layer stores).2.AllPaged config ∧
      (manager.writeToken sequenceId token layer stores).2.SlimRecords config := by
    unfold KVCacheManager.writeToken
    rcases run_eq : manager.ensureTokenWritable sequenceId token layer with ⟨_ | frame, after⟩
    · rw [run_eq] at ensured
      exact ⟨ensured.paged, ensured.slim⟩
    · rw [run_eq] at ensured
      exact ⟨ensured.paged, ensured.slim⟩
  exact well.of_paged (.writeToken sequenceId token layer stores) written.1 written.2

theorem wellPaged_step {config : AllocatorConfig} {manager : KVCacheManager}
    (well : manager.WellPaged config) {op : CacheOp} (fits : manager.SumsFit op) :
    (manager.step op).WellPaged config := by
  cases op with
  | createSequence metadata =>
      refine well.of_paged _ (well.paged.createSequence metadata) (well.slim.of_index ?_)
      simp only [step, createSequence]
      split <;> rfl
  | forkSequence parentId childMetadata =>
      refine well.of_paged _ (well.paged.forkSequence parentId childMetadata) (well.slim.of_index ?_)
      simp only [step, forkSequence]
      repeat' split
      all_goals rfl
  | reserveTokens sequenceId tokenCount =>
      refine well.of_paged _ (well.reserveTokens sequenceId tokenCount fits) (well.slim.of_index ?_)
      simp only [step, reserveTokens]
      repeat' split
      all_goals rfl
  | ensureTokenWritable sequenceId token layer =>
      exact well.step_ensureTokenWritable sequenceId token layer
  | writeToken sequenceId token layer stores =>
      exact well.writeToken sequenceId token layer stores
  | swapOutSequence sequenceId => exact well.step_swapOutSequence sequenceId
  | swapOutRequest requestId =>
      exact swapOutSequences_induction (fun _ id holds => holds.step_swapOutSequence id) well _
  | swapInSequence sequenceId => exact well.step_swapInSequence sequenceId
  | swapInRequest requestId =>
      exact swapInRequest_induction (fun _ id holds => holds.step_swapInSequence id) well requestId
  | publishPrefix sequenceId key =>
      obtain ⟨paged, slim⟩ := well.publishPrefix sequenceId key
      exact well.of_paged _ paged slim
  | attachPrefix sequenceId key =>
      obtain ⟨paged, slim⟩ := well.attachPrefix sequenceId key
      exact well.of_paged _ paged slim
  | releaseSequence sequenceId =>
      obtain ⟨paged, slim⟩ := well.releaseSequence sequenceId
      exact well.of_paged _ paged slim
  | releaseRequest requestId =>
      refine releaseRequest_induction (fun manager id well => ?_) well requestId
      obtain ⟨paged, slim⟩ := well.releaseSequence id
      exact well.of_paged (.releaseSequence id) paged slim

theorem wellPaged_fresh (config : AllocatorConfig) (slab : ℕ → UInt8) (maxSlots : ℕ) :
    (fresh config slab maxSlots).WellPaged config where
  sound := sound_fresh config slab maxSlots
  config_eq := rfl
  covered := covered_fresh false config slab maxSlots
  wide := by simp [Wide, fresh, create]
  paged := by simp [AllPaged, fresh, create]
  slim := by simp [SlimRecords, fresh, create]

/-- Page tables of all sequences, and the request index. -/
structure PageTablesFormed (manager : KVCacheManager) : Prop where
  width : ∀ id state, manager.sequences.lookup id = some state →
    state.tables.length = manager.tableCount
  level : ∀ id state, manager.sequences.lookup id = some state →
    ∃ size, ∀ table ∈ state.tables, table.size = size
  owner : ∀ id state, manager.sequences.lookup id = some state → state.metadata.sequenceId = id
  blocks : ∀ id state, manager.sequences.lookup id = some state → ∀ table ∈ state.tables,
    ∀ (position : ℕ) (entry : BlockTableEntry), table.entries[position]? = some entry →
      entry.logical.index = position ∧ entry.logical.sequenceId = id ∧
      entry.logical.tokenCount = manager.tokensPerBlock ∧
      entry.logical.startToken = wrap32 (position * manager.tokensPerBlock)
  distinct : ∀ id state, manager.sequences.lookup id = some state →
    (residentFrames (state.tables.flatMap (·.entries))).Nodup
  listed : manager.Listed
  populated : manager.Populated

theorem WellPaged.formed {config : AllocatorConfig} {manager : KVCacheManager}
    (well : manager.WellPaged config) (listed : manager.Listed) (populated : manager.Populated) :
    manager.PageTablesFormed where
  width id state found := by
    rw [tableCount_eq well.sound.pool, well.config_eq]
    exact well.wide id state found
  level id state found := (well.paged id state found).level
  owner id state found := (well.paged id state found).owner
  blocks := by
    intro id state found table member position entry entry_eq
    obtain ⟨index, kind, logical⟩ := (well.paged id state found).described entry
      (List.mem_flatMap.mpr ⟨table, member, List.mem_of_getElem? entry_eq⟩)
    have here : index = position := by
      have indexed := well.indexed found table member position entry entry_eq
      rwa [logical] at indexed
    rw [logical, here, well.tokensPerBlock_eq]
    exact ⟨rfl, rfl, rfl, rfl⟩
  distinct id state found := (well.paged id state found).distinct
  listed := listed
  populated := populated

/-- In every state that is reached without a sum of block counts past 32 bits the page tables of
all sequences are well formed and the request index lists exactly the live sequences. -/
theorem page_tables_well_formed (config : AllocatorConfig) (slab : ℕ → UInt8) (maxSlots : ℕ)
    (ops : List CacheOp)
    (fits : Execution.Along step SumsFit (fresh config slab maxSlots) ops) :
    ((fresh config slab maxSlots).run ops).PageTablesFormed := by
  have kept (state : KVCacheManager) (op : CacheOp) (well : state.WellPaged config)
      (fits : state.SumsFit op) : (state.step op).WellPaged config := wellPaged_step well fits
  have well := Execution.Along.invariant kept (wellPaged_fresh config slab maxSlots) fits
  have listed : ((fresh config slab maxSlots).run ops).Listed := listed_run (listed_create _) ops
  have populated : ((fresh config slab maxSlots).run ops).Populated :=
    Execution.run_induction (motive := fun (manager : KVCacheManager) _ => manager.Populated)
      (fun _ op _ holds => populated_step holds op) (by simp [Populated, fresh, create])
  exact well.formed listed populated

/-- Two layers in frames of their own: a fork, a copy on write, an eviction and a prefix. -/
theorem page_tables_well_formed_layered :
    Execution.Along step SumsFit (fresh pairedLayersConfig (fun _ => 0) 4)
        [.createSequence ⟨1, 7⟩, .reserveTokens 1 3, .forkSequence 1 ⟨2, 7⟩,
          .ensureTokenWritable 2 0 1, .publishPrefix 2 "a", .createSequence ⟨3, 8⟩,
          .attachPrefix 3 "a", .swapOutRequest 7, .releaseSequence 2] ∧
      ((fresh pairedLayersConfig (fun _ => 0) 4).run
        [.createSequence ⟨1, 7⟩, .reserveTokens 1 3, .forkSequence 1 ⟨2, 7⟩,
          .ensureTokenWritable 2 0 1, .publishPrefix 2 "a", .createSequence ⟨3, 8⟩,
          .attachPrefix 3 "a", .swapOutRequest 7, .releaseSequence 2]).PageTablesFormed := by
  have fits : Execution.Along step SumsFit (fresh pairedLayersConfig (fun _ => 0) 4)
      [.createSequence ⟨1, 7⟩, .reserveTokens 1 3, .forkSequence 1 ⟨2, 7⟩,
        .ensureTokenWritable 2 0 1, .publishPrefix 2 "a", .createSequence ⟨3, 8⟩,
        .attachPrefix 3 "a", .swapOutRequest 7, .releaseSequence 2] := by
    decide +kernel
  exact ⟨fits, page_tables_well_formed _ _ _ _ fits⟩

/-- Frames of `2 ^ 31` tokens without any bytes. -/
def longBlocksConfig : AllocatorConfig := ⟨⟨2 ^ 31, 1, 0, 0, 0, 0⟩, 1, 3, three_lt_word⟩

/-- The third block of a sequence starts at token `2 ^ 32`, which 32 bits do not hold. -/
theorem start_token_starts_over :
    Execution.Along step SumsFit (fresh longBlocksConfig (fun _ => 0) 0)
        [.createSequence ⟨1, 1⟩, .reserveTokens 1 (2 ^ 31), .reserveTokens 1 (2 ^ 31),
          .reserveTokens 1 (2 ^ 31)] ∧
      ∃ entry ∈ ((fresh longBlocksConfig (fun _ => 0) 0).run
          [.createSequence ⟨1, 1⟩, .reserveTokens 1 (2 ^ 31), .reserveTokens 1 (2 ^ 31),
            .reserveTokens 1 (2 ^ 31)]).liveEntries,
        entry.logical.index = 2 ∧ entry.logical.startToken = 0 ∧
        entry.logical.startToken ≠ entry.logical.index * longBlocksConfig.tokensPerBlock := by
  decide +kernel

end KVCacheManager
end QwenVLPaged
