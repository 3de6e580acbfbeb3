import QwenVLPaged.Holdings
import QwenVLPaged.PrefixEffects
import QwenVLPaged.TableLoops

/-!
# Who holds a frame

The entries of the block tables and the prefix records hold the frames of the pool. This module
follows those holdings through every call of the cache manager, with the writable flags as the
mark of an only owner or without any mark. Without the mark the pool covers what the state holds
after any calls whatever.
-/

namespace QwenVLPaged

namespace KVCacheManager

open MemoryAllocator (Holds)

/-! ## What a state holds -/

/-- The reference of a resident block, marked as its writable flag says if the flags are
followed at all. -/
def holdingOf (flagged : Bool) (entry : BlockTableEntry) : Holding :=
  ⟨entry.physicalId, flagged && entry.writable⟩

/-- References of the resident blocks. -/
def holdingsOf (flagged : Bool) (entries : List BlockTableEntry) : List Holding :=
  (entries.filter fun entry => entry.swapSlot.isNone).map (holdingOf flagged)

/-- References of prefix records. -/
def pinsOf (ids : List PhysicalBlockId) : List Holding := ids.map fun id => ⟨id, false⟩

/-- References of everything the state owns. -/
def holdings (flagged : Bool) (manager : KVCacheManager) : List Holding :=
  holdingsOf flagged manager.liveEntries ++ pinsOf manager.pinnedIds

/-- References of everybody but one sequence. -/
def holdingsWithout (flagged : Bool) (manager : KVCacheManager) (id : SequenceId) :
    List Holding :=
  holdingsOf flagged ((manager.sequences.erase id).gather fun _ state =>
    state.tables.flatMap (·.entries)) ++ pinsOf manager.pinnedIds

/-- The pool covers what the state holds. -/
def Covered (flagged : Bool) (manager : KVCacheManager) : Prop :=
  manager.allocator.Holds (manager.holdings flagged)

@[simp]
theorem holdingsOf_nil (flagged : Bool) : holdingsOf flagged [] = [] := rfl

@[simp]
theorem holdingsOf_append (flagged : Bool) (front back : List BlockTableEntry) :
    holdingsOf flagged (front ++ back) = holdingsOf flagged front ++ holdingsOf flagged back := by
  simp [holdingsOf]

theorem holdingsOf_resident {flagged : Bool} {entry : BlockTableEntry}
    (resident : entry.swapSlot = none) (entries : List BlockTableEntry) :
    holdingsOf flagged (entry :: entries) =
      holdingOf flagged entry :: holdingsOf flagged entries := by
  simp [holdingsOf, resident]

theorem holdingsOf_swapped {flagged : Bool} {entry : BlockTableEntry} {slot : SwapSlotId}
    (swapped : entry.swapSlot = some slot) (entries : List BlockTableEntry) :
    holdingsOf flagged (entry :: entries) = holdingsOf flagged entries := by
  simp [holdingsOf, swapped]

theorem holdings_perm (flagged : Bool) {manager : KVCacheManager} {id : SequenceId}
    {state : SequenceState} (found : manager.sequences.lookup id = some state) :
    (manager.holdings flagged).Perm
      (holdingsOf flagged (state.tables.flatMap (·.entries)) ++
        manager.holdingsWithout flagged id) := by
  have entries := (AList.gather_perm_of_lookup
    (fun _ (state : SequenceState) => state.tables.flatMap (·.entries)) found).filter
      fun entry => entry.swapSlot.isNone
  have held := entries.map (holdingOf flagged)
  rw [List.filter_append, List.map_append] at held
  rw [holdingsWithout, ← List.append_assoc]
  exact held.append_right _

theorem holdings_insert (flagged : Bool) {before after : KVCacheManager} {id : SequenceId}
    {state : SequenceState} (sequences : after.sequences = before.sequences.insert id state)
    (prefixIndex : after.prefixIndex = before.prefixIndex) :
    after.holdings flagged = holdingsOf flagged (state.tables.flatMap (·.entries)) ++
      before.holdingsWithout flagged id := by
  simp [holdings, holdingsWithout, liveEntries, pinnedIds, sequences, prefixIndex]

theorem holdingsWithout_of_absent (flagged : Bool) {manager : KVCacheManager} {id : SequenceId}
    (absent : manager.sequences.lookup id = none) :
    manager.holdingsWithout flagged id = manager.holdings flagged := by
  rw [holdingsWithout, AList.erase_of_lookup_none absent]
  rfl

theorem Covered.split {flagged : Bool} {manager : KVCacheManager} (covered : manager.Covered flagged)
    {id : SequenceId} {state : SequenceState}
    (found : manager.sequences.lookup id = some state) :
    manager.allocator.Holds (holdingsOf flagged (state.tables.flatMap (·.entries)) ++
      manager.holdingsWithout flagged id) :=
  covered.perm (holdings_perm flagged found).symm

theorem Covered.insert {flagged : Bool} {before after : KVCacheManager} {id : SequenceId}
    {state : SequenceState} (sequences : after.sequences = before.sequences.insert id state)
    (prefixIndex : after.prefixIndex = before.prefixIndex)
    (holds : after.allocator.Holds (holdingsOf flagged (state.tables.flatMap (·.entries)) ++
      before.holdingsWithout flagged id)) : after.Covered flagged := by
  rw [Covered, holdings_insert flagged sequences prefixIndex]
  exact holds

/-! ## Loops -/

theorem evictionKept_holds (flagged : Bool) (rest : List Holding) :
    EvictionKept fun allocator entries => allocator.Holds (holdingsOf flagged entries ++ rest) := by
  intro allocator after front entry back slot holds resident evicted
  rw [holdingsOf_append, holdingsOf_resident resident, List.append_assoc, List.cons_append] at holds
  rw [holdingsOf_append, holdingsOf_swapped rfl, List.append_assoc]
  exact (holds.perm List.perm_middle.symm).swapOut evicted

theorem restorationKept_holds (flagged : Bool) (rest : List Holding) :
    RestorationKept fun allocator entries =>
      allocator.Holds (holdingsOf flagged entries ++ rest) := by
  refine ⟨?_, fun allocator after entries slot holds failed => holds.swapIn_none failed⟩
  intro allocator after front entry back slot id holds swapped restored
  rw [holdingsOf_append, holdingsOf_swapped swapped, List.append_assoc] at holds
  rw [holdingsOf_append, holdingsOf_resident rfl, List.append_assoc, List.cons_append]
  exact (holds.swapIn restored _).perm List.perm_middle

theorem mappingKept_allocates (flagged : Bool) (rest : List Holding) :
    MappingKept Allocates true fun allocator entries =>
      allocator.Holds (holdingsOf flagged entries ++ rest) := by
  intro allocator after front replaced back logical id holds taken
  rw [holdingsOf_append, holdingsOf_resident rfl, List.append_assoc, List.cons_append]
  refine Holds.perm ?_ List.perm_middle
  refine Holds.allocate (holds.subperm (List.Sublist.subperm ?_)) taken _
  simp only [holdingsOf_append, List.append_assoc]
  exact (List.sublist_append_right _ _).append_left _

theorem mappingKept_retains (flagged : Bool) {rest : List Holding} {ids : List PhysicalBlockId}
    (pinned : ∀ id ∈ ids, (⟨id, false⟩ : Holding) ∈ rest) :
    MappingKept (Retains ids) false fun allocator entries =>
      allocator.Holds (holdingsOf flagged entries ++ rest) := by
  rintro allocator after front replaced back logical id holds ⟨listed, rfl⟩
  have mapped : holdingOf flagged ⟨logical, id, false, none⟩ = ⟨id, false⟩ := by
    simp [holdingOf]
  rw [holdingsOf_append, holdingsOf_resident rfl, List.append_assoc, List.cons_append, mapped]
  refine Holds.perm ?_ List.perm_middle
  refine Holds.retain (holds.subperm (List.Sublist.subperm ?_)) ?_
  · simp only [holdingsOf_append, List.append_assoc]
    exact (List.sublist_append_right _ _).append_left _
  · exact List.mem_append_right _ (List.mem_append_right _ (pinned id listed))

theorem holds_retainAll {allocator : MemoryAllocator} {holdings : List Holding}
    (holds : allocator.Holds holdings) {ids : List PhysicalBlockId}
    (held : ∀ id ∈ ids, (⟨id, false⟩ : Holding) ∈ holdings) :
    (retainAll allocator ids).Holds (pinsOf ids ++ holdings) := by
  induction ids generalizing allocator holdings with
  | nil => exact holds
  | cons id ids induction =>
      have first := holds.retain (held id List.mem_cons_self)
      refine (induction first fun other member => ?_).perm List.perm_middle.symm
      exact List.mem_cons_of_mem _ (held other (List.mem_cons_of_mem _ member))

theorem holds_releaseAll {allocator : MemoryAllocator} {ids : List PhysicalBlockId}
    {rest : List Holding} (holds : allocator.Holds (pinsOf ids ++ rest)) :
    (releaseAll allocator ids).Holds rest := by
  induction ids generalizing allocator with
  | nil => exact holds
  | cons id ids induction => exact induction (Holds.release holds)

theorem holds_releaseEntries (flagged : Bool) {allocator : MemoryAllocator}
    {entries : List BlockTableEntry} {rest : List Holding}
    (holds : allocator.Holds (holdingsOf flagged entries ++ rest)) :
    (entries.foldl releaseEntry allocator).Holds rest := by
  induction entries generalizing allocator with
  | nil => exact holds
  | cons entry entries induction =>
      rw [List.foldl_cons]
      cases slot_eq : entry.swapSlot with
      | none =>
          rw [holdingsOf_resident slot_eq, List.cons_append] at holds
          refine induction ?_
          rw [releaseEntry, slot_eq]
          exact holds.release
      | some slot =>
          rw [holdingsOf_swapped slot_eq] at holds
          refine induction ?_
          rw [releaseEntry, slot_eq]
          exact holds.of_same (holds.sound.discardSwapped slot) (fun _ => rfl) fun _ member => member


/-! ## Sharing -/

theorem physicalIdsOf_eq (tables : List BlockTable) :
    physicalIdsOf tables = (tables.flatMap (·.entries)).map (·.physicalId) :=
  List.map_flatMap.symm

theorem resident_of_whole {tables : List BlockTable} (whole : anySwapped tables = false)
    {entry : BlockTableEntry} (member : entry ∈ tables.flatMap (·.entries)) :
    entry.swapSlot = none :=
  List.filterMap_eq_nil_iff.mp (slotsOf_of_resident whole) entry member

theorem holdingsOf_unmarked {flagged : Bool} {entries : List BlockTableEntry}
    (resident : ∀ entry ∈ entries, entry.swapSlot = none)
    (unmarked : ∀ entry ∈ entries, (flagged && entry.writable) = false) :
    holdingsOf flagged entries = pinsOf (entries.map (·.physicalId)) := by
  have all : entries.filter (fun entry => entry.swapSlot.isNone) = entries :=
    List.filter_eq_self.mpr fun entry member => by simp [resident entry member]
  rw [holdingsOf, all, pinsOf, List.map_map]
  refine List.map_congr_left fun entry member => ?_
  simp [holdingOf, unmarked entry member]

theorem entries_fork (tables : List BlockTable) (child : SequenceId) :
    (tables.map fun table => table.fork child).flatMap (·.entries) =
      (tables.flatMap (·.entries)).map fun entry =>
        { entry with
          writable := false
          logical := { entry.logical with sequenceId := child } } := by
  simp [List.flatMap_map, List.map_flatMap, BlockTable.fork]

/-- Every frame of a sequence without swapped or marked blocks is held without the mark. -/
theorem mem_holdings_of_unmarked {flagged : Bool} {manager : KVCacheManager} {id : SequenceId}
    {state : SequenceState} (found : manager.sequences.lookup id = some state)
    (whole : anySwapped state.tables = false)
    (unmarked : ∀ entry ∈ state.tables.flatMap (·.entries), (flagged && entry.writable) = false) :
    ∀ frame ∈ physicalIdsOf state.tables,
      (⟨frame, false⟩ : Holding) ∈ manager.holdings flagged := by
  intro frame member
  refine (holdings_perm flagged found).mem_iff.mpr (List.mem_append_left _ ?_)
  rw [holdingsOf_unmarked (fun entry => resident_of_whole whole) unmarked, ← physicalIdsOf_eq]
  exact List.mem_map_of_mem (f := fun id => (⟨id, false⟩ : Holding)) member

theorem Covered.createSequence {flagged : Bool} {manager : KVCacheManager}
    (covered : manager.Covered flagged) (metadata : SequenceMetadata) :
    (manager.createSequence metadata).2.Covered flagged := by
  unfold KVCacheManager.createSequence
  split
  · exact covered
  · rename_i unused
    have absent : manager.sequences.lookup metadata.sequenceId = none := by simpa using unused
    have empty : (List.replicate manager.tableCount
        (BlockTable.create metadata.sequenceId)).flatMap (·.entries) = [] := by
      simp [List.flatMap_replicate, BlockTable.create]
    refine Covered.insert rfl rfl ?_
    rw [holdingsWithout_of_absent flagged absent, empty]
    exact covered

theorem Covered.forkSequence {flagged : Bool} {manager : KVCacheManager}
    (covered : manager.Covered flagged) (parentId : SequenceId) (childMetadata : SequenceMetadata)
    (unmarked : ∀ parent, manager.sequences.lookup parentId = some parent →
      manager.sequences.lookup childMetadata.sequenceId = none → anySwapped parent.tables = false →
      ∀ entry ∈ parent.tables.flatMap (·.entries), (flagged && entry.writable) = false) :
    (manager.forkSequence parentId childMetadata).2.Covered flagged := by
  unfold KVCacheManager.forkSequence
  cases found : manager.sequences.lookup parentId with
  | none => exact covered
  | some parent =>
      simp only
      split
      · exact covered
      · rename_i unused
        split
        · exact covered
        · rename_i unswapped
          have absent : manager.sequences.lookup childMetadata.sequenceId = none := by
            simpa using unused
          have whole : anySwapped parent.tables = false := by simpa using unswapped
          have held := mem_holdings_of_unmarked found whole (unmarked parent found absent whole)
          have child_ids : physicalIdsOf
              (parent.tables.map fun table => table.fork childMetadata.sequenceId) =
                physicalIdsOf parent.tables := by
            rw [physicalIdsOf_eq, physicalIdsOf_eq, entries_fork, List.map_map]
            rfl
          refine Covered.insert rfl rfl ?_
          rw [holdingsWithout_of_absent flagged absent, entries_fork, holdingsOf_unmarked]
          · have shared := holds_retainAll covered held
            rw [← child_ids] at shared
            rwa [← entries_fork, ← physicalIdsOf_eq]
          · intro entry member
            obtain ⟨source, source_mem, rfl⟩ := List.mem_map.mp member
            have resident := resident_of_whole whole source_mem
            exact resident
          · intro entry member
            obtain ⟨source, -, rfl⟩ := List.mem_map.mp member
            simp

/-! ## Growing, swapping and releasing -/

theorem Covered.reserveTokens {flagged : Bool} {manager : KVCacheManager}
    (covered : manager.Covered flagged) (sequenceId : SequenceId) (tokenCount : ℕ) :
    (manager.reserveTokens sequenceId tokenCount).2.Covered flagged := by
  unfold KVCacheManager.reserveTokens
  cases found : manager.sequences.lookup sequenceId with
  | none => exact covered
  | some state =>
      simp only
      split
      · exact covered
      · split
        · exact covered
        · exact Covered.insert rfl rfl (reserveTables_rule (mappingKept_allocates flagged _)
            sequenceId _ _ (covered.split found))

theorem Covered.swapOutSequence {flagged : Bool} {manager : KVCacheManager}
    (sound : manager.Sound) (covered : manager.Covered flagged) (sequenceId : SequenceId) :
    (manager.swapOutSequence sequenceId).2.Covered flagged := by
  unfold KVCacheManager.swapOutSequence
  cases found : manager.sequences.lookup sequenceId with
  | none => exact covered
  | some state =>
      exact Covered.insert rfl rfl (swapOutTables_rule (evictionKept_holds flagged _)
        (fun table member => (sound.regular sequenceId state found table member).indexed)
        (covered.split found))

theorem Covered.swapInSequence {flagged : Bool} {manager : KVCacheManager}
    (sound : manager.Sound) (covered : manager.Covered flagged) (sequenceId : SequenceId) :
    (manager.swapInSequence sequenceId).2.Covered flagged := by
  unfold KVCacheManager.swapInSequence
  cases found : manager.sequences.lookup sequenceId with
  | none => exact covered
  | some state =>
      simp only
      split
      · exact covered
      · split
        · exact covered
        · exact Covered.insert rfl rfl (swapInTables_rule (restorationKept_holds flagged _)
            (fun table member => (sound.regular sequenceId state found table member).indexed)
            (covered.split found))

theorem Covered.releaseSequence {flagged : Bool} {manager : KVCacheManager}
    (covered : manager.Covered flagged) (sequenceId : SequenceId) :
    (manager.releaseSequence sequenceId).Covered flagged := by
  unfold KVCacheManager.releaseSequence
  cases found : manager.sequences.lookup sequenceId with
  | none => exact covered
  | some state =>
      obtain ⟨freed, dropped, allocator, sequences, -⟩ := dropPrefixUser_cases manager state
      have pinned := dropped.pinnedIds_perm.map fun id => (⟨id, false⟩ : Holding)
      rw [List.map_append] at pinned
      have after_drop : (manager.dropPrefixUser state).1.allocator.Holds
          (holdingsOf flagged (state.tables.flatMap (·.entries)) ++
            (manager.dropPrefixUser state).1.holdingsWithout flagged sequenceId) := by
        rw [allocator]
        refine holds_releaseAll ((covered.split found).perm ?_)
        rw [holdingsWithout, holdingsWithout, sequences]
        calc
          List.Perm _ (holdingsOf flagged (state.tables.flatMap (·.entries)) ++
              (pinsOf freed ++ (holdingsOf flagged ((manager.sequences.erase sequenceId).gather
                fun _ state => state.tables.flatMap (·.entries)) ++
                pinsOf (manager.dropPrefixUser state).1.pinnedIds))) :=
            List.perm_append_comm_assoc _ _ _
          List.Perm _ _ :=
            ((List.perm_append_comm_assoc _ _ _).trans (pinned.symm.append_left _)).append_left _
      have released := holds_releaseEntries flagged after_drop
      simpa [Covered, holdings, holdingsWithout, liveEntries, sequences, pinnedIds] using released


/-! ## Writing -/

theorem Covered.ensureTokenWritable {flagged : Bool} {manager : KVCacheManager}
    (sound : manager.Sound) (covered : manager.Covered flagged) (sequenceId : SequenceId)
    (token layer : ℕ)
    (referenced : flagged = true → ∀ entry, manager.addressed sequenceId token layer = some entry →
      entry.swapSlot = none → manager.allocator.refCount entry.physicalId ≠ 0) :
    (manager.ensureTokenWritable sequenceId token layer).2.Covered flagged := by
  rcases ensureTokenWritable_effect sound sequenceId token layer with
    same | ⟨state, table, index, entry, frame, here, made⟩
  · rw [same]
    exact covered
  · refine Covered.insert made.sequences made.prefixIndex ?_
    obtain ⟨front, back, old, new⟩ := entries_privatized made.table_eq made.entry_eq frame
    have holds := covered.split made.found
    rw [old, holdingsOf_append, holdingsOf_resident made.resident, List.append_assoc,
      List.cons_append] at holds
    have first := holds.perm List.perm_middle.symm
    have still : ({ entry with physicalId := frame, writable := true } :
        BlockTableEntry).swapSlot = none := made.resident
    rw [new, holdingsOf_append, holdingsOf_resident still, List.append_assoc, List.cons_append]
    refine Holds.perm ?_ List.perm_middle
    rcases made.pool with ⟨low, rfl, allocator⟩ | ⟨taken, taken_eq, allocator⟩
    · rw [allocator]
      refine first.mark fun marked => ?_
      have positive := referenced (by simpa using marked) entry here made.resident
      exact Nat.le_antisymm low (Nat.pos_of_ne_zero positive)
    · rw [allocator]
      exact first.copyOnWrite taken_eq _

theorem Covered.writeToken {flagged : Bool} {manager : KVCacheManager}
    (sound : manager.Sound) (covered : manager.Covered flagged) (sequenceId : SequenceId)
    (token layer : ℕ) (stores : List TokenStore)
    (referenced : flagged = true → ∀ entry, manager.addressed sequenceId token layer = some entry →
      entry.swapSlot = none → manager.allocator.refCount entry.physicalId ≠ 0) :
    (manager.writeToken sequenceId token layer stores).2.Covered flagged := by
  have ensured := covered.ensureTokenWritable sound sequenceId token layer referenced
  have written := (sound.writeToken sequenceId token layer stores).sound.pool
  unfold KVCacheManager.writeToken at written ⊢
  rcases run_eq : manager.ensureTokenWritable sequenceId token layer with ⟨_ | frame, after⟩
  · rwa [run_eq] at ensured
  · rw [run_eq] at ensured written
    exact Holds.of_same ensured written (fun _ => rfl) fun _ member => member

/-! ## Prefixes -/

theorem pinnedIds_perm_insert {before after : KVCacheManager} {key : String}
    {records : List PrefixRecord} (added : List PhysicalBlockId)
    (prefixIndex : after.prefixIndex = before.prefixIndex.insert key records)
    (ids : records.flatMap (·.physicalIds) =
      (before.recordsAt key).flatMap (·.physicalIds) ++ added) :
    after.pinnedIds.Perm (added ++ before.pinnedIds) := by
  rw [pinnedIds_insert prefixIndex, ids]
  calc
    List.Perm _ (added ++ (before.recordsAt key).flatMap (·.physicalIds) ++
        before.pinnedWithout key) := List.perm_append_comm.append_right _
    List.Perm _ (added ++ before.pinnedIds) := by
      rw [List.append_assoc]
      exact (before.pinnedIds_perm key).symm.append_left _

/-- The same blocks, and more pinned frames. -/
theorem holdings_perm_pinned (flagged : Bool) {before after : KVCacheManager}
    (added : List PhysicalBlockId) (live : after.liveEntries.Perm before.liveEntries)
    (pinned : after.pinnedIds.Perm (added ++ before.pinnedIds)) :
    (after.holdings flagged).Perm (pinsOf added ++ before.holdings flagged) := by
  have entries := (live.filter fun entry => entry.swapSlot.isNone).map (holdingOf flagged)
  have pins := pinned.map fun id => (⟨id, false⟩ : Holding)
  rw [List.map_append] at pins
  exact (entries.append pins).trans (List.perm_append_comm_assoc _ _ _)

/-- Blocks of a sequence that only changed its name, and of all the others. -/
theorem liveEntries_perm_named {manager : KVCacheManager} {id : SequenceId} {state : SequenceState}
    (found : manager.sequences.lookup id = some state) (key : String) (hash : UInt64) :
    ((manager.sequences.insert id { state with prefixKey := key, prefixHash := hash }).gather
      fun _ state => state.tables.flatMap (·.entries)).Perm manager.liveEntries := by
  rw [AList.gather_insert]
  exact (AList.gather_perm_of_lookup
    (fun _ (state : SequenceState) => state.tables.flatMap (·.entries)) found).symm

/-- The call indexes the sequence under a new record. -/
structure OpensRecord (manager : KVCacheManager) (sequenceId : SequenceId) (key : String)
    (state : SequenceState) : Prop where
  keyed : key ≠ ""
  found : manager.sequences.lookup sequenceId = some state
  nonempty : state.textTable.entries ≠ []
  unnamed : state.prefixKey ≠ key
  blocky : manager.tokensPerBlock ≠ 0
  whole : anySwapped state.tables = false
  missing : ∀ record ∈ manager.recordsAt key,
    record.contentHash ≠ manager.contentHashOf state.tables

theorem Covered.publishPrefix {flagged : Bool} {manager : KVCacheManager}
    (covered : manager.Covered flagged) (sequenceId : SequenceId) (key : String)
    (unmarked : ∀ state, OpensRecord manager sequenceId key state →
      ∀ entry ∈ state.tables.flatMap (·.entries), (flagged && entry.writable) = false) :
    (manager.publishPrefix sequenceId key).2.Covered flagged := by
  simp only [KVCacheManager.publishPrefix]
  split
  · exact covered
  · rename_i keyed
    cases found : manager.sequences.lookup sequenceId with
    | none => exact covered
    | some state =>
        simp only
        split
        · exact covered
        · rename_i nonempty
          split
          · exact covered
          · rename_i unnamed
            split
            · exact covered
            · rename_i blocky
              split
              · exact covered
              · rename_i unswapped
                split
                · rename_i existing rest search
                  have split_eq := List.takeWhile_append_dropWhile (l := manager.recordsAt key)
                    (p := fun record => record.contentHash != manager.contentHashOf state.tables)
                  rw [recordsAt, search] at split_eq
                  refine Holds.perm covered (holdings_perm_pinned flagged [] ?_ ?_)
                  · exact liveEntries_perm_named found _ _
                  refine pinnedIds_perm_insert [] rfl ?_
                  rw [recordsAt]
                  conv_rhs => rw [← split_eq]
                  simp
                · rename_i search
                  have whole : anySwapped state.tables = false := by simpa using unswapped
                  have opens : OpensRecord manager sequenceId key state :=
                    ⟨keyed, found, by simpa using nonempty, unnamed, blocky, whole,
                      records_missing search⟩
                  have held := mem_holdings_of_unmarked found whole (unmarked state opens)
                  refine (holds_retainAll covered held).perm (holdings_perm_pinned flagged _ ?_ ?_)
                  · exact liveEntries_perm_named found _ _
                  · exact pinnedIds_perm_insert _ rfl (by simp [recordsAt])

theorem Covered.attachPrefix {flagged : Bool} {manager : KVCacheManager}
    (covered : manager.Covered flagged) (sequenceId : SequenceId) (key : String) :
    (manager.attachPrefix sequenceId key).2.Covered flagged := by
  simp only [KVCacheManager.attachPrefix]
  split
  · exact covered
  · cases found : manager.sequences.lookup sequenceId with
    | none => exact covered
    | some state =>
        simp only
        split
        · exact covered
        · split
          · rename_i record records
            split
            · exact covered
            · split
              · exact covered
              · have pinned : ∀ id ∈ record.physicalIds,
                    (⟨id, false⟩ : Holding) ∈ manager.holdingsWithout flagged sequenceId := by
                  intro id member
                  refine List.mem_append_right _ (List.mem_map_of_mem
                    (f := fun id => (⟨id, false⟩ : Holding)) (mem_pinnedIds.mpr ?_))
                  exact ⟨key, [record], records, record, List.mem_singleton_self _, member⟩
                have attached := attachTables_rule (mappingKept_retains flagged pinned) sequenceId
                  manager.tokensPerBlock (record.physicalIds.length / state.tables.length)
                  (List.Subset.refl record.physicalIds) (covered.split found)
                have renewed (after : KVCacheManager)
                    (prefixIndex : after.prefixIndex = manager.prefixIndex.insert key
                      [{ record with users := wrap32 (record.users + 1) }]) :
                    after.pinnedIds.Perm manager.pinnedIds :=
                  pinnedIds_perm_insert [] prefixIndex (by simp [recordsAt, records])
                refine attached.perm ?_
                rw [holdings, liveEntries, AList.gather_insert, holdingsOf_append, List.append_assoc]
                exact (((renewed _ rfl).map _).append_left _).append_left _
          · exact covered

/-! ## Counting -/

theorem count_holdings (flagged : Bool) (manager : KVCacheManager) (id : PhysicalBlockId) :
    (manager.holdings flagged).countP (·.frame == id) = manager.references id := by
  rw [holdings, List.countP_append, references, mappings, holdingsOf, List.countP_map,
    List.countP_filter, pinsOf, List.countP_map, List.count_eq_countP]
  congr 1
  refine List.countP_congr fun entry _ => ?_
  simp [holdingOf, and_comm]

theorem Covered.references_le {flagged : Bool} {manager : KVCacheManager}
    (covered : manager.Covered flagged) {id : PhysicalBlockId}
    (referenced : manager.allocator.refCount id ≠ 0) :
    manager.references id ≤ manager.allocator.refCount id := by
  rw [← count_holdings flagged]
  exact covered.counted id referenced

/-- The marks can be forgotten. -/
theorem Covered.unflagged {flagged : Bool} {manager : KVCacheManager}
    (covered : manager.Covered flagged) : manager.Covered false := by
  have frames : (manager.holdings false).map (·.frame) =
      (manager.holdings flagged).map (·.frame) := by
    simp [holdings, holdingsOf, pinsOf, holdingOf, Function.comp_def]
  refine ⟨covered.sound, ?_, covered.bounded, ?_, ?_⟩
  · intro holding member
    have inside := List.mem_map_of_mem (f := Holding.frame) member
    rw [frames] at inside
    obtain ⟨other, other_mem, same⟩ := List.mem_map.mp inside
    exact same ▸ covered.used other other_mem
  · intro id referenced
    rw [count_holdings, ← count_holdings flagged]
    exact covered.counted id referenced
  · intro holding member marked
    rcases List.mem_append.mp member with mapped | pinned
    · obtain ⟨entry, -, rfl⟩ := List.mem_map.mp mapped
      simp [holdingOf] at marked
    · obtain ⟨id, -, rfl⟩ := List.mem_map.mp pinned
      simp at marked

/-! ## Any calls -/

theorem covered_step {manager : KVCacheManager} (sound : manager.Sound)
    (covered : manager.Covered false) (op : CacheOp) : (manager.step op).Covered false := by
  cases op with
  | createSequence metadata => exact covered.createSequence metadata
  | forkSequence parentId childMetadata =>
      exact covered.forkSequence parentId childMetadata (by simp)
  | reserveTokens sequenceId tokenCount => exact covered.reserveTokens sequenceId tokenCount
  | ensureTokenWritable sequenceId token layer =>
      exact covered.ensureTokenWritable sound sequenceId token layer (by simp)
  | writeToken sequenceId token layer stores =>
      exact covered.writeToken sound sequenceId token layer stores (by simp)
  | swapOutSequence sequenceId => exact covered.swapOutSequence sound sequenceId
  | swapOutRequest requestId =>
      exact (swapOutSequences_induction
        (motive := fun manager => manager.Sound ∧ manager.Covered false)
        (fun _ id holds => ⟨holds.1.swapOutSequence id, holds.2.swapOutSequence holds.1 id⟩)
        ⟨sound, covered⟩ _).2
  | swapInSequence sequenceId => exact covered.swapInSequence sound sequenceId
  | swapInRequest requestId =>
      exact (swapInRequest_induction
        (motive := fun manager => manager.Sound ∧ manager.Covered false)
        (fun _ id holds => ⟨(holds.1.swapInSequence id).sound, holds.2.swapInSequence holds.1 id⟩)
        ⟨sound, covered⟩ requestId).2
  | publishPrefix sequenceId key => exact covered.publishPrefix sequenceId key (by simp)
  | attachPrefix sequenceId key => exact covered.attachPrefix sequenceId key
  | releaseSequence sequenceId => exact covered.releaseSequence sequenceId
  | releaseRequest requestId =>
      exact releaseRequest_induction (fun _ id holds => holds.releaseSequence id) covered requestId

theorem sound_fresh (config : AllocatorConfig) (slab : ℕ → UInt8) (maxSlots : ℕ) :
    (fresh config slab maxSlots).Sound := by
  refine sound_create (MemoryAllocator.sound_create config slab _ fun installed same => ?_)
  rw [← Option.some.inj same]
  rfl

theorem covered_fresh (flagged : Bool) (config : AllocatorConfig) (slab : ℕ → UInt8)
    (maxSlots : ℕ) : (fresh config slab maxSlots).Covered flagged := by
  have nothing : (fresh config slab maxSlots).holdings flagged = [] := by
    simp [holdings, liveEntries, pinnedIds, fresh, create, pinsOf]
  rw [Covered, nothing]
  refine ⟨(sound_fresh config slab maxSlots).pool, by simp, fun id => ?_, by simp, by simp⟩
  have unreferenced : (fresh config slab maxSlots).allocator.refCount id = 0 :=
    MemoryAllocator.refCount_create config slab _ id
  rw [unreferenced]
  norm_num

end KVCacheManager
end QwenVLPaged
