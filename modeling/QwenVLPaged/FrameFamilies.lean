import QwenVLPaged.PageTables
import QwenVLPaged.PrefixPins
import QwenVLPaged.RequestIndex

/-!
# Families of frames

The branches of a request share frames, and so do the requests with a common prefix key. Give these
the same family: then nobody refers to a frame of another family, and a sequence maps a frame once.
Both are kept by every call of the cache manager, also by one that wraps a counter, so the
references to a frame are no more than its family has sequences and records.
-/

namespace QwenVLPaged

/-- Frames that a sequence maps. -/
def SequenceState.frames (state : SequenceState) : List PhysicalBlockId :=
  KVCacheManager.residentFrames (state.tables.flatMap (·.entries))

namespace KVCacheManager

open MemoryAllocator (Holds)

theorem residentFrames_of_resident {entries : List BlockTableEntry}
    (resident : ∀ entry ∈ entries, entry.swapSlot = none) :
    residentFrames entries = entries.map (·.physicalId) := by
  have all : entries.filter (fun entry => entry.swapSlot.isNone) = entries :=
    List.filter_eq_self.mpr fun entry member => by simp [resident entry member]
  rw [residentFrames, all]

theorem residentFrames_sublist {entries entries' : List BlockTableEntry}
    (fewer : entries.Sublist entries') :
    (residentFrames entries).Sublist (residentFrames entries') :=
  (fewer.filter _).map _

theorem holdingsOf_eq (entries : List BlockTableEntry) :
    holdingsOf false entries = pinsOf (residentFrames entries) := by
  simp [holdingsOf, pinsOf, residentFrames, holdingOf]

theorem mem_pinsOf {ids : List PhysicalBlockId} {holding : Holding} :
    holding ∈ pinsOf ids ↔ holding.frame ∈ ids ∧ holding.sole = false := by
  obtain ⟨frame, sole⟩ := holding
  simp only [pinsOf, List.mem_map, Holding.mk.injEq]
  constructor
  · rintro ⟨id, member, rfl, rfl⟩
    exact ⟨member, rfl⟩
  · rintro ⟨member, rfl⟩
    exact ⟨frame, member, rfl, rfl⟩

theorem recordsAt_found {manager : KVCacheManager} {key : String} {records : List PrefixRecord}
    (found : manager.prefixIndex.lookup key = some records) : manager.recordsAt key = records := by
  simp [recordsAt, found]

theorem found_of_recorded {manager : KVCacheManager} {key : String} {record : PrefixRecord}
    (recorded : record ∈ manager.recordsAt key) :
    manager.prefixIndex.lookup key = some (manager.recordsAt key) := by
  rcases lookup : manager.prefixIndex.lookup key with _ | records
  · simp [recordsAt, lookup] at recorded
  · rw [recordsAt_found lookup]

/-! ## The invariant -/

/-- A member of the family refers to the frame: a sequence of one of its requests maps it, or a
record under one of its keys pins it. -/
inductive Claims {Family : Type*} (family : RequestId → Family) (keyFamily : String → Family)
    (manager : KVCacheManager) (frame : PhysicalBlockId) : Family → Prop
  | mapped {id : SequenceId} {state : SequenceState}
      (found : manager.sequences.lookup id = some state) (inside : frame ∈ state.frames) :
      Claims family keyFamily manager frame (family state.metadata.requestId)
  | pinned {key : String} {record : PrefixRecord} (recorded : record ∈ manager.recordsAt key)
      (inside : frame ∈ record.physicalIds) : Claims family keyFamily manager frame (keyFamily key)

/-- A frame belongs to one family, nobody refers to it twice, and only the root of a request is
known by a prefix key, which is one of its family. -/
structure Kindred {Family : Type*} (family : RequestId → Family) (keyFamily : String → Family)
    (manager : KVCacheManager) : Prop where
  kin : ∀ frame first second, Claims family keyFamily manager frame first →
    Claims family keyFamily manager frame second → first = second
  single : ∀ id state, manager.sequences.lookup id = some state → state.frames.Nodup
  records : ∀ key, ∀ record ∈ manager.recordsAt key, record.physicalIds.Nodup
  named : ∀ id state, manager.sequences.lookup id = some state → state.prefixKey ≠ "" →
    id = state.metadata.requestId ∧ family state.metadata.requestId = keyFamily state.prefixKey

theorem kindred_fresh {Family : Type*} (family : RequestId → Family) (keyFamily : String → Family)
    (allocator : MemoryAllocator) : (create allocator).Kindred family keyFamily := by
  constructor
  case kin =>
    intro frame first second claimed
    cases claimed with
    | mapped found inside => simp [create] at found
    | pinned recorded inside => simp [create, recordsAt] at recorded
  case single => exact fun id state found => by simp [create] at found
  case records => exact fun key record recorded => by simp [create, recordsAt] at recorded
  case named => exact fun id state found => by simp [create] at found

/-- What is known of a sequence when it is put into the state. -/
structure Joining {Family : Type*} (family : RequestId → Family) (keyFamily : String → Family)
    (id : SequenceId) (state : SequenceState) : Prop where
  single : state.frames.Nodup
  named : state.prefixKey ≠ "" →
    id = state.metadata.requestId ∧ family state.metadata.requestId = keyFamily state.prefixKey

/-- A sequence is put into the state. Each of its frames was a frame of its family, or nobody else
refers to it; and the records pin frames of its own and of former records only. -/
theorem Kindred.insert {Family : Type*} {family : RequestId → Family}
    {keyFamily : String → Family} {before after : KVCacheManager}
    (kindred : before.Kindred family keyFamily) {id : SequenceId} {state : SequenceState}
    (sequences : after.sequences = before.sequences.insert id state)
    (joining : Joining family keyFamily id state)
    (records : ∀ key, ∀ record ∈ after.recordsAt key,
      (∃ old ∈ before.recordsAt key, record.physicalIds = old.physicalIds) ∨
        record.physicalIds = state.frames ∧ keyFamily key = family state.metadata.requestId)
    (known : ∀ frame ∈ state.frames,
      Claims family keyFamily before frame (family state.metadata.requestId) ∨
        ∀ holding ∈ before.holdingsWithout false id, holding.frame ≠ frame) :
    after.Kindred family keyFamily := by
  -- A claim in the new state is an old one or one of the new sequence.
  have claimed (frame : PhysicalBlockId) (owner : Family)
      (claim : Claims family keyFamily after frame owner) :
      frame ∈ state.frames ∧ owner = family state.metadata.requestId ∨
        Claims family keyFamily before frame owner ∧
          ∃ holding ∈ before.holdingsWithout false id, holding.frame = frame := by
    cases claim with
    | @mapped other found lookup inside =>
        rw [sequences] at lookup
        obtain ⟨rfl, rfl⟩ | ⟨different, old⟩ := AList.lookup_insert_cases lookup
        · exact Or.inl ⟨inside, rfl⟩
        · refine Or.inr ⟨.mapped old inside, ⟨frame, false⟩, List.mem_append_left _ ?_, rfl⟩
          rw [holdingsOf_eq, mem_pinsOf]
          refine ⟨?_, rfl⟩
          obtain ⟨entry, entry_mem, rfl⟩ := List.mem_map.mp inside
          obtain ⟨listed, resident⟩ := List.mem_filter.mp entry_mem
          refine List.mem_map_of_mem (List.mem_filter.mpr ⟨?_, resident⟩)
          refine AList.mem_gather.mpr ⟨other, found, ?_, listed⟩
          rw [AList.lookup_erase_ne different, old]
    | @pinned key record recorded inside =>
        rcases records key record recorded with ⟨old, old_mem, same⟩ | ⟨same, owned⟩
        · rw [same] at inside
          refine Or.inr ⟨.pinned old_mem inside, ⟨frame, false⟩, List.mem_append_right _ ?_, rfl⟩
          rw [mem_pinsOf]
          refine ⟨mem_pinnedIds.mpr ?_, rfl⟩
          exact ⟨key, _, found_of_recorded old_mem, old, old_mem, inside⟩
        · rw [same] at inside
          exact Or.inl ⟨inside, owned⟩
  constructor
  case kin =>
    intro frame first second left right
    rcases claimed frame first left with ⟨inside, mine⟩ | ⟨left, holding, held, about⟩ <;>
      rcases claimed frame second right with ⟨inside', mine'⟩ | ⟨right, holding', held', about'⟩
    · rw [mine, mine']
    · rcases known frame inside with old | unheld
      · rw [mine]
        exact kindred.kin frame _ _ old right
      · exact absurd about' (unheld holding' held')
    · rcases known frame inside' with old | unheld
      · rw [mine']
        exact kindred.kin frame _ _ left old
      · exact absurd about (unheld holding held)
    · exact kindred.kin frame _ _ left right
  case single =>
    intro other found lookup
    rw [sequences] at lookup
    obtain ⟨rfl, rfl⟩ | ⟨-, old⟩ := AList.lookup_insert_cases lookup
    · exact joining.single
    · exact kindred.single other found old
  case records =>
    intro key record recorded
    rcases records key record recorded with ⟨old, old_mem, same⟩ | ⟨same, -⟩
    · rw [same]
      exact kindred.records key old old_mem
    · rw [same]
      exact joining.single
  case named =>
    intro other found lookup
    rw [sequences] at lookup
    obtain ⟨rfl, rfl⟩ | ⟨-, old⟩ := AList.lookup_insert_cases lookup
    · exact joining.named
    · exact kindred.named other found old

/-- The records are the former ones. -/
theorem same_records {Family : Type*} {keyFamily : String → Family} {owner : Family}
    {frames : List PhysicalBlockId} {before after : KVCacheManager}
    (prefixIndex : after.prefixIndex = before.prefixIndex) :
    ∀ key, ∀ record ∈ after.recordsAt key,
      (∃ old ∈ before.recordsAt key, record.physicalIds = old.physicalIds) ∨
        record.physicalIds = frames ∧ keyFamily key = owner := by
  intro key record recorded
  rw [recordsAt, prefixIndex] at recorded
  exact Or.inl ⟨record, recorded, rfl⟩

/-- Neither the sequences nor the records changed. -/
theorem Kindred.still {Family : Type*} {family : RequestId → Family}
    {keyFamily : String → Family} {before after : KVCacheManager}
    (kindred : before.Kindred family keyFamily) (sequences : after.sequences = before.sequences)
    (prefixIndex : after.prefixIndex = before.prefixIndex) : after.Kindred family keyFamily := by
  have recordsAt_eq (key : String) : after.recordsAt key = before.recordsAt key := by
    rw [recordsAt, recordsAt, prefixIndex]
  have claims (frame : PhysicalBlockId) (owner : Family)
      (claim : Claims family keyFamily after frame owner) :
      Claims family keyFamily before frame owner := by
    cases claim with
    | mapped found inside => exact .mapped (sequences ▸ found) inside
    | @pinned key record recorded inside => exact .pinned (recordsAt_eq key ▸ recorded) inside
  constructor
  case kin =>
    exact fun frame first second left right =>
      kindred.kin frame first second (claims frame first left) (claims frame second right)
  case single => exact fun id state found => kindred.single id state (sequences ▸ found)
  case records =>
    exact fun key record recorded => kindred.records key record (recordsAt_eq key ▸ recorded)
  case named => exact fun id state found => kindred.named id state (sequences ▸ found)

/-! ## Regrown tables -/

/-- While the blocks of a sequence move, its frames are old ones of its own or nobody else's. -/
structure Regrown (old : List PhysicalBlockId) (rest : List Holding) (allocator : MemoryAllocator)
    (entries : List BlockTableEntry) : Prop where
  holds : allocator.Holds (holdingsOf false entries ++ rest)
  single : (residentFrames entries).Nodup
  known : ∀ frame ∈ residentFrames entries, frame ∈ old ∨ ∀ holding ∈ rest, holding.frame ≠ frame

/-- A frame off the free list is put between the blocks. -/
theorem Regrown.take {old : List PhysicalBlockId} {rest : List Holding}
    {allocator : MemoryAllocator} {front back kept : List BlockTableEntry}
    {entry : BlockTableEntry} (regrown : Regrown old rest allocator kept)
    (fewer : (front ++ back).Sublist kept) (resident : entry.swapSlot = none)
    (free : entry.physicalId ∈ allocator.freeList) :
    (residentFrames (front ++ entry :: back)).Nodup ∧
      ∀ frame ∈ residentFrames (front ++ entry :: back),
        frame ∈ old ∨ ∀ holding ∈ rest, holding.frame ≠ frame := by
  have unheld (holding : Holding) (member : holding ∈ holdingsOf false kept ++ rest) :
      holding.frame ≠ entry.physicalId := fun same =>
    regrown.holds.used holding member (same ▸ free)
  have frames := residentFrames_sublist fewer
  rw [residentFrames_append] at frames
  have middle : (residentFrames (front ++ entry :: back)).Perm
      (entry.physicalId :: (residentFrames front ++ residentFrames back)) := by
    rw [residentFrames_append, residentFrames_resident resident]
    exact List.perm_middle
  constructor
  · rw [middle.nodup_iff, List.nodup_cons]
    refine ⟨fun inside => ?_, regrown.single.sublist frames⟩
    refine unheld ⟨entry.physicalId, false⟩ (List.mem_append_left _ ?_) rfl
    rw [holdingsOf_eq, mem_pinsOf]
    exact ⟨frames.subset inside, rfl⟩
  · intro frame inside
    rcases List.mem_cons.mp (middle.mem_iff.mp inside) with rfl | remaining
    · exact Or.inr fun holding member => unheld holding (List.mem_append_right _ member)
    · exact regrown.known frame (frames.subset remaining)

theorem evictionKept_regrown (old : List PhysicalBlockId) (rest : List Holding) :
    EvictionKept (Regrown old rest) := by
  intro allocator after front entry back slot regrown resident evicted
  have fewer : (residentFrames (front ++ { entry with swapSlot := some slot } :: back)).Sublist
      (residentFrames (front ++ entry :: back)) := by
    rw [residentFrames_append, residentFrames_append, residentFrames_resident resident,
      residentFrames_swapped rfl]
    exact (List.sublist_cons_self _ _).append_left _
  exact ⟨evictionKept_holds false rest allocator after front entry back slot regrown.holds resident
      evicted, regrown.single.sublist fewer,
    fun frame inside => regrown.known frame (fewer.subset inside)⟩

theorem restorationKept_regrown (old : List PhysicalBlockId) (rest : List Holding) :
    RestorationKept (Regrown old rest) := by
  have holds := restorationKept_holds false rest
  refine ⟨?_, fun allocator after entries slot regrown failed =>
    ⟨holds.failed allocator after entries slot regrown.holds failed, regrown.single,
      regrown.known⟩⟩
  intro allocator after front entry back slot id regrown swapped restored
  have free : id ∈ allocator.freeList := by
    obtain ⟨-, effect⟩ := regrown.holds.sound.swapIn restored
    rw [effect.was_free]
    exact List.mem_cons_self
  have fewer : (front ++ back).Sublist (front ++ entry :: back) :=
    (List.sublist_cons_self entry back).append_left front
  obtain ⟨single, known⟩ :=
    @Regrown.take _ _ _ _ _ _ { entry with physicalId := id, swapSlot := none } regrown fewer rfl
      free
  exact ⟨holds.moved allocator after front entry back slot id regrown.holds swapped restored,
    single, known⟩

theorem mappingKept_regrown (old : List PhysicalBlockId) (rest : List Holding) :
    MappingKept Allocates true (Regrown old rest) := by
  intro allocator after front replaced back logical id regrown taken
  have free : id ∈ allocator.freeList := by
    obtain ⟨-, effect⟩ := regrown.holds.sound.allocate taken
    rw [effect.was_free]
    exact List.mem_cons_self
  have fewer : (front ++ back).Sublist (front ++ replaced ++ back) :=
    (List.sublist_append_left front replaced).append_right back
  obtain ⟨single, known⟩ :=
    @Regrown.take _ _ _ _ _ _ ⟨logical, id, true, none⟩ regrown fewer rfl free
  exact ⟨mappingKept_allocates false rest allocator after front replaced back logical id
    regrown.holds taken, single, known⟩

/-! ## The calls -/

theorem Kindred.start {Family : Type*} {family : RequestId → Family}
    {keyFamily : String → Family} {manager : KVCacheManager}
    (kindred : manager.Kindred family keyFamily) (covered : manager.Covered false)
    {id : SequenceId} {state : SequenceState} (found : manager.sequences.lookup id = some state) :
    Regrown state.frames (manager.holdingsWithout false id) manager.allocator
      (state.tables.flatMap (·.entries)) :=
  ⟨covered.split found, kindred.single id state found, fun _ inside => Or.inl inside⟩

/-- The tables of one sequence moved. -/
theorem Kindred.regrow {Family : Type*} {family : RequestId → Family}
    {keyFamily : String → Family} {before after : KVCacheManager}
    (kindred : before.Kindred family keyFamily) {id : SequenceId} {state : SequenceState}
    {tables : List BlockTable} (found : before.sequences.lookup id = some state)
    (sequences : after.sequences = before.sequences.insert id { state with tables })
    (prefixIndex : after.prefixIndex = before.prefixIndex)
    (single : (residentFrames (tables.flatMap (·.entries))).Nodup)
    (known : ∀ frame ∈ residentFrames (tables.flatMap (·.entries)), frame ∈ state.frames ∨
      ∀ holding ∈ before.holdingsWithout false id, holding.frame ≠ frame) :
    after.Kindred family keyFamily :=
  kindred.insert sequences ⟨single, kindred.named id state found⟩ (same_records prefixIndex)
    fun frame inside => by
      rcases known frame inside with old | unheld
      · have claim : Claims family keyFamily before frame (family state.metadata.requestId) :=
          .mapped found old
        exact Or.inl claim
      · exact Or.inr unheld

theorem Kindred.createSequence {Family : Type*} {family : RequestId → Family}
    {keyFamily : String → Family} {manager : KVCacheManager}
    (kindred : manager.Kindred family keyFamily) (metadata : SequenceMetadata) :
    (manager.createSequence metadata).2.Kindred family keyFamily := by
  unfold KVCacheManager.createSequence
  split
  · exact kindred
  · have empty : (initialState manager.tableCount metadata).frames = [] := by
      simp [SequenceState.frames, initialState, residentFrames, List.flatMap_replicate,
        BlockTable.create]
    refine @Kindred.insert _ _ _ _ _ kindred _ (initialState manager.tableCount metadata) rfl
      ⟨?_, fun strange => absurd rfl strange⟩ (same_records rfl) ?_
    · rw [empty]
      exact List.nodup_nil
    · rw [empty]
      exact fun frame inside => absurd inside List.not_mem_nil

/-- A branch shares the frames of its parent, so it has to be of the same family. -/
theorem Kindred.forkSequence {Family : Type*} {family : RequestId → Family}
    {keyFamily : String → Family} {manager : KVCacheManager}
    (kindred : manager.Kindred family keyFamily) (parentId : SequenceId)
    (childMetadata : SequenceMetadata)
    (related : ∀ parent, manager.sequences.lookup parentId = some parent →
      family parent.metadata.requestId = family childMetadata.requestId) :
    (manager.forkSequence parentId childMetadata).2.Kindred family keyFamily := by
  unfold KVCacheManager.forkSequence
  cases found : manager.sequences.lookup parentId with
  | none => exact kindred
  | some parent =>
      simp only
      split
      · exact kindred
      · split
        · exact kindred
        · rename_i unswapped
          have whole : anySwapped parent.tables = false := by simpa using unswapped
          have frames : residentFrames ((parent.tables.map fun table =>
              table.fork childMetadata.sequenceId).flatMap (·.entries)) = parent.frames := by
            rw [entries_fork, SequenceState.frames,
              residentFrames_of_resident fun entry member => resident_of_whole whole member,
              residentFrames_of_resident, List.map_map]
            · rfl
            · intro entry member
              obtain ⟨source, source_mem, rfl⟩ := List.mem_map.mp member
              have resident := resident_of_whole whole source_mem
              exact resident
          refine kindred.insert rfl ⟨?_, fun strange => absurd rfl strange⟩ (same_records rfl) ?_
          · rw [SequenceState.frames, frames]
            exact kindred.single parentId parent found
          · intro frame inside
            rw [SequenceState.frames, frames] at inside
            left
            rw [← related parent found]
            exact .mapped found inside

theorem Kindred.reserveTokens {Family : Type*} {family : RequestId → Family}
    {keyFamily : String → Family} {manager : KVCacheManager}
    (kindred : manager.Kindred family keyFamily) (covered : manager.Covered false)
    (sequenceId : SequenceId) (tokenCount : ℕ) :
    (manager.reserveTokens sequenceId tokenCount).2.Kindred family keyFamily := by
  unfold KVCacheManager.reserveTokens
  cases found : manager.sequences.lookup sequenceId with
  | none => exact kindred
  | some state =>
      simp only
      split
      · exact kindred
      · split
        · exact kindred
        · have regrown := reserveTables_rule (mappingKept_regrown _ _) sequenceId
            manager.tokensPerBlock (blocksNeeded tokenCount manager.tokensPerBlock)
            (kindred.start covered found)
          exact kindred.regrow found rfl rfl regrown.single regrown.known

theorem Kindred.swapOutSequence {Family : Type*} {family : RequestId → Family}
    {keyFamily : String → Family} {manager : KVCacheManager}
    (kindred : manager.Kindred family keyFamily) (sound : manager.Sound)
    (covered : manager.Covered false) (sequenceId : SequenceId) :
    (manager.swapOutSequence sequenceId).2.Kindred family keyFamily := by
  unfold KVCacheManager.swapOutSequence
  cases found : manager.sequences.lookup sequenceId with
  | none => exact kindred
  | some state =>
      have regrown := swapOutTables_rule (evictionKept_regrown _ _)
        (fun table member => (sound.regular sequenceId state found table member).indexed)
        (kindred.start covered found)
      exact kindred.regrow found rfl rfl regrown.single regrown.known

theorem Kindred.swapInSequence {Family : Type*} {family : RequestId → Family}
    {keyFamily : String → Family} {manager : KVCacheManager}
    (kindred : manager.Kindred family keyFamily) (sound : manager.Sound)
    (covered : manager.Covered false) (sequenceId : SequenceId) :
    (manager.swapInSequence sequenceId).2.Kindred family keyFamily := by
  unfold KVCacheManager.swapInSequence
  cases found : manager.sequences.lookup sequenceId with
  | none => exact kindred
  | some state =>
      simp only
      split
      · exact kindred
      · split
        · exact kindred
        · have regrown := swapInTables_rule (restorationKept_regrown _ _)
            (fun table member => (sound.regular sequenceId state found table member).indexed)
            (kindred.start covered found)
          exact kindred.regrow found rfl rfl regrown.single regrown.known

theorem Kindred.ensureTokenWritable {Family : Type*} {family : RequestId → Family}
    {keyFamily : String → Family} {manager : KVCacheManager}
    (kindred : manager.Kindred family keyFamily) (sound : manager.Sound)
    (covered : manager.Covered false) (sequenceId : SequenceId) (token layer : ℕ) :
    (manager.ensureTokenWritable sequenceId token layer).2.Kindred family keyFamily := by
  rcases ensureTokenWritable_effect sound sequenceId token layer with
    same | ⟨state, table, index, entry, frame, -, made⟩
  · rw [same]
    exact kindred
  obtain ⟨front, back, old, new⟩ := entries_privatized made.table_eq made.entry_eq frame
  have start := kindred.start covered made.found
  rw [old] at start
  have still : ({ entry with physicalId := frame, writable := true } :
      BlockTableEntry).swapSlot = none := made.resident
  suffices apart : (residentFrames ((privatized state.tables layer table index frame).flatMap
        (·.entries))).Nodup ∧
      ∀ other ∈ residentFrames
          ((privatized state.tables layer table index frame).flatMap (·.entries)),
        other ∈ state.frames ∨
          ∀ holding ∈ manager.holdingsWithout false sequenceId, holding.frame ≠ other from
    kindred.regrow made.found made.sequences made.prefixIndex apart.1 apart.2
  rw [new]
  rcases made.pool with ⟨-, rfl, -⟩ | ⟨taken, taken_eq, -⟩
  · -- The block keeps its frame.
    have frames : residentFrames (front ++ { entry with writable := true } :: back) =
        residentFrames (front ++ entry :: back) := by
      rw [residentFrames_append, residentFrames_append, residentFrames_resident made.resident]
      exact congrArg (residentFrames front ++ ·) (residentFrames_resident still back)
    rw [frames]
    exact ⟨start.single, start.known⟩
  · have fewer : (front ++ back).Sublist (front ++ entry :: back) :=
      (List.sublist_cons_self entry back).append_left front
    refine start.take fewer still ?_
    obtain ⟨-, effect⟩ := start.holds.sound.allocate taken_eq
    rw [effect.was_free]
    exact List.mem_cons_self

theorem Kindred.writeToken {Family : Type*} {family : RequestId → Family}
    {keyFamily : String → Family} {manager : KVCacheManager}
    (kindred : manager.Kindred family keyFamily) (sound : manager.Sound)
    (covered : manager.Covered false) (sequenceId : SequenceId) (token layer : ℕ)
    (stores : List TokenStore) :
    (manager.writeToken sequenceId token layer stores).2.Kindred family keyFamily := by
  have ensured := kindred.ensureTokenWritable sound covered sequenceId token layer
  unfold KVCacheManager.writeToken
  rcases run_eq : manager.ensureTokenWritable sequenceId token layer with ⟨_ | frame, after⟩
  · rwa [run_eq] at ensured
  · rw [run_eq] at ensured
    exact ensured.still rfl rfl

/-! ## Prefixes -/

/-- The sequence is the root of a request of the family of the key. -/
def KeyedBy {Family : Type*} (family : RequestId → Family) (keyFamily : String → Family)
    (manager : KVCacheManager) (sequenceId : SequenceId) (key : String) : Prop :=
  ∀ state, manager.sequences.lookup sequenceId = some state →
    sequenceId = state.metadata.requestId ∧ family state.metadata.requestId = keyFamily key

/-- The records under a key with one more user of a hash: of the record it has, or of a new record
that pins the frames. -/
inductive Recorded (frames : List PhysicalBlockId) (before : List PrefixRecord) (hash : UInt64) :
    List PrefixRecord → Prop
  | joined {front back : List PrefixRecord} {existing : PrefixRecord}
      (records : before = front ++ existing :: back) (same : existing.contentHash = hash) :
      Recorded frames before hash
        (front ++ { existing with users := wrap32 (existing.users + 1) } :: back)
  | opened {record : PrefixRecord} (missing : ∀ other ∈ before, other.contentHash ≠ hash)
      (same : record.contentHash = hash) (pins : record.physicalIds = frames) :
      Recorded frames before hash (before ++ [record])

theorem Recorded.stems {frames : List PhysicalBlockId} {before after : List PrefixRecord}
    {hash : UInt64} (recorded : Recorded frames before hash after) :
    ∀ record ∈ after,
      (∃ old ∈ before, record.physicalIds = old.physicalIds ∧
        record.contentHash = old.contentHash) ∨
      record.physicalIds = frames ∧ record.contentHash = hash := by
  intro record member
  cases recorded with
  | @joined front back existing records same =>
      have inside (old : PrefixRecord) (member : old ∈ front ++ existing :: back) : old ∈ before :=
        records ▸ member
      rcases List.mem_append.mp member with early | late
      · exact Or.inl ⟨record, inside _ (List.mem_append_left _ early), rfl, rfl⟩
      · rcases List.mem_cons.mp late with rfl | late
        · exact Or.inl ⟨existing, inside _ (by simp), rfl, rfl⟩
        · exact Or.inl ⟨record, inside _ (by simp [late]), rfl, rfl⟩
  | opened missing same pins =>
      rcases List.mem_append.mp member with old | new
      · exact Or.inl ⟨record, old, rfl, rfl⟩
      · rw [List.mem_singleton.mp new]
        exact Or.inr ⟨pins, same⟩

theorem Recorded.distinct {frames : List PhysicalBlockId} {before after : List PrefixRecord}
    {hash : UInt64} (recorded : Recorded frames before hash after)
    (distinct : (before.map (·.contentHash)).Nodup) : (after.map (·.contentHash)).Nodup := by
  cases recorded with
  | joined records same =>
      rw [records] at distinct
      simpa using distinct
  | @opened record missing same pins =>
      rw [List.map_append, List.nodup_append]
      refine ⟨distinct, List.nodup_singleton _, fun other old other' new equal => ?_⟩
      obtain ⟨found, member, rfl⟩ := List.mem_map.mp old
      obtain rfl : other' = record.contentHash := by simpa using new
      exact missing found member (equal.trans same)

/-- A sequence is known by a key from now on, perhaps with new tables. -/
structure Renamed (before after : KVCacheManager) (id : SequenceId) (key : String)
    (state state' : SequenceState) (records : List PrefixRecord) : Prop where
  found : before.sequences.lookup id = some state
  keyed : key ≠ ""
  key_eq : state'.prefixKey = key
  metadata : state'.metadata = state.metadata
  sequences : after.sequences = before.sequences.insert id state'
  prefixIndex : after.prefixIndex = before.prefixIndex.insert key records
  recorded : Recorded state'.frames (before.recordsAt key) state'.prefixHash records

/-- Where the records of the state come from. -/
theorem Renamed.stems {before after : KVCacheManager} {id : SequenceId} {key : String}
    {state state' : SequenceState} {records : List PrefixRecord}
    (renamed : Renamed before after id key state state' records) :
    ∀ other, ∀ record ∈ after.recordsAt other,
      (∃ old ∈ before.recordsAt other, record.physicalIds = old.physicalIds ∧
        record.contentHash = old.contentHash) ∨
      other = key ∧ record.physicalIds = state'.frames ∧
        record.contentHash = state'.prefixHash := by
  intro other record member
  by_cases same : other = key
  · rw [recordsAt, renamed.prefixIndex, same, AList.lookup_insert] at member
    rcases renamed.recorded.stems record member with old | new
    · exact Or.inl (same ▸ old)
    · exact Or.inr ⟨same, new⟩
  · rw [recordsAt, renamed.prefixIndex, AList.lookup_insert_ne same] at member
    exact Or.inl ⟨record, member, rfl, rfl⟩

theorem Kindred.renamed {Family : Type*} {family : RequestId → Family}
    {keyFamily : String → Family} {before after : KVCacheManager} {id : SequenceId} {key : String}
    {state state' : SequenceState} {records : List PrefixRecord}
    (kindred : before.Kindred family keyFamily)
    (renamed : Renamed before after id key state state' records)
    (keyed : before.KeyedBy family keyFamily id key) (single : state'.frames.Nodup)
    (known : ∀ frame ∈ state'.frames,
      Claims family keyFamily before frame (family state'.metadata.requestId)) :
    after.Kindred family keyFamily := by
  have root := keyed state renamed.found
  rw [← renamed.metadata] at root
  refine kindred.insert renamed.sequences ⟨single, fun _ => ?_⟩ ?_
    fun frame inside => Or.inl (known frame inside)
  · rw [renamed.key_eq]
    exact root
  · intro other record member
    rcases renamed.stems other record member with ⟨old, old_mem, same, -⟩ | ⟨rfl, same, -⟩
    · exact Or.inl ⟨old, old_mem, same⟩
    · exact Or.inr ⟨same, root.2.symm⟩

theorem publishPrefix_renamed (manager : KVCacheManager) (sequenceId : SequenceId)
    (key : String) :
    (manager.publishPrefix sequenceId key).2 = manager ∨
      ∃ state state' records, Renamed manager (manager.publishPrefix sequenceId key).2 sequenceId
          key state state' records ∧
        state'.tables = state.tables ∧ state.prefixKey ≠ key := by
  unfold publishPrefix
  split
  · exact Or.inl rfl
  rename_i keyed
  split
  · exact Or.inl rfl
  rename_i state found
  split
  · exact Or.inl rfl
  split
  · exact Or.inl rfl
  rename_i different
  split
  · exact Or.inl rfl
  split
  · exact Or.inl rfl
  rename_i unswapped
  have whole : anySwapped state.tables = false := by simpa using unswapped
  have frames : physicalIdsOf state.tables = state.frames :=
    (physicalIdsOf_eq state.tables).trans (residentFrames_of_resident
      fun entry member => resident_of_whole whole member).symm
  let named : SequenceState :=
    { state with prefixKey := key, prefixHash := manager.contentHashOf state.tables }
  simp only
  split
  · rename_i existing rest search
    obtain ⟨records, same, -⟩ := records_split search
    exact Or.inr ⟨state, named, _, ⟨found, keyed, rfl, rfl, rfl, rfl, .joined records same⟩, rfl,
      different⟩
  · rename_i search
    exact Or.inr ⟨state, named, _, ⟨found, keyed, rfl, rfl, rfl, rfl,
      .opened (records_missing search) rfl frames⟩, rfl, different⟩

theorem Kindred.publishPrefix {Family : Type*} {family : RequestId → Family}
    {keyFamily : String → Family} {manager : KVCacheManager}
    (kindred : manager.Kindred family keyFamily) {sequenceId : SequenceId} {key : String}
    (keyed : manager.KeyedBy family keyFamily sequenceId key) :
    (manager.publishPrefix sequenceId key).2.Kindred family keyFamily := by
  rcases manager.publishPrefix_renamed sequenceId key with
    same | ⟨state, state', records, renamed, tables, -⟩
  · rw [same]
    exact kindred
  · have frames : state'.frames = state.frames := by
      rw [SequenceState.frames, SequenceState.frames, tables]
    refine kindred.renamed renamed keyed ?_ fun frame inside => ?_
    · rw [frames]
      exact kindred.single sequenceId state renamed.found
    · rw [renamed.metadata]
      exact .mapped renamed.found (frames ▸ inside)

/-- Attaching maps the frames of the only record under the key. -/
theorem attachPrefix_renamed {manager : KVCacheManager} (accounted : manager.Accounted)
    (sequenceId : SequenceId) (key : String) :
    manager.attachPrefix sequenceId key = (0, manager) ∨
      ∃ after state state' record records,
        manager.attachPrefix sequenceId key = (record.tokenCount, after) ∧
        Renamed manager after sequenceId key state state' records ∧
        state.textTable.entries = [] ∧ record ∈ manager.recordsAt key ∧
        (∀ entry ∈ state'.tables.flatMap BlockTable.entries, entry.swapSlot = none) ∧
        state'.frames.Perm record.physicalIds := by
  simp only [KVCacheManager.attachPrefix]
  split
  · exact Or.inl rfl
  rename_i keyed
  cases found : manager.sequences.lookup sequenceId with
  | none => exact Or.inl rfl
  | some state =>
      simp only
      split
      · exact Or.inl rfl
      · rename_i unmapped
        have text_empty : state.textTable.entries = [] := by simpa using unmapped
        have tabled := accounted.tabled sequenceId state found
        have empty := tabled.front text_empty
        split
        · rename_i record only
          split
          · exact Or.inl rfl
          · split
            · exact Or.inl rfl
            · rename_i divides
              have total : record.physicalIds.length =
                  record.physicalIds.length / state.tables.length * state.tables.length := by
                have exact_share := Nat.div_add_mod record.physicalIds.length state.tables.length
                rw [not_not.mp divides, Nat.mul_comm] at exact_share
                exact exact_share.symm
              have room : record.physicalIds.length / state.tables.length ≤ 2 ^ 32 := by
                apply Nat.div_le_of_le_mul
                rw [tabled.count]
                exact accounted.records key _ only record (by simp)
              obtain ⟨added, run_eq, attached⟩ := attachTables_spec sequenceId
                manager.tokensPerBlock (record.physicalIds.length / state.tables.length)
                record.physicalIds manager.allocator state.tables empty total room
              have entries := entries_extendAll attached.lengths
              rw [List.flatMap_eq_nil_iff.mpr empty, List.append_nil] at entries
              have resident (entry : BlockTableEntry)
                  (member : entry ∈ (extendAll state.tables added).flatMap (·.entries)) :
                  entry.swapSlot = none := attached.resident entry (entries.mem_iff.mp member)
              have frames := entries.map (·.physicalId)
              rw [attached.physical, ← residentFrames_of_resident resident] at frames
              have records : manager.recordsAt key = [] ++ record :: [] := by
                simp [recordsAt, only]
              let named : SequenceState :=
                { state with
                  tables := extendAll state.tables added
                  prefixKey := key
                  prefixHash := record.contentHash }
              simp only [run_eq]
              exact Or.inr ⟨_, state, named, record, _, rfl,
                ⟨found, keyed, rfl, rfl, rfl, rfl, .joined records rfl⟩, text_empty,
                by rw [records]; exact List.mem_cons_self, resident, frames⟩
        · exact Or.inl rfl

theorem Kindred.attachPrefix {Family : Type*} {family : RequestId → Family}
    {keyFamily : String → Family} {manager : KVCacheManager}
    (kindred : manager.Kindred family keyFamily) (accounted : manager.Accounted)
    {sequenceId : SequenceId} {key : String}
    (keyed : manager.KeyedBy family keyFamily sequenceId key) :
    (manager.attachPrefix sequenceId key).2.Kindred family keyFamily := by
  rcases attachPrefix_renamed accounted sequenceId key with
    same | ⟨after, state, state', record, records, run_eq, renamed, -, recorded, -, frames⟩
  · rw [same]
    exact kindred
  rw [run_eq]
  refine kindred.renamed renamed keyed ?_ fun frame inside => ?_
  · exact frames.nodup_iff.mpr (kindred.records key record recorded)
  · rw [renamed.metadata, (keyed state renamed.found).2]
    exact .pinned recorded (frames.mem_iff.mp inside)

/-! ## Releasing -/

/-- Dropping a user leaves the frames of the records that stay. -/
theorem UserDropped.recordsAt {before after : KVCacheManager} {key : String} {hash : UInt64}
    {freed : List PhysicalBlockId}
    (dropped : UserDropped before.prefixIndex after.prefixIndex key hash freed) (other : String) :
    ∀ record ∈ after.recordsAt other,
      ∃ old ∈ before.recordsAt other, record.physicalIds = old.physicalIds := by
  -- What holds of the records under the key of the sequence.
  have inserted {records kept : List PrefixRecord}
      (found : before.prefixIndex.lookup key = some records)
      (stems : ∀ record ∈ kept, ∃ old ∈ records, record.physicalIds = old.physicalIds) :
      ∀ record ∈ ((before.prefixIndex.insert key kept).lookup other).getD [],
        ∃ old ∈ before.recordsAt other, record.physicalIds = old.physicalIds := by
    intro record member
    by_cases same : other = key
    · rw [same, AList.lookup_insert] at member
      rw [KVCacheManager.recordsAt, same, found]
      exact stems record member
    · rw [AList.lookup_insert_ne same] at member
      exact ⟨record, member, rfl⟩
  intro record member
  rw [KVCacheManager.recordsAt] at member
  cases dropped with
  | missing _ same =>
      rw [same] at member
      exact ⟨record, member, rfl⟩
  | @kept front back dropped _ found _ _ _ same =>
      rw [same] at member
      refine inserted found (fun kept inside => ?_) record member
      rcases List.mem_append.mp inside with early | late
      · exact ⟨kept, List.mem_append_left _ early, rfl⟩
      · rcases List.mem_cons.mp late with rfl | late
        · exact ⟨dropped, by simp, rfl⟩
        · exact ⟨kept, List.mem_append_right _ (List.mem_cons_of_mem _ late), rfl⟩
  | @last front back dropped _ found _ _ _ same =>
      rw [same] at member
      split at member
      · by_cases this : other = key
        · rw [this, AList.lookup_erase] at member
          exact absurd member List.not_mem_nil
        · rw [AList.lookup_erase_ne this] at member
          exact ⟨record, member, rfl⟩
      · refine inserted found (fun kept inside => ?_) record member
        refine ⟨kept, ?_, rfl⟩
        rcases List.mem_append.mp inside with early | late
        · exact List.mem_append_left _ early
        · exact List.mem_append_right _ (List.mem_cons_of_mem _ late)

theorem Kindred.releaseSequence {Family : Type*} {family : RequestId → Family}
    {keyFamily : String → Family} {manager : KVCacheManager}
    (kindred : manager.Kindred family keyFamily) (sequenceId : SequenceId) :
    (manager.releaseSequence sequenceId).Kindred family keyFamily := by
  unfold KVCacheManager.releaseSequence
  cases found : manager.sequences.lookup sequenceId with
  | none => exact kindred
  | some state =>
      obtain ⟨freed, dropped, -, sequences, -⟩ := dropPrefixUser_cases manager state
      have stems := dropped.recordsAt
      simp only
      generalize last : ({ (KVCacheManager.unindexSequence _ state.metadata.requestId sequenceId)
        with sequences := _ } : KVCacheManager) = after
      have rest : after.sequences = manager.sequences.erase sequenceId := by
        rw [← last]
        simp [sequences]
      have index : after.prefixIndex = (manager.dropPrefixUser state).1.prefixIndex := by
        rw [← last]
        simp
      have recordsAt_eq (key : String) :
          after.recordsAt key = (manager.dropPrefixUser state).1.recordsAt key := by
        rw [KVCacheManager.recordsAt, KVCacheManager.recordsAt, index]
      have older {id : SequenceId} {kept : SequenceState}
          (lookup : after.sequences.lookup id = some kept) :
          manager.sequences.lookup id = some kept := by
        rw [rest] at lookup
        by_cases same : id = sequenceId
        · rw [same, AList.lookup_erase] at lookup
          exact absurd lookup (Option.some_ne_none _).symm
        · rwa [AList.lookup_erase_ne same] at lookup
      have claims (frame : PhysicalBlockId) (owner : Family)
          (claim : Claims family keyFamily after frame owner) :
          Claims family keyFamily manager frame owner := by
        cases claim with
        | mapped lookup inside => exact .mapped (older lookup) inside
        | @pinned key record recorded inside =>
            obtain ⟨old, old_mem, same⟩ := stems key record (recordsAt_eq key ▸ recorded)
            exact .pinned old_mem (same ▸ inside)
      constructor
      case kin =>
        exact fun frame first second left right =>
          kindred.kin frame first second (claims frame first left) (claims frame second right)
      case single => exact fun id kept lookup => kindred.single id kept (older lookup)
      case records =>
        intro key record recorded
        obtain ⟨old, old_mem, same⟩ := stems key record (recordsAt_eq key ▸ recorded)
        rw [same]
        exact kindred.records key old old_mem
      case named => exact fun id kept lookup => kindred.named id kept (older lookup)

/-! ## Counting -/

theorem mappings_eq_count (manager : KVCacheManager) (frame : PhysicalBlockId) :
    manager.mappings frame =
      (manager.sequences.gather fun _ state => state.frames).count frame := by
  have one (entries : List BlockTableEntry) :
      (entries.countP fun entry => entry.swapSlot.isNone && entry.physicalId == frame) =
        (residentFrames entries).count frame := by
    rw [residentFrames, List.count, List.countP_map, List.countP_filter]
    refine List.countP_congr fun entry _ => ?_
    simp [and_comm]
  rw [mappings, liveEntries, one]
  simp only [AList.gather, residentFrames, SequenceState.frames, List.filter_flatMap,
    List.map_flatMap]

/-- Sequences of the requests of a family are at least as many as the mappings of its frame. -/
theorem Kindred.mappings_le {Family : Type*} [DecidableEq Family] {family : RequestId → Family}
    {keyFamily : String → Family} {manager : KVCacheManager}
    (kindred : manager.Kindred family keyFamily) (listed : manager.Listed) {ids : List RequestId}
    (covers : ∀ id, manager.sequencesFor id ≠ [] → id ∈ ids) {frame : PhysicalBlockId}
    {owner : Family}
    (owned : ∀ other, Claims family keyFamily manager frame other → other = owner) :
    manager.mappings frame ≤
      ((ids.filter fun id => family id = owner).map fun id =>
        (manager.sequencesFor id).length).sum := by
  have counted : (manager.sequences.gather fun _ state => state.frames).count frame ≤
      (manager.sequences.gather fun id state =>
        if frame ∈ state.frames then [id] else []).length := by
    refine AList.count_gather_le fun id state found => ?_
    split
    · exact List.nodup_iff_count_le_one.mp (kindred.single id state found) frame
    · rename_i outside
      rw [List.count_eq_zero_of_not_mem outside]
      exact Nat.zero_le _
  have mappers : (manager.sequences.gather fun id state =>
      if frame ∈ state.frames then [id] else []).Nodup := by
    refine AList.nodup_gather id (fun key state _ => ?_) fun key state _ item inside => ?_
    · split
      · exact List.nodup_singleton _
      · exact List.nodup_nil
    · split at inside
      · exact List.mem_singleton.mp inside
      · exact absurd inside List.not_mem_nil
  have inside : (manager.sequences.gather fun id state =>
      if frame ∈ state.frames then [id] else []) ⊆
        (ids.filter fun id => family id = owner).flatMap manager.sequencesFor := by
    intro id member
    obtain ⟨key, state, found, marked⟩ := AList.mem_gather.mp member
    split at marked
    · rename_i maps
      obtain rfl := List.mem_singleton.mp marked
      have listing : id ∈ manager.sequencesFor state.metadata.requestId :=
        (listed.members _ _).mpr ⟨state, found, rfl⟩
      refine List.mem_flatMap.mpr ⟨state.metadata.requestId, List.mem_filter.mpr ⟨?_, ?_⟩, listing⟩
      · exact covers _ (List.ne_nil_of_mem listing)
      · exact decide_eq_true (owned _ (.mapped found maps))
    · exact absurd marked List.not_mem_nil
  calc
    manager.mappings frame = (manager.sequences.gather fun _ state => state.frames).count frame :=
      manager.mappings_eq_count frame
    _ ≤ (manager.sequences.gather fun id state =>
        if frame ∈ state.frames then [id] else []).length := counted
    _ ≤ ((ids.filter fun id => family id = owner).flatMap manager.sequencesFor).length :=
      (List.subperm_of_subset mappers inside).length_le
    _ = ((ids.filter fun id => family id = owner).map fun id =>
        (manager.sequencesFor id).length).sum := List.length_flatMap

/-- Every record has a key and its own hash there, and a live sequence is known by both. -/
structure RecordsNamed (manager : KVCacheManager) : Prop where
  keyed : ∀ key, ∀ record ∈ manager.recordsAt key, key ≠ ""
  distinct : ∀ key, ((manager.recordsAt key).map (·.contentHash)).Nodup
  named : ∀ key, ∀ record ∈ manager.recordsAt key, ∃ id state,
    manager.sequences.lookup id = some state ∧ state.prefixKey = key ∧
      state.prefixHash = record.contentHash

theorem Pinned.recordsNamed {manager : KVCacheManager} (pinned : manager.Pinned) :
    manager.RecordsNamed := by
  have keyed (key : String) (record : PrefixRecord) (recorded : record ∈ manager.recordsAt key) :
      key ≠ "" := (pinned.keyed key _ (found_of_recorded recorded)).1
  refine ⟨keyed, pinned.distinct, fun key record recorded => ?_⟩
  have users := pinned.counted key (keyed key record recorded) record.contentHash
  rw [usersIn_eq_of_mem (pinned.distinct key) recorded] at users
  have used := pinned.used key record recorded
  rw [users] at used
  obtain ⟨id, state, lookup, about⟩ := AList.mem_gather.mp (List.count_pos_iff.mp used)
  obtain ⟨same_key, same_hash⟩ := Prod.mk.inj (List.mem_singleton.mp about)
  exact ⟨id, state, lookup, same_key.symm, same_hash.symm⟩

/-- No sequence lost its name, and the records stayed. -/
theorem RecordsNamed.keep {before after : KVCacheManager} (named : before.RecordsNamed)
    (prefixIndex : after.prefixIndex = before.prefixIndex)
    (names : ∀ id state, before.sequences.lookup id = some state → ∃ state',
      after.sequences.lookup id = some state' ∧ state'.prefixKey = state.prefixKey ∧
        state'.prefixHash = state.prefixHash) : after.RecordsNamed := by
  have records (key : String) : after.recordsAt key = before.recordsAt key := by
    rw [recordsAt, recordsAt, prefixIndex]
  refine ⟨fun key record recorded => ?_, fun key => ?_, fun key record recorded => ?_⟩
  · exact named.keyed key record (records key ▸ recorded)
  · rw [records]
    exact named.distinct key
  · rw [records] at recorded
    obtain ⟨id, state, found, key_eq, hash_eq⟩ := named.named key record recorded
    obtain ⟨state', found', same_key, same_hash⟩ := names id state found
    exact ⟨id, state', found', same_key.trans key_eq, same_hash.trans hash_eq⟩

theorem RecordsNamed.renamed {before after : KVCacheManager} {id : SequenceId} {key : String}
    {state state' : SequenceState} {records : List PrefixRecord} (named : before.RecordsNamed)
    (renamed : Renamed before after id key state state' records) (unnamed : state.prefixKey = "") :
    after.RecordsNamed := by
  have found : after.sequences.lookup id = some state' := by
    rw [renamed.sequences, AList.lookup_insert]
  refine ⟨fun other record recorded => ?_, fun other => ?_, fun other record recorded => ?_⟩
  · rcases renamed.stems other record recorded with ⟨old, old_mem, -⟩ | ⟨rfl, -⟩
    · exact named.keyed other old old_mem
    · exact renamed.keyed
  · rw [recordsAt, renamed.prefixIndex]
    by_cases same : other = key
    · rw [same, AList.lookup_insert]
      exact renamed.recorded.distinct (named.distinct key)
    · rw [AList.lookup_insert_ne same]
      exact named.distinct other
  · rcases renamed.stems other record recorded with ⟨old, old_mem, -, same⟩ | ⟨rfl, -, same⟩
    · obtain ⟨known, kept, lookup, key_eq, hash_eq⟩ := named.named other old old_mem
      -- The sequence had no name, so it is not the one that names the record.
      have different : known ≠ id := by
        rintro rfl
        obtain rfl := Option.some.inj (renamed.found.symm.trans lookup)
        exact named.keyed other old old_mem (key_eq.symm.trans unnamed)
      refine ⟨known, kept, ?_, key_eq, hash_eq.trans same.symm⟩
      rw [renamed.sequences, AList.lookup_insert_ne different, lookup]
    · exact ⟨id, state', found, renamed.key_eq, same.symm⟩

/-- Sequences of the family that are known by a prefix key. -/
def sharers {Family : Type*} [DecidableEq Family] (family : RequestId → Family) (owner : Family)
    (manager : KVCacheManager) : List SequenceId :=
  manager.sequences.gather fun id state =>
    if state.prefixKey ≠ "" ∧ family state.metadata.requestId = owner then [id] else []

/-- Only the root of a request is known by a prefix key. -/
theorem Kindred.sharers_le {Family : Type*} [DecidableEq Family] {family : RequestId → Family}
    {keyFamily : String → Family} {manager : KVCacheManager}
    (kindred : manager.Kindred family keyFamily) (listed : manager.Listed) {ids : List RequestId}
    (covers : ∀ id, manager.sequencesFor id ≠ [] → id ∈ ids) {shares : RequestId → Bool}
    (sharing : ∀ id key, key ≠ "" → family id = keyFamily key → shares id = true)
    (owner : Family) :
    (manager.sharers family owner).length ≤ (ids.filter fun id => family id = owner).countP shares
    := by
  have distinct : (manager.sharers family owner).Nodup := by
    refine AList.nodup_gather id (fun key state _ => ?_) fun key state _ item inside => ?_
    · split
      · exact List.nodup_singleton _
      · exact List.nodup_nil
    · split at inside
      · exact List.mem_singleton.mp inside
      · exact absurd inside List.not_mem_nil
  have rooted : manager.sharers family owner ⊆
      (ids.filter fun id => family id = owner).filter shares := by
    intro id member
    obtain ⟨key, state, lookup, marked⟩ := AList.mem_gather.mp member
    split at marked
    · rename_i mine
      obtain rfl := List.mem_singleton.mp marked
      obtain ⟨keyed, family_eq⟩ := mine
      obtain ⟨root, related⟩ := kindred.named id state lookup keyed
      have listing : id ∈ manager.sequencesFor state.metadata.requestId :=
        (listed.members _ _).mpr ⟨state, lookup, rfl⟩
      rw [root]
      refine List.mem_filter.mpr ⟨List.mem_filter.mpr ⟨?_, decide_eq_true family_eq⟩, ?_⟩
      · exact covers _ (List.ne_nil_of_mem listing)
      · exact sharing _ _ keyed related
    · exact absurd marked List.not_mem_nil
  calc
    (manager.sharers family owner).length ≤
        ((ids.filter fun id => family id = owner).filter shares).length :=
      (List.subperm_of_subset distinct rooted).length_le
    _ = (ids.filter fun id => family id = owner).countP shares :=
      List.countP_eq_length_filter.symm

/-- A name has no more users than its family has roots that may share. -/
theorem Kindred.users_le {Family : Type*} [DecidableEq Family] {family : RequestId → Family}
    {keyFamily : String → Family} {manager : KVCacheManager}
    (kindred : manager.Kindred family keyFamily) (listed : manager.Listed) {ids : List RequestId}
    (covers : ∀ id, manager.sequencesFor id ≠ [] → id ∈ ids) {shares : RequestId → Bool}
    (sharing : ∀ id key, key ≠ "" → family id = keyFamily key → shares id = true) {key : String}
    (keyed : key ≠ "") (hash : UInt64) :
    manager.usersOf key hash ≤
      (ids.filter fun id => family id = keyFamily key).countP shares := by
  have sharers := kindred.sharers_le listed covers sharing (keyFamily key)
  refine le_trans ?_ sharers
  unfold usersOf names KVCacheManager.sharers
  refine AList.count_gather_le fun id state found => ?_
  by_cases same : (state.prefixKey, state.prefixHash) = (key, hash)
  · obtain ⟨key_eq, -⟩ := Prod.mk.inj same
    have known : state.prefixKey ≠ "" := key_eq ▸ keyed
    have mine : state.prefixKey ≠ "" ∧ family state.metadata.requestId = keyFamily key :=
      ⟨known, key_eq ▸ (kindred.named id state found known).2⟩
    rw [if_pos mine]
    exact List.count_le_length
  · rw [List.count_singleton, if_neg (by simpa using same)]
    exact Nat.zero_le _

/-- Every record that pins a frame is known by a sequence of the family of the frame. -/
theorem Kindred.pins_le {Family : Type*} [DecidableEq Family] {family : RequestId → Family}
    {keyFamily : String → Family} {manager : KVCacheManager}
    (kindred : manager.Kindred family keyFamily) (named : manager.RecordsNamed)
    {frame : PhysicalBlockId} {owner : Family}
    (owned : ∀ other, Claims family keyFamily manager frame other → other = owner) :
    manager.pinnedIds.count frame ≤ (manager.sharers family owner).length := by
  -- The records that pin the frame, by what they are known by.
  let pinners := manager.prefixIndex.gather fun key records =>
    (records.filter fun record => frame ∈ record.physicalIds).map fun record =>
      (key, record.contentHash)
  -- The names that the sequences of the family hold.
  let held := manager.sequences.gather fun _ state =>
    if state.prefixKey ≠ "" ∧ family state.metadata.requestId = owner then
      [(state.prefixKey, state.prefixHash)]
    else []
  have counted : manager.pinnedIds.count frame ≤ pinners.length := by
    refine AList.count_gather_le fun key records found => ?_
    have single := kindred.records key
    rw [recordsAt_found found] at single
    rw [List.count_flatMap, List.length_map, ← List.countP_eq_length_filter]
    clear found
    induction records with
    | nil => exact le_rfl
    | cons record rest induction =>
        have once := List.nodup_iff_count_le_one.mp (single record List.mem_cons_self) frame
        have others := induction fun other member => single other (List.mem_cons_of_mem _ member)
        rw [List.map_cons, List.sum_cons, List.countP_cons]
        by_cases inside : frame ∈ record.physicalIds
        · simp only [inside, decide_true, if_true]
          simp only [Function.comp_apply] at others ⊢
          omega
        · have none_here := List.count_eq_zero_of_not_mem inside
          simp only [inside, decide_false, Bool.false_eq_true, if_false]
          simp only [Function.comp_apply] at others ⊢
          omega
  have distinct : pinners.Nodup := by
    refine AList.nodup_gather Prod.fst (fun key records found => ?_)
      fun key records _ item inside => ?_
    · have hashes := named.distinct key
      rw [recordsAt_found found] at hashes
      refine List.Nodup.map_on ?_ ((List.Nodup.of_map _ hashes).filter _)
      intro first first_mem second second_mem same
      exact List.inj_on_of_nodup_map hashes (List.mem_filter.mp first_mem).1
        (List.mem_filter.mp second_mem).1 (Prod.mk.inj same).2
    · obtain ⟨record, -, rfl⟩ := List.mem_map.mp inside
      rfl
  have known : pinners ⊆ held := by
    intro name inside
    obtain ⟨key, records, found, listed_name⟩ := AList.mem_gather.mp inside
    obtain ⟨record, member, rfl⟩ := List.mem_map.mp listed_name
    obtain ⟨member, pins⟩ := List.mem_filter.mp member
    rw [← recordsAt_found found] at member
    obtain ⟨id, state, lookup, rfl, same_hash⟩ := named.named key record member
    have keyed := named.keyed _ record member
    refine AList.mem_gather.mpr ⟨id, state, lookup, ?_⟩
    have mine : state.prefixKey ≠ "" ∧ family state.metadata.requestId = owner := by
      refine ⟨keyed, ?_⟩
      rw [(kindred.named id state lookup keyed).2]
      exact owned _ (.pinned member (of_decide_eq_true pins))
    rw [if_pos mine, ← same_hash]
    exact List.mem_singleton_self _
  calc
    manager.pinnedIds.count frame ≤ pinners.length := counted
    _ ≤ held.length := (List.subperm_of_subset distinct known).length_le
    _ = (manager.sharers family owner).length := by
      simp only [held, sharers, AList.gather, List.length_flatMap]
      refine congrArg List.sum (List.map_congr_left fun entry _ => ?_)
      split
      · rfl
      · rfl

/-- A frame has no more references than its family has sequences, and one for each root that may
share its prefix. -/
theorem Kindred.references_le {Family : Type*} [DecidableEq Family] {family : RequestId → Family}
    {keyFamily : String → Family} {manager : KVCacheManager}
    (kindred : manager.Kindred family keyFamily) (named : manager.RecordsNamed)
    (listed : manager.Listed) {ids : List RequestId}
    (covers : ∀ id, manager.sequencesFor id ≠ [] → id ∈ ids) {shares : RequestId → Bool}
    (sharing : ∀ id key, key ≠ "" → family id = keyFamily key → shares id = true)
    (frame : PhysicalBlockId) :
    manager.references frame = 0 ∨ ∃ owner, manager.references frame ≤
      ((ids.filter fun id => family id = owner).map fun id =>
        (manager.sequencesFor id).length + if shares id then 1 else 0).sum := by
  by_cases claimed : ∃ owner, Claims family keyFamily manager frame owner
  · obtain ⟨owner, claim⟩ := claimed
    have owned (other : Family) (claim' : Claims family keyFamily manager frame other) :
        other = owner := kindred.kin frame other owner claim' claim
    refine Or.inr ⟨owner, ?_⟩
    have mapped := kindred.mappings_le listed covers owned
    have pins := (kindred.pins_le named owned).trans
      (kindred.sharers_le listed covers sharing owner)
    have split : ((ids.filter fun id => family id = owner).map fun id =>
        (manager.sequencesFor id).length + if shares id then 1 else 0).sum =
          ((ids.filter fun id => family id = owner).map fun id =>
            (manager.sequencesFor id).length).sum +
            (ids.filter fun id => family id = owner).countP shares := by
      generalize ids.filter (fun id => family id = owner) = members
      induction members with
      | nil => rfl
      | cons id rest induction =>
          simp only [List.map_cons, List.sum_cons, List.countP_cons, induction]
          omega
    rw [references, split]
    exact Nat.add_le_add mapped pins
  · left
    have unmapped : manager.mappings frame = 0 := by
      rw [mappings_eq_count, List.count_eq_zero]
      intro inside
      obtain ⟨id, state, found, maps⟩ := AList.mem_gather.mp inside
      exact claimed ⟨_, .mapped found maps⟩
    have unpinned : manager.pinnedIds.count frame = 0 := by
      rw [List.count_eq_zero]
      intro inside
      obtain ⟨key, records, found, record, member, pins⟩ := mem_pinnedIds.mp inside
      rw [← recordsAt_found found] at member
      exact claimed ⟨_, .pinned member pins⟩
    rw [references, unmapped, unpinned]

end KVCacheManager
end QwenVLPaged
