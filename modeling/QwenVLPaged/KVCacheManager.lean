import QwenVLPaged.BlockTable
import QwenVLPaged.MemoryAllocator

/-!
# The cache manager

Sequence cache lifecycle above the allocator: block tables are created, grown, forked, swapped,
published as prefixes and released. Every operation returns what the source returns together with
the new state. Multimodal spans and positional metadata are carried along unread by the source and
are left out here.
-/

namespace QwenVLPaged

/-- Metadata required to create a sequence. -/
structure SequenceMetadata where
  sequenceId : SequenceId
  requestId : RequestId
  deriving DecidableEq

/-- State of one live sequence. -/
structure SequenceState where
  metadata : SequenceMetadata
  tables : List BlockTable
  prefixKey : String
  prefixHash : UInt64
  deriving DecidableEq

/-- The first table of a sequence. -/
def SequenceState.textTable (state : SequenceState) : BlockTable :=
  state.tables.headD (.create state.metadata.sequenceId)

theorem SequenceState.textTable_mem_of_pos {state : SequenceState}
    (nonempty : 0 < state.tables.length) : state.textTable ∈ state.tables := by
  unfold SequenceState.textTable
  cases tables : state.tables with
  | nil => simp [tables] at nonempty
  | cons table others => exact List.mem_cons_self

theorem SequenceState.textTable_mem {state : SequenceState} {entry : BlockTableEntry}
    (member : entry ∈ state.textTable.entries) : state.textTable ∈ state.tables := by
  apply textTable_mem_of_pos
  rw [List.length_pos_iff]
  intro none
  simp [SequenceState.textTable, none, BlockTable.create] at member

/-- One published prefix. -/
structure PrefixRecord where
  contentHash : UInt64
  tokenCount : ℕ
  users : ℕ
  physicalIds : List PhysicalBlockId
  deriving DecidableEq

/-- The cache manager together with the allocator it points to. -/
structure KVCacheManager where
  allocator : MemoryAllocator
  sequences : AList fun _ : SequenceId => SequenceState
  sequencesByRequest : AList fun _ : RequestId => List SequenceId
  prefixIndex : AList fun _ : String => List PrefixRecord

namespace KVCacheManager

/-- A manager over the supplied allocator. -/
def create (allocator : MemoryAllocator) : KVCacheManager := ⟨allocator, ∅, ∅, ∅⟩

/-- Shape of the pool's frames. -/
def poolShape (manager : KVCacheManager) : BlockShape :=
  match manager.allocator.block 0 with
  | none => .empty
  | some block => block.shape

/-- Number of block tables of every sequence. -/
def tableCount (manager : KVCacheManager) : ℕ :=
  if manager.poolShape.perLayerFrames then manager.poolShape.numLayers else 1

def tokensPerBlock (manager : KVCacheManager) : ℕ :=
  match manager.allocator.block 0 with
  | none => 0
  | some block => block.shape.tokensPerBlock

/-! ## The request index -/

def indexSequence (manager : KVCacheManager) (requestId : RequestId) (sequenceId : SequenceId) :
    KVCacheManager :=
  let ids := (manager.sequencesByRequest.lookup requestId).getD []
  { manager with
    sequencesByRequest := manager.sequencesByRequest.insert requestId (ids ++ [sequenceId]) }

def unindexSequence (manager : KVCacheManager) (requestId : RequestId) (sequenceId : SequenceId) :
    KVCacheManager :=
  match manager.sequencesByRequest.lookup requestId with
  | none => manager
  | some ids =>
      let kept := ids.filter fun id => id != sequenceId
      if kept.isEmpty then
        { manager with sequencesByRequest := manager.sequencesByRequest.erase requestId }
      else
        { manager with sequencesByRequest := manager.sequencesByRequest.insert requestId kept }

@[simp]
theorem unindexSequence_allocator (manager : KVCacheManager) (requestId : RequestId)
    (sequenceId : SequenceId) :
    (manager.unindexSequence requestId sequenceId).allocator = manager.allocator := by
  unfold unindexSequence
  split
  · rfl
  · simp only
    split <;> rfl

@[simp]
theorem unindexSequence_sequences (manager : KVCacheManager) (requestId : RequestId)
    (sequenceId : SequenceId) :
    (manager.unindexSequence requestId sequenceId).sequences = manager.sequences := by
  unfold unindexSequence
  split
  · rfl
  · simp only
    split <;> rfl

@[simp]
theorem unindexSequence_prefixIndex (manager : KVCacheManager) (requestId : RequestId)
    (sequenceId : SequenceId) :
    (manager.unindexSequence requestId sequenceId).prefixIndex = manager.prefixIndex := by
  unfold unindexSequence
  split
  · rfl
  · simp only
    split <;> rfl

/-- Every sequence created or forked under a request. -/
def sequencesFor (manager : KVCacheManager) (requestId : RequestId) : List SequenceId :=
  (manager.sequencesByRequest.lookup requestId).getD []

def contains (manager : KVCacheManager) (sequenceId : SequenceId) : Bool :=
  (manager.sequences.lookup sequenceId).isSome

/-! ## Content hashes -/

def fnvOffsetBasis : UInt64 := 14695981039346656037

def fnvPrime : UInt64 := 1099511628211

/-- Hash of the bytes of the resident frames of one table. -/
def contentHashOfTable (manager : KVCacheManager) (table : BlockTable) : UInt64 :=
  table.entries.foldl
    (fun hash entry =>
      if entry.swapSlot.isSome then
        hash
      else
        match manager.allocator.block entry.physicalId with
        | none => hash
        | some block =>
            block.data.foldl (fun hash byte => (hash ^^^ byte.toUInt64) * fnvPrime) hash)
    fnvOffsetBasis

/-- Mix of the table hashes in layer-major order. -/
def contentHashOf (manager : KVCacheManager) (tables : List BlockTable) : UInt64 :=
  tables.foldl (fun hash table => (hash ^^^ manager.contentHashOfTable table) * fnvPrime)
    fnvOffsetBasis

/-! ## Creating and forking -/

/-- Create an empty cache table for a sequence. -/
def createSequence (manager : KVCacheManager) (metadata : SequenceMetadata) :
    Bool × KVCacheManager :=
  if (manager.sequences.lookup metadata.sequenceId).isSome then
    (false, manager)
  else
    let state : SequenceState :=
      { metadata
        tables := List.replicate manager.tableCount (.create metadata.sequenceId)
        prefixKey := ""
        prefixHash := 0 }
    (true,
      { manager with
        sequences := manager.sequences.insert metadata.sequenceId state }.indexSequence
          metadata.requestId metadata.sequenceId)

/-- Add one reference to each frame of a list, in order. -/
def retainAll (allocator : MemoryAllocator) (ids : List PhysicalBlockId) : MemoryAllocator :=
  ids.foldl MemoryAllocator.retain allocator

/-- Drop one reference to each frame of a list, in order. -/
def releaseAll (allocator : MemoryAllocator) (ids : List PhysicalBlockId) : MemoryAllocator :=
  ids.foldl MemoryAllocator.release allocator

/-- Frames mapped by a list of tables, table by table. -/
def physicalIdsOf (tables : List BlockTable) : List PhysicalBlockId :=
  tables.flatMap fun table => table.entries.map (·.physicalId)

/-- Some block of the tables is swapped out. -/
def anySwapped (tables : List BlockTable) : Bool :=
  tables.any fun table => table.entries.any fun entry => entry.swapSlot.isSome

/-- Fork a sequence for parallel sampling, sharing every physical block. -/
def forkSequence (manager : KVCacheManager) (parentId : SequenceId)
    (childMetadata : SequenceMetadata) : Bool × KVCacheManager :=
  match manager.sequences.lookup parentId with
  | none => (false, manager)
  | some parent =>
      if (manager.sequences.lookup childMetadata.sequenceId).isSome then
        (false, manager)
      else if anySwapped parent.tables then
        (false, manager)
      else
        let tables := parent.tables.map fun table => table.fork childMetadata.sequenceId
        let child : SequenceState :=
          { metadata := childMetadata, tables, prefixKey := "", prefixHash := 0 }
        (true,
          { manager with
            allocator := retainAll manager.allocator (physicalIdsOf tables)
            sequences := manager.sequences.insert childMetadata.sequenceId child }.indexSequence
              childMetadata.requestId childMetadata.sequenceId)

/-! ## Growing -/

/-- Map `remaining` newly allocated blocks behind `baseIndex + offset` of one table. -/
def reserveBlocks (sequenceId : SequenceId) (tokensPerBlock baseIndex : ℕ) :
    ℕ → ℕ → MemoryAllocator → BlockTable → Bool × MemoryAllocator × BlockTable
  | 0, _, allocator, table => (true, allocator, table)
  | remaining + 1, offset, allocator, table =>
      match allocator.allocate with
      | (none, same) => (false, same, table)
      | (some physical, taken) =>
          let index := wrap32 (baseIndex + offset)
          let logical : LogicalBlock :=
            { sequenceId
              index
              cacheKind := table.cacheKind
              startToken := wrap32 (index * tokensPerBlock)
              tokenCount := tokensPerBlock }
          reserveBlocks sequenceId tokensPerBlock baseIndex remaining (offset + 1) taken
            (table.map logical physical true)

/-- Grow each table in turn, stopping at the first failed allocation. -/
def reserveTables (sequenceId : SequenceId) (tokensPerBlock blocksNeeded : ℕ) :
    MemoryAllocator → List BlockTable → Bool × MemoryAllocator × List BlockTable
  | allocator, [] => (true, allocator, [])
  | allocator, table :: rest =>
      match reserveBlocks sequenceId tokensPerBlock (wrap32 table.size) blocksNeeded 0
          allocator table with
      | (false, after, grown) => (false, after, grown :: rest)
      | (true, after, grown) =>
          let (reserved, final, others) :=
            reserveTables sequenceId tokensPerBlock blocksNeeded after rest
          (reserved, final, grown :: others)

/-- Blocks that hold `tokenCount` tokens, in 32-bit arithmetic. -/
def blocksNeeded (tokenCount tokensPerBlock : ℕ) : ℕ :=
  wrap32 (tokenCount + tokensPerBlock - 1) / tokensPerBlock

/-- Reserve additional token capacity for a sequence. -/
def reserveTokens (manager : KVCacheManager) (sequenceId : SequenceId) (tokenCount : ℕ) :
    Bool × KVCacheManager :=
  match manager.sequences.lookup sequenceId with
  | none => (false, manager)
  | some state =>
      if manager.tokensPerBlock = 0 then
        (false, manager)
      else
        let blocks := blocksNeeded tokenCount manager.tokensPerBlock
        let framesNeeded := wrap32 (blocks * state.tables.length)
        if !manager.allocator.canAllocate framesNeeded then
          (false, manager)
        else
          let (reserved, allocator, tables) :=
            reserveTables sequenceId manager.tokensPerBlock blocks manager.allocator state.tables
          (reserved,
            { manager with
              allocator
              sequences := manager.sequences.insert sequenceId { state with tables } })

/-! ## Writing -/

/-- Materialise writable storage for the block that contains a token. -/
def ensureTokenWritable (manager : KVCacheManager) (sequenceId : SequenceId)
    (tokenPosition layer : ℕ) : Option PhysicalBlockId × KVCacheManager :=
  match manager.sequences.lookup sequenceId with
  | none => (none, manager)
  | some state =>
      match state.tables[layer]? with
      | none => (none, manager)
      | some table =>
          let update (allocator : MemoryAllocator) (index : ℕ) (physicalId : PhysicalBlockId) :
              KVCacheManager :=
            let written := table.modifyEntry index fun entry =>
              { entry with physicalId, writable := true }
            { manager with
              allocator
              sequences := manager.sequences.insert sequenceId
                { state with tables := state.tables.set layer written } }
          match table.entries with
          | [] => (none, manager)
          | front :: _ =>
              if front.logical.tokenCount = 0 then
                (none, manager)
              else
                let index := tokenPosition / front.logical.tokenCount
                match table.entry index with
                | none => (none, manager)
                | some entry =>
                    if entry.swapSlot.isSome then
                      (none, manager)
                    else
                      match manager.allocator.info entry.physicalId with
                      | none => (none, manager)
                      | some info =>
                          if info.refCount ≤ 1 then
                            (some entry.physicalId,
                              update manager.allocator index entry.physicalId)
                          else
                            match manager.allocator.allocate with
                            | (none, same) => (none, { manager with allocator := same })
                            | (some copy, taken) =>
                                let copied := taken.copyBlock entry.physicalId copy
                                (some copy, update (copied.release entry.physicalId) index copy)

/-! ## Swapping -/

/-- Evict the entries at the listed indices of one table, counting the successes. -/
def swapOutEntries : MemoryAllocator → BlockTable → List ℕ → ℕ × MemoryAllocator × BlockTable
  | allocator, table, [] => (0, allocator, table)
  | allocator, table, index :: rest =>
      match table.entry index with
      | none => swapOutEntries allocator table rest
      | some entry =>
          match allocator.swapOut entry.physicalId with
          | (none, same) => swapOutEntries same table rest
          | (some slot, after) =>
              let (swapped, final, done) := swapOutEntries after
                (table.modifyEntry index fun entry => { entry with swapSlot := some slot }) rest
              (swapped + 1, final, done)

/-- Logical indices of the resident blocks of a table. -/
def residentIndices (table : BlockTable) : List ℕ :=
  (table.entries.filter fun entry => entry.swapSlot.isNone).map (·.logical.index)

def swapOutTables : MemoryAllocator → List BlockTable → ℕ × MemoryAllocator × List BlockTable
  | allocator, [] => (0, allocator, [])
  | allocator, table :: rest =>
      let (swapped, after, done) := swapOutEntries allocator table (residentIndices table)
      let (others, final, dones) := swapOutTables after rest
      (swapped + others, final, done :: dones)

/-- Evict a sequence's unshared blocks to the swap backend. -/
def swapOutSequence (manager : KVCacheManager) (sequenceId : SequenceId) : ℕ × KVCacheManager :=
  match manager.sequences.lookup sequenceId with
  | none => (0, manager)
  | some state =>
      let (swapped, allocator, tables) := swapOutTables manager.allocator state.tables
      (wrap32 swapped,
        { manager with
          allocator
          sequences := manager.sequences.insert sequenceId { state with tables } })

/-- Number of swapped-out blocks, as a 32-bit counter. -/
def swappedBlocks (tables : List BlockTable) : ℕ :=
  wrap32 ((tables.flatMap (·.entries)).countP fun entry => entry.swapSlot.isSome)

/-- Restore the entries at the listed positions of one table, stopping at the first failure. -/
def swapInEntries : MemoryAllocator → BlockTable → List ℕ → Bool × MemoryAllocator × BlockTable
  | allocator, table, [] => (true, allocator, table)
  | allocator, table, position :: rest =>
      match table.entries[position]? with
      | none => swapInEntries allocator table rest
      | some visited =>
          if visited.swapSlot.isNone then
            swapInEntries allocator table rest
          else
            match (table.entry visited.logical.index).bind (·.swapSlot) with
            | none => (false, allocator, table)
            | some slot =>
                match allocator.swapIn slot with
                | (none, same) => (false, same, table)
                | (some restored, after) =>
                    swapInEntries after
                      (table.modifyEntry visited.logical.index fun entry =>
                        { entry with physicalId := restored, swapSlot := none })
                      rest

def swapInTables : MemoryAllocator → List BlockTable → Bool × MemoryAllocator × List BlockTable
  | allocator, [] => (true, allocator, [])
  | allocator, table :: rest =>
      match swapInEntries allocator table (List.range table.size) with
      | (false, after, done) => (false, after, done :: rest)
      | (true, after, done) =>
          let (restored, final, others) := swapInTables after rest
          (restored, final, done :: others)

/-- Restore a sequence's swapped-out blocks into frames. -/
def swapInSequence (manager : KVCacheManager) (sequenceId : SequenceId) : Bool × KVCacheManager :=
  match manager.sequences.lookup sequenceId with
  | none => (false, manager)
  | some state =>
      let needed := swappedBlocks state.tables
      if needed = 0 then
        (true, manager)
      else if !manager.allocator.canAllocate needed then
        (false, manager)
      else
        let (restored, allocator, tables) := swapInTables manager.allocator state.tables
        (restored,
          { manager with
            allocator
            sequences := manager.sequences.insert sequenceId { state with tables } })

/-! ## Releasing -/

/-- Drop the sequence's use of its prefix record, and the record with its last user. -/
def dropPrefixUser (manager : KVCacheManager) (state : SequenceState) :
    KVCacheManager × SequenceState :=
  if state.prefixKey = "" then
    (manager, state)
  else
    let cleared := { state with prefixKey := "", prefixHash := 0 }
    match manager.prefixIndex.lookup state.prefixKey with
    | none => (manager, cleared)
    | some records =>
        let other (record : PrefixRecord) : Bool := record.contentHash != state.prefixHash
        match records.dropWhile other with
        | [] => (manager, cleared)
        | record :: rest =>
            let before := records.takeWhile other
            let users := record.users - 1
            if users > 0 then
              ({ manager with
                  prefixIndex := manager.prefixIndex.insert state.prefixKey
                    (before ++ { record with users } :: rest) }, cleared)
            else
              let allocator := releaseAll manager.allocator record.physicalIds
              if (before ++ rest).isEmpty then
                ({ manager with
                    allocator
                    prefixIndex := manager.prefixIndex.erase state.prefixKey }, cleared)
              else
                ({ manager with
                    allocator
                    prefixIndex := manager.prefixIndex.insert state.prefixKey (before ++ rest) },
                  cleared)

/-- Give back the frame or the swap slot of one entry. -/
def releaseEntry (allocator : MemoryAllocator) (entry : BlockTableEntry) : MemoryAllocator :=
  match entry.swapSlot with
  | some slot => allocator.discardSwapped slot
  | none => allocator.release entry.physicalId

/-- Release all cache blocks of a sequence and forget it. -/
def releaseSequence (manager : KVCacheManager) (sequenceId : SequenceId) : KVCacheManager :=
  match manager.sequences.lookup sequenceId with
  | none => manager
  | some state =>
      let dropped := (manager.dropPrefixUser state).1
      let allocator := (state.tables.flatMap (·.entries)).foldl releaseEntry dropped.allocator
      let unindexed :=
        { dropped with allocator }.unindexSequence state.metadata.requestId sequenceId
      { unindexed with sequences := unindexed.sequences.erase sequenceId }

/-! ## Requests -/

def swapOutSequences : KVCacheManager → List SequenceId → ℕ × KVCacheManager
  | manager, [] => (0, manager)
  | manager, sequenceId :: rest =>
      let (swapped, after) := manager.swapOutSequence sequenceId
      let (others, final) := swapOutSequences after rest
      (swapped + others, final)

/-- Swap out every sequence of a request. -/
def swapOutRequest (manager : KVCacheManager) (requestId : RequestId) : ℕ × KVCacheManager :=
  let (swapped, after) := manager.swapOutSequences (manager.sequencesFor requestId)
  (wrap32 swapped, after)

def swapInSequences : KVCacheManager → List SequenceId → Bool × KVCacheManager
  | manager, [] => (true, manager)
  | manager, sequenceId :: rest =>
      match manager.swapInSequence sequenceId with
      | (false, after) => (false, after)
      | (true, after) => swapInSequences after rest

/-- Swapped-out blocks of a list of sequences. -/
def swappedBlocksOf (manager : KVCacheManager) (sequenceIds : List SequenceId) : ℕ :=
  wrap32 ((sequenceIds.map fun sequenceId =>
    match manager.sequences.lookup sequenceId with
    | none => 0
    | some state =>
        (state.tables.flatMap (·.entries)).countP fun entry => entry.swapSlot.isSome).sum)

/-- Restore every swapped sequence of a request. -/
def swapInRequest (manager : KVCacheManager) (requestId : RequestId) : Bool × KVCacheManager :=
  let sequences := manager.sequencesFor requestId
  let needed := manager.swappedBlocksOf sequences
  if needed > 0 && !manager.allocator.canAllocate needed then
    (false, manager)
  else
    manager.swapInSequences sequences

/-- Release every sequence of a request. -/
def releaseRequest (manager : KVCacheManager) (requestId : RequestId) : KVCacheManager :=
  (manager.sequencesFor requestId).foldl releaseSequence manager

/-! ## Prefixes -/

/-- Prompt tokens that a unique prefix record covers. -/
def prefixTokenCount (manager : KVCacheManager) (key : String) : ℕ :=
  if key = "" then
    0
  else
    match manager.prefixIndex.lookup key with
    | some [record] => record.tokenCount
    | _ => 0

/-- Index a sequence's resident blocks under a key. -/
def publishPrefix (manager : KVCacheManager) (sequenceId : SequenceId) (key : String) :
    Bool × KVCacheManager :=
  if key = "" then
    (false, manager)
  else
    match manager.sequences.lookup sequenceId with
    | none => (false, manager)
    | some state =>
        if state.textTable.entries.isEmpty then
          (false, manager)
        else if state.prefixKey = key then
          (true, manager)
        else if manager.tokensPerBlock = 0 then
          (false, manager)
        else if anySwapped state.tables then
          (false, manager)
        else
          let hash := manager.contentHashOf state.tables
          let named := manager.sequences.insert sequenceId
            { state with prefixKey := key, prefixHash := hash }
          let records := (manager.prefixIndex.lookup key).getD []
          let other (record : PrefixRecord) : Bool := record.contentHash != hash
          match records.dropWhile other with
          | existing :: rest =>
              (true,
                { manager with
                  sequences := named
                  prefixIndex := manager.prefixIndex.insert key
                    (records.takeWhile other ++
                      { existing with users := wrap32 (existing.users + 1) } :: rest) })
          | [] =>
              let record : PrefixRecord :=
                { contentHash := hash
                  tokenCount := wrap32 (state.textTable.size * manager.tokensPerBlock)
                  users := 1
                  physicalIds := physicalIdsOf state.tables }
              (true,
                { manager with
                  allocator := retainAll manager.allocator record.physicalIds
                  sequences := named
                  prefixIndex := manager.prefixIndex.insert key (records ++ [record]) })

/-- Map shared frames at the indices from `index` on. -/
def attachBlocks (sequenceId : SequenceId) (tokensPerBlock : ℕ) :
    ℕ → List PhysicalBlockId → MemoryAllocator → BlockTable → MemoryAllocator × BlockTable
  | _, [], allocator, table => (allocator, table)
  | index, physical :: rest, allocator, table =>
      let logical : LogicalBlock :=
        { sequenceId
          index := wrap32 index
          cacheKind := table.cacheKind
          startToken := wrap32 (index * tokensPerBlock)
          tokenCount := tokensPerBlock }
      attachBlocks sequenceId tokensPerBlock (index + 1) rest (allocator.retain physical)
        (table.map logical physical false)

/-- Hand each table its share of the record's frames, in order. -/
def attachTables (sequenceId : SequenceId) (tokensPerBlock idsPerTable : ℕ) :
    List PhysicalBlockId → MemoryAllocator → List BlockTable → MemoryAllocator × List BlockTable
  | _, allocator, [] => (allocator, [])
  | ids, allocator, table :: rest =>
      let (after, attached) :=
        attachBlocks sequenceId tokensPerBlock 0 (ids.take idsPerTable) allocator table
      let (final, others) :=
        attachTables sequenceId tokensPerBlock idsPerTable (ids.drop idsPerTable) after rest
      (final, attached :: others)

/-- Map a published prefix onto an empty sequence. -/
def attachPrefix (manager : KVCacheManager) (sequenceId : SequenceId) (key : String) :
    ℕ × KVCacheManager :=
  if key = "" then
    (0, manager)
  else
    match manager.sequences.lookup sequenceId with
    | none => (0, manager)
    | some state =>
        if !state.textTable.entries.isEmpty then
          (0, manager)
        else
          match manager.prefixIndex.lookup key with
          | some [record] =>
              let tables := state.tables.length
              if manager.tokensPerBlock = 0 || record.physicalIds.isEmpty || tables = 0 then
                (0, manager)
              else if record.physicalIds.length % tables ≠ 0 then
                (0, manager)
              else
                let (allocator, attached) :=
                  attachTables sequenceId manager.tokensPerBlock
                    (record.physicalIds.length / tables) record.physicalIds manager.allocator
                    state.tables
                (record.tokenCount,
                  { manager with
                    allocator
                    sequences := manager.sequences.insert sequenceId
                      { state with
                        tables := attached
                        prefixKey := key
                        prefixHash := record.contentHash }
                    prefixIndex := manager.prefixIndex.insert key
                      [{ record with users := wrap32 (record.users + 1) }] })
          | _ => (0, manager)

end KVCacheManager
end QwenVLPaged
