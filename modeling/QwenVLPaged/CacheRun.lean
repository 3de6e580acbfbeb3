import QwenVLPaged.CacheView
import QwenVLPaged.Library.Execution
import QwenVLPaged.TableOperations

/-!
# Runs of the cache manager

The operations a client may call, one step of the machine for each, and what a state owns: the
places of all block-table entries of all live sequences and the frames pinned by prefix records.
-/

namespace QwenVLPaged

/-- A call of the cache manager. -/
inductive CacheOp
  | createSequence (metadata : SequenceMetadata)
  | forkSequence (parentId : SequenceId) (childMetadata : SequenceMetadata)
  | reserveTokens (sequenceId : SequenceId) (tokenCount : ℕ)
  | ensureTokenWritable (sequenceId : SequenceId) (token layer : ℕ)
  | writeToken (sequenceId : SequenceId) (token layer : ℕ) (stores : List TokenStore)
  | swapOutSequence (sequenceId : SequenceId)
  | swapOutRequest (requestId : RequestId)
  | swapInSequence (sequenceId : SequenceId)
  | swapInRequest (requestId : RequestId)
  | publishPrefix (sequenceId : SequenceId) (key : String)
  | attachPrefix (sequenceId : SequenceId) (key : String)
  | releaseSequence (sequenceId : SequenceId)
  | releaseRequest (requestId : RequestId)

namespace KVCacheManager

/-- Execute one call and keep the new state. -/
def step (manager : KVCacheManager) : CacheOp → KVCacheManager
  | .createSequence metadata => (manager.createSequence metadata).2
  | .forkSequence parentId childMetadata => (manager.forkSequence parentId childMetadata).2
  | .reserveTokens sequenceId tokenCount => (manager.reserveTokens sequenceId tokenCount).2
  | .ensureTokenWritable sequenceId token layer =>
      (manager.ensureTokenWritable sequenceId token layer).2
  | .writeToken sequenceId token layer stores =>
      (manager.writeToken sequenceId token layer stores).2
  | .swapOutSequence sequenceId => (manager.swapOutSequence sequenceId).2
  | .swapOutRequest requestId => (manager.swapOutRequest requestId).2
  | .swapInSequence sequenceId => (manager.swapInSequence sequenceId).2
  | .swapInRequest requestId => (manager.swapInRequest requestId).2
  | .publishPrefix sequenceId key => (manager.publishPrefix sequenceId key).2
  | .attachPrefix sequenceId key => (manager.attachPrefix sequenceId key).2
  | .releaseSequence sequenceId => manager.releaseSequence sequenceId
  | .releaseRequest requestId => manager.releaseRequest requestId

/-- Execute a list of calls. -/
def run (manager : KVCacheManager) (ops : List CacheOp) : KVCacheManager :=
  Execution.run step manager ops

/-- A manager over a fresh pool with an empty host swap space. -/
def fresh (config : AllocatorConfig) (slab : ℕ → UInt8) (maxSlots : ℕ) : KVCacheManager :=
  .create (.create config slab (some (.create maxSlots)))

/-! ## Request calls

A call on a request is a run of calls on its sequences, so it keeps what each of them keeps. -/

theorem swapOutSequences_induction {motive : KVCacheManager → Prop}
    (one : ∀ manager sequenceId, motive manager → motive (manager.swapOutSequence sequenceId).2)
    {manager : KVCacheManager} (start : motive manager) (sequenceIds : List SequenceId) :
    motive (manager.swapOutSequences sequenceIds).2 := by
  induction sequenceIds generalizing manager with
  | nil => exact start
  | cons sequenceId sequenceIds induction => exact induction (one manager sequenceId start)

theorem swapInSequences_induction {motive : KVCacheManager → Prop}
    (one : ∀ manager sequenceId, motive manager → motive (manager.swapInSequence sequenceId).2)
    {manager : KVCacheManager} (start : motive manager) (sequenceIds : List SequenceId) :
    motive (manager.swapInSequences sequenceIds).2 := by
  induction sequenceIds generalizing manager with
  | nil => exact start
  | cons sequenceId sequenceIds induction =>
      have head := one manager sequenceId start
      rw [swapInSequences]
      split
      · rename_i failed
        rwa [failed] at head
      · rename_i restored
        rw [restored] at head
        exact induction head

theorem swapInRequest_induction {motive : KVCacheManager → Prop}
    (one : ∀ manager sequenceId, motive manager → motive (manager.swapInSequence sequenceId).2)
    {manager : KVCacheManager} (start : motive manager) (requestId : RequestId) :
    motive (manager.swapInRequest requestId).2 := by
  simp only [swapInRequest]
  split
  · exact start
  · exact swapInSequences_induction one start _

theorem releaseRequest_induction {motive : KVCacheManager → Prop}
    (one : ∀ manager sequenceId, motive manager → motive (manager.releaseSequence sequenceId))
    {manager : KVCacheManager} (start : motive manager) (requestId : RequestId) :
    motive (manager.releaseRequest requestId) := by
  unfold releaseRequest
  generalize manager.sequencesFor requestId = sequenceIds
  induction sequenceIds generalizing manager with
  | nil => exact start
  | cons sequenceId sequenceIds induction => exact induction (one manager sequenceId start)

theorem sequences_dropPrefixUser (manager : KVCacheManager) (state : SequenceState) :
    (manager.dropPrefixUser state).1.sequences = manager.sequences := by
  simp only [dropPrefixUser]
  repeat' split
  all_goals rfl

theorem sequences_releaseSequence (manager : KVCacheManager) (sequenceId : SequenceId) :
    (manager.releaseSequence sequenceId).sequences = manager.sequences.erase sequenceId := by
  unfold releaseSequence
  split
  · rename_i missing
    exact (AList.erase_of_lookup_none missing).symm
  · simp [sequences_dropPrefixUser]

/-! ## What a state owns -/

/-- Block-table entries of all live sequences. -/
def liveEntries (manager : KVCacheManager) : List BlockTableEntry :=
  manager.sequences.gather fun _ state => state.tables.flatMap (·.entries)

/-- Frames pinned by prefix records, once per occurrence. -/
def pinnedIds (manager : KVCacheManager) : List PhysicalBlockId :=
  manager.prefixIndex.gather fun _ records => records.flatMap (·.physicalIds)

/-- Number of block-table entries without a swap slot that map a frame. -/
def mappings (manager : KVCacheManager) (id : PhysicalBlockId) : ℕ :=
  manager.liveEntries.countP fun entry => entry.swapSlot.isNone && entry.physicalId == id

/-- Number of references that tables and prefix records hold on a frame. -/
def references (manager : KVCacheManager) (id : PhysicalBlockId) : ℕ :=
  manager.mappings id + manager.pinnedIds.count id

/-- Places of everything the state owns. -/
def places (manager : KVCacheManager) : List Place :=
  manager.liveEntries.map BlockTableEntry.place ++ manager.pinnedIds.map .frame

theorem count_places (manager : KVCacheManager) (id : PhysicalBlockId) :
    manager.places.count (.frame id) = manager.references id := by
  have frames (ids : List PhysicalBlockId) : (ids.map Place.frame).count (.frame id) =
      ids.count id :=
    List.count_map_of_injective ids Place.frame (fun _ _ equal => Place.frame.inj equal) id
  have entries (list : List BlockTableEntry) :
      (list.map BlockTableEntry.place).count (.frame id) =
        list.countP fun entry => entry.swapSlot.isNone && entry.physicalId == id := by
    rw [List.count_eq_countP, List.countP_map]
    apply List.countP_congr
    intro entry _
    cases slot : entry.swapSlot <;> simp [BlockTableEntry.place, slot]
  simp only [places, List.count_append, frames, entries, references, mappings]

end KVCacheManager
end QwenVLPaged
