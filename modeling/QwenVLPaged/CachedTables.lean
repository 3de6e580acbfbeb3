import QwenVLPaged.PagedCache
import QwenVLPaged.SequenceFrames

/-!
# Host and device caches of the block tables

What the pool keeps of a block table, on the host and on the device, is the front of the block
table of the cache manager. Reading through the caches therefore gives what reading without them
would give, and changes nothing but the caches.
-/

namespace QwenVLPaged
namespace PagedPool

open Raising

/-- The cached tables are fronts of the block tables, and a device table has a host table. -/
structure CachedTables (pool : PagedPool) : Prop where
  host : ∀ id table, pool.hostFrames id = some table →
    ∃ frames, pool.manager.framesOf id = some frames ∧ table <+: frames
  device : ∀ id table, pool.devTable id = some table → (pool.hostFrames id).isSome ∧
    fitsInt32 table = true ∧ ∃ frames, pool.manager.framesOf id = some frames ∧ table <+: frames
  context : ∀ id context, pool.devContext id = some context →
    pool.cachedLength id = some context ∧ context < 2 ^ 31

/-- Only the caches changed, and they are right. -/
structure Recached (before after : PagedPool) : Prop where
  manager : after.manager = before.manager
  scatter : after.scatter = before.scatter
  useKernel : after.useKernel = before.useKernel
  tableLen : after.tableLen = before.tableLen
  writable : after.writable = before.writable
  layerLengths : after.layerLengths = before.layerLengths
  branched : after.branched = before.branched
  grants : after.grants = before.grants
  tables : after.CachedTables

theorem Recached.refl {pool : PagedPool} (tables : pool.CachedTables) : Recached pool pool :=
  ⟨rfl, rfl, rfl, rfl, rfl, rfl, rfl, rfl, tables⟩

theorem Recached.trans {first second third : PagedPool} (left : Recached first second)
    (right : Recached second third) : Recached first third :=
  ⟨right.manager.trans left.manager, right.scatter.trans left.scatter,
    right.useKernel.trans left.useKernel, right.tableLen.trans left.tableLen,
    right.writable.trans left.writable, right.layerLengths.trans left.layerLengths,
    right.branched.trans left.branched, right.grants.trans left.grants, right.tables⟩

/-- A present value of an updated dictionary is the new one or an old one. -/
theorem update_eq_some {α β : Type} [DecidableEq α] {values : α → Option β} {key other : α}
    {replaced : Option β} {value : β}
    (found : Function.update values key replaced other = some value) :
    other = key ∧ replaced = some value ∨ other ≠ key ∧ values other = some value := by
  by_cases same : other = key
  · subst same
    rw [Function.update_self] at found
    exact Or.inl ⟨rfl, found⟩
  · rw [Function.update_of_ne same] at found
    exact Or.inr ⟨same, found⟩

/-- Dropping the caches of a sequence. -/
theorem invalidateTable_ensures {pool : PagedPool} (tables : pool.CachedTables)
    (sequenceId : SequenceId) {raised : String → PagedPool → Prop} :
    Ensures (invalidateTable sequenceId) pool (fun _ after => Recached pool after) raised := by
  refine ⟨rfl, rfl, rfl, rfl, rfl, rfl, rfl, rfl, ?_, ?_, ?_⟩
  · intro id table found
    rcases update_eq_some found with ⟨-, gone⟩ | ⟨-, old⟩
    · simp at gone
    · exact tables.host id table old
  · intro id table found
    rcases update_eq_some found with ⟨-, gone⟩ | ⟨different, old⟩
    · simp at gone
    · simp only [Function.update_of_ne different]
      exact tables.device id table old
  · intro id context found
    rcases update_eq_some found with ⟨-, gone⟩ | ⟨different, old⟩
    · simp at gone
    · simp only [Function.update_of_ne different]
      exact tables.context id context old

/-! ## Reading a table -/

theorem blockTable_yields {pool : PagedPool} (tables : pool.CachedTables)
    (sequenceId : SequenceId) :
    Yields (blockTable sequenceId) pool (pool.manager.blockTableOf sequenceId) (Recached pool) := by
  unfold blockTable
  apply yields_get
  cases pool.manager.blockTableOf sequenceId with
  | ok frames => exact yields_pure (.refl tables)
  | error message => exact yields_throw (.refl tables)

/-- A front of the block table as a tensor. -/
def tensorOf (needed : ℕ) (frames : List PhysicalBlockId) :
    Except String (List PhysicalBlockId) :=
  if fitsInt32 (frames.take needed) then .ok (frames.take needed) else .error int32Overflow

/-- What `deviceTable` computes without the caches. -/
def tableResult (pool : PagedPool) (sequenceId : SequenceId) (needed : ℕ) :
    Except String (List PhysicalBlockId) :=
  pool.manager.blockTableOf sequenceId >>= tensorOf needed

theorem tableResult_of_frames {pool : PagedPool} {sequenceId : SequenceId}
    {frames : List PhysicalBlockId} (frames_eq : pool.manager.framesOf sequenceId = some frames)
    (needed : ℕ) : pool.tableResult sequenceId needed = tensorOf needed frames := by
  rw [tableResult, KVCacheManager.blockTableOf_framesOf, frames_eq]
  rfl

theorem deviceTable_yields {pool : PagedPool} (tables : pool.CachedTables)
    (sequenceId : SequenceId) (needed : ℕ) :
    Yields (deviceTable sequenceId needed) pool (pool.tableResult sequenceId needed)
      (Recached pool) := by
  unfold deviceTable
  apply yields_get
  cases cached : (pool.devTable sequenceId).filter fun table => table.length == needed with
  | some table =>
      obtain ⟨found, width⟩ := Option.filter_eq_some_iff.mp cached
      obtain ⟨-, fits, frames, frames_eq, front⟩ := tables.device sequenceId table found
      have table_eq : frames.take needed = table := by
        rw [← beq_iff_eq.mp width]
        exact (List.prefix_iff_eq_take.mp front).symm
      rw [tableResult_of_frames frames_eq, tensorOf, table_eq, if_pos fits]
      exact yields_pure (.refl tables)
  | none =>
      refine (blockTable_yields tables sequenceId).bind ?_
      intro frames after frames_eq recached
      have mapped : pool.manager.framesOf sequenceId = some frames := by
        rw [KVCacheManager.blockTableOf_framesOf] at frames_eq
        cases found : pool.manager.framesOf sequenceId with
        | none => simp [found] at frames_eq
        | some frames' => simpa [found] using frames_eq
      have front : frames.take needed <+: frames := List.take_prefix needed frames
      -- The host table is replaced before the tensor is built.
      have hosted : Recached pool { after with
          hostFrames := Function.update after.hostFrames sequenceId (some (frames.take needed)) } := by
        refine ⟨recached.manager, recached.scatter, recached.useKernel, recached.tableLen,
          recached.writable, recached.layerLengths, recached.branched, recached.grants, ?_, ?_,
          recached.tables.context⟩
        · intro id table found
          rcases update_eq_some found with ⟨rfl, new⟩ | ⟨-, old⟩
          · obtain rfl := Option.some.inj new
            exact ⟨frames, recached.manager ▸ mapped, front⟩
          · exact recached.tables.host id table old
        · intro id table found
          obtain ⟨present, rest⟩ := recached.tables.device id table found
          refine ⟨?_, rest⟩
          by_cases same : id = sequenceId
          · subst same
            simp
          · simpa only [Function.update_of_ne same] using present
      apply yields_modify
      apply yields_require
      · intro fits
        apply yields_modify
        rw [tensorOf, if_pos fits]
        refine yields_pure ⟨hosted.manager, hosted.scatter, hosted.useKernel, hosted.tableLen,
          hosted.writable, hosted.layerLengths, hosted.branched, hosted.grants, hosted.tables.host,
          ?_, hosted.tables.context⟩
        intro id table found
        rcases update_eq_some found with ⟨rfl, new⟩ | ⟨-, old⟩
        · obtain rfl := Option.some.inj new
          exact ⟨by simp, fits, frames, recached.manager ▸ mapped, front⟩
        · exact hosted.tables.device id table old
      · intro wide
        exact ⟨if_neg wide, hosted⟩

/-- A context length as a tensor. -/
def contextResult (length : ℕ) : Except String ℕ :=
  if fitsInt32 [length] then .ok length else .error int32Overflow

theorem deviceContext_yields {pool : PagedPool} (tables : pool.CachedTables)
    (sequenceId : SequenceId) (length : ℕ) :
    Yields (deviceContext sequenceId length) pool (contextResult length) (Recached pool) := by
  unfold deviceContext
  apply yields_get
  cases cached : (pool.devContext sequenceId).filter fun _ =>
      pool.cachedLength sequenceId == some length with
  | some context =>
      obtain ⟨found, known⟩ := Option.filter_eq_some_iff.mp cached
      obtain ⟨length_eq, small⟩ := tables.context sequenceId context found
      obtain rfl : context = length := by
        rw [length_eq, beq_iff_eq, Option.some.injEq] at known
        exact known
      rw [contextResult, if_pos (by simpa [fitsInt32] using small)]
      exact yields_pure (.refl tables)
  | none =>
      apply yields_require
      · intro fits
        apply yields_modify
        rw [contextResult, if_pos fits]
        refine yields_pure ⟨rfl, rfl, rfl, rfl, rfl, rfl, rfl, rfl, tables.host, tables.device, ?_⟩
        intro id context found
        rcases update_eq_some found with ⟨rfl, new⟩ | ⟨different, old⟩
        · obtain rfl := Option.some.inj new
          exact ⟨Function.update_self .., by simpa [fitsInt32] using fits⟩
        · simp only [Function.update_of_ne different]
          exact tables.context id context old
      · intro wide
        exact ⟨if_neg wide, .refl tables⟩

/-- What `decodeInputs` computes without the caches. -/
def inputsResult (pool : PagedPool) (sequenceId : SequenceId) (length : ℕ) :
    Except String (List PhysicalBlockId × ℕ) :=
  if pool.tokensPerBlock = 0 then
    .error divisionByZero
  else do
    let table ← pool.tableResult sequenceId (ceilDiv length pool.tokensPerBlock)
    let context ← contextResult length
    return (table, context)

theorem decodeInputs_yields {pool : PagedPool} (tables : pool.CachedTables)
    (sequenceId : SequenceId) (length : ℕ) :
    Yields (decodeInputs sequenceId length) pool (pool.inputsResult sequenceId length)
      (Recached pool) := by
  unfold decodeInputs
  apply yields_get
  apply yields_require
  · intro blocky
    rw [inputsResult, if_neg blocky]
    refine (deviceTable_yields tables sequenceId _).bind ?_
    intro table middle _ recached
    have context_yields : Yields (deviceContext sequenceId length) middle (contextResult length)
        (Recached pool) := by
      obtain ⟨result, kept⟩ := deviceContext_yields recached.tables sequenceId length
      exact ⟨result, recached.trans kept⟩
    refine context_yields.bind ?_
    · intro context after _ kept
      exact yields_pure kept
  · intro flat
    exact ⟨by rw [inputsResult, if_pos (not_not.mp flat)], .refl tables⟩

/-! ## Gathering -/

/-- The tokens of one frame of one layer and stream, from an element offset on. -/
def frameRows (shape : BlockShape) (data : List UInt8) (base : ℕ) : List (List (List UInt8)) :=
  (List.range shape.tokensPerBlock).map fun token =>
    readSlice shape.bytesPerElement data (base + token * (shape.numKvHeads * shape.headDim))
      (shape.numKvHeads * shape.headDim)

/-- What `gatherStream` computes. -/
def streamResult (manager : KVCacheManager) (layer length : ℕ) (index : List PhysicalBlockId)
    (stream : KVStream) : Except String (List (List (List UInt8))) :=
  let shape := manager.allocator.config.blockShape
  match (KVBlockLayout.mk shape).elementOffset layer stream 0 0 with
  | none => .error "element_offset out of range"
  | some base =>
      if shape.numKvHeads * shape.headDim = 0 then
        .error "cannot reshape tensor of 0 elements"
      else
        .ok ((index.flatMap fun frame => frameRows shape (manager.frameData frame) base).take length)

theorem gatherStream_yields (pool : PagedPool) (layer length : ℕ) (index : List PhysicalBlockId)
    (stream : KVStream) {kept : PagedPool → Prop} (holds : kept pool) :
    Yields (gatherStream layer length index stream) pool
      (streamResult pool.manager layer length index stream) kept := by
  unfold gatherStream
  apply yields_get
  unfold streamBase
  simp only [bind_assoc]
  apply yields_get
  change Yields _ pool (match (KVBlockLayout.mk pool.shape).elementOffset layer stream 0 0 with
    | none => _ | some base => _) kept
  cases (KVBlockLayout.mk pool.shape).elementOffset layer stream 0 0 with
  | none => exact ⟨rfl, holds⟩
  | some base =>
      simp only [pure_bind]
      apply yields_require
      · intro wide
        exact ⟨(if_neg wide).symm, holds⟩
      · intro empty
        exact ⟨if_pos (not_not.mp empty), holds⟩

/-- The length of a layer. -/
def lengthResult (pool : PagedPool) (sequenceId : SequenceId) (layer : ℕ) : Except String ℕ :=
  match (pool.layerLengths sequenceId).bind (·[layer]?) with
  | some length => .ok length
  | none => .error "list index out of range"

theorem layerLength_yields (pool : PagedPool) (sequenceId : SequenceId) (layer : ℕ)
    {kept : PagedPool → Prop} (holds : kept pool) :
    Yields (layerLength sequenceId layer) pool (pool.lengthResult sequenceId layer) kept := by
  unfold layerLength
  apply yields_get
  unfold lengthResult
  cases (pool.layerLengths sequenceId).bind (·[layer]?) with
  | none => exact yields_throw holds
  | some length => exact yields_pure holds

/-- What `gather` computes without the caches. -/
def gatherResult (pool : PagedPool) (sequenceId : SequenceId) (layer : ℕ) :
    Except String (List (List (List UInt8)) × List (List (List UInt8))) := do
  let length ← pool.lengthResult sequenceId layer
  let needed := ceilDiv length pool.tokensPerBlock
  let inputs ← pool.inputsResult sequenceId (needed * pool.tokensPerBlock)
  let keys ← streamResult pool.manager layer length (inputs.1.take needed) .key
  let values ← streamResult pool.manager layer length (inputs.1.take needed) .value
  return (keys, values)

theorem gather_yields {pool : PagedPool} (tables : pool.CachedTables) (sequenceId : SequenceId)
    (layer : ℕ) :
    Yields (gather sequenceId layer) pool (pool.gatherResult sequenceId layer)
      (Recached pool) := by
  unfold gather
  apply yields_get
  refine (layerLength_yields pool sequenceId layer (.refl tables)).bind ?_
  intro length middle _ recached
  have manager := recached.manager
  apply yields_require
  · intro blocky
    unfold frameIndex
    simp only [bind_assoc]
    apply yields_get
    have size : middle.tokensPerBlock = pool.tokensPerBlock := by
      rw [tokensPerBlock, shape, manager]
      rfl
    have inputs (count : ℕ) : middle.inputsResult sequenceId count =
        pool.inputsResult sequenceId count := by
      simp only [inputsResult, tableResult, size, manager]
    rw [← size, ← inputs]
    have inputs_yields : Yields
        (decodeInputs sequenceId (ceilDiv length middle.tokensPerBlock * middle.tokensPerBlock))
        middle (middle.inputsResult sequenceId
          (ceilDiv length middle.tokensPerBlock * middle.tokensPerBlock)) (Recached pool) := by
      obtain ⟨result, kept⟩ := decodeInputs_yields recached.tables sequenceId
        (ceilDiv length middle.tokensPerBlock * middle.tokensPerBlock)
      exact ⟨result, recached.trans kept⟩
    refine inputs_yields.bind ?_
    · intro input after _ kept
      simp only [pure_bind]
      rw [← kept.manager]
      refine (gatherStream_yields after layer length _ .key kept).bind ?_
      intro keys later _ kept'
      rw [kept.manager, ← kept'.manager]
      refine (gatherStream_yields later layer length _ .value kept').bind ?_
      intro values final _ kept''
      exact yields_pure kept''
  · intro flat
    have refused (count : ℕ) : pool.inputsResult sequenceId count = .error divisionByZero := by
      rw [inputsResult, if_pos (not_not.mp flat)]
    simp only [refused]
    exact ⟨rfl, recached⟩

end PagedPool
end QwenVLPaged
