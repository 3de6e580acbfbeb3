import QwenVLPaged.LogicalMemory

/-!
# Private arrays

The abstract model of the cache: every sequence owns an array of elements that nobody else can
touch. Forking copies the array of the parent, publishing takes a snapshot of the publisher's
array and attaching copies that snapshot. `Holds` says that a logical memory contains what an
array says.
-/

namespace QwenVLPaged

/-- A logical element of a sequence. -/
structure Coordinate where
  stream : KVStream
  layer : ℕ
  token : ℕ
  kvHead : ℕ
  dim : ℕ
  deriving DecidableEq

namespace Coordinate

/-- The table that maps the block of a coordinate. -/
def table (shape : BlockShape) (coordinate : Coordinate) : ℕ :=
  if shape.perLayerFrames then coordinate.layer else 0

/-- The element of a coordinate inside its block, if it is in range. -/
def element (shape : BlockShape) (coordinate : Coordinate) : Option ℕ :=
  if coordinate.dim < shape.headDim then
    ((KVBlockLayout.mk shape).elementOffset (if shape.perLayerFrames then 0 else coordinate.layer)
      coordinate.stream (coordinate.token % shape.tokensPerBlock) coordinate.kvHead).map
        (· + coordinate.dim)
  else
    none

end Coordinate

/-- Elements written or inherited so far. -/
abbrev PrivateArray := Coordinate → Option (List UInt8)

/-- The coordinate that a store of one token addresses. In the per-layer layout the layer is the
one whose block was made writable. -/
def TokenStore.coordinate (store : TokenStore) (shape : BlockShape) (layer token : ℕ) :
    Coordinate :=
  ⟨store.stream, if shape.perLayerFrames then layer else store.layer, token, store.kvHead,
    store.dim⟩

/-- Write one element. A store outside the layout, or of another element type, does nothing. -/
def PrivateArray.store (shape : BlockShape) (layer token : ℕ) (array : PrivateArray)
    (store : TokenStore) : PrivateArray :=
  if (store.element shape token).isSome ∧ store.value.length = shape.bytesPerElement then
    Function.update array (store.coordinate shape layer token) (some store.value)
  else
    array

/-- The abstract state. -/
structure PrivateArrays where
  arrays : SequenceId → Option PrivateArray
  snapshots : String → UInt64 → PrivateArray

/-- What a call means for the arrays. -/
inductive ArrayEvent
  | silent
  | create (id : SequenceId)
  | fork (parent child : SequenceId)
  | write (id : SequenceId) (token layer : ℕ) (stores : List TokenStore)
  | publish (id : SequenceId) (key : String) (hash : UInt64)
  | attach (id : SequenceId) (key : String) (hash : UInt64)
  | release (ids : List SequenceId)

namespace PrivateArrays

/-- No sequence, no snapshot. -/
def empty : PrivateArrays := ⟨fun _ => none, fun _ _ _ => none⟩

/-- The arrays after an event. -/
def apply (shape : BlockShape) (state : PrivateArrays) : ArrayEvent → PrivateArrays
  | .silent => state
  | .create id => { state with arrays := Function.update state.arrays id (some fun _ => none) }
  | .fork parent child =>
      { state with arrays := Function.update state.arrays child (state.arrays parent) }
  | .write id token layer stores =>
      { state with
        arrays := Function.update state.arrays id
          ((state.arrays id).map fun array => stores.foldl (PrivateArray.store shape layer token) array) }
  | .publish id key hash =>
      { state with
        snapshots := Function.update state.snapshots key
          (Function.update (state.snapshots key) hash ((state.arrays id).getD fun _ => none)) }
  | .attach id key hash =>
      { state with arrays := Function.update state.arrays id (some (state.snapshots key hash)) }
  | .release ids => { state with arrays := fun id => if id ∈ ids then none else state.arrays id }

end PrivateArrays

/-! ## Arrays in memory -/

/-- Every element of the array is found in its block. -/
def Holds (shape : BlockShape) (memory : List (List (List UInt8))) (array : PrivateArray) : Prop :=
  ∀ coordinate value, array coordinate = some value →
    ∃ block element,
      blockAt memory (coordinate.table shape) (coordinate.token / shape.tokensPerBlock) =
        some block ∧
      coordinate.element shape = some element ∧
      readElement shape.bytesPerElement block element = value

theorem Holds.mono {shape : BlockShape} {memory memory' : List (List (List UInt8))}
    {array : PrivateArray} (holds : Holds shape memory array)
    (kept : ∀ table index block, blockAt memory table index = some block →
      blockAt memory' table index = some block) : Holds shape memory' array := by
  intro coordinate value written
  obtain ⟨block, element, found, element_eq, read⟩ := holds coordinate value written
  exact ⟨block, element, kept _ _ _ found, element_eq, read⟩

theorem holds_empty (shape : BlockShape) (memory : List (List (List UInt8))) :
    Holds shape memory fun _ => none := by
  intro coordinate value written
  simp at written

/-- Change one block of a memory. -/
def updateBlock (memory : List (List (List UInt8))) (table index : ℕ)
    (update : List UInt8 → List UInt8) : List (List (List UInt8)) :=
  memory.modify table fun row => row.modify index update

theorem blockAt_updateBlock (memory : List (List (List UInt8))) (table index : ℕ)
    (update : List UInt8 → List UInt8) (table' index' : ℕ) :
    blockAt (updateBlock memory table index update) table' index' =
      (blockAt memory table' index').map
        (if table = table' ∧ index = index' then update else id) := by
  unfold blockAt updateBlock
  rw [List.getElem?_modify]
  cases memory[table']? with
  | none => rfl
  | some row =>
      by_cases same_table : table = table'
      · by_cases same_index : index = index'
        · subst same_table same_index
          simp
        · simp [same_table, same_index]
      · simp [same_table]

theorem TokenStore.element_eq (store : TokenStore) (shape : BlockShape) (layer token : ℕ) :
    (store.coordinate shape layer token).element shape = store.element shape token := by
  unfold Coordinate.element TokenStore.element TokenStore.coordinate
  by_cases perLayer : shape.perLayerFrames <;> simp [perLayer]

/-- An element in range has the position that its coordinate calls for. -/
theorem Coordinate.element_spec {shape : BlockShape} (fits : shape.elementTotal < 2 ^ 64)
    {coordinate : Coordinate} {element : ℕ} (found : coordinate.element shape = some element) :
    (if shape.perLayerFrames then 0 else coordinate.layer) < shape.frameLayers ∧
      coordinate.token % shape.tokensPerBlock < shape.tokensPerBlock ∧
      coordinate.kvHead < shape.numKvHeads ∧ coordinate.dim < shape.headDim ∧
      element = KVBlockLayout.position shape (if shape.perLayerFrames then 0 else coordinate.layer)
        (KVBlockLayout.streamIndex coordinate.stream) (coordinate.token % shape.tokensPerBlock)
        coordinate.kvHead coordinate.dim := by
  unfold Coordinate.element at found
  split at found
  · rename_i dim_lt
    obtain ⟨offset, offset_eq, rfl⟩ := Option.map_eq_some_iff.mp found
    obtain ⟨layer_lt, token_lt, head_lt, exact_offset⟩ :=
      KVBlockLayout.elementOffset_eq fits offset_eq (by omega)
    refine ⟨layer_lt, token_lt, head_lt, dim_lt, ?_⟩
    rw [exact_offset, KVBlockLayout.position, KVBlockLayout.position, Nat.add_zero]
  · simp at found

/-- Two coordinates of one block with the same element are the same. -/
theorem Coordinate.element_injective {shape : BlockShape} (fits : shape.elementTotal < 2 ^ 64)
    {first second : Coordinate} {element : ℕ} (first_eq : first.element shape = some element)
    (second_eq : second.element shape = some element)
    (same_table : first.table shape = second.table shape)
    (same_block : first.token / shape.tokensPerBlock = second.token / shape.tokensPerBlock) :
    first = second := by
  obtain ⟨-, token_lt, head_lt, dim_lt, position⟩ := element_spec fits first_eq
  obtain ⟨-, token_lt', head_lt', dim_lt', position'⟩ := element_spec fits second_eq
  obtain ⟨layers, streams, tokens, heads, dims⟩ := KVBlockLayout.position_unique
    (KVBlockLayout.streamIndex_lt _) (KVBlockLayout.streamIndex_lt _) token_lt token_lt' head_lt
    head_lt' dim_lt dim_lt' (position.symm.trans position')
  have token_eq : first.token = second.token := by
    rw [← Nat.div_add_mod first.token shape.tokensPerBlock,
      ← Nat.div_add_mod second.token shape.tokensPerBlock, same_block, tokens]
  have layer_eq : first.layer = second.layer := by
    unfold Coordinate.table at same_table
    by_cases perLayer : shape.perLayerFrames
    · simpa [perLayer] using same_table
    · simpa [perLayer] using layers
  have stream_eq := KVBlockLayout.streamIndex_injective streams
  cases first
  cases second
  simp_all

/-- An element in range lies inside a frame of the full size. -/
theorem Coordinate.element_inside {shape : BlockShape} (fits : shape.elementTotal < 2 ^ 64)
    {coordinate : Coordinate} {element : ℕ} (found : coordinate.element shape = some element) :
    (element + 1) * shape.bytesPerElement ≤ shape.byteTotal := by
  obtain ⟨layer_lt, token_lt, head_lt, dim_lt, rfl⟩ := element_spec fits found
  have inside := KVBlockLayout.position_lt layer_lt
    (KVBlockLayout.streamIndex_lt coordinate.stream) token_lt head_lt dim_lt
  exact Nat.mul_le_mul_right _ inside

@[simp]
theorem readElement_zero (data : List UInt8) (element : ℕ) : readElement 0 data element = [] := by
  simp [readElement]

/-- The table written for a layer. -/
def writtenTable (shape : BlockShape) (layer : ℕ) : ℕ := if shape.perLayerFrames then layer else 0

theorem TokenStore.coordinate_table (store : TokenStore) (shape : BlockShape) (layer token : ℕ) :
    (store.coordinate shape layer token).table shape = writtenTable shape layer := by
  unfold Coordinate.table TokenStore.coordinate writtenTable
  by_cases perLayer : shape.perLayerFrames <;> simp [perLayer]

/-- What a store leaves of the other elements of its block. -/
theorem readElement_storeToken {config : AllocatorConfig} (addressable : config.Addressable)
    {layer token element : ℕ} {block : List UInt8} {store : TokenStore} {coordinate : Coordinate}
    (element_eq : coordinate.element config.blockShape = some element)
    (same_table : coordinate.table config.blockShape = writtenTable config.blockShape layer)
    (same_block : coordinate.token / config.blockShape.tokensPerBlock =
      token / config.blockShape.tokensPerBlock)
    (different : coordinate ≠ store.coordinate config.blockShape layer token) :
    readElement config.blockShape.bytesPerElement
        (storeToken config.blockShape token block store) element =
      readElement config.blockShape.bytesPerElement block element := by
  unfold storeToken
  cases store_eq : store.element config.blockShape token with
  | none => rfl
  | some written =>
      rcases Nat.eq_zero_or_pos config.blockShape.bytesPerElement with empty | sized
      · simp [empty]
      · apply readElement_storeElement_ne
        rintro rfl
        apply different
        refine Coordinate.element_injective (addressable.elementTotal_lt sized) element_eq ?_ ?_
          same_block
        · rw [store.element_eq, store_eq]
        · rw [same_table, store.coordinate_table]

theorem Holds.store {config : AllocatorConfig} (addressable : config.Addressable)
    {memory : List (List (List UInt8))} {array : PrivateArray}
    (holds : Holds config.blockShape memory array) {layer token : ℕ} {block : List UInt8}
    (found : blockAt memory (writtenTable config.blockShape layer)
      (token / config.blockShape.tokensPerBlock) = some block)
    (size : block.length = config.blockStrideFor) (store : TokenStore) :
    Holds config.blockShape
      (updateBlock memory (writtenTable config.blockShape layer)
        (token / config.blockShape.tokensPerBlock)
        fun data => storeToken config.blockShape token data store)
      (array.store config.blockShape layer token store) := by
  have others : ∀ coordinate value, array coordinate = some value →
      coordinate ≠ store.coordinate config.blockShape layer token ∨
        storeToken config.blockShape token block store = block →
      ∃ block' element,
        blockAt (updateBlock memory (writtenTable config.blockShape layer)
          (token / config.blockShape.tokensPerBlock)
          fun data => storeToken config.blockShape token data store)
          (coordinate.table config.blockShape)
          (coordinate.token / config.blockShape.tokensPerBlock) = some block' ∧
        coordinate.element config.blockShape = some element ∧
        readElement config.blockShape.bytesPerElement block' element = value := by
    intro coordinate value written apart
    obtain ⟨old, element, old_eq, element_eq, read⟩ := holds coordinate value written
    rw [blockAt_updateBlock, old_eq]
    refine ⟨_, element, rfl, element_eq, ?_⟩
    split
    · rename_i here
      obtain rfl : block = old := by
        rw [← here.1, ← here.2, found] at old_eq
        exact Option.some.inj old_eq
      simp only
      rcases apart with different | unchanged
      · rw [readElement_storeToken addressable element_eq here.1.symm here.2.symm different, read]
      · rw [unchanged, read]
    · exact read
  intro coordinate value written
  unfold PrivateArray.store at written
  split at written
  · rename_i valid
    by_cases same : coordinate = store.coordinate config.blockShape layer token
    · subst same
      rw [Function.update_self, Option.some.injEq] at written
      subst written
      obtain ⟨element, element_eq⟩ := Option.isSome_iff_exists.mp valid.1
      refine ⟨storeToken config.blockShape token block store, element, ?_, ?_, ?_⟩
      · rw [blockAt_updateBlock, store.coordinate_table,
          show (store.coordinate config.blockShape layer token).token = token from rfl, found]
        simp
      · rw [store.element_eq, element_eq]
      · rw [storeToken, element_eq]
        rcases Nat.eq_zero_or_pos config.blockShape.bytesPerElement with empty | sized
        · rw [empty, readElement_zero]
          exact (List.length_eq_zero_iff.mp (valid.2.trans empty)).symm
        · have coordinate_eq := (store.element_eq config.blockShape layer token).trans element_eq
          refine readElement_storeElement_self valid.2 ?_
          rw [size]
          exact (Coordinate.element_inside (addressable.elementTotal_lt sized) coordinate_eq).trans
            addressable.byteTotal_le
    · rw [Function.update_of_ne same] at written
      exact others coordinate value written (Or.inl same)
  · rename_i invalid
    refine others coordinate value written (Or.inr ?_)
    -- Neither the array nor the frame takes a store outside the layout.
    unfold storeToken
    cases store_eq : store.element config.blockShape token with
    | none => rfl
    | some element =>
        have wrong : ¬ store.value.length = config.blockShape.bytesPerElement := by
          simpa [store_eq] using invalid
        simp [storeElement, wrong]

theorem updateBlock_updateBlock (memory : List (List (List UInt8))) (table index : ℕ)
    (first second : List UInt8 → List UInt8) :
    updateBlock (updateBlock memory table index first) table index second =
      updateBlock memory table index fun data => second (first data) := by
  simp only [updateBlock, List.modify_modify_eq, Function.comp_def]

theorem Holds.stores {config : AllocatorConfig} (addressable : config.Addressable)
    {memory : List (List (List UInt8))} {array : PrivateArray}
    (holds : Holds config.blockShape memory array) {layer token : ℕ} {block : List UInt8}
    (found : blockAt memory (writtenTable config.blockShape layer)
      (token / config.blockShape.tokensPerBlock) = some block)
    (size : block.length = config.blockStrideFor) (stores : List TokenStore) :
    Holds config.blockShape
      (updateBlock memory (writtenTable config.blockShape layer)
        (token / config.blockShape.tokensPerBlock)
        fun data => stores.foldl (storeToken config.blockShape token) data)
      (stores.foldl (PrivateArray.store config.blockShape layer token) array) := by
  induction stores generalizing memory array block with
  | nil =>
      refine holds.mono ?_
      intro table index other other_eq
      rw [blockAt_updateBlock, other_eq]
      split <;> rfl
  | cons store stores induction =>
      have first := holds.store addressable found size store
      have found' : blockAt (updateBlock memory (writtenTable config.blockShape layer)
          (token / config.blockShape.tokensPerBlock)
          fun data => storeToken config.blockShape token data store)
          (writtenTable config.blockShape layer) (token / config.blockShape.tokensPerBlock) =
          some (storeToken config.blockShape token block store) := by
        rw [blockAt_updateBlock, found]
        simp
      have rest := induction first found' (by rw [storeToken_length, size])
      rw [updateBlock_updateBlock] at rest
      exact rest

namespace KVCacheManager

/-- A write changes the block of its token and no other. -/
theorem Stored.blockAt {before after : KVCacheManager} {frame : PhysicalBlockId}
    {update : List UInt8 → List UInt8} (stored : Stored before after frame update)
    {id : SequenceId} {state : SequenceState} (found : before.sequences.lookup id = some state)
    {layer index : ℕ} {entry : BlockTableEntry}
    (located : entryAt state.tables layer index = some entry) (place : entry.place = .frame frame)
    (table' index' : ℕ) :
    blockAt (blockBytesOf after.allocator state.tables) table' index' =
      blockAt (updateBlock (blockBytesOf before.allocator state.tables) layer index update)
        table' index' := by
  rw [blockAt_updateBlock, blockAt_blockBytesOf, blockAt_blockBytesOf]
  cases other_eq : entryAt state.tables table' index' with
  | none => rfl
  | some other =>
      simp only [Option.map_some, Option.some.injEq]
      split
      · rename_i here
        obtain ⟨rfl, rfl⟩ := here
        obtain rfl := Option.some.inj (located.symm.trans other_eq)
        rw [place]
        exact stored.bytes
      · rename_i elsewhere
        have single : (placesOf state.tables).count entry.place ≤ 1 := by
          rw [place, ← stored.single]
          exact count_placesOf_le found _
        have different : other.place ≠ .frame frame := by
          intro same
          exact elsewhere (entryAt_unique single located other_eq (same.trans place.symm))
        have owned : other.place ∈ before.places :=
          mem_places_of_mem_tables found (mem_placesOf_of_entryAt other_eq)
        exact congrArg Claim.bytes (stored.others other.place owned different)

end KVCacheManager
end QwenVLPaged
