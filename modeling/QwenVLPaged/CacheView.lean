import QwenVLPaged.CacheLayout
import QwenVLPaged.KVCacheManager
import QwenVLPaged.Ledger

/-!
# Reading and writing cached elements

`CacheView` is the read side handed to execution backends: it resolves a logical coordinate
through the page table. A pointer into the pool is a frame together with an element offset. The
write side stores the elements of one token into the frame that `ensure_token_writable` returns.
-/

namespace QwenVLPaged

/-- Read-only view of one sequence's cache tables. Absent parts are null pointers. -/
structure CacheView where
  sequenceId : SequenceId
  cacheKind : CacheKind
  blockTable : Option BlockTable
  layerTables : Option (List BlockTable)
  allocator : Option MemoryAllocator
  layout : KVBlockLayout

namespace CacheView

/-- The view can resolve cache storage. -/
def valid (view : CacheView) : Bool :=
  view.blockTable.isSome && view.allocator.isSome && decide (view.layout.elementCount > 0)

/-- The table consulted for a layer. -/
def tableFor (view : CacheView) (layer : ℕ) : Option BlockTable :=
  match view.layerTables.bind (·[layer]?) with
  | some table => some table
  | none => if layer ≠ 0 then none else view.blockTable

/-- The frame backing one logical block of a layer. -/
def blockBytes (view : CacheView) (index layer : ℕ) : Option PhysicalBlock :=
  if !view.valid then
    none
  else
    match view.tableFor layer with
    | none => none
    | some table =>
        match table.lookup index with
        | none => none
        | some physical => view.allocator.bind (·.block physical)

/-- Resolve one (stream, layer, token, kv head) vector for elements of `elementSize` bytes. -/
def slot (view : CacheView) (elementSize : ℕ) (stream : KVStream) (layer token kvHead : ℕ) :
    Option (PhysicalBlock × ℕ) :=
  if !view.valid || elementSize != view.layout.shape.bytesPerElement then
    none
  else
    let tokensPerBlock := view.layout.shape.tokensPerBlock
    let perLayer := view.layout.shape.perLayerFrames
    if perLayer && (view.layerTables.bind (·[layer]?)).isNone then
      none
    else
      let offsetLayer := if perLayer then 0 else layer
      match view.layout.elementOffset offsetLayer stream (token % tokensPerBlock) kvHead with
      | none => none
      | some offset =>
          let index := token / tokensPerBlock
          match if perLayer then view.blockBytes index layer else view.blockBytes index 0 with
          | none => none
          | some frame => some (frame, offset)

/-- The table index that resolves a layer. -/
def tableIndex (view : CacheView) (layer : ℕ) : ℕ :=
  if view.layout.shape.perLayerFrames then layer else 0

/-- What a resolved slot is. -/
theorem slot_eq_some {view : CacheView} {elementSize : ℕ} {stream : KVStream}
    {layer token kvHead offset : ℕ} {frame : PhysicalBlock}
    (resolved : view.slot elementSize stream layer token kvHead = some (frame, offset)) :
    view.valid = true ∧ elementSize = view.layout.shape.bytesPerElement ∧
      view.layout.elementOffset (if view.layout.shape.perLayerFrames then 0 else layer) stream
        (token % view.layout.shape.tokensPerBlock) kvHead = some offset ∧
      view.blockBytes (token / view.layout.shape.tokensPerBlock) (view.tableIndex layer) =
        some frame := by
  unfold slot at resolved
  split at resolved
  · simp at resolved
  · rename_i usable
    simp only [Bool.or_eq_true, Bool.not_eq_true', bne_iff_ne, ne_eq, not_or, Bool.not_eq_false,
      not_not] at usable
    simp only at resolved
    split at resolved
    · simp at resolved
    · cases offset_eq : view.layout.elementOffset
          (if view.layout.shape.perLayerFrames then 0 else layer) stream
          (token % view.layout.shape.tokensPerBlock) kvHead with
      | none => simp [offset_eq] at resolved
      | some found =>
          have block_eq : (if view.layout.shape.perLayerFrames then
              view.blockBytes (token / view.layout.shape.tokensPerBlock) layer
              else view.blockBytes (token / view.layout.shape.tokensPerBlock) 0) =
              view.blockBytes (token / view.layout.shape.tokensPerBlock)
                (view.tableIndex layer) := by
            unfold tableIndex
            split <;> rfl
          simp only [offset_eq, block_eq] at resolved
          cases bytes_eq : view.blockBytes (token / view.layout.shape.tokensPerBlock)
              (view.tableIndex layer) with
          | none => simp [bytes_eq] at resolved
          | some block =>
              simp only [bytes_eq, Option.some.injEq, Prod.mk.injEq] at resolved
              obtain ⟨rfl, rfl⟩ := resolved
              exact ⟨usable.1, usable.2, rfl, rfl⟩

theorem blockBytes_eq_some {view : CacheView} {index layer : ℕ} {frame : PhysicalBlock}
    (resolved : view.blockBytes index layer = some frame) :
    ∃ table physical allocator, view.tableFor layer = some table ∧
      table.lookup index = some physical ∧ view.allocator = some allocator ∧
      allocator.block physical = some frame := by
  unfold blockBytes at resolved
  split at resolved
  · simp at resolved
  · cases table_eq : view.tableFor layer with
    | none => simp [table_eq] at resolved
    | some table =>
        cases physical_eq : table.lookup index with
        | none => simp [table_eq, physical_eq] at resolved
        | some physical =>
            simp only [table_eq, physical_eq] at resolved
            obtain ⟨allocator, allocator_eq, block_eq⟩ := Option.bind_eq_some_iff.mp resolved
            exact ⟨table, physical, allocator, rfl, physical_eq, allocator_eq, block_eq⟩

end CacheView

/-- The bytes of one element of a frame. -/
def readElement (width : ℕ) (data : List UInt8) (element : ℕ) : List UInt8 :=
  (data.drop (element * width)).take width

/-- Overwrite one element of a frame. Stores outside the frame do not take place. -/
def storeElement (width : ℕ) (data : List UInt8) (element : ℕ) (value : List UInt8) :
    List UInt8 :=
  if value.length = width ∧ (element + 1) * width ≤ data.length then
    data.take (element * width) ++ (value ++ data.drop ((element + 1) * width))
  else
    data

/-- One element of one token to be stored. -/
structure TokenStore where
  stream : KVStream
  layer : ℕ
  kvHead : ℕ
  dim : ℕ
  value : List UInt8

/-- Element offset of a store inside the frame of its token, if the coordinate is in range. -/
def TokenStore.element (store : TokenStore) (shape : BlockShape) (token : ℕ) : Option ℕ :=
  if store.dim < shape.headDim then
    ((KVBlockLayout.mk shape).elementOffset (if shape.perLayerFrames then 0 else store.layer)
      store.stream (token % shape.tokensPerBlock) store.kvHead).map (· + store.dim)
  else
    none

/-- Put one element of a token at its layout offset. -/
def storeToken (shape : BlockShape) (token : ℕ) (data : List UInt8) (store : TokenStore) :
    List UInt8 :=
  match store.element shape token with
  | none => data
  | some element => storeElement shape.bytesPerElement data element store.value

namespace KVCacheManager

/-- A backend-facing view of a sequence. -/
def cacheView (manager : KVCacheManager) (sequenceId : SequenceId)
    (cacheKind : CacheKind) : Option CacheView :=
  (manager.sequences.lookup sequenceId).map fun state =>
    { sequenceId
      cacheKind
      blockTable := some state.textTable
      layerTables := some state.tables
      allocator := some manager.allocator
      layout := ⟨manager.poolShape⟩ }

/-- Make the block of a token writable and store elements of that token into its frame. -/
def writeToken (manager : KVCacheManager) (sequenceId : SequenceId) (token layer : ℕ)
    (stores : List TokenStore) : Option PhysicalBlockId × KVCacheManager :=
  match manager.ensureTokenWritable sequenceId token layer with
  | (none, after) => (none, after)
  | (some frame, after) =>
      (some frame,
        { after with
          allocator := after.allocator.writeFrame frame fun data =>
            stores.foldl (storeToken manager.poolShape token) data })

end KVCacheManager

/-! ## Elements of a frame -/

@[simp]
theorem storeElement_length (width : ℕ) (data : List UInt8) (element : ℕ) (value : List UInt8) :
    (storeElement width data element value).length = data.length := by
  unfold storeElement
  split
  · rename_i fits
    simp only [List.length_append, List.length_take, List.length_drop]
    have : element * width + width ≤ data.length := by linarith [fits.2, Nat.succ_mul element width]
    rw [Nat.succ_mul]
    omega
  · rfl

theorem storeToken_length (shape : BlockShape) (token : ℕ) (data : List UInt8)
    (store : TokenStore) : (storeToken shape token data store).length = data.length := by
  unfold storeToken
  split
  · rfl
  · exact storeElement_length ..

theorem storeTokens_length (shape : BlockShape) (token : ℕ) (data : List UInt8)
    (stores : List TokenStore) :
    (stores.foldl (storeToken shape token) data).length = data.length := by
  induction stores generalizing data with
  | nil => rfl
  | cons store stores induction =>
      rw [List.foldl_cons, induction, storeToken_length]

/-- A stored element reads back. -/
theorem readElement_storeElement_self {width : ℕ} {data : List UInt8} {element : ℕ}
    {value : List UInt8} (value_length : value.length = width)
    (inside : (element + 1) * width ≤ data.length) :
    readElement width (storeElement width data element value) element = value := by
  have start : element * width ≤ data.length := by
    rw [Nat.succ_mul] at inside
    omega
  rw [readElement, storeElement, if_pos ⟨value_length, inside⟩]
  rw [List.drop_append_of_le_length (by simpa using start)]
  rw [List.drop_of_length_le (by simp), List.nil_append]
  rw [List.take_append_of_le_length value_length.ge, List.take_of_length_le value_length.le]

/-- A store leaves every other element alone. -/
theorem readElement_storeElement_ne {width : ℕ} {data : List UInt8} {element other : ℕ}
    {value : List UInt8} (different : other ≠ element) :
    readElement width (storeElement width data element value) other =
      readElement width data other := by
  unfold storeElement
  split
  case isFalse => rfl
  rename_i fits
  obtain ⟨value_length, inside⟩ := fits
  rw [Nat.succ_mul] at inside ⊢
  have start : element * width ≤ data.length := by omega
  unfold readElement
  rcases Nat.lt_or_gt_of_ne different with below | above
  · have end_le : other * width + width ≤ element * width := by
      rw [← Nat.succ_mul]
      exact Nat.mul_le_mul_right width below
    rw [List.drop_append_of_le_length (by simp; omega), List.take_append_of_le_length
      (by simp; omega), List.drop_take, List.take_take]
    congr 1
    omega
  · have start_ge : element * width + width ≤ other * width := by
      rw [← Nat.succ_mul]
      exact Nat.mul_le_mul_right width above
    congr 1
    rw [List.drop_append, List.drop_append]
    simp only [List.length_take, List.drop_drop, Nat.min_eq_left start, value_length]
    rw [List.drop_of_length_le (by simp; omega), List.drop_of_length_le (by omega)]
    simp only [List.nil_append]
    congr 1
    omega

end QwenVLPaged
