import QwenVLPaged.PagedWrites
import QwenVLPaged.LayoutOffsets

/-!
# Rows of a layer inside its blocks

The slice of a frame that belongs to one layer and one stream is a row of elements for each token
of the block. Storing tokens replaces their rows and no others, so the rows of a layer can be read
off its blocks position by position, and `gather` reads exactly these.
-/

namespace QwenVLPaged

/-- An element of concatenated pieces of one size. -/
theorem getElem?_flatMap_sized {α β : Type} {piece : α → List β} {size : ℕ} {labels : List α}
    (sized : ∀ label ∈ labels, (piece label).length = size) {outer inner : ℕ}
    (inside : inner < size) :
    (labels.flatMap piece)[outer * size + inner]? =
      (labels[outer]?).bind fun label => (piece label)[inner]? := by
  induction labels generalizing outer with
  | nil => simp
  | cons label labels induction =>
      have head := sized label List.mem_cons_self
      cases outer with
      | zero =>
          rw [List.flatMap_cons, Nat.zero_mul, Nat.zero_add,
            List.getElem?_append_left (by rw [head]; exact inside)]
          rfl
      | succ outer =>
          have shifted : (outer + 1) * size + inner - size = outer * size + inner := by
            rw [Nat.succ_mul]
            omega
          have beyond : (piece label).length ≤ (outer + 1) * size + inner := by
            rw [head, Nat.succ_mul]
            omega
          rw [List.flatMap_cons, List.getElem?_append_right beyond, head, shifted,
            induction fun other member => sized other (List.mem_cons_of_mem _ member)]
          rfl

theorem length_flatMap_sized {α β : Type} {piece : α → List β} {size : ℕ} {labels : List α}
    (sized : ∀ label ∈ labels, (piece label).length = size) :
    (labels.flatMap piece).length = labels.length * size := by
  rw [List.length_flatMap, List.map_congr_left sized, List.map_const', List.sum_replicate]
  rfl

/-! ## Slices -/

/-- A slice that was assigned reads back, and every other element is left alone. -/
theorem readElement_storeSlice {width : ℕ} {data : List UInt8} {start : ℕ}
    {elements : List (List UInt8)} (sized : ∀ element ∈ elements, element.length = width)
    (inside : (start + elements.length) * width ≤ data.length) (index : ℕ) :
    readElement width (storeSlice width data start elements) index =
      if start ≤ index then (elements[index - start]?).getD (readElement width data index)
      else readElement width data index := by
  induction elements generalizing data start with
  | nil => simp [storeSlice]
  | cons element elements induction =>
      have element_sized := sized element List.mem_cons_self
      have rest_sized : ∀ other ∈ elements, other.length = width := fun other member =>
        sized other (List.mem_cons_of_mem _ member)
      rw [List.length_cons] at inside
      have fits : (start + 1 + elements.length) * width ≤
          (storeElement width data start element).length := by
        rw [storeElement_length, Nat.add_assoc, Nat.add_comm 1]
        exact inside
      have first_fits : (start + 1) * width ≤ data.length :=
        (Nat.mul_le_mul_right width (by omega)).trans inside
      rw [storeSlice, induction rest_sized fits]
      rcases Nat.lt_trichotomy index start with below | rfl | above
      · rw [if_neg (by omega), if_neg (by omega), readElement_storeElement_ne (by omega)]
      · rw [if_neg (by omega), if_pos le_rfl, Nat.sub_self,
          readElement_storeElement_self element_sized first_fits]
        rfl
      · have next : index - start = index - (start + 1) + 1 := by omega
        rw [if_pos (by omega), if_pos (by omega), next, List.getElem?_cons_succ,
          readElement_storeElement_ne (by omega)]

/-- Rows of equal size assigned one after the other. -/
theorem readSlice_storeSlice {α : Type} {width size : ℕ} {data : List UInt8} {first : ℕ}
    {piece : α → List (List UInt8)} {labels : List α}
    (sized : ∀ label ∈ labels, (piece label).length = size)
    (wide : ∀ label ∈ labels, ∀ element ∈ piece label, element.length = width)
    (inside : (first + labels.length) * size * width ≤ data.length) (row : ℕ) :
    readSlice width (storeSlice width data (first * size) (labels.flatMap piece)) (row * size)
        size =
      if first ≤ row then
        ((labels[row - first]?).map piece).getD (readSlice width data (row * size) size)
      else readSlice width data (row * size) size := by
  have element_sized : ∀ element ∈ labels.flatMap piece, element.length = width := by
    intro element member
    obtain ⟨label, label_mem, element_mem⟩ := List.mem_flatMap.mp member
    exact wide label label_mem element element_mem
  have fits : (first * size + (labels.flatMap piece).length) * width ≤ data.length := by
    rw [length_flatMap_sized sized, ← Nat.add_mul]
    exact inside
  have below (early : row < first) (index : ℕ) (index_lt : index < size) :
      ¬ first * size ≤ row * size + index := by
    have := Nat.mul_le_mul_right size early
    rw [Nat.succ_mul] at this
    omega
  unfold readSlice
  split
  · rename_i from_first
    obtain ⟨later, rfl⟩ := Nat.exists_eq_add_of_le from_first
    have position (index : ℕ) : (first + later) * size + index - first * size =
        later * size + index := by
      rw [Nat.add_mul]
      omega
    have reached (index : ℕ) : first * size ≤ (first + later) * size + index := by
      rw [Nat.add_mul]
      omega
    rw [Nat.add_sub_cancel_left]
    cases label_eq : labels[later]? with
    | none =>
        refine List.map_congr_left fun index index_mem => ?_
        rw [readElement_storeSlice element_sized fits, if_pos (reached index), position,
          getElem?_flatMap_sized sized (List.mem_range.mp index_mem), label_eq]
        rfl
    | some label =>
        have label_sized := sized label (List.mem_of_getElem? label_eq)
        rw [Option.map_some, Option.getD_some]
        refine List.ext_getElem (by simp [label_sized]) fun index index_lt _ => ?_
        rw [List.length_map, List.length_range] at index_lt
        rw [List.getElem_map, List.getElem_range, readElement_storeSlice element_sized fits,
          if_pos (reached index), position, getElem?_flatMap_sized sized index_lt, label_eq,
          Option.bind_some, List.getElem?_eq_getElem (by omega), Option.getD_some]
  · rename_i early
    refine List.map_congr_left fun index index_mem => ?_
    rw [readElement_storeSlice element_sized fits,
      if_neg (below (by omega) index (List.mem_range.mp index_mem))]

/-! ## Rows of a frame -/

/-- The key or the value of a token. -/
def TokenRow.ofStream {shape : BlockShape} (pair : TokenPair shape) : KVStream → TokenRow shape
  | .key => pair.1
  | .value => pair.2

namespace PagedPool

/-- Number of the row of one token, counted through layers, streams and tokens of a frame. -/
def rowNumber (shape : BlockShape) (layer : ℕ) (stream : KVStream) (token : ℕ) : ℕ :=
  (layer * 2 + KVBlockLayout.streamIndex stream) * shape.tokensPerBlock + token

/-- The row of one token in the data of a frame. -/
def rowOf (shape : BlockShape) (data : List UInt8) (layer : ℕ) (stream : KVStream) (token : ℕ) :
    List (List UInt8) :=
  readSlice shape.bytesPerElement data
    (rowNumber shape layer stream token * (shape.numKvHeads * shape.headDim))
    (shape.numKvHeads * shape.headDim)

theorem rowNumber_unique {shape : BlockShape} {layer layer' : ℕ} {stream stream' : KVStream}
    {token token' : ℕ} (inside : token < shape.tokensPerBlock)
    (inside' : token' < shape.tokensPerBlock)
    (same : rowNumber shape layer stream token = rowNumber shape layer' stream' token') :
    layer = layer' ∧ stream = stream' ∧ token = token' := by
  obtain ⟨halves, tokens⟩ := KVBlockLayout.digit_unique inside inside' same
  obtain ⟨layers, streams⟩ := KVBlockLayout.digit_unique (KVBlockLayout.streamIndex_lt stream)
    (KVBlockLayout.streamIndex_lt stream') halves
  exact ⟨layers, KVBlockLayout.streamIndex_injective streams, tokens⟩

/-- The rows of a frame lie inside it. -/
theorem rowNumber_end_le {shape : BlockShape} {layer : ℕ} (stream : KVStream) {token count : ℕ}
    (layer_lt : layer < shape.frameLayers) (inside : token + count ≤ shape.tokensPerBlock)
    {data : List UInt8} (sized : shape.byteTotal ≤ data.length) :
    (rowNumber shape layer stream token + count) * (shape.numKvHeads * shape.headDim) *
      shape.bytesPerElement ≤ data.length := by
  refine le_trans (Nat.mul_le_mul_right _ ?_) sized
  have half := KVBlockLayout.streamIndex_lt stream
  calc (rowNumber shape layer stream token + count) * (shape.numKvHeads * shape.headDim)
      ≤ ((layer * 2 + KVBlockLayout.streamIndex stream) * shape.tokensPerBlock +
          shape.tokensPerBlock) * (shape.numKvHeads * shape.headDim) := by
        refine Nat.mul_le_mul_right _ ?_
        rw [rowNumber]
        omega
    _ = (layer * 2 + KVBlockLayout.streamIndex stream + 1) *
          (shape.tokensPerBlock * (shape.numKvHeads * shape.headDim)) := by ring
    _ ≤ shape.frameLayers * 2 * (shape.tokensPerBlock * (shape.numKvHeads * shape.headDim)) :=
        Nat.mul_le_mul_right _ (by omega)
    _ = shape.elementTotal := by rw [BlockShape.elementTotal, Nat.mul_assoc]

/-- Where the rows of a layer and a stream start. -/
theorem base_eq {shape : BlockShape} (fits : shape.elementTotal < 2 ^ 64)
    (nonempty : 0 < shape.headDim) {layer base : ℕ} {stream : KVStream}
    (found : (KVBlockLayout.mk shape).elementOffset layer stream 0 0 = some base) (token : ℕ) :
    layer < shape.frameLayers ∧ base + token * (shape.numKvHeads * shape.headDim) =
      rowNumber shape layer stream token * (shape.numKvHeads * shape.headDim) := by
  obtain ⟨layer_lt, -, -, rfl⟩ := KVBlockLayout.elementOffset_eq fits found nonempty
  refine ⟨layer_lt, ?_⟩
  rw [KVBlockLayout.position, rowNumber]
  ring

/-- Assigning one stream of consecutive tokens replaces their rows. -/
theorem rowOf_storeSlice {shape : BlockShape} {data : List UInt8} {layer : ℕ} {stream : KVStream}
    {first : ℕ} {tokens : List (TokenPair shape)} (layer_lt : layer < shape.frameLayers)
    (inside : first + tokens.length ≤ shape.tokensPerBlock)
    (sized : shape.byteTotal ≤ data.length) (layer' : ℕ) (stream' : KVStream) {token : ℕ}
    (token_lt : token < shape.tokensPerBlock) :
    rowOf shape (storeSlice shape.bytesPerElement data
        (rowNumber shape layer stream first * (shape.numKvHeads * shape.headDim))
        (tokens.flatMap fun pair => (TokenRow.ofStream pair stream).elements)) layer' stream' token =
      if layer' = layer ∧ stream' = stream ∧ first ≤ token then
        ((tokens[token - first]?).map fun pair =>
          (TokenRow.ofStream pair stream).elements).getD (rowOf shape data layer' stream' token)
      else rowOf shape data layer' stream' token := by
  unfold rowOf
  rw [readSlice_storeSlice (fun pair _ => (TokenRow.ofStream pair stream).length_eq)
    (fun pair _ => (TokenRow.ofStream pair stream).sized)
    (rowNumber_end_le stream layer_lt inside sized)]
  by_cases here : layer' = layer ∧ stream' = stream
  · obtain ⟨rfl, rfl⟩ := here
    have order : rowNumber shape layer' stream' first ≤ rowNumber shape layer' stream' token ↔
        first ≤ token := by
      unfold rowNumber
      omega
    have distance : rowNumber shape layer' stream' token - rowNumber shape layer' stream' first =
        token - first := by
      unfold rowNumber
      omega
    simp only [order, distance, true_and]
  · have outside : ¬ (layer' = layer ∧ stream' = stream ∧ first ≤ token) := fun same =>
      here ⟨same.1, same.2.1⟩
    rw [if_neg outside]
    split
    · rename_i later
      -- A row of another layer or stream is not among the rows that were assigned.
      have missed : tokens[rowNumber shape layer' stream' token -
          rowNumber shape layer stream first]? = none := by
        rw [List.getElem?_eq_none_iff]
        by_contra early
        obtain ⟨offset, offset_eq⟩ := Nat.exists_eq_add_of_le later
        have same : rowNumber shape layer' stream' token =
            rowNumber shape layer stream (first + offset) := by
          rw [offset_eq]
          unfold rowNumber
          omega
        obtain ⟨layers, streams, -⟩ := rowNumber_unique token_lt (by omega) same
        exact here ⟨layers, streams⟩
      rw [missed]
      rfl
    · rfl

/-! ## Rows of blocks -/

/-- A layer whose rows can be addressed, with the offsets of its streams. -/
structure Based (shape : BlockShape) (layer keyBase valueBase : ℕ) : Prop where
  fits : shape.elementTotal < 2 ^ 64
  nonempty : 0 < shape.headDim
  key : (KVBlockLayout.mk shape).elementOffset layer .key 0 0 = some keyBase
  value : (KVBlockLayout.mk shape).elementOffset layer .value 0 0 = some valueBase

theorem Based.positive {shape : BlockShape} {layer keyBase valueBase : ℕ}
    (based : Based shape layer keyBase valueBase) : 0 < shape.tokensPerBlock :=
  (KVBlockLayout.elementOffset_eq based.fits based.key based.nonempty).2.1

@[simp]
theorem storeTokens_length {shape : BlockShape} (keyBase valueBase position : ℕ)
    (tokens : List (TokenPair shape)) (data : List UInt8) :
    (storeTokens keyBase valueBase position tokens data).length = data.length := by
  rw [storeTokens, storeSlice_length, storeSlice_length]

/-- Storing tokens replaces their rows in both streams of the layer. -/
theorem rowOf_storeTokens {shape : BlockShape} {layer keyBase valueBase : ℕ}
    (based : Based shape layer keyBase valueBase) {position : ℕ} {tokens : List (TokenPair shape)}
    (inside : position % shape.tokensPerBlock + tokens.length ≤ shape.tokensPerBlock)
    {data : List UInt8} (sized : shape.byteTotal ≤ data.length) (layer' : ℕ) (stream : KVStream)
    {token : ℕ} (token_lt : token < shape.tokensPerBlock) :
    rowOf shape (storeTokens keyBase valueBase position tokens data) layer' stream token =
      if layer' = layer ∧ position % shape.tokensPerBlock ≤ token then
        ((tokens[token - position % shape.tokensPerBlock]?).map fun pair =>
          (TokenRow.ofStream pair stream).elements).getD (rowOf shape data layer' stream token)
      else rowOf shape data layer' stream token := by
  obtain ⟨layer_lt, key_start⟩ := base_eq based.fits based.nonempty based.key
    (position % shape.tokensPerBlock)
  obtain ⟨-, value_start⟩ := base_eq based.fits based.nonempty based.value
    (position % shape.tokensPerBlock)
  have stored : storeTokens keyBase valueBase position tokens data =
      storeSlice shape.bytesPerElement (storeSlice shape.bytesPerElement data
          (rowNumber shape layer .key (position % shape.tokensPerBlock) *
            (shape.numKvHeads * shape.headDim))
          (tokens.flatMap fun pair => (TokenRow.ofStream pair .key).elements))
        (rowNumber shape layer .value (position % shape.tokensPerBlock) *
          (shape.numKvHeads * shape.headDim))
        (tokens.flatMap fun pair => (TokenRow.ofStream pair .value).elements) := by
    rw [← key_start, ← value_start]
    rfl
  rw [stored, rowOf_storeSlice layer_lt inside (by rwa [storeSlice_length]) layer' stream token_lt,
    rowOf_storeSlice layer_lt inside sized layer' stream token_lt]
  cases stream with
  | key => simp
  | value => simp

/-- The row of a position of a layer, if the position has a block. -/
def tokenRow (shape : BlockShape) (blocks : List (List UInt8)) (layer : ℕ) (stream : KVStream)
    (position : ℕ) : Option (List (List UInt8)) :=
  (blocks[position / shape.tokensPerBlock]?).map fun data =>
    rowOf shape data layer stream (position % shape.tokensPerBlock)

/-- Every block is a whole frame. -/
def Whole (shape : BlockShape) (blocks : List (List UInt8)) : Prop :=
  ∀ data ∈ blocks, shape.byteTotal ≤ data.length

theorem Whole.storeTokens {shape : BlockShape} {blocks : List (List UInt8)}
    (whole : Whole shape blocks) (index keyBase valueBase position : ℕ)
    (tokens : List (TokenPair shape)) :
    Whole shape (blocks.modify index (storeTokens keyBase valueBase position tokens)) := by
  intro data member
  obtain ⟨place, inside, rfl⟩ := List.getElem_of_mem member
  rw [List.getElem_modify]
  split
  · rw [storeTokens_length]
    exact whole _ (List.getElem_mem _)
  · exact whole _ (List.getElem_mem _)

/-- Storing tokens into one block replaces the rows of their positions. -/
theorem tokenRow_storeTokens {shape : BlockShape} {layer keyBase valueBase : ℕ}
    (based : Based shape layer keyBase valueBase) {blocks : List (List UInt8)}
    (whole : Whole shape blocks) {start : ℕ} {tokens : List (TokenPair shape)}
    (inside : start % shape.tokensPerBlock + tokens.length ≤ shape.tokensPerBlock)
    (mapped : start / shape.tokensPerBlock < blocks.length) (layer' : ℕ) (stream : KVStream)
    (position : ℕ) :
    tokenRow shape (blocks.modify (start / shape.tokensPerBlock)
        (storeTokens keyBase valueBase start tokens)) layer' stream position =
      if layer' = layer ∧ start ≤ position ∧ position < start + tokens.length then
        (tokens[position - start]?).map fun pair => (TokenRow.ofStream pair stream).elements
      else tokenRow shape blocks layer' stream position := by
  have positive := based.positive
  have start_split := Nat.div_add_mod start shape.tokensPerBlock
  have position_split := Nat.div_add_mod position shape.tokensPerBlock
  have offset_lt := Nat.mod_lt position positive
  unfold tokenRow
  rw [List.getElem?_modify]
  by_cases same : start / shape.tokensPerBlock = position / shape.tokensPerBlock
  · rw [same] at mapped start_split ⊢
    have entry := List.getElem?_eq_getElem mapped
    have data_whole := whole _ (List.getElem_mem mapped)
    have order : start % shape.tokensPerBlock ≤ position % shape.tokensPerBlock ↔
        start ≤ position := by omega
    have distance : position % shape.tokensPerBlock - start % shape.tokensPerBlock =
        position - start := by omega
    simp only [entry, Option.map_eq_map, Option.map_some, if_true,
      rowOf_storeTokens based inside data_whole layer' stream offset_lt, order, distance]
    by_cases later : layer' = layer ∧ start ≤ position
    · rw [if_pos later]
      by_cases early : position < start + tokens.length
      · rw [if_pos ⟨later.1, later.2, early⟩, List.getElem?_eq_getElem (by omega)]
        rfl
      · rw [if_neg (fun all => early all.2.2), List.getElem?_eq_none (by omega)]
        rfl
    · rw [if_neg later, if_neg fun all => later ⟨all.1, all.2.1⟩]
  · have outside : ¬ (layer' = layer ∧ start ≤ position ∧ position < start + tokens.length) := by
      rintro ⟨-, later, early⟩
      apply same
      refine le_antisymm (Nat.div_le_div_right later) ?_
      rw [← Nat.lt_succ_iff, Nat.div_lt_iff_lt_mul positive, Nat.succ_mul, Nat.mul_comm]
      omega
    rw [if_neg outside]
    simp [same]

/-- The block loop replaces the rows of the positions it stores, and no others. -/
theorem tokenRow_storeBlocks {shape : BlockShape} {layer keyBase valueBase : ℕ}
    (based : Based shape layer keyBase valueBase) {fuel start : ℕ}
    {tokens : List (TokenPair shape)} (enough : tokens.length ≤ fuel) {blocks : List (List UInt8)}
    (whole : Whole shape blocks)
    (covered : start + tokens.length ≤ blocks.length * shape.tokensPerBlock) (layer' : ℕ)
    (stream : KVStream) (position : ℕ) :
    tokenRow shape (storeBlocks keyBase valueBase fuel start tokens blocks) layer' stream position =
      if layer' = layer ∧ start ≤ position ∧ position < start + tokens.length then
        (tokens[position - start]?).map fun pair => (TokenRow.ofStream pair stream).elements
      else tokenRow shape blocks layer' stream position := by
  have positive := based.positive
  have nothing (here : ℕ) : ¬ (layer' = layer ∧ here ≤ position ∧
      position < here + ([] : List (TokenPair shape)).length) := by
    simp only [List.length_nil]
    omega
  induction fuel generalizing start tokens blocks with
  | zero =>
      obtain rfl := List.length_eq_zero_iff.mp (Nat.le_zero.mp enough)
      rw [if_neg (nothing start)]
      rfl
  | succ fuel induction =>
      cases tokens with
      | nil =>
          rw [if_neg (nothing start)]
          rfl
      | cons token tokens =>
          have offset_lt := Nat.mod_lt start positive
          rw [storeBlocks]
          generalize count_eq : min (shape.tokensPerBlock - start % shape.tokensPerBlock)
            (token :: tokens).length = count
          have count_pos : 0 < count := by
            rw [List.length_cons] at count_eq
            omega
          have count_le : count ≤ (token :: tokens).length := count_eq ▸ Nat.min_le_right _ _
          have inside : start % shape.tokensPerBlock + ((token :: tokens).take count).length ≤
              shape.tokensPerBlock := by
            rw [List.length_take]
            omega
          have mapped : start / shape.tokensPerBlock < blocks.length := by
            rw [Nat.div_lt_iff_lt_mul positive]
            omega
          have rest_length : ((token :: tokens).drop count).length =
            (token :: tokens).length - count := List.length_drop
          rw [induction (by omega) (whole.storeTokens _ keyBase valueBase start _)
            (by rw [List.length_modify]; omega),
            tokenRow_storeTokens based whole inside mapped, List.length_take, rest_length,
            Nat.min_eq_left count_le]
          by_cases here : layer' = layer ∧ start ≤ position ∧
              position < start + (token :: tokens).length
          · obtain ⟨rfl, later, early⟩ := here
            have whole_range : layer' = layer' ∧ start ≤ position ∧
                position < start + (token :: tokens).length := ⟨rfl, later, early⟩
            by_cases beyond : start + count ≤ position
            · have in_rest : layer' = layer' ∧ start + count ≤ position ∧
                  position < start + count + ((token :: tokens).length - count) :=
                ⟨rfl, beyond, by omega⟩
              have distance : count + (position - (start + count)) = position - start := by omega
              rw [if_pos in_rest, if_pos whole_range, List.getElem?_drop, distance]
            · have before_rest : ¬ (layer' = layer' ∧ start + count ≤ position ∧
                  position < start + count + ((token :: tokens).length - count)) :=
                fun all => beyond all.2.1
              have in_first : layer' = layer' ∧ start ≤ position ∧ position < start + count :=
                ⟨rfl, later, by omega⟩
              rw [if_neg before_rest, if_pos in_first, if_pos whole_range,
                List.getElem?_take_of_lt (by omega)]
          · have not_rest : ¬ (layer' = layer ∧ start + count ≤ position ∧
                position < start + count + ((token :: tokens).length - count)) :=
              fun all => here ⟨all.1, by omega, by omega⟩
            have not_first : ¬ (layer' = layer ∧ start ≤ position ∧ position < start + count) :=
              fun all => here ⟨all.1, all.2.1, by omega⟩
            rw [if_neg not_rest, if_neg not_first, if_neg here]

/-- The block loop keeps the size of every block. -/
theorem map_length_storeBlocks {shape : BlockShape} (keyBase valueBase fuel start : ℕ)
    (tokens : List (TokenPair shape)) (blocks : List (List UInt8)) :
    (storeBlocks keyBase valueBase fuel start tokens blocks).map List.length =
      blocks.map List.length := by
  induction fuel generalizing start tokens blocks with
  | zero => rfl
  | succ fuel induction =>
      cases tokens with
      | nil => rfl
      | cons token tokens =>
          rw [storeBlocks, induction]
          refine List.ext_getElem (by simp) fun index _ _ => ?_
          simp only [List.getElem_map, List.getElem_modify]
          split
          · exact storeTokens_length ..
          · rfl

theorem whole_of_storeBlocks {shape : BlockShape} {keyBase valueBase fuel start : ℕ}
    {tokens : List (TokenPair shape)} {blocks : List (List UInt8)}
    (whole : Whole shape (storeBlocks keyBase valueBase fuel start tokens blocks)) :
    Whole shape blocks := by
  intro data member
  have sized := List.mem_map_of_mem member (f := List.length)
  rw [← map_length_storeBlocks keyBase valueBase fuel start tokens] at sized
  obtain ⟨stored, stored_mem, stored_eq⟩ := List.mem_map.mp sized
  rw [← stored_eq]
  exact whole stored stored_mem

/-- More blocks leave the rows of the others. -/
theorem tokenRow_append {shape : BlockShape} {blocks : List (List UInt8)} {layer : ℕ}
    {stream : KVStream} {position : ℕ} {row : List (List UInt8)}
    (found : tokenRow shape blocks layer stream position = some row) (more : List (List UInt8)) :
    tokenRow shape (blocks ++ more) layer stream position = some row := by
  obtain ⟨data, data_eq, rfl⟩ := Option.map_eq_some_iff.mp found
  rw [tokenRow, List.getElem?_append_left (List.getElem?_eq_some_iff.mp data_eq).1, data_eq]
  rfl

/-! ## Gathering rows -/

/-- The rows of indexed frames, one position after the other. -/
theorem rows_eq {shape : BlockShape} (positive : 0 < shape.tokensPerBlock) {layer base : ℕ}
    {stream : KVStream} (fits : shape.elementTotal < 2 ^ 64) (nonempty : 0 < shape.headDim)
    (base_found : (KVBlockLayout.mk shape).elementOffset layer stream 0 0 = some base)
    {blocks : List (List UInt8)} {rows : List (List (List UInt8))}
    (stored : ∀ position row, rows[position]? = some row →
      tokenRow shape blocks layer stream position = some row) :
    (blocks.flatMap fun data => frameRows shape data base).take rows.length = rows := by
  have sized : ∀ data ∈ blocks, (frameRows shape data base).length = shape.tokensPerBlock := by
    intro data _
    rw [frameRows, List.length_map, List.length_range]
  refine List.ext_getElem? fun position => ?_
  by_cases inside : position < rows.length
  · have row_eq := List.getElem?_eq_getElem inside
    have found := stored position _ row_eq
    have offset_lt := Nat.mod_lt position positive
    obtain ⟨data, data_eq, read⟩ := Option.map_eq_some_iff.mp found
    have split := Nat.div_add_mod' position shape.tokensPerBlock
    rw [List.getElem?_take_of_lt inside, ← split, getElem?_flatMap_sized sized offset_lt, data_eq,
      Option.bind_some, split, row_eq, ← read, frameRows, List.getElem?_map,
      List.getElem?_range offset_lt, Option.map_some, rowOf,
      (base_eq fits nonempty base_found (position % shape.tokensPerBlock)).2]
  · rw [List.getElem?_eq_none (by rw [List.length_take]; omega), List.getElem?_eq_none (by omega)]

end PagedPool

end QwenVLPaged
