import QwenVLPaged.StoredRows
import QwenVLPaged.WriteGrants

/-!
# The cache as lists that only grow

What a layer of a sequence holds is the list of the tokens appended to it, with those that it
inherited when its sequence was branched off. The pool represents these lists: every position of a
list has a block that holds its row, whatever the tables, caches and copies in between do.
-/

namespace QwenVLPaged

/-- The tokens of every layer of a sequence, in the order in which they were appended. -/
abbrev Histories (shape : BlockShape) := SequenceId → Option (List (List (TokenPair shape)))

namespace Histories

/-- One empty list for each layer of the root. -/
def initial (shape : BlockShape) : Histories shape :=
  Function.update (fun _ => none) rootId (some (List.replicate shape.numLayers []))

def append {shape : BlockShape} (histories : Histories shape) (id : SequenceId) (layer : ℕ)
    (tokens : List (TokenPair shape)) : Histories shape :=
  Function.update histories id
    ((histories id).map fun layers => layers.modify layer fun history => history ++ tokens)

/-- The child inherits what its parent holds. -/
def branch {shape : BlockShape} (histories : Histories shape) (parentId childId : SequenceId) :
    Histories shape :=
  Function.update histories childId (histories parentId)

/-- What a call appends. -/
def record {shape : BlockShape} (histories : Histories shape) :
    PagedPool.Op shape → Histories shape
  | .update id layer tokens => histories.append id layer tokens
  | .forkPagedCache parentId childId => histories.branch parentId childId
  | _ => histories

end Histories

namespace PagedPool

open Raising

/-- A shape whose rows can be addressed, and frames that a 32-bit tensor can name. -/
structure Supported (config : AllocatorConfig) : Prop where
  layers : config.blockShape.layersPerFrame = 0
  positive : 0 < config.blockShape.tokensPerBlock
  wide : 0 < config.blockShape.bytesPerElement
  heads : 0 < config.blockShape.numKvHeads
  nonempty : 0 < config.blockShape.headDim
  addressable : config.Addressable
  frames : config.maxBlocks ≤ 2 ^ 31

/-- The pool represents the histories. -/
structure Represents (config : AllocatorConfig) (histories : Histories config.blockShape)
    (pool : PagedPool) : Prop where
  settled : pool.Settled config
  eager : pool.useKernel = false
  known : pool.Known
  spacer : pool.scatter = true → (pool.manager.framesOf spacerId).isSome
  lengths : ∀ id, pool.layerLengths id = (histories id).map fun layers => layers.map List.length
  width : ∀ id layers, histories id = some layers → layers.length = config.blockShape.numLayers
  live : ∀ id, (histories id).isSome → (pool.manager.framesOf id).isSome
  rows : ∀ id layers blocks, histories id = some layers →
    pool.manager.blockContents id = some blocks → ∀ layer history, layers[layer]? = some history →
    ∀ stream position pair, history[position]? = some pair →
      tokenRow config.blockShape blocks layer stream position =
        some (TokenRow.ofStream pair stream).elements
  owner : ∀ id token frame, pool.writable = some (id, token, frame) → (histories id).isSome
  /-- The remembered position is behind some layer, and behind all of them at a fork. -/
  behind : ∀ id token frame layers, pool.writable = some (id, token, frame) →
    histories id = some layers →
    if pool.branched then ∀ history ∈ layers, token < history.length
    else ∃ history ∈ layers, token < history.length

/-- A layer that exists. -/
theorem Represents.lengthResult_eq {config : AllocatorConfig}
    {histories : Histories config.blockShape} {pool : PagedPool}
    (represents : Represents config histories pool) {id : SequenceId}
    {layers : List (List (TokenPair config.blockShape))} (layers_eq : histories id = some layers)
    {layer : ℕ} {history : List (TokenPair config.blockShape)}
    (history_eq : layers[layer]? = some history) :
    pool.lengthResult id layer = .ok history.length := by
  simp only [lengthResult, represents.lengths, layers_eq, Option.map_some, Option.bind_some,
    List.getElem?_map, history_eq]

theorem Represents.history_of_length {config : AllocatorConfig}
    {histories : Histories config.blockShape} {pool : PagedPool}
    (represents : Represents config histories pool) {id : SequenceId} {layer start : ℕ}
    (found : pool.lengthResult id layer = .ok start) :
    ∃ layers history, histories id = some layers ∧ layers[layer]? = some history ∧
      history.length = start := by
  obtain ⟨lengths, lengths_eq, start_eq⟩ := lengthResult_mem found
  rw [represents.lengths, Option.map_eq_some_iff] at lengths_eq
  obtain ⟨layers, layers_eq, rfl⟩ := lengths_eq
  rw [List.getElem?_map, Option.map_eq_some_iff] at start_eq
  obtain ⟨history, history_eq, length_eq⟩ := start_eq
  exact ⟨layers, history, layers_eq, history_eq, length_eq⟩

/-- The offsets of the streams of a layer. -/
theorem Supported.based {config : AllocatorConfig} (supported : Supported config) {layer : ℕ}
    (layer_lt : layer < config.blockShape.numLayers) :
    ∃ keyBase valueBase, Based config.blockShape layer keyBase valueBase := by
  have frame_layers : config.blockShape.frameLayers = config.blockShape.numLayers := by
    rw [BlockShape.frameLayers, if_pos supported.layers]
  have offset (stream : KVStream) : ∃ base,
      (KVBlockLayout.mk config.blockShape).elementOffset layer stream 0 0 = some base := by
    refine ⟨_, if_neg ?_⟩
    have heads := supported.heads
    have positive := supported.positive
    simp only [frame_layers]
    omega
  obtain ⟨keyBase, key_eq⟩ := offset .key
  obtain ⟨valueBase, value_eq⟩ := offset .value
  exact ⟨keyBase, valueBase, supported.addressable.elementTotal_lt supported.wide,
    supported.nonempty, key_eq, value_eq⟩

/-! ## Reading the histories -/

/-- The rows of one stream of a history. -/
def streamRows {shape : BlockShape} (history : List (TokenPair shape)) (stream : KVStream) :
    List (List (List UInt8)) :=
  history.map fun pair => (TokenRow.ofStream pair stream).elements

theorem fitsInt32_of_flat {manager : KVCacheManager} (flat : manager.Flat)
    (few : manager.allocator.config.maxBlocks ≤ 2 ^ 31) {id : SequenceId}
    {frames : List PhysicalBlockId} (frames_eq : manager.framesOf id = some frames) (count : ℕ) :
    fitsInt32 (frames.take count) = true := by
  rw [fitsInt32, List.all_eq_true]
  intro frame member
  have inside := flat.accounted.ledger.formed.lt_of_refCount
    (flat.refCount_pos frames_eq (List.mem_of_mem_take member)).ne'
  exact decide_eq_true (inside.trans_le few)

/-- The blocks that hold a history hold its rows. -/
theorem stored_front {shape : BlockShape} {blocks : List (List UInt8)} {layer : ℕ}
    {stream : KVStream} {history : List (TokenPair shape)}
    (positive : 0 < shape.tokensPerBlock)
    (stored : ∀ position pair, history[position]? = some pair →
      tokenRow shape blocks layer stream position =
        some (TokenRow.ofStream pair stream).elements) (position : ℕ) (row : List (List UInt8))
    (found : (streamRows history stream)[position]? = some row) :
    tokenRow shape (blocks.take (ceilDiv history.length shape.tokensPerBlock)) layer stream
      position = some row := by
  rw [streamRows, List.getElem?_map, Option.map_eq_some_iff] at found
  obtain ⟨pair, pair_eq, rfl⟩ := found
  have inside : position / shape.tokensPerBlock <
      ceilDiv history.length shape.tokensPerBlock := by
    rw [Nat.div_lt_iff_lt_mul positive]
    exact (List.getElem?_eq_some_iff.mp pair_eq).1.trans_le (le_ceilDiv_mul positive)
  rw [tokenRow, List.getElem?_take_of_lt inside]
  exact stored position pair pair_eq

/-- A represented layer is gathered as it was appended. -/
theorem Represents.gatherResult_eq {config : AllocatorConfig} (supported : Supported config)
    {histories : Histories config.blockShape} {pool : PagedPool}
    (represents : Represents config histories pool) {id : SequenceId}
    {layers : List (List (TokenPair config.blockShape))} (layers_eq : histories id = some layers)
    {layer : ℕ} {history : List (TokenPair config.blockShape)}
    (history_eq : layers[layer]? = some history)
    (narrow : ceilDiv history.length config.blockShape.tokensPerBlock *
      config.blockShape.tokensPerBlock < 2 ^ 31) :
    pool.gatherResult id layer = .ok (streamRows history .key, streamRows history .value) := by
  have positive := supported.positive
  have settled := represents.settled
  have shape_eq : pool.manager.allocator.config.blockShape = config.blockShape := by
    rw [settled.config_eq]
  have size : pool.tokensPerBlock = config.blockShape.tokensPerBlock := by
    rw [tokensPerBlock, shape, shape_eq]
  obtain ⟨frames, frames_eq⟩ := Option.isSome_iff_exists.mp
    (represents.live id (by rw [layers_eq]; rfl))
  have length_eq := represents.lengthResult_eq layers_eq history_eq
  have layer_lt : layer < config.blockShape.numLayers := by
    rw [← represents.width id layers layers_eq]
    exact (List.getElem?_eq_some_iff.mp history_eq).1
  obtain ⟨keyBase, valueBase, based⟩ := supported.based layer_lt
  have wide : config.blockShape.numKvHeads * config.blockShape.headDim ≠ 0 :=
    (Nat.mul_pos supported.heads supported.nonempty).ne'
  have contents : pool.manager.blockContents id = some (frames.map pool.manager.frameData) := by
    rw [KVCacheManager.blockContents, frames_eq, Option.map_some]
  have read (stream : KVStream) (base : ℕ)
      (base_eq : (KVBlockLayout.mk config.blockShape).elementOffset layer stream 0 0 = some base) :
      streamResult pool.manager layer history.length
        (frames.take (ceilDiv history.length config.blockShape.tokensPerBlock)) stream =
          .ok (streamRows history stream) := by
    have gathered := rows_eq positive based.fits based.nonempty base_eq
      (stored_front positive fun position pair pair_eq =>
        represents.rows id layers _ layers_eq contents layer history history_eq stream position pair
          pair_eq)
    rw [← List.map_take, List.flatMap_map, streamRows, List.length_map] at gathered
    simp only [streamResult, shape_eq, base_eq, if_neg wide, gathered]
    rfl
  rw [gatherResult_of_frames length_eq frames_eq (size ▸ positive), size, tensorOf,
    if_pos (fitsInt32_of_flat settled.coherent.flat (settled.config_eq ▸ supported.frames)
      frames_eq _), contextResult, if_pos (by simpa [fitsInt32] using narrow)]
  have ok_bind {α β : Type} (value : α) (next : α → Except String β) :
      (Except.ok value >>= next) = next value := rfl
  simp only [ok_bind, List.take_take, Nat.min_self, read .key keyBase based.key,
    read .value valueBase based.value]
  rfl

/-! ## Keeping the representation -/

/-- Rows of a sequence whose blocks were left alone. -/
theorem Untouched.rows {shape : BlockShape} {before after : PagedPool} {id : SequenceId}
    (untouched : Untouched before after id) (live : (before.manager.framesOf id).isSome)
    {layer position : ℕ} {stream : KVStream} {row : List (List UInt8)}
    (stored : ∀ blocks, before.manager.blockContents id = some blocks →
      tokenRow shape blocks layer stream position = some row) {blocks : List (List UInt8)}
    (found : after.manager.blockContents id = some blocks) :
    tokenRow shape blocks layer stream position = some row := by
  obtain ⟨frames, frames_eq⟩ := Option.isSome_iff_exists.mp live
  obtain ⟨longer, longer_eq, -, more, contents⟩ := untouched frames frames_eq
  rw [KVCacheManager.blockContents, longer_eq, Option.map_some, Option.some.injEq] at found
  rw [← found, ← contents]
  refine tokenRow_append (stored _ ?_) more
  rw [KVCacheManager.blockContents, frames_eq, Option.map_some]

theorem Untouched.live {before after : PagedPool} {id : SequenceId}
    (untouched : Untouched before after id) (live : (before.manager.framesOf id).isSome) :
    (after.manager.framesOf id).isSome := by
  obtain ⟨frames, frames_eq⟩ := Option.isSome_iff_exists.mp live
  obtain ⟨longer, longer_eq, -⟩ := untouched frames frames_eq
  rw [longer_eq]
  rfl

/-- Reading through the caches changes nothing else. -/
theorem Represents.recached {config : AllocatorConfig} {histories : Histories config.blockShape}
    {before after : PagedPool} (represents : Represents config histories before)
    (recached : Recached before after) : Represents config histories after := by
  have coherent := represents.settled.coherent
  refine ⟨⟨recached.coherent coherent, ?_⟩, recached.useKernel.trans represents.eager,
    represents.known.untouched recached.tableLen recached.untouched, ?_, ?_, represents.width, ?_,
    ?_, ?_, ?_⟩
  · rw [recached.manager]
    exact represents.settled.config_eq
  · rw [recached.scatter, recached.manager]
    exact represents.spacer
  · rw [recached.layerLengths]
    exact represents.lengths
  · rw [recached.manager]
    exact represents.live
  · rw [recached.manager]
    exact represents.rows
  · rw [recached.writable]
    exact represents.owner
  · rw [recached.writable, recached.branched]
    exact represents.behind

/-- Every block of a live sequence is a whole frame. -/
theorem Settled.whole {config : AllocatorConfig} {pool : PagedPool} (settled : pool.Settled config)
    (supported : Supported config) {id : SequenceId} {blocks : List (List UInt8)}
    (found : pool.manager.blockContents id = some blocks) : Whole config.blockShape blocks := by
  obtain ⟨frames, frames_eq, rfl⟩ := Option.map_eq_some_iff.mp found
  intro data member
  obtain ⟨frame, frame_mem, rfl⟩ := List.mem_map.mp member
  have flat := settled.coherent.flat
  rw [KVCacheManager.frameData,
    flat.accounted.length_bytesAt (flat.frame_mem frames_eq frame_mem), settled.config_eq]
  exact supported.addressable.byteTotal_le

/-- The lengths of the layers after an append. -/
theorem map_length_modify {α : Type} {layers : List (List α)} {layer : ℕ} {history : List α}
    (found : layers[layer]? = some history) (tokens : List α) :
    (layers.modify layer fun history => history ++ tokens).map List.length =
      (layers.map List.length).set layer (history.length + tokens.length) := by
  refine List.ext_getElem (by simp) fun index _ _ => ?_
  simp only [List.getElem_map, List.getElem_modify, List.getElem_set]
  split
  · rename_i same
    subst same
    rw [List.length_append, (List.getElem?_eq_some_iff.mp found).2]
  · rfl

theorem capacity_of_contents_eq {pool : PagedPool} {id : SequenceId} {blocks : List (List UInt8)}
    (found : pool.manager.blockContents id = some blocks) :
    pool.capacity id = blocks.length * pool.tokensPerBlock := by
  obtain ⟨frames, frames_eq, rfl⟩ := Option.map_eq_some_iff.mp found
  rw [capacity_of_frames frames_eq, List.length_map]

/-- Rows of the sequence that was written. -/
theorem Updated.rows {config : AllocatorConfig} (supported : Supported config)
    {histories : Histories config.blockShape} {before after : PagedPool}
    (represents : Represents config histories before) {id : SequenceId}
    {layers : List (List (TokenPair config.blockShape))} (layers_eq : histories id = some layers)
    {layer : ℕ} {history : List (TokenPair config.blockShape)}
    (history_eq : layers[layer]? = some history) {tokens : List (TokenPair config.blockShape)}
    {keyBase valueBase : ℕ} (based : Based config.blockShape layer keyBase valueBase)
    (updated : Updated before after id layer history.length tokens keyBase valueBase)
    {blocks : List (List UInt8)} (found : after.manager.blockContents id = some blocks)
    {other : ℕ} {extended : List (TokenPair config.blockShape)}
    (extended_eq : (layers.modify layer fun history => history ++ tokens)[other]? = some extended)
    (stream : KVStream) {position : ℕ} {pair : TokenPair config.blockShape}
    (pair_eq : extended[position]? = some pair) :
    tokenRow config.blockShape blocks other stream position =
      some (TokenRow.ofStream pair stream).elements := by
  have settled := updated.advances.settled represents.settled
  obtain ⟨frames, frames_eq⟩ := Option.isSome_iff_exists.mp
    (represents.live id (by rw [layers_eq]; rfl))
  have old_eq : before.manager.blockContents id =
      some (frames.map before.manager.frameData) := by
    rw [KVCacheManager.blockContents, frames_eq, Option.map_some]
  obtain ⟨more, stored_eq⟩ := updated.contents _ old_eq
  obtain rfl := Option.some.inj (stored_eq.symm.trans found)
  have whole := whole_of_storeBlocks (settled.whole supported found)
  have block_count := congrArg List.length (map_length_storeBlocks keyBase valueBase tokens.length
    history.length tokens (frames.map before.manager.frameData ++ more))
  rw [List.length_map, List.length_map] at block_count
  have size : after.tokensPerBlock = config.blockShape.tokensPerBlock := by
    rw [tokensPerBlock, shape, settled.config_eq]
  have lengths_after : after.layerLengths id =
      some ((layers.map List.length).set layer (history.length + tokens.length)) := by
    rw [updated.layerLengths, withLength]
    simp only [Function.update_self, represents.lengths, layers_eq, Option.map_some]
  have layer_lt : layer < (layers.map List.length).length := by
    rw [List.length_map]
    exact (List.getElem?_eq_some_iff.mp history_eq).1
  have covered : history.length + tokens.length ≤
      (frames.map before.manager.frameData ++ more).length * config.blockShape.tokensPerBlock := by
    rw [← block_count, ← size, ← capacity_of_contents_eq found]
    exact settled.coherent.committed id _ lengths_after _ (List.mem_set layer_lt _)
  have old_row (history' : List (TokenPair config.blockShape)) (here : layers[other]? = some history')
      (found' : history'[position]? = some pair) :=
    tokenRow_append (represents.rows id layers _ layers_eq old_eq other history' here stream position
      pair found') more
  rw [tokenRow_storeBlocks based le_rfl whole covered]
  rw [List.getElem?_modify] at extended_eq
  by_cases same : layer = other
  · subst same
    rw [history_eq] at extended_eq
    simp only [Option.map_eq_map, Option.map_some, if_true, Option.some.injEq] at extended_eq
    subst extended_eq
    have inside := (List.getElem?_eq_some_iff.mp pair_eq).1
    rw [List.length_append] at inside
    by_cases early : position < history.length
    · rw [if_neg (by omega)]
      exact old_row history history_eq (by rwa [List.getElem?_append_left early] at pair_eq)
    · rw [if_pos ⟨rfl, by omega, inside⟩]
      rw [List.getElem?_append_right (by omega)] at pair_eq
      rw [pair_eq, Option.map_some]
  · simp only [if_neg same, Option.map_eq_map, Option.map_id'] at extended_eq
    rw [if_neg fun all => same all.1.symm]
    exact old_row extended extended_eq pair_eq

/-- Tokens appended to one layer. -/
theorem Represents.updated {config : AllocatorConfig} (supported : Supported config)
    {histories : Histories config.blockShape} {before after : PagedPool}
    (represents : Represents config histories before) {id : SequenceId}
    {layers : List (List (TokenPair config.blockShape))} (layers_eq : histories id = some layers)
    {layer : ℕ} {history : List (TokenPair config.blockShape)}
    (history_eq : layers[layer]? = some history) {tokens : List (TokenPair config.blockShape)}
    (some_left : tokens ≠ []) (blocky : before.Blocky) {keyBase valueBase : ℕ}
    (based : Based config.blockShape layer keyBase valueBase)
    (updated : Updated before after id layer history.length tokens keyBase valueBase) :
    Represents config (histories.append id layer tokens) after := by
  have appended : histories.append id layer tokens id =
      some (layers.modify layer fun history => history ++ tokens) := by
    rw [Histories.append, Function.update_self, layers_eq, Option.map_some]
  have kept (other : SequenceId) (different : other ≠ id) :
      histories.append id layer tokens other = histories other :=
    Function.update_of_ne different ..
  obtain ⟨fresh, token, frame, memo_eq, token_lt⟩ := updated.memo some_left
  have live (other : SequenceId) (held : (histories other).isSome) :
      (after.manager.framesOf other).isSome := by
    by_cases same : other = id
    · subst same
      exact updated.advances.live (represents.live other held)
    · exact (updated.advances.others other same).live (represents.live other held)
  refine ⟨updated.advances.settled represents.settled,
    updated.advances.useKernel.trans represents.eager, updated.known blocky represents.known, ?_,
    ?_, ?_, ?_, ?_, ?_, ?_⟩
  · intro scatter
    have spaced := represents.spacer (updated.advances.scatter ▸ scatter)
    by_cases same : spacerId = id
    · rw [same] at spaced ⊢
      exact updated.advances.live spaced
    · exact (updated.advances.others spacerId same).live spaced
  · intro other
    rw [updated.layerLengths, withLength]
    by_cases same : other = id
    · subst same
      simp only [Function.update_self, represents.lengths, appended, layers_eq, Option.map_some,
        map_length_modify history_eq]
    · simp only [Function.update_of_ne same, represents.lengths, kept other same]
  · intro other layers' found
    by_cases same : other = id
    · subst same
      obtain rfl := Option.some.inj (appended.symm.trans found)
      rw [List.length_modify]
      exact represents.width other layers layers_eq
    · exact represents.width other layers' ((kept other same).symm.trans found)
  · intro other held
    by_cases same : other = id
    · subst same
      exact live other (by rw [layers_eq]; rfl)
    · exact live other (by rwa [kept other same] at held)
  · intro other layers' blocks found contents layer' history' history_eq' stream position pair
      pair_eq
    by_cases same : other = id
    · subst same
      obtain rfl := Option.some.inj (appended.symm.trans found)
      exact Updated.rows supported represents layers_eq history_eq based updated contents
        history_eq' stream pair_eq
    · rw [kept other same] at found
      refine (updated.advances.others other same).rows
        (represents.live other (by rw [found]; rfl)) ?_ contents
      intro old old_eq
      exact represents.rows other layers' old found old_eq layer' history' history_eq' stream
        position pair pair_eq
  · intro other token' frame' memo_eq'
    obtain ⟨rfl, -, -⟩ : id = other ∧ token = token' ∧ frame = frame' := by
      simpa using memo_eq.symm.trans memo_eq'
    rw [appended]
    rfl
  · intro other token' frame' layers' memo_eq' found
    obtain ⟨rfl, rfl, -⟩ : id = other ∧ token = token' ∧ frame = frame' := by
      simpa using memo_eq.symm.trans memo_eq'
    obtain rfl := Option.some.inj (appended.symm.trans found)
    rw [fresh, if_neg Bool.false_ne_true]
    have extended_eq : (layers.modify layer fun history => history ++ tokens)[layer]? =
        some (history ++ tokens) := by
      rw [List.getElem?_modify, history_eq]
      simp
    refine ⟨history ++ tokens, List.mem_of_getElem? extended_eq, ?_⟩
    rw [List.length_append]
    exact token_lt

/-- A child that inherits the histories of its parent. -/
theorem Represents.forked {config : AllocatorConfig} {histories : Histories config.blockShape}
    {before forked after : PagedPool} (represents : Represents config histories before)
    {parentId childId : SequenceId} (branch : Forked before forked parentId childId)
    {lengths : List ℕ} (lengths_eq : before.layerLengths parentId = some lengths)
    (even : ∀ first ∈ lengths, ∀ second ∈ lengths, first = second)
    (coherent : after.Coherent)
    (after_eq : after = { forked with
      layerLengths := Function.update before.layerLengths childId (some lengths) }) :
    Represents config (histories.branch parentId childId) after := by
  have old := represents.settled.coherent
  obtain ⟨layers, layers_eq, rfl⟩ := Option.map_eq_some_iff.mp
    ((represents.lengths parentId).symm.trans lengths_eq)
  have inherited : histories.branch parentId childId childId = some layers := by
    rw [Histories.branch, Function.update_self, layers_eq]
  have kept (other : SequenceId) (different : other ≠ childId) :
      histories.branch parentId childId other = histories other :=
    Function.update_of_ne different ..
  have unused : histories childId = none := by
    by_contra held
    have live := represents.live childId (Option.isSome_iff_ne_none.mpr held)
    rw [branch.manager.absent] at live
    simp at live
  have manager_eq : after.manager = forked.manager := by rw [after_eq]
  obtain ⟨frames, parent_eq, child_eq⟩ := branch.manager.frames
  have child_contents : after.manager.blockContents childId =
      before.manager.blockContents parentId := by
    rw [manager_eq, KVCacheManager.blockContents, KVCacheManager.blockContents, child_eq, parent_eq,
      Option.map_some, Option.map_some, (branch.manager.contents old.flat parent_eq).2]
  have untouched (other : SequenceId) : Untouched before after other := by
    have := branch.untouched old other
    intro frames frames_eq
    rw [manager_eq]
    exact this frames frames_eq
  refine ⟨⟨coherent, ?_⟩, ?_, ?_, ?_, ?_, ?_, ?_, ?_, ?_, ?_⟩
  · rw [manager_eq]
    exact branch.manager.config.trans represents.settled.config_eq
  · rw [after_eq]
    exact branch.useKernel.trans represents.eager
  · exact represents.known.untouched (by rw [after_eq]; exact branch.tableLen) untouched
  · intro scatter
    rw [after_eq] at scatter
    exact (untouched spacerId).live (represents.spacer (branch.scatter ▸ scatter))
  · intro other
    rw [after_eq]
    by_cases same : other = childId
    · subst same
      simp only [Function.update_self, inherited, Option.map_some]
    · simp only [Function.update_of_ne same, represents.lengths, kept other same]
  · intro other layers' found
    by_cases same : other = childId
    · subst same
      obtain rfl := Option.some.inj (inherited.symm.trans found)
      exact represents.width parentId layers layers_eq
    · exact represents.width other layers' ((kept other same).symm.trans found)
  · intro other held
    by_cases same : other = childId
    · subst same
      rw [manager_eq, child_eq]
      rfl
    · exact (untouched other).live (represents.live other (by rwa [kept other same] at held))
  · intro other layers' blocks found contents layer history history_eq stream position pair pair_eq
    by_cases same : other = childId
    · subst same
      obtain rfl := Option.some.inj (inherited.symm.trans found)
      exact represents.rows parentId layers blocks layers_eq (child_contents ▸ contents) layer
        history history_eq stream position pair pair_eq
    · rw [kept other same] at found
      refine (untouched other).rows (represents.live other (by rw [found]; rfl)) ?_ contents
      intro old old_eq
      exact represents.rows other layers' old found old_eq layer history history_eq stream position
        pair pair_eq
  · intro other token frame memo_eq
    rw [after_eq] at memo_eq
    have owned := represents.owner other token frame (branch.writable ▸ memo_eq)
    by_cases same : other = childId
    · subst same
      simp [unused] at owned
    · rwa [kept other same]
  · intro other token frame layers' memo_eq found
    rw [after_eq] at memo_eq ⊢
    have memo_eq' : before.writable = some (other, token, frame) := branch.writable ▸ memo_eq
    have different : other ≠ childId := by
      rintro rfl
      have owned := represents.owner other token frame memo_eq'
      simp [unused] at owned
    rw [kept other different] at found
    have behind := represents.behind other token frame layers' memo_eq' found
    cases stale : forked.branched with
    | false =>
        rw [branch.fresh stale] at behind
        exact behind
    | true =>
        rw [if_pos rfl]
        cases former : before.branched with
        | true => simpa [former] using behind
        | false =>
            obtain ⟨token', frame', parent_memo⟩ := (branch.stale stale).resolve_left (by simp [former])
            obtain ⟨rfl, -, -⟩ : other = parentId ∧ token = token' ∧ frame = frame' := by
              simpa using memo_eq'.symm.trans parent_memo
            obtain rfl := Option.some.inj (layers_eq.symm.trans found)
            simp only [former, Bool.false_eq_true, if_false] at behind
            obtain ⟨longest, longest_mem, token_lt⟩ := behind
            intro history member
            rwa [even history.length (List.mem_map_of_mem member) longest.length
              (List.mem_map_of_mem longest_mem)]

/-! ## Runs -/

/-- Calls on layers that exist, with lengths that 32-bit tensors can hold, and forks of an even
cache into an unused id. -/
def Ranged {shape : BlockShape} (pool : PagedPool) : Op shape → Prop
  | .update id layer tokens => tokens ≠ [] ∧ ∃ start, pool.lengthResult id layer = .ok start ∧
      ceilDiv (start + tokens.length) pool.tokensPerBlock * pool.tokensPerBlock < 2 ^ 31
  | .forkPagedCache parentId childId => ∃ lengths, pool.layerLengths parentId = some lengths ∧
      lengths ≠ [] ∧ (∀ first ∈ lengths, ∀ second ∈ lengths, first = second) ∧
      pool.manager.framesOf childId = none ∧ pool.Countable
  | .decodeInputs _ length => length < 2 ^ 31
  | _ => False

/-- The call does not run out of frames. -/
def Roomy {shape : BlockShape} (pool : PagedPool) : Op shape → Prop
  | .update id layer tokens => ∀ message,
      (outcome (update id layer tokens) pool).1 = .error message →
      ¬ (outcome (update id layer tokens) pool).2.Exhausted
  | _ => True

theorem blocky_of_rounded {pool : PagedPool} {count : ℕ} (positive : 0 < pool.tokensPerBlock)
    (some_tokens : 0 < count)
    (narrow : ceilDiv count pool.tokensPerBlock * pool.tokensPerBlock < 2 ^ 31) : pool.Blocky := by
  refine ⟨positive, ?_⟩
  have one := Nat.le_mul_of_pos_left pool.tokensPerBlock (ceilDiv_pos some_tokens positive)
  exact (one.trans_lt narrow).le

/-- An `update` that does not run out of frames returns everything appended so far. -/
theorem Represents.update_returns {config : AllocatorConfig} (supported : Supported config)
    {histories : Histories config.blockShape} {pool : PagedPool}
    (represents : Represents config histories pool) {id : SequenceId} {layer : ℕ}
    {tokens : List (TokenPair config.blockShape)}
    (ranged : pool.Ranged (.update id layer tokens)) (roomy : pool.Roomy (.update id layer tokens)) :
    ∃ layers history, histories id = some layers ∧ layers[layer]? = some history ∧
      (outcome (update id layer tokens) pool).1 =
        .ok (streamRows (history ++ tokens) .key, streamRows (history ++ tokens) .value) ∧
      Represents config (histories.append id layer tokens)
        (outcome (update id layer tokens) pool).2 := by
  obtain ⟨some_left, start, start_eq, narrow⟩ := ranged
  obtain ⟨layers, history, layers_eq, history_eq, rfl⟩ := represents.history_of_length start_eq
  have settled := represents.settled
  have shape_eq : pool.shape = config.blockShape := by rw [shape, settled.config_eq]
  have size : pool.tokensPerBlock = config.blockShape.tokensPerBlock := by
    rw [tokensPerBlock, shape_eq]
  have some_tokens : 0 < history.length + tokens.length :=
    Nat.add_pos_right _ (List.length_pos_of_ne_nil some_left)
  have blocky := blocky_of_rounded (size ▸ supported.positive) some_tokens narrow
  have layer_lt : layer < config.blockShape.numLayers := by
    rw [← represents.width id layers layers_eq]
    exact (List.getElem?_eq_some_iff.mp history_eq).1
  obtain ⟨keyBase, valueBase, based⟩ := supported.based layer_lt
  have extended_eq : (layers.modify layer fun history => history ++ tokens)[layer]? =
      some (history ++ tokens) := by
    rw [List.getElem?_modify, history_eq]
    simp
  have appended : histories.append id layer tokens id =
      some (layers.modify layer fun history => history ++ tokens) := by
    rw [Histories.append, Function.update_self, layers_eq, Option.map_some]
  have gathered (after : PagedPool)
      (updated : Updated pool after id layer history.length tokens keyBase valueBase) :
      after.gatherResult id layer =
        .ok (streamRows (history ++ tokens) .key, streamRows (history ++ tokens) .value) := by
    refine (represents.updated supported layers_eq history_eq some_left blocky based
      updated).gatherResult_eq supported appended extended_eq ?_
    rw [List.length_append, ← size]
    exact narrow
  -- A stale memo would be behind every layer, but this layer ends at the position asked for.
  have current (begin_at : ℕ) (begin_eq : pool.lengthResult id layer = .ok begin_at)
      (_ : tokens ≠ []) (stale : pool.branched = true) : pool.memo id begin_at = none := by
    obtain rfl : history.length = begin_at := Except.ok.inj (start_eq.symm.trans begin_eq)
    unfold memo
    split
    · rename_i owner position frame memo_eq
      split
      · rename_i same
        obtain ⟨rfl, rfl⟩ := same
        have behind := represents.behind owner history.length frame layers memo_eq layers_eq
        rw [stale, if_pos rfl] at behind
        exact absurd (behind history (List.mem_of_getElem? history_eq)) (lt_irrefl _)
      · rfl
    · rfl
  have narrow_end : history.length + tokens.length ≤ 2 ^ 32 := by
    have rounded : history.length + tokens.length ≤
        ceilDiv (history.length + tokens.length) pool.tokensPerBlock * pool.tokensPerBlock :=
      le_ceilDiv_mul blocky.1
    omega
  have reservable : pool.Reservable id :=
    ⟨blocky, represents.live id (by rw [layers_eq]; rfl), represents.spacer⟩
  obtain ⟨rows, rows_eq, start', keyBase', valueBase', start_eq', key_eq, value_eq, updated,
    read⟩ := (update_ensures shape_eq settled.coherent id layer tokens current).returns (by
      rintro message raised ⟨-, blocked⟩
      rcases blocked history.length keyBase valueBase start_eq based.key based.value reservable
        represents.known narrow_end with exhausted | ⟨updated, unread⟩
      · exact roomy message raised exhausted
      · rw [gathered _ updated] at unread
        simp at unread)
  obtain rfl : history.length = start' := Except.ok.inj (start_eq.symm.trans start_eq')
  obtain rfl : keyBase = keyBase' := Option.some.inj (based.key.symm.trans key_eq)
  obtain rfl : valueBase = valueBase' := Option.some.inj (based.value.symm.trans value_eq)
  refine ⟨layers, history, layers_eq, history_eq, ?_,
    represents.updated supported layers_eq history_eq some_left blocky based updated⟩
  rw [rows_eq, ← gathered _ updated, read represents.eager]

/-- One call. -/
theorem represents_step {config : AllocatorConfig} (supported : Supported config)
    {histories : Histories config.blockShape} {pool : PagedPool}
    (represents : Represents config histories pool) {op : Op config.blockShape}
    (ranged : pool.Ranged op) (roomy : pool.Roomy op) :
    Represents config (histories.record op) (pool.step op) := by
  have coherent := represents.settled.coherent
  cases op with
  | update id layer tokens =>
      obtain ⟨_, _, -, -, -, after⟩ := represents.update_returns supported ranged roomy
      exact after
  | forkPagedCache parentId childId =>
      obtain ⟨lengths, lengths_eq, layered, even, unused, countable⟩ := ranged
      have held : (histories parentId).isSome := by
        rw [represents.lengths] at lengths_eq
        obtain ⟨layers, layers_eq, -⟩ := Option.map_eq_some_iff.mp lengths_eq
        rw [layers_eq]
        rfl
      refine (forkPagedCache_ensures coherent countable parentId childId).final ?_ ?_
      · rintro _ after ⟨forked, lengths', branch, lengths_eq', after_coherent, after_eq⟩
        obtain rfl := Option.some.inj (lengths_eq.symm.trans lengths_eq')
        exact represents.forked branch lengths_eq even after_coherent after_eq
      · rintro _ after ⟨-, refused⟩
        have taken := refused (by rwa [lengths_eq]) (represents.live parentId held)
        rw [unused] at taken
        simp at taken
  | decodeInputs id length =>
      exact represents.recached (decodeInputs_yields coherent.tables id length).2
  | ensureCapacity _ _ => exact ranged.elim
  | writableFrame _ _ => exact ranged.elim
  | fork _ _ => exact ranged.elim
  | pagedLayers _ => exact ranged.elim
  | reset _ _ => exact ranged.elim

theorem represents_create {config : AllocatorConfig} (supported : Supported config)
    (scatter : Bool) :
    Represents config (Histories.initial config.blockShape) (create config scatter false) := by
  obtain ⟨-, -, root, spacer⟩ := manager_create supported.layers scatter false
  have held (id : SequenceId) (layers : List (List (TokenPair config.blockShape)))
      (found : Histories.initial config.blockShape id = some layers) :
      id = rootId ∧ layers = List.replicate config.blockShape.numLayers [] := by
    rcases update_eq_some found with ⟨rfl, new⟩ | ⟨-, missing⟩
    · exact ⟨rfl, (Option.some.inj new).symm⟩
    · simp at missing
  refine ⟨settled_create supported.layers scatter false, rfl, ?_, ?_, ?_, ?_, ?_, ?_, ?_, ?_⟩
  · intro id count found
    simp [create] at found
  · intro scattered
    rw [spacer scattered]
    rfl
  · intro id
    change Function.update (fun _ => none) rootId
      (some (List.replicate config.blockShape.numLayers 0)) id = _
    rw [Histories.initial]
    by_cases same : id = rootId
    · subst same
      simp
    · simp only [Function.update_of_ne same, Option.map_none]
  · intro id layers found
    rw [(held id layers found).2, List.length_replicate]
  · intro id live
    obtain ⟨layers, found⟩ := Option.isSome_iff_exists.mp live
    rw [(held id layers found).1, root]
    rfl
  · intro id layers blocks found _ layer history history_eq stream position pair pair_eq
    rw [(held id layers found).2] at history_eq
    obtain rfl := List.eq_of_mem_replicate (List.mem_of_getElem? history_eq)
    simp at pair_eq
  · intro id token frame memo_eq
    simp [create] at memo_eq
  · intro id token frame layers memo_eq
    simp [create] at memo_eq

theorem represents_run {config : AllocatorConfig} (supported : Supported config)
    {histories : Histories config.blockShape} {pool : PagedPool}
    (represents : Represents config histories pool) {ops : List (Op config.blockShape)}
    (guarded : Execution.Along step (fun pool op => pool.Ranged op ∧ pool.Roomy op) pool ops) :
    Represents config (Execution.run Histories.record histories ops) (pool.run ops) := by
  induction ops generalizing pool histories with
  | nil => exact represents
  | cons op ops induction =>
      exact induction (represents_step supported represents guarded.1.1 guarded.1.2) guarded.2

/-- Along every run of updates, forks of even caches and table reads that stays in range and does
not run out of frames, `update` returns the tokens appended to the layer, with those its sequence
inherited, and the tables for a decode are fronts of the block tables. -/
theorem cache_refines_lists {config : AllocatorConfig} (supported : Supported config)
    (scatter : Bool) (ops : List (Op config.blockShape))
    (guarded : Execution.Along step (fun pool op => pool.Ranged op ∧ pool.Roomy op)
      (create config scatter false) ops) :
    (∀ id layer tokens,
      Ranged ((create config scatter false).run ops) (.update id layer tokens) →
      Roomy ((create config scatter false).run ops) (.update id layer tokens) →
      ∃ layers history,
        Execution.run Histories.record (Histories.initial config.blockShape) ops id = some layers ∧
        layers[layer]? = some history ∧
        (outcome (update id layer tokens) ((create config scatter false).run ops)).1 =
          .ok (streamRows (history ++ tokens) .key, streamRows (history ++ tokens) .value)) ∧
      ∀ id length frames, length < 2 ^ 31 →
        (outcome (blockTable id) ((create config scatter false).run ops)).1 = .ok frames →
        (outcome (decodeInputs id length) ((create config scatter false).run ops)).1 =
          .ok (frames.take (ceilDiv length config.blockShape.tokensPerBlock), length) := by
  have represents := represents_run supported (represents_create supported scatter) guarded
  generalize (create config scatter false).run ops = pool at represents
  have settled := represents.settled
  have size : pool.tokensPerBlock = config.blockShape.tokensPerBlock := by
    rw [tokensPerBlock, shape, settled.config_eq]
  refine ⟨?_, ?_⟩
  · intro id layer tokens ranged roomy
    obtain ⟨layers, history, layers_eq, history_eq, returned, -⟩ :=
      represents.update_returns supported ranged roomy
    exact ⟨layers, history, layers_eq, history_eq, returned⟩
  · intro id length frames narrow listed
    rw [(blockTable_yields settled.coherent.tables id).1,
      KVCacheManager.blockTableOf_framesOf] at listed
    cases frames_eq : pool.manager.framesOf id with
    | none => simp [frames_eq] at listed
    | some frames' =>
        obtain rfl : frames' = frames := by simpa [frames_eq] using listed
        rw [(decodeInputs_yields settled.coherent.tables id length).1, inputsResult,
          if_neg (by rw [size]; exact supported.positive.ne'), tableResult_of_frames frames_eq,
          tensorOf, if_pos (fitsInt32_of_flat settled.coherent.flat
            (settled.config_eq ▸ supported.frames) frames_eq _), contextResult,
          if_pos (by simpa [fitsInt32] using narrow), size]
        rfl

theorem roomy_of_returned {shape : BlockShape} {pool : PagedPool} {id : SequenceId} {layer : ℕ}
    {tokens : List (TokenPair shape)} {rows : List (List (List UInt8)) × List (List (List UInt8))}
    (returned : (outcome (update id layer tokens) pool).1 = .ok rows) :
    pool.Roomy (.update id layer tokens) := by
  intro message raised
  rw [returned] at raised
  simp at raised

/-- The root stores a token and is branched; the child stores two more across a block border. -/
def branchAndExtend : List (Op pairConfig.blockShape) :=
  [.update rootId 0 [(byteRow 1, byteRow 2)], .forkPagedCache rootId 2,
    .update 2 0 [(byteRow 3, byteRow 4), (byteRow 5, byteRow 6)]]

theorem cache_refines_lists_branched :
    ∃ layers history,
      Execution.run Histories.record (Histories.initial pairConfig.blockShape) branchAndExtend
        rootId = some layers ∧
      layers[0]? = some history ∧
      (outcome (update rootId 0 [(byteRow 7, byteRow 8)])
        ((create pairConfig false false).run branchAndExtend)).1 =
          .ok (streamRows (history ++ [(byteRow 7, byteRow 8)]) .key,
            streamRows (history ++ [(byteRow 7, byteRow 8)]) .value) := by
  have supported : Supported pairConfig :=
    ⟨rfl, by decide, by decide, by decide, by decide, by unfold AllocatorConfig.Addressable; decide,
      by decide⟩
  have guarded : Execution.Along step (fun pool op => pool.Ranged op ∧ pool.Roomy op)
      (create pairConfig false false) branchAndExtend := by
    refine ⟨⟨⟨by simp, 0, by decide +kernel, by decide +kernel⟩, ?_⟩,
      ⟨⟨[1], by decide +kernel, by decide, by simp, by decide +kernel,
        countable_of_few (by decide +kernel)⟩, trivial⟩,
      ⟨⟨by simp, 1, by decide +kernel, by decide +kernel⟩, ?_⟩, trivial⟩
    · exact roomy_of_returned (show _ = Except.ok ([[[1]]], [[[2]]]) by decide +kernel)
    · exact roomy_of_returned
        (show _ = Except.ok ([[[1]], [[3]], [[5]]], [[[2]], [[4]], [[6]]]) by decide +kernel)
  refine (cache_refines_lists supported false branchAndExtend guarded).1 rootId 0
    [(byteRow 7, byteRow 8)] ⟨by simp, 1, by decide +kernel, by decide +kernel⟩ ?_
  exact roomy_of_returned (show _ = Except.ok ([[[1]], [[7]]], [[[2]], [[8]]]) by decide +kernel)

/-- A frame holds so many tokens that twice their number does not fit into 32 bits. -/
def wideBlocks : AllocatorConfig where
  blockShape := ⟨2 ^ 31 + 1, 1, 1, 1, 1, 0⟩
  alignmentBytes := kDefaultBlockAlignmentBytes
  maxBlocks := 2
  maxBlocks_lt := two_lt_word

def wideRow (value : UInt8) : TokenRow wideBlocks.blockShape :=
  ⟨[[value]], single_byte_length value, single_byte_sized value⟩

/-- A reservation of one such block is rounded up to no block, so the first token cannot be stored
although all frames are free. -/
theorem wide_block_not_reserved :
    (outcome (update rootId 0 [(wideRow 1, wideRow 2)]) (create wideBlocks false false)).1 =
        .error "ensure_token_writable failed at token 0" ∧
      (outcome (update rootId 0 [(wideRow 1, wideRow 2)])
        (create wideBlocks false false)).2.manager.allocator.freeList.length = 2 := by
  decide +kernel

end PagedPool
end QwenVLPaged
