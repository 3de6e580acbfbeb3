import QwenVLPaged.AttentionAgreement
import QwenVLPaged.TableWidths

/-!
# Which calls the kernels accept

The reference kernel resolves every token through `CacheView::slot`. The other kernels resolve a
number of blocks that they compute in 32 bits, and check the offsets of the tokens later. The two
conditions coincide as long as the number of blocks does not overflow.
-/

namespace QwenVLPaged

namespace PagedAttention

/-! ## What the argument checks ensure -/

/-- The argument checks have passed. -/
structure Checked {K : Type} (view : CacheView) (size : ℕ) (params : PagedAttentionParams K) :
    Prop where
  valid : view.valid = true
  sized : size = view.layout.shape.bytesPerElement
  context : 0 < params.contextLen
  layer : params.layer < view.layout.shape.numLayers
  tokens : 0 < view.layout.shape.tokensPerBlock
  kvHeads : 0 < view.layout.shape.numKvHeads
  group : 0 < groupSize view params
  heads : params.numQueryHeads = view.layout.shape.numKvHeads * groupSize view params

/-- A layout with elements has layers, tokens and kv heads. -/
theorem dims_pos_of_valid {view : CacheView} (valid : view.valid = true) :
    0 < view.layout.shape.frameLayers ∧ 0 < view.layout.shape.tokensPerBlock ∧
      0 < view.layout.shape.numKvHeads := by
  simp only [CacheView.valid, Bool.and_eq_true, decide_eq_true_eq] at valid
  have count := valid.2
  refine ⟨?_, ?_, ?_⟩ <;> by_contra none <;>
    simp [KVBlockLayout.elementCount, KVBlockLayout.layerStride, KVBlockLayout.streamStride,
      KVBlockLayout.tokenStride, Nat.eq_zero_of_not_pos none, wrap64] at count

theorem checked_of_consistent {K : Type} {view : CacheView} {size : ℕ}
    {params : PagedAttentionParams K} (passed : consistent view size params = true) :
    Checked view size params := by
  simp only [consistent, Bool.and_eq_true, bne_iff_ne, beq_iff_eq, decide_eq_true_eq] at passed
  obtain ⟨⟨⟨⟨⟨valid, sized⟩, context⟩, layer⟩, some_heads⟩, even⟩ := passed
  obtain ⟨-, tokens, kvHeads⟩ := dims_pos_of_valid valid
  have heads : params.numQueryHeads = view.layout.shape.numKvHeads * groupSize view params :=
    (Nat.mul_div_cancel' (Nat.dvd_of_mod_eq_zero even)).symm
  refine ⟨valid, sized, Nat.pos_of_ne_zero context, layer, tokens, kvHeads, ?_, heads⟩
  refine Nat.pos_of_ne_zero fun none => some_heads ?_
  rw [heads, none, Nat.mul_zero]

theorem Checked.kvHead_lt {K : Type} {view : CacheView} {size : ℕ}
    {params : PagedAttentionParams K} (checked : Checked view size params) {head : ℕ}
    (inside : head < params.numQueryHeads) :
    head / groupSize view params < view.layout.shape.numKvHeads := by
  rw [Nat.div_lt_iff_lt_mul checked.group, ← checked.heads]
  exact inside

/-! ## Pointers into the frames -/

/-- Layer that an offset inside a frame is computed for. -/
def offsetLayer {K : Type} (view : CacheView) (params : PagedAttentionParams K) : ℕ :=
  if view.layout.shape.perLayerFrames then 0 else params.layer

/-- The frames hold the layer. -/
def Stored {K : Type} (view : CacheView) (params : PagedAttentionParams K) : Prop :=
  offsetLayer view params < view.layout.shape.frameLayers

theorem elementOffset_isSome_iff (layout : KVBlockLayout) (layer : ℕ) (stream : KVStream)
    (token kvHead : ℕ) :
    (layout.elementOffset layer stream token kvHead).isSome ↔
      layer < layout.shape.frameLayers ∧ token < layout.shape.tokensPerBlock ∧
        kvHead < layout.shape.numKvHeads := by
  unfold KVBlockLayout.elementOffset
  split <;> simp <;> omega

theorem mem_blockTokens {K : Type} {view : CacheView} {params : PagedAttentionParams K}
    {logical token : ℕ} (member : token ∈ blockTokens view params logical)
    (tokens : 0 < view.layout.shape.tokensPerBlock) :
    token - blockBegin view logical < view.layout.shape.tokensPerBlock := by
  simp only [blockTokens, List.mem_range'_1] at member
  have ended := Nat.mod_le (blockBegin view logical + view.layout.shape.tokensPerBlock) (2 ^ 32)
  unfold wrap32 at member
  omega

/-- A vector of a token resolves when its frame does and holds the layer. -/
theorem pointer_isSome {K : Type} {view : CacheView} {params : PagedAttentionParams K}
    (stored : Stored view params) {logical token kvHead : ℕ}
    (framed : (frame view params logical).isSome)
    (token_lt : token - blockBegin view logical < view.layout.shape.tokensPerBlock)
    (head_lt : kvHead < view.layout.shape.numKvHeads) (stream : KVStream) :
    ∃ found, pointer view params stream kvHead logical token = some found := by
  obtain ⟨block, block_eq⟩ := Option.isSome_iff_exists.mp framed
  obtain ⟨offset, offset_eq⟩ := Option.isSome_iff_exists.mp
    ((elementOffset_isSome_iff view.layout (offsetLayer view params) stream
      (token - blockBegin view logical) kvHead).mpr ⟨stored, token_lt, head_lt⟩)
  refine ⟨(block, offset), ?_⟩
  rw [offsetLayer] at offset_eq
  simp [pointer, block_eq, offset_eq]

theorem pointer_eq_none {K : Type} {view : CacheView} {params : PagedAttentionParams K}
    (missing : ¬ Stored view params) (stream : KVStream) (kvHead logical token : ℕ) :
    pointer view params stream kvHead logical token = none := by
  have refused : view.layout.elementOffset (offsetLayer view params) stream
      (token - blockBegin view logical) kvHead = none := by
    rw [← Option.not_isSome_iff_eq_none, elementOffset_isSome_iff]
    exact fun inside => missing inside.1
  rw [offsetLayer] at refused
  cases found : frame view params logical <;> simp [pointer, found, refused]

/-! ## Walks -/

theorem walk_isSome {K σ : Type} {view : CacheView} {params : PagedAttentionParams K}
    {step : σ → ℕ → ℕ → Option σ}
    (succeeds : ∀ logical < logicalBlocks view params,
      ∀ token ∈ blockTokens view params logical, ∀ state, (step state logical token).isSome)
    (start : σ) : (walk view params step start).isSome := by
  refine Loops.foldlM_isSome (fun logical member state => ?_) start
  refine Loops.foldlM_isSome (fun token inside state => ?_) state
  exact succeeds logical (List.mem_range.mp member) token inside state

/-- Without blocks there is nothing to walk over. -/
theorem walk_of_no_blocks {K σ : Type} {view : CacheView} {params : PagedAttentionParams K}
    (empty : logicalBlocks view params = 0) (step : σ → ℕ → ℕ → Option σ) (start : σ) :
    walk view params step start = some start := by
  rw [walk, empty]
  rfl

/-- The number of blocks starts over at zero when the round-up leaves 32 bits. -/
theorem logicalBlocks_of_overflow {K : Type} {view : CacheView} {params : PagedAttentionParams K}
    (tokens : 0 < view.layout.shape.tokensPerBlock) (context : params.contextLen < 2 ^ 32)
    (overflow : 2 ^ 32 ≤ params.contextLen + view.layout.shape.tokensPerBlock - 1) :
    logicalBlocks view params = 0 := by
  refine Nat.div_eq_of_lt ?_
  unfold wrap32
  omega

/-- The first block of a context starts with its first token. -/
theorem first_token {K : Type} {view : CacheView} {params : PagedAttentionParams K}
    (context : 0 < params.contextLen) (small : params.contextLen < 2 ^ 32)
    (tokens : 0 < view.layout.shape.tokensPerBlock)
    (blocks : logicalBlocks view params ≠ 0) :
    ∃ rest later, List.range (logicalBlocks view params) = 0 :: later ∧
      blockTokens view params 0 = 0 :: rest := by
  have short : params.contextLen + view.layout.shape.tokensPerBlock - 1 < 2 ^ 32 := by
    by_contra overflow
    exact blocks (logicalBlocks_of_overflow tokens small (not_lt.mp overflow))
  obtain ⟨count, some_blocks⟩ := Nat.exists_eq_succ_of_ne_zero blocks
  have begins : blockBegin view 0 = 0 := by simp [blockBegin, wrap32]
  obtain ⟨rest, length⟩ : ∃ rest, min (wrap32 (0 + view.layout.shape.tokensPerBlock))
      params.contextLen - 0 = rest + 1 := by
    refine Nat.exists_eq_succ_of_ne_zero ?_
    rw [wrap32_of_lt (by omega)]
    omega
  refine ⟨List.range' 1 rest, _, by rw [some_blocks, List.range_succ_eq_map], ?_⟩
  rw [blockTokens, begins, length, List.range'_succ]

/-- A walk whose first step fails. -/
theorem walk_eq_none {K σ : Type} {view : CacheView} {params : PagedAttentionParams K}
    (context : 0 < params.contextLen) (small : params.contextLen < 2 ^ 32)
    (tokens : 0 < view.layout.shape.tokensPerBlock)
    (blocks : logicalBlocks view params ≠ 0) {step : σ → ℕ → ℕ → Option σ} {start : σ}
    (fails : step start 0 0 = none) : walk view params step start = none := by
  obtain ⟨rest, later, firsts, begins⟩ := first_token context small tokens blocks
  rw [walk, firsts, List.foldlM_cons, begins, List.foldlM_cons, fails]
  rfl

/-! ## The kernels that resolve blocks -/

/-- What these kernels check: the arguments, the frames, and the first offset that they compute. -/
def Admitted {K : Type} (view : CacheView) (size : ℕ) (params : PagedAttentionParams K) : Prop :=
  consistent view size params = true ∧ framed view params = true ∧
    (Stored view params ∨ logicalBlocks view params = 0)

theorem framed_iff {K : Type} (view : CacheView) (params : PagedAttentionParams K) :
    framed view params = true ↔
      ∀ logical < logicalBlocks view params, (frame view params logical).isSome := by
  simp [framed]

/-- Once admitted, no walk fails. -/
theorem walk_pointer_isSome {K σ : Type} {view : CacheView} {size : ℕ}
    {params : PagedAttentionParams K} (checked : Checked view size params)
    (frames : framed view params = true)
    (stored : Stored view params ∨ logicalBlocks view params = 0) {kvHead : ℕ}
    (inside : kvHead < view.layout.shape.numKvHeads) (step : σ → ℕ → ℕ → Option σ)
    (succeeds : ∀ state logical token,
      (∀ stream, ∃ found, pointer view params stream kvHead logical token = some found) →
      (step state logical token).isSome) (start : σ) : (walk view params step start).isSome := by
  refine walk_isSome (fun logical below token member state => ?_) start
  rcases stored with stored | none
  · refine succeeds state logical token fun stream => ?_
    exact pointer_isSome stored ((framed_iff view params).mp frames logical below)
      (mem_blockTokens member checked.tokens) inside stream
  · omega

theorem blockedHead_isSome {T K : Type} [Field K] [LinearOrder K] (exp : Exponential K)
    {element : ElementType T K} {view : CacheView} {params : PagedAttentionParams K}
    (checked : Checked view element.size params) (frames : framed view params = true)
    (stored : Stored view params ∨ logicalBlocks view params = 0) (query : ℕ → T)
    (scores : ℕ → K) {head : ℕ} (inside : head < params.numQueryHeads) :
    (blockedHead exp element view query params scores head).isSome := by
  have kvHead_lt := checked.kvHead_lt inside
  have pass := walk_pointer_isSome checked frames stored kvHead_lt
    (fun (state : (ℕ → K) × WithBot K) logical token => do
      let key ← pointer view params .key (head / groupSize view params) logical token
      pure (scoreStep state token (dot view.layout.shape.headDim
        (queryHead element view query head) (element.read key) * params.scale)))
    (fun state logical token found => by
      obtain ⟨key, key_eq⟩ := found .key
      simp [key_eq]) (scores, ⊥)
  obtain ⟨pass, pass_eq⟩ := Option.isSome_iff_exists.mp pass
  have sums := walk_pointer_isSome checked frames stored kvHead_lt
    (fun (state : K × (ℕ → K)) logical token => do
      let value ← pointer view params .value (head / groupSize view params) logical token
      pure (valueStep exp false view.layout.shape.headDim pass state token (element.read value)))
    (fun state logical token found => by
      obtain ⟨value, value_eq⟩ := found .value
      simp [value_eq]) (0, fun _ => 0)
  obtain ⟨sums, sums_eq⟩ := Option.isSome_iff_exists.mp sums
  simp only [blockedHead]
  rw [pass_eq]
  simp only [Option.bind_eq_bind, Option.bind_some] at sums_eq ⊢
  rw [sums_eq]
  rfl

/-- A head that has blocks to walk over but no layer in its frames is refused. -/
theorem blockedHead_eq_none {T K : Type} [Field K] [LinearOrder K] (exp : Exponential K)
    {element : ElementType T K} {view : CacheView} {params : PagedAttentionParams K}
    (checked : Checked view element.size params) (small : params.contextLen < 2 ^ 32)
    (missing : ¬ Stored view params) (blocks : logicalBlocks view params ≠ 0) (query : ℕ → T)
    (scores : ℕ → K) (head : ℕ) : blockedHead exp element view query params scores head = none := by
  rw [blockedHead, walk_eq_none checked.context small checked.tokens blocks]
  · rfl
  · rw [pointer_eq_none missing]
    rfl

theorem blocked_isSome_iff {T K : Type} [Field K] [LinearOrder K] (exp : Exponential K)
    (element : ElementType T K) (view : CacheView) (query : ℕ → T)
    (params : PagedAttentionParams K) (small : params.contextLen < 2 ^ 32) (out : ℕ → T) :
    (pagedAttentionDecodeBlocked exp element view query params out).isSome ↔
      Admitted view element.size params := by
  unfold pagedAttentionDecodeBlocked Admitted
  rcases passed : consistent view element.size params with _ | _
  · simp
  have checked := checked_of_consistent passed
  rcases frames : framed view params with _ | _
  · simp
  simp only [Bool.not_true, Bool.false_eq_true, if_false, true_and, Option.bind_eq_bind,
    Option.isSome_bind, Option.pure_def, Option.any_eq_true]
  constructor
  · rintro ⟨final, loop, -⟩
    by_contra refused
    rw [not_or] at refused
    obtain ⟨count, heads⟩ := Nat.exists_eq_succ_of_ne_zero
      (Nat.pos_iff_ne_zero.mp (checked.heads ▸ Nat.mul_pos checked.kvHeads checked.group))
    rw [heads, List.range_succ_eq_map, List.foldlM_cons,
      blockedHead_eq_none exp checked small refused.1 refused.2] at loop
    simp at loop
  · intro stored
    have loop : ((List.range params.numQueryHeads).foldlM
        (fun (state : (ℕ → K) × (ℕ → T)) head =>
          (blockedHead exp element view query params state.1 head).bind fun result =>
            some (result.1, Loops.storeRow state.2 (head * view.layout.shape.headDim)
              view.layout.shape.headDim (element.ofFloat ∘ result.2)))
        ((fun _ => 0), out)).isSome := by
      refine Loops.foldlM_isSome (fun head member state => ?_) _
      obtain ⟨result, found⟩ := Option.isSome_iff_exists.mp (blockedHead_isSome exp checked frames
        stored query state.1 (List.mem_range.mp member))
      simp [found]
    obtain ⟨final, found⟩ := Option.isSome_iff_exists.mp loop
    exact ⟨final, found, rfl⟩

theorem twoPassGroup_isSome {T K : Type} [Field K] [LinearOrder K] (exp : Exponential K)
    (avx : Bool) {element : ElementType T K} {view : CacheView} {params : PagedAttentionParams K}
    (checked : Checked view element.size params) (frames : framed view params = true)
    (stored : Stored view params ∨ logicalBlocks view params = 0) (query : ℕ → T)
    (scores : ℕ → ℕ → K) {kvHead : ℕ} (inside : kvHead < view.layout.shape.numKvHeads) :
    (twoPassGroup exp avx element view query params scores kvHead).isSome := by
  have passes := walk_pointer_isSome checked frames stored inside
    (fun (state : ℕ → (ℕ → K) × WithBot K) logical token => do
      let key ← pointer view params .key kvHead logical token
      pure ((List.range (groupSize view params)).foldl (fun state member =>
        Function.update state member (scoreStep (state member) token (params.scale *
          dotHead avx view.layout.shape.headDim
            (queryHead element view query (kvHead * groupSize view params + member))
            (element.read key)))) state))
    (fun state logical token found => by
      obtain ⟨key, key_eq⟩ := found .key
      simp [key_eq]) fun member => (scores member, ⊥)
  obtain ⟨passes, passes_eq⟩ := Option.isSome_iff_exists.mp passes
  have sums := walk_pointer_isSome checked frames stored inside
    (fun (state : ℕ → K × (ℕ → K)) logical token => do
      let value ← pointer view params .value kvHead logical token
      pure ((List.range (groupSize view params)).foldl (fun state member =>
        Function.update state member (valueStep exp avx view.layout.shape.headDim (passes member)
          (state member) token (element.read value))) state))
    (fun state logical token found => by
      obtain ⟨value, value_eq⟩ := found .value
      simp [value_eq]) fun _ => (0, fun _ => 0)
  obtain ⟨sums, sums_eq⟩ := Option.isSome_iff_exists.mp sums
  rw [twoPassGroup, passes_eq, Option.bind_eq_bind, Option.bind_some, sums_eq]
  rfl

theorem onlineGroup_isSome {T K : Type} [Field K] [LinearOrder K] (exp : Exponential K)
    (avx : Bool) {element : ElementType T K} {view : CacheView} {params : PagedAttentionParams K}
    (checked : Checked view element.size params) (frames : framed view params = true)
    (stored : Stored view params ∨ logicalBlocks view params = 0) (query : ℕ → T) {kvHead : ℕ}
    (inside : kvHead < view.layout.shape.numKvHeads) :
    (onlineGroup exp avx element view query params kvHead).isSome := by
  refine walk_pointer_isSome checked frames stored inside _ (fun state logical token found => ?_) _
  obtain ⟨key, key_eq⟩ := found .key
  obtain ⟨value, value_eq⟩ := found .value
  simp [key_eq, value_eq]

theorem groupSums_isSome {T K : Type} [Field K] [LinearOrder K] (exp : Exponential K)
    (online avx : Bool) {element : ElementType T K} {view : CacheView}
    {params : PagedAttentionParams K} (checked : Checked view element.size params)
    (frames : framed view params = true)
    (stored : Stored view params ∨ logicalBlocks view params = 0) (query : ℕ → T)
    (scores : ℕ → ℕ → K) {kvHead : ℕ} (inside : kvHead < view.layout.shape.numKvHeads) :
    (groupSums exp online avx element view query params scores kvHead).isSome := by
  unfold groupSums
  split
  · rw [Option.isSome_map]
    exact onlineGroup_isSome exp avx checked frames stored query inside
  · exact twoPassGroup_isSome exp avx checked frames stored query scores inside

/-- A group that has blocks to walk over but no layer in its frames is refused. -/
theorem groupSums_eq_none {T K : Type} [Field K] [LinearOrder K] (exp : Exponential K)
    (online avx : Bool) {element : ElementType T K} {view : CacheView}
    {params : PagedAttentionParams K} (checked : Checked view element.size params)
    (small : params.contextLen < 2 ^ 32) (missing : ¬ Stored view params)
    (blocks : logicalBlocks view params ≠ 0) (query : ℕ → T) (scores : ℕ → ℕ → K) (kvHead : ℕ) :
    groupSums exp online avx element view query params scores kvHead = none := by
  unfold groupSums
  split
  · rw [onlineGroup, walk_eq_none checked.context small checked.tokens blocks]
    · rfl
    · rw [pointer_eq_none missing]
      rfl
  · rw [twoPassGroup, walk_eq_none checked.context small checked.tokens blocks]
    · rfl
    · rw [pointer_eq_none missing]
      rfl

theorem opt_isSome_iff {T K : Type} [Field K] [LinearOrder K] (exp : Exponential K)
    (online avx : Bool) (element : ElementType T K) (view : CacheView) (query : ℕ → T)
    (params : PagedAttentionParams K) (small : params.contextLen < 2 ^ 32) (out : ℕ → T) :
    (pagedAttentionDecodeOpt exp true online avx element view query params out).isSome ↔
      Admitted view element.size params := by
  unfold pagedAttentionDecodeOpt Admitted
  rcases passed : consistent view element.size params with _ | _
  · simp
  have checked := checked_of_consistent passed
  rcases frames : framed view params with _ | _
  · simp
  simp only [Bool.not_true, Bool.false_eq_true, if_false, true_and, Option.bind_eq_bind,
    Option.isSome_bind, Option.pure_def, Option.any_eq_true]
  constructor
  · rintro ⟨final, loop, -⟩
    by_contra refused
    rw [not_or] at refused
    obtain ⟨count, heads⟩ := Nat.exists_eq_succ_of_ne_zero checked.kvHeads.ne'
    rw [heads, List.range_succ_eq_map, List.foldlM_cons,
      groupSums_eq_none exp online avx checked small refused.1 refused.2] at loop
    simp at loop
  · intro stored
    have loop : ((List.range view.layout.shape.numKvHeads).foldlM
        (fun (state : (ℕ → ℕ → K) × (ℕ → T)) kvHead =>
          (groupSums exp online avx element view query params state.1 kvHead).bind fun result =>
            some (result.1, (List.range (groupSize view params)).foldl (fun out member =>
              Loops.storeRow out
                ((kvHead * groupSize view params + member) * view.layout.shape.headDim)
                view.layout.shape.headDim fun dim =>
                  element.ofFloat ((result.2 member).2 dim * (1 / (result.2 member).1))) state.2))
        ((fun _ _ => 0), out)).isSome := by
      refine Loops.foldlM_isSome (fun kvHead member state => ?_) _
      obtain ⟨result, found⟩ := Option.isSome_iff_exists.mp (groupSums_isSome exp online avx checked
        frames stored query state.1 (List.mem_range.mp member))
      simp [found]
    obtain ⟨final, found⟩ := Option.isSome_iff_exists.mp loop
    exact ⟨final, found, rfl⟩

/-! ## The reference -/

/-- Per-layer frames come with a table for every layer. -/
def Tabulated (view : CacheView) : Prop :=
  view.layout.shape.perLayerFrames = true → ∀ layer < view.layout.shape.numLayers,
    (view.layerTables.bind (·[layer]?)).isSome

theorem slot_isSome_iff {K : Type} {view : CacheView} {size : ℕ} {params : PagedAttentionParams K}
    (checked : Checked view size params) (tabulated : Tabulated view) (stream : KVStream)
    (token kvHead : ℕ) :
    (view.slot size stream params.layer token kvHead).isSome ↔
      Stored view params ∧ kvHead < view.layout.shape.numKvHeads ∧
        (frame view params (token / view.layout.shape.tokensPerBlock)).isSome := by
  have usable : (!view.valid || size != view.layout.shape.bytesPerElement) = false := by
    simp [checked.valid, checked.sized]
  have tables : (view.layout.shape.perLayerFrames &&
      (view.layerTables.bind (·[params.layer]?)).isNone) = false := by
    rcases layered : view.layout.shape.perLayerFrames with _ | _
    · rfl
    · have found := tabulated layered params.layer checked.layer
      rw [Bool.true_and, ← Bool.not_eq_true, Option.isNone_iff_eq_none]
      exact fun none => by simp [none] at found
  have inside := Nat.mod_lt token checked.tokens
  have offsets := elementOffset_isSome_iff view.layout (offsetLayer view params) stream
    (token % view.layout.shape.tokensPerBlock) kvHead
  rw [offsetLayer] at offsets
  simp only [CacheView.slot, usable, tables, Bool.false_eq_true, if_false]
  rw [Stored, offsetLayer, frame]
  rcases found : view.layout.elementOffset
    (if view.layout.shape.perLayerFrames then 0 else params.layer) stream
    (token % view.layout.shape.tokensPerBlock) kvHead with _ | offset
  · rw [found] at offsets
    simp only [Option.isSome_none, Bool.false_eq_true, false_iff] at offsets ⊢
    exact fun resolved => offsets ⟨resolved.1, inside, resolved.2.1⟩
  · rw [found] at offsets
    obtain ⟨stored, -, head_lt⟩ := offsets.mp rfl
    simp only [stored, head_lt, true_and]
    cases (if view.layout.shape.perLayerFrames then
      view.blockBytes (token / view.layout.shape.tokensPerBlock) params.layer
      else view.blockBytes (token / view.layout.shape.tokensPerBlock) 0) <;> rfl

/-- Every block of the context is mapped and resident, and its frames hold the layer. -/
def Readable {K : Type} (view : CacheView) (params : PagedAttentionParams K) : Prop :=
  Stored view params ∧
    ∀ logical < ceilDiv params.contextLen view.layout.shape.tokensPerBlock,
      (frame view params logical).isSome

theorem lt_ceilDiv_iff {logical count size : ℕ} (positive : 0 < size) :
    logical < ceilDiv count size ↔ logical * size < count := by
  rw [ceilDiv, Nat.lt_iff_add_one_le, Nat.le_div_iff_mul_le positive, Nat.succ_mul]
  omega

theorem resolved_iff {K : Type} {view : CacheView} {size : ℕ} {params : PagedAttentionParams K}
    (checked : Checked view size params) (tabulated : Tabulated view) :
    resolved view size params = true ↔ Readable view params := by
  simp only [resolved, List.all_eq_true, List.mem_range, Bool.and_eq_true,
    slot_isSome_iff checked tabulated, and_self]
  constructor
  · intro all
    refine ⟨(all 0 checked.kvHeads 0 checked.context).1, fun logical below => ?_⟩
    have token := (lt_ceilDiv_iff checked.tokens).mp below
    have found := (all 0 checked.kvHeads _ token).2.2
    rwa [Nat.mul_div_cancel _ checked.tokens] at found
  · rintro ⟨stored, frames⟩ kvHead inside token below
    refine ⟨stored, inside, frames _ ((lt_ceilDiv_iff checked.tokens).mpr ?_)⟩
    exact (Nat.div_mul_le_self _ _).trans_lt below

theorem decode_isSome_iff {T K : Type} [Field K] [LinearOrder K] (exp : Exponential K)
    (element : ElementType T K) {view : CacheView} (tabulated : Tabulated view) (query : ℕ → T)
    (params : PagedAttentionParams K) (out : ℕ → T) :
    (pagedAttentionDecode exp element view query params out).isSome ↔
      consistent view element.size params = true ∧ Readable view params := by
  unfold pagedAttentionDecode
  rcases passed : consistent view element.size params with _ | _
  · simp
  rw [← resolved_iff (checked_of_consistent passed) tabulated]
  rcases resolved view element.size params with _ | _ <;> simp

/-! ## Agreement -/

/-- Unless the number of blocks overflows, both ways of resolving a context check the same. -/
theorem admitted_iff {K : Type} {view : CacheView} {size : ℕ} {params : PagedAttentionParams K}
    (short : params.contextLen + view.layout.shape.tokensPerBlock - 1 < 2 ^ 32) :
    Admitted view size params ↔ consistent view size params = true ∧ Readable view params := by
  refine and_congr_right fun passed => ?_
  have checked := checked_of_consistent passed
  have blocks : logicalBlocks view params =
      ceilDiv params.contextLen view.layout.shape.tokensPerBlock := by
    rw [logicalBlocks, wrap32_of_lt short, ceilDiv]
  have some_blocks := ceilDiv_pos checked.context checked.tokens
  rw [framed_iff, blocks, Readable, and_comm]
  refine and_congr_left fun _ => ?_
  rw [or_iff_left (by omega)]

theorem admitted_of_overflow {K : Type} {view : CacheView} {size : ℕ}
    {params : PagedAttentionParams K} (small : params.contextLen < 2 ^ 32)
    (overflow : 2 ^ 32 ≤ params.contextLen + view.layout.shape.tokensPerBlock - 1)
    (passed : consistent view size params = true) : Admitted view size params := by
  have none := logicalBlocks_of_overflow (checked_of_consistent passed).tokens small overflow
  refine ⟨passed, ?_, .inr none⟩
  rw [framed_iff, none]
  exact fun _ below => absurd below (Nat.not_lt_zero _)

/-- Views of reachable managers have a table for every layer that has frames of its own. -/
theorem tabulated_of_run {config : AllocatorConfig} {slab : ℕ → UInt8} {maxSlots : ℕ}
    {ops : List CacheOp} {id : SequenceId} {kind : CacheKind} {view : CacheView}
    (viewed : ((KVCacheManager.fresh config slab maxSlots).run ops).cacheView id kind =
      some view) : Tabulated view := by
  obtain ⟨sound, same, wide⟩ := KVCacheManager.wide_run config slab maxSlots ops
  obtain ⟨state, found, rfl⟩ := Option.map_eq_some_iff.mp viewed
  intro layered layer inside
  have width := wide id state found
  rw [← same, ← KVCacheManager.tableCount_eq sound.pool] at width
  simp only [KVCacheManager.tableCount] at width
  rw [if_pos layered] at width
  simpa [width] using inside

/-- All kernels return the same verdict on a call exactly when the number of blocks fits into 32
bits, the argument checks refuse the call, or the context can be read in full. -/
theorem kernels_agree_on_acceptance {T K : Type} [Field K] [LinearOrder K] (exp : Exponential K)
    (element : ElementType T K) (avx512 : Bool) (config : AllocatorConfig) (slab : ℕ → UInt8)
    (maxSlots : ℕ) (ops : List CacheOp) (id : SequenceId) (kind : CacheKind) (view : CacheView)
    (viewed : ((KVCacheManager.fresh config slab maxSlots).run ops).cacheView id kind = some view)
    (query out : ℕ → T) (params : PagedAttentionParams K) (small : params.contextLen < 2 ^ 32) :
    ((pagedAttentionDecodeBlocked exp element view query params out).isSome =
        (pagedAttentionDecode exp element view query params out).isSome ∧
      (pagedAttentionDecodeFused exp element view query params out).isSome =
        (pagedAttentionDecode exp element view query params out).isSome ∧
      (pagedAttentionDecodeFast exp avx512 element view query params out).isSome =
        (pagedAttentionDecode exp element view query params out).isSome) ↔
      params.contextLen + view.layout.shape.tokensPerBlock - 1 < 2 ^ 32 ∨
        consistent view element.size params = false ∨ Readable view params := by
  have reference := decode_isSome_iff exp element (tabulated_of_run viewed) query params out
  have verdict {accepts : Bool} (admits : accepts = true ↔ Admitted view element.size params) :
      accepts = (pagedAttentionDecode exp element view query params out).isSome ↔
        params.contextLen + view.layout.shape.tokensPerBlock - 1 < 2 ^ 32 ∨
          consistent view element.size params = false ∨ Readable view params := by
    rw [Bool.eq_iff_iff, admits, reference]
    by_cases short : params.contextLen + view.layout.shape.tokensPerBlock - 1 < 2 ^ 32
    · exact iff_of_true (admitted_iff short) (.inl short)
    -- With the overflow the blocks are never looked at.
    have unchecked (passed : consistent view element.size params = true) :
        Admitted view element.size params :=
      admitted_of_overflow small (not_lt.mp short) passed
    constructor
    · intro same
      rcases passed : consistent view element.size params with _ | _
      · exact .inr (.inl rfl)
      · exact .inr (.inr (same.mp (unchecked passed)).2)
    · rintro (fits | refused | readable)
      · exact absurd fits short
      · exact ⟨fun admitted => absurd admitted.1 (by simp [refused]),
          fun both => absurd both.1 (by simp [refused])⟩
      · exact ⟨fun admitted => ⟨admitted.1, readable⟩, fun both => unchecked both.1⟩
  have blocked := blocked_isSome_iff exp element view query params small out
  have fused : (pagedAttentionDecodeFused exp element view query params out).isSome = true ↔
      Admitted view element.size params :=
    opt_isSome_iff exp false false element view query params small out
  have fast : (pagedAttentionDecodeFast exp avx512 element view query params out).isSome = true ↔
      Admitted view element.size params :=
    opt_isSome_iff exp true avx512 element view query params small out
  rw [verdict blocked, verdict fused, verdict fast, and_self, and_self]

/-- One sequence with a block of two tokens. -/
def mapped : KVCacheManager :=
  (KVCacheManager.fresh ⟨⟨2, 1, 1, 1, 2, 0⟩, 1, 1, one_lt_word⟩ (fun _ => 0) 0).run
    [.createSequence ⟨1, 1⟩, .reserveTokens 1 2]

theorem kernels_agree_on_acceptance_mapped :
    ∃ view, mapped.cacheView 1 .textKV = some view ∧
      (pagedAttentionDecodeFast .real true uint16 view (fun _ => 0) ⟨0, 1, 2, 1⟩
          (fun _ => 0)).isSome =
        (pagedAttentionDecode .real uint16 view (fun _ => 0) ⟨0, 1, 2, 1⟩ (fun _ => 0)).isSome := by
  have viewed : mapped.cacheView 1 .textKV =
      some ((mapped.cacheView 1 .textKV).get (by decide +kernel)) := by simp
  exact ⟨_, viewed, ((kernels_agree_on_acceptance .real uint16 true _ _ _ _ 1 .textKV _ viewed
    (fun _ => 0) (fun _ => 0) ⟨0, 1, 2, 1⟩ (by norm_num)).mpr (.inl (by decide +kernel))).2.2⟩

/-- One sequence without blocks, over frames of two tokens. -/
def unmapped : KVCacheManager :=
  (KVCacheManager.fresh ⟨⟨2, 1, 1, 1, 2, 0⟩, 1, 1, one_lt_word⟩ (fun _ => 0) 0).run
    [.createSequence ⟨1, 1⟩]

/-- A context of `2 ^ 32 - 1` tokens of which none is mapped: the reference refuses, the other
kernels count no block and accept. -/
theorem kernels_disagree :
    ∃ view, unmapped.cacheView 1 .textKV = some view ∧
      pagedAttentionDecode .real uint16 view (fun _ => 0) ⟨0, 1, 2 ^ 32 - 1, 1⟩ (fun _ => 0) =
        none ∧
      (pagedAttentionDecodeBlocked .real uint16 view (fun _ => 0) ⟨0, 1, 2 ^ 32 - 1, 1⟩
        (fun _ => 0)).isSome ∧
      (pagedAttentionDecodeFused .real uint16 view (fun _ => 0) ⟨0, 1, 2 ^ 32 - 1, 1⟩
        (fun _ => 0)).isSome ∧
      (pagedAttentionDecodeFast .real true uint16 view (fun _ => 0) ⟨0, 1, 2 ^ 32 - 1, 1⟩
        (fun _ => 0)).isSome := by
  obtain ⟨view, viewed⟩ : ∃ view, unmapped.cacheView 1 .textKV = some view :=
    Option.isSome_iff_exists.mp (by decide +kernel)
  have some_view : view = (unmapped.cacheView 1 .textKV).get (by decide +kernel) := by
    simp [viewed]
  have passed : consistent view uint16.size ⟨0, 1, 2 ^ 32 - 1, (1 : ℝ)⟩ = true := by
    rw [some_view]
    decide +kernel
  have admitted : Admitted view uint16.size ⟨0, 1, 2 ^ 32 - 1, (1 : ℝ)⟩ := by
    refine admitted_of_overflow (by norm_num) ?_ passed
    rw [some_view]
    decide +kernel
  refine ⟨view, viewed, ?_, (blocked_isSome_iff _ _ _ _ _ (by norm_num) _).mpr admitted,
    (opt_isSome_iff _ _ _ _ _ _ _ (by norm_num) _).mpr admitted,
    (opt_isSome_iff _ _ _ _ _ _ _ (by norm_num) _).mpr admitted⟩
  rw [← Option.not_isSome_iff_eq_none, decode_isSome_iff _ _ (tabulated_of_run viewed)]
  rintro ⟨-, -, frames⟩
  have first := frames 0 (by rw [some_view]; decide +kernel)
  rw [some_view] at first
  revert first
  decide +kernel


end PagedAttention
end QwenVLPaged
