import QwenVLPaged.PagedAttention

/-!
# The CPU kernels agree

Every kernel writes the softmax average of the values of the context. The two-pass kernels sum the
weights relative to the maximum of all scores, the single-pass kernel relative to a running one, and
the block-wise walk visits the tokens in the same order as the reference through the same pointers.
-/

namespace QwenVLPaged
namespace PagedAttention

/-! ## Vector loops -/

theorem dot_eq {K : Type} [Field K] (headDim : ℕ) (query key : ℕ → K) :
    dot headDim query key = ∑ dim ∈ Finset.range headDim, query dim * key dim := by
  rw [dot, Loops.foldl_add, zero_add, Loops.sum_map_range]

theorem vectorised_eq {avx : Bool} {headDim : ℕ} (path : vectorised avx headDim = true) :
    headDim / lanes * lanes = headDim := by
  simp only [vectorised, Bool.and_eq_true, beq_iff_eq] at path
  exact Nat.div_mul_cancel (Nat.dvd_of_mod_eq_zero path.2)

theorem dotHead_eq {K : Type} [Field K] (avx : Bool) (headDim : ℕ) (query key : ℕ → K) :
    dotHead avx headDim query key = ∑ dim ∈ Finset.range headDim, query dim * key dim := by
  unfold dotHead
  split
  · rename_i path
    have partials (steps : ℕ) : (List.range steps).foldl (fun (partials : ℕ → K) step lane =>
        query (step * lanes + lane) * key (step * lanes + lane) + partials lane) (fun _ => 0) =
        fun lane => ∑ step ∈ Finset.range steps,
          query (step * lanes + lane) * key (step * lanes + lane) := by
      induction steps with
      | zero => rfl
      | succ steps induction =>
          rw [List.range_succ, List.foldl_append, induction]
          funext lane
          rw [List.foldl_cons, List.foldl_nil, Finset.sum_range_succ, add_comm]
    simp only [partials]
    rw [Loops.sum_map_range,
      Loops.sum_lanes (fun dim => query dim * key dim) lanes (headDim / lanes),
      vectorised_eq path]
  · exact dot_eq headDim query key

/-- Register by register, a loop over the dimensions is the scalar loop. -/
theorem foldl_registers {K : Type} {avx : Bool} {headDim : ℕ}
    (path : vectorised avx headDim = true) (step : (ℕ → K) → ℕ → ℕ → K) (start : ℕ → K) :
    (List.range (headDim / lanes)).foldl (fun state index =>
        (register index).foldl step state) start = (List.range headDim).foldl step start := by
  rw [← List.foldl_flatMap]
  unfold register
  rw [Loops.flatMap_full_blocks, vectorised_eq path]

theorem axpyHead_apply {K : Type} [Field K] (avx : Bool) {headDim : ℕ} (accumulator value : ℕ → K)
    (weight : K) {dim : ℕ} (inside : dim < headDim) :
    axpyHead avx headDim accumulator value weight dim = accumulator dim + weight * value dim := by
  have scalar : axpy headDim accumulator value weight dim =
      accumulator dim + weight * value dim := by
    rw [axpy, Loops.foldl_update_apply (fun dim sum => sum + weight * value dim)
      List.nodup_range, if_pos (List.mem_range.mpr inside)]
  unfold axpyHead
  split
  · rename_i path
    rw [foldl_registers path, ← scalar, axpy]
    simp only [add_comm]
  · exact scalar

theorem scaleHead_apply {K : Type} [Field K] (avx : Bool) {headDim : ℕ} (accumulator : ℕ → K)
    (scale : K) {dim : ℕ} (inside : dim < headDim) :
    scaleHead avx headDim accumulator scale dim = accumulator dim * scale := by
  have scalar : (List.range headDim).foldl (fun accumulator dim =>
      Function.update accumulator dim (accumulator dim * scale)) accumulator dim =
      accumulator dim * scale := by
    rw [Loops.foldl_update_apply (fun _ sum => sum * scale) List.nodup_range,
      if_pos (List.mem_range.mpr inside)]
  unfold scaleHead
  split
  · rename_i path
    rw [foldl_registers path, scalar]
  · exact scalar

/-! ## Softmax loops -/

/-- The scores of the context with the values they weigh. -/
def scored {K : Type} (count : ℕ) (score : ℕ → K) (value : ℕ → ℕ → K) :
    List (K × (ℕ → K)) :=
  (List.range count).map fun token => (score token, value token)

theorem scorePass_eq {K : Type} [LinearOrder K] (score : ℕ → K) (tokens : List ℕ)
    (start : (ℕ → K) × WithBot K) :
    tokens.foldl (fun state token => scoreStep state token (score token)) start =
      (tokens.foldl (fun scores token => Function.update scores token (score token)) start.1,
        tokens.foldl (fun top token => max top (score token : WithBot K)) start.2) := by
  induction tokens generalizing start with
  | nil => rfl
  | cons token tokens induction => exact induction (scoreStep start token (score token))

/-- The first pass keeps every score and a bound of them. -/
theorem scorePass_spec {K : Type} [LinearOrder K] (score scores : ℕ → K) (count : ℕ) :
    let pass := (List.range count).foldl (fun state token => scoreStep state token (score token))
      (scores, ⊥)
    (∀ token < count, pass.1 token = score token) ∧
      ∀ token < count, (score token : WithBot K) ≤ pass.2 := by
  intro pass
  have split : pass = _ := scorePass_eq score (List.range count) (scores, ⊥)
  rw [split]
  refine ⟨fun token below => ?_, fun token below => ?_⟩
  · have visited := Loops.foldl_update_apply (fun token _ => score token)
      (List.nodup_range : (List.range count).Nodup) scores token
    rwa [if_pos (List.mem_range.mpr below)] at visited
  · exact (Loops.le_foldl_max (fun token => (score token : WithBot K)) ⊥).2 token
      (List.mem_range.mpr below)

theorem valuePass_eq {K : Type} [Field K] [LinearOrder K] (exp : Exponential K) (avx : Bool)
    {headDim : ℕ} (pass : (ℕ → K) × WithBot K) (value : ℕ → ℕ → K) (tokens : List ℕ)
    (start : K × (ℕ → K)) {dim : ℕ} (inside : dim < headDim) :
    let sums := tokens.foldl (fun state token =>
      valueStep exp avx headDim pass state token (value token)) start
    sums.1 = start.1 + (tokens.map fun token => exp.gap (pass.1 token) pass.2).sum ∧
      sums.2 dim = start.2 dim +
        (tokens.map fun token => exp.gap (pass.1 token) pass.2 * value token dim).sum := by
  induction tokens generalizing start with
  | nil => simp
  | cons token tokens induction =>
      obtain ⟨sum, acc⟩ := induction (valueStep exp avx headDim pass start token (value token))
      simp only [List.foldl_cons, List.map_cons, List.sum_cons]
      rw [sum, acc]
      simp only [valueStep, axpyHead_apply avx _ _ _ inside]
      exact ⟨add_assoc _ _ _, add_assoc _ _ _⟩

/-- Two passes divide out to the softmax average. -/
theorem twoPass_mean {K : Type} [Field K] [LinearOrder K] (exp : Exponential K) (avx : Bool)
    {headDim count : ℕ} (nonempty : 0 < count) (score scores : ℕ → K) (value : ℕ → ℕ → K)
    {dim : ℕ} (inside : dim < headDim) :
    let pass := (List.range count).foldl (fun state token => scoreStep state token (score token))
      (scores, ⊥)
    let sums := (List.range count).foldl (fun state token =>
      valueStep exp avx headDim pass state token (value token)) (0, fun _ => 0)
    sums.2 dim / sums.1 = exp.mean (scored count score value) dim := by
  intro pass sums
  obtain ⟨kept, bounded⟩ := scorePass_spec score scores count
  obtain ⟨sum, acc⟩ := valuePass_eq exp avx pass value (List.range count) (0, fun _ => 0) inside
  have above : ∀ entry ∈ scored count score value, (entry.1 : WithBot K) ≤ pass.2 := by
    intro entry member
    obtain ⟨token, below, rfl⟩ := List.mem_map.mp member
    exact bounded token (List.mem_range.mp below)
  have both := PartialSoftmax.of_twoPass exp above
  have sum_eq : sums.1 = ((scored count score value).map fun entry =>
      exp.gap entry.1 pass.2).sum := by
    rw [sum, zero_add, scored, List.map_map]
    refine congrArg List.sum (List.map_congr_left fun token below => ?_)
    rw [kept token (List.mem_range.mp below), Function.comp_apply]
  have acc_eq : sums.2 dim = ((scored count score value).map fun entry =>
      exp.gap entry.1 pass.2 * entry.2 dim).sum := by
    rw [acc, zero_add, scored, List.map_map]
    refine congrArg List.sum (List.map_congr_left fun token below => ?_)
    rw [kept token (List.mem_range.mp below), Function.comp_apply]
  rw [sum_eq, acc_eq]
  refine both.mean ?_ dim
  simp [scored, nonempty.ne']

/-- One dimension of the partial sums. -/
def sumsAt {K : Type} (dim : ℕ) (sums : PartialSoftmax K ℕ) : PartialSoftmax K Unit :=
  ⟨sums.top, sums.sum, fun _ => sums.acc dim⟩

/-- One dimension of the scored values. -/
def scoredAt {K : Type} (dim : ℕ) (entries : List (K × (ℕ → K))) : List (K × (Unit → K)) :=
  entries.map fun entry => (entry.1, fun _ => entry.2 dim)

theorem mean_scoredAt {K : Type} [Field K] [LinearOrder K] (exp : Exponential K) (dim : ℕ)
    (entries : List (K × (ℕ → K))) :
    exp.mean (scoredAt dim entries) () = exp.mean entries dim := by
  simp [Exponential.mean, Exponential.weighted, Exponential.total, scoredAt, Function.comp_def]

/-- The conditional rescaling is a rescaling: it is left out only where it changes nothing. -/
theorem rescaled_apply {K : Type} [Field K] [LinearOrder K] [IsStrictOrderedRing K]
    {exp : Exponential K} (avx : Bool) {headDim dim : ℕ} (inside : dim < headDim)
    {entries : List (K × (ℕ → K))} {state : PartialSoftmax K ℕ}
    (of : (sumsAt dim state).Of exp (scoredAt dim entries)) (newMax : WithBot K) :
    (if state.top ≠ newMax ∧ state.sum ≠ 0 then
      scaleHead avx headDim state.acc (exp.gap state.top newMax) else state.acc) dim =
      state.acc dim * exp.gap state.top newMax := by
  split
  · exact scaleHead_apply avx _ _ inside
  · rename_i kept
    rcases eq_or_ne (scoredAt dim entries) [] with empty | nonempty
    · have zero : state.acc dim = 0 := by
        have sum : state.acc dim = _ := of.acc ()
        rw [sum, empty, Exponential.weighted, List.map_nil, List.sum_nil, mul_zero]
      rw [zero, zero_mul]
    · have positive : 0 < state.sum := of.sum_pos nonempty
      have seen : state.top ≠ ⊥ := of.top_ne_bot nonempty
      have same : state.top = newMax := by
        by_contra different
        exact kept ⟨different, positive.ne'⟩
      obtain ⟨top, top_eq⟩ := WithBot.ne_bot_iff_exists.mp seen
      rw [← same, ← top_eq, exp.gap_self, mul_one]

/-- One online step adds one token to the partial sums. -/
theorem onlineStep_of {K : Type} [Field K] [LinearOrder K] [IsStrictOrderedRing K]
    {exp : Exponential K} (avx : Bool) {headDim dim : ℕ} (inside : dim < headDim)
    {entries : List (K × (ℕ → K))} {state : PartialSoftmax K ℕ}
    (of : (sumsAt dim state).Of exp (scoredAt dim entries)) (score : K) (value : ℕ → K) :
    (sumsAt dim (onlineStep exp avx headDim score value state)).Of exp
      (scoredAt dim (entries ++ [(score, value)])) := by
  have raised : (sumsAt dim state).top ≤ max state.top (score : WithBot K) := le_max_left _ _
  have above : ∀ entry ∈ scoredAt dim [(score, value)],
      (entry.1 : WithBot K) ≤ max state.top (score : WithBot K) := by
    simp [scoredAt]
  have absorbed := of.absorb raised above
  have acc : (onlineStep exp avx headDim score value state).acc dim =
      state.acc dim * exp.gap state.top (max state.top score) +
        exp.gap score (max state.top score) * value dim := by
    rw [onlineStep]
    simp only
    rw [axpyHead_apply avx _ _ _ inside, rescaled_apply avx inside of]
  have appended : scoredAt dim (entries ++ [(score, value)]) =
      scoredAt dim entries ++ scoredAt dim [(score, value)] := List.map_append
  rw [appended, sumsAt, acc]
  simpa [scoredAt, sumsAt, onlineStep] using absorbed

/-- The single pass divides out to the softmax average. -/
theorem online_mean {K : Type} [Field K] [LinearOrder K] [IsStrictOrderedRing K]
    (exp : Exponential K) (avx : Bool) {headDim dim count : ℕ} (inside : dim < headDim)
    (nonempty : 0 < count) (score : ℕ → K) (value : ℕ → ℕ → K) :
    let sums := (List.range count).foldl (fun state token =>
      onlineStep exp avx headDim (score token) (value token) state) (PartialSoftmax.empty K ℕ)
    sums.acc dim / sums.sum = exp.mean (scored count score value) dim := by
  intro sums
  have partials (tokens : List ℕ) : (sumsAt dim (tokens.foldl (fun state token =>
      onlineStep exp avx headDim (score token) (value token) state)
      (PartialSoftmax.empty K ℕ))).Of exp
      (scoredAt dim (tokens.map fun token => (score token, value token))) := by
    induction tokens using List.reverseRecOn with
    | nil => exact PartialSoftmax.of_empty exp
    | append_singleton tokens token induction =>
        rw [List.foldl_append, List.map_append]
        exact onlineStep_of avx inside induction (score token) (value token)
  rw [← mean_scoredAt exp dim]
  refine (partials (List.range count)).mean ?_ ()
  simp [scoredAt, nonempty.ne']

/-! ## Walking the page table -/

/-- The checks a call has passed. -/
structure Accepted {K : Type} (view : CacheView) (size : ℕ) (params : PagedAttentionParams K) :
    Prop where
  consistent : consistent view size params = true
  resolved : resolved view size params = true
  small : params.contextLen + view.layout.shape.tokensPerBlock - 1 < 2 ^ 32

theorem Accepted.valid {K : Type} {view : CacheView} {size : ℕ} {params : PagedAttentionParams K}
    (accepted : Accepted view size params) : view.valid = true := by
  have checks := accepted.consistent
  simp only [PagedAttention.consistent, Bool.and_eq_true] at checks
  exact checks.1.1.1.1.1

theorem Accepted.context_pos {K : Type} {view : CacheView} {size : ℕ}
    {params : PagedAttentionParams K} (accepted : Accepted view size params) :
    0 < params.contextLen := by
  have checks := accepted.consistent
  simp only [PagedAttention.consistent, Bool.and_eq_true, bne_iff_ne] at checks
  exact Nat.pos_of_ne_zero checks.1.1.1.2

/-- A layout with elements has tokens in its blocks and kv heads. -/
theorem Accepted.shape_pos {K : Type} {view : CacheView} {size : ℕ}
    {params : PagedAttentionParams K} (accepted : Accepted view size params) :
    0 < view.layout.shape.tokensPerBlock ∧ 0 < view.layout.shape.numKvHeads := by
  have valid := accepted.valid
  simp only [CacheView.valid, Bool.and_eq_true, decide_eq_true_eq] at valid
  have count := valid.2
  constructor
  · by_contra none
    simp [KVBlockLayout.elementCount, KVBlockLayout.layerStride, KVBlockLayout.streamStride,
      Nat.eq_zero_of_not_pos none, wrap64] at count
  · by_contra none
    simp [KVBlockLayout.elementCount, KVBlockLayout.layerStride, KVBlockLayout.streamStride,
      KVBlockLayout.tokenStride, Nat.eq_zero_of_not_pos none, wrap64] at count

theorem Accepted.heads {K : Type} {view : CacheView} {size : ℕ} {params : PagedAttentionParams K}
    (accepted : Accepted view size params) :
    params.numQueryHeads = view.layout.shape.numKvHeads * groupSize view params := by
  have checks := accepted.consistent
  simp only [PagedAttention.consistent, Bool.and_eq_true, beq_iff_eq] at checks
  exact (Nat.mul_div_cancel' (Nat.dvd_of_mod_eq_zero checks.2)).symm

theorem Accepted.slot {K : Type} {view : CacheView} {size : ℕ} {params : PagedAttentionParams K}
    (accepted : Accepted view size params) (stream : KVStream) {token kvHead : ℕ}
    (below : token < params.contextLen) (inside : kvHead < view.layout.shape.numKvHeads) :
    ∃ found, view.slot size stream params.layer token kvHead = some found := by
  have all := accepted.resolved
  simp only [PagedAttention.resolved, List.all_eq_true, List.mem_range, Bool.and_eq_true] at all
  obtain ⟨key, value⟩ := all kvHead inside token below
  cases stream with
  | key => exact Option.isSome_iff_exists.mp key
  | value => exact Option.isSome_iff_exists.mp value

theorem Accepted.logicalBlocks_eq {K : Type} {view : CacheView} {size : ℕ}
    {params : PagedAttentionParams K} (accepted : Accepted view size params) :
    logicalBlocks view params =
      (params.contextLen + view.layout.shape.tokensPerBlock - 1) /
        view.layout.shape.tokensPerBlock := by
  rw [logicalBlocks, wrap32_of_lt accepted.small]

/-- A logical block of the context starts inside the context. -/
theorem Accepted.begin_lt {K : Type} {view : CacheView} {size : ℕ}
    {params : PagedAttentionParams K} (accepted : Accepted view size params) {logical : ℕ}
    (inside : logical < logicalBlocks view params) :
    logical * view.layout.shape.tokensPerBlock < params.contextLen := by
  rw [accepted.logicalBlocks_eq, Nat.lt_iff_add_one_le,
    Nat.le_div_iff_mul_le accepted.shape_pos.1, Nat.succ_mul] at inside
  have context := accepted.context_pos
  have blocky := accepted.shape_pos.1
  omega

theorem Accepted.blockBegin_eq {K : Type} {view : CacheView} {size : ℕ}
    {params : PagedAttentionParams K} (accepted : Accepted view size params) {logical : ℕ}
    (inside : logical * view.layout.shape.tokensPerBlock < params.contextLen) :
    blockBegin view logical = logical * view.layout.shape.tokensPerBlock := by
  have small := accepted.small
  have blocky := accepted.shape_pos.1
  exact wrap32_of_lt (by omega)

theorem Accepted.blockTokens_eq {K : Type} {view : CacheView} {size : ℕ}
    {params : PagedAttentionParams K} (accepted : Accepted view size params) {logical : ℕ}
    (inside : logical < logicalBlocks view params) :
    blockTokens view params logical =
      List.range' (logical * view.layout.shape.tokensPerBlock)
        (min (logical * view.layout.shape.tokensPerBlock + view.layout.shape.tokensPerBlock)
          params.contextLen - logical * view.layout.shape.tokensPerBlock) := by
  have below := accepted.begin_lt inside
  have small := accepted.small
  rw [blockTokens, accepted.blockBegin_eq below, wrap32_of_lt (by omega)]

/-- The blocks of the context hold its tokens in order. -/
theorem Accepted.flatMap_blockTokens {K : Type} {view : CacheView} {size : ℕ}
    {params : PagedAttentionParams K} (accepted : Accepted view size params) :
    (List.range (logicalBlocks view params)).flatMap (blockTokens view params) =
      List.range params.contextLen := by
  have blocky := accepted.shape_pos.1
  have covered : params.contextLen ≤
      logicalBlocks view params * view.layout.shape.tokensPerBlock := by
    rw [accepted.logicalBlocks_eq]
    have above := Nat.lt_div_mul_add
      (a := params.contextLen + view.layout.shape.tokensPerBlock - 1) blocky
    omega
  rw [List.flatMap_congr fun logical member =>
      accepted.blockTokens_eq (List.mem_range.mp member),
    Loops.flatMap_blocks, Nat.min_eq_right covered]

/-- A walk whose steps succeed is a loop over the tokens of the context. -/
theorem Accepted.walk_eq {K σ : Type} {view : CacheView} {size : ℕ}
    {params : PagedAttentionParams K} (accepted : Accepted view size params)
    {step : σ → ℕ → ℕ → Option σ} (next : σ → ℕ → σ)
    (succeeds : ∀ token < params.contextLen, ∀ state,
      step state (token / view.layout.shape.tokensPerBlock) token = some (next state token))
    (start : σ) :
    walk view params step start = some ((List.range params.contextLen).foldl next start) := by
  have block (logical : ℕ) (member : logical ∈ List.range (logicalBlocks view params))
      (state : σ) : (blockTokens view params logical).foldlM
        (fun state token => step state logical token) state =
      some ((blockTokens view params logical).foldl next state) := by
    refine Loops.foldlM_eq_some (fun token inside state => ?_) state
    rw [accepted.blockTokens_eq (List.mem_range.mp member), List.mem_range'_1] at inside
    have place : token / view.layout.shape.tokensPerBlock = logical := by
      rw [Nat.div_eq_iff accepted.shape_pos.1]
      omega
    have succeeded := succeeds token (by omega) state
    rwa [place] at succeeded
  rw [walk, Loops.foldlM_eq_some block, ← List.foldl_flatMap, accepted.flatMap_blockTokens]

/-- Through its block a token resolves to the pointer that the reference reads. -/
theorem Accepted.pointer_eq {K : Type} {view : CacheView} {size : ℕ}
    {params : PagedAttentionParams K} (accepted : Accepted view size params) {stream : KVStream}
    {token kvHead : ℕ} (below : token < params.contextLen) {found : PhysicalBlock × ℕ}
    (resolved : view.slot size stream params.layer token kvHead = some found) :
    pointer view params stream kvHead (token / view.layout.shape.tokensPerBlock) token =
      some found := by
  obtain ⟨block, offset⟩ := found
  obtain ⟨-, -, offset_eq, block_eq⟩ := CacheView.slot_eq_some resolved
  have start := Nat.div_mul_le_self token view.layout.shape.tokensPerBlock
  have rest : token - token / view.layout.shape.tokensPerBlock *
      view.layout.shape.tokensPerBlock = token % view.layout.shape.tokensPerBlock := by
    rw [Nat.mul_comm, Nat.mod_eq_sub]
  have frame_eq : frame view params (token / view.layout.shape.tokensPerBlock) = some block := by
    rw [frame, ← block_eq, CacheView.tableIndex]
    split <;> rfl
  rw [pointer, frame_eq, accepted.blockBegin_eq (by omega), rest]
  simp only [Option.bind_eq_bind, Option.bind_some]
  rw [offset_eq]
  rfl

/-! ## The kernels -/

/-- The softmax average that decoding one query head is for: over the tokens of the context, with
keys and values read through the page table. -/
def attention {T K : Type} [Field K] [LinearOrder K] (exp : Exponential K)
    (element : ElementType T K) (view : CacheView) (query : ℕ → T)
    (params : PagedAttentionParams K) (head dim : ℕ) : K :=
  let kvHead := head / groupSize view params
  let weight (token : ℕ) : K := exp.toFun (params.scale *
    ∑ index ∈ Finset.range view.layout.shape.headDim, queryHead element view query head index *
      vectorAt element view .key params.layer token kvHead index)
  (∑ token ∈ Finset.range params.contextLen,
      weight token * vectorAt element view .value params.layer token kvHead dim) /
    ∑ token ∈ Finset.range params.contextLen, weight token

/-- Score of one token for one query head. -/
def score {T K : Type} [Field K] (element : ElementType T K) (view : CacheView) (query : ℕ → T)
    (params : PagedAttentionParams K) (head token : ℕ) : K :=
  params.scale * ∑ index ∈ Finset.range view.layout.shape.headDim,
    queryHead element view query head index *
      vectorAt element view .key params.layer token (head / groupSize view params) index

theorem attention_eq {T K : Type} [Field K] [LinearOrder K] (exp : Exponential K)
    (element : ElementType T K) (view : CacheView) (query : ℕ → T)
    (params : PagedAttentionParams K) (head dim : ℕ) :
    attention exp element view query params head dim =
      exp.mean (scored params.contextLen (score element view query params head) fun token =>
        vectorAt element view .value params.layer token (head / groupSize view params)) dim := by
  rw [Exponential.mean, Exponential.weighted, Exponential.total, scored, List.map_map,
    List.map_map]
  rfl

/-- What a pointer reads is what the page table holds. -/
theorem read_eq_vectorAt {T K : Type} [Zero K] {element : ElementType T K} {view : CacheView}
    {stream : KVStream} {layer token kvHead : ℕ} {found : PhysicalBlock × ℕ}
    (resolved : view.slot element.size stream layer token kvHead = some found) :
    element.read found = vectorAt element view stream layer token kvHead := by
  funext dim
  rw [vectorAt, resolved]

theorem decodeHead_mean {T K : Type} [Field K] [LinearOrder K] (exp : Exponential K)
    (element : ElementType T K) {view : CacheView} (query : ℕ → T)
    {params : PagedAttentionParams K} (nonempty : 0 < params.contextLen) (scores : ℕ → K)
    (head : ℕ) {dim : ℕ} (inside : dim < view.layout.shape.headDim) :
    (decodeHead exp element view query params scores head).2 dim =
      attention exp element view query params head dim := by
  have scores_eq (token : ℕ) : dot view.layout.shape.headDim
      (queryHead element view query head) (vectorAt element view .key params.layer token
        (head / groupSize view params)) * params.scale =
      score element view query params head token := by
    rw [dot_eq, mul_comm, score]
  rw [attention_eq, decodeHead]
  simp only [scores_eq]
  exact twoPass_mean exp false nonempty _ scores _ inside

/-- Storing the rows of all heads, one after the other. -/
theorem rows_decode {T K : Type} [Field K] [LinearOrder K] (exp : Exponential K)
    (element : ElementType T K) {view : CacheView} (query : ℕ → T)
    {params : PagedAttentionParams K} (nonempty : 0 < params.contextLen) (heads : ℕ)
    (start : (ℕ → K) × (ℕ → T)) :
    Loops.Rows heads view.layout.shape.headDim
      (fun head dim => element.ofFloat (attention exp element view query params head dim))
      ((List.range heads).foldl (fun state head =>
        let (scores, row) := decodeHead exp element view query params state.1 head
        (scores, Loops.storeRow state.2 (head * view.layout.shape.headDim)
          view.layout.shape.headDim (element.ofFloat ∘ row))) start).2 := by
  induction heads with
  | zero => exact fun row none => absurd none (Nat.not_lt_zero row)
  | succ heads induction =>
      rw [List.range_succ, List.foldl_append]
      refine induction.storeRow fun dim inside => ?_
      exact congrArg element.ofFloat
        (decodeHead_mean exp element query nonempty _ heads inside)

/-- Resolving blocks instead of tokens changes nothing. -/
theorem Accepted.blockedHead_eq {T K : Type} [Field K] [LinearOrder K] (exp : Exponential K)
    {element : ElementType T K} {view : CacheView} (query : ℕ → T)
    {params : PagedAttentionParams K} (accepted : Accepted view element.size params)
    (scores : ℕ → K) {head : ℕ} (inside : head < params.numQueryHeads) :
    blockedHead exp element view query params scores head =
      some (decodeHead exp element view query params scores head) := by
  have kvHead : head / groupSize view params < view.layout.shape.numKvHeads := by
    rw [accepted.heads, Nat.mul_comm] at inside
    exact Nat.div_lt_of_lt_mul inside
  rw [blockedHead, accepted.walk_eq (fun state token => scoreStep state token
      (dot view.layout.shape.headDim (queryHead element view query head)
        (vectorAt element view .key params.layer token (head / groupSize view params)) *
        params.scale))]
  · simp only [Option.bind_eq_bind, Option.bind_some]
    rw [accepted.walk_eq (fun state token => valueStep exp false
        view.layout.shape.headDim _ state token
        (vectorAt element view .value params.layer token (head / groupSize view params)))]
    · rfl
    · intro token below state
      obtain ⟨found, resolved⟩ := accepted.slot .value below kvHead
      rw [accepted.pointer_eq below resolved, ← read_eq_vectorAt resolved]
      rfl
  · intro token below state
    obtain ⟨found, resolved⟩ := accepted.slot .key below kvHead
    rw [accepted.pointer_eq below resolved, ← read_eq_vectorAt resolved]
    rfl

theorem Accepted.framed {K : Type} {view : CacheView} {size : ℕ} {params : PagedAttentionParams K}
    (accepted : Accepted view size params) : framed view params = true := by
  simp only [PagedAttention.framed, List.all_eq_true, List.mem_range]
  intro logical inside
  have below := accepted.begin_lt inside
  obtain ⟨found, resolved⟩ := accepted.slot .key below accepted.shape_pos.2
  have through := accepted.pointer_eq below resolved
  rw [Nat.mul_div_cancel _ accepted.shape_pos.1, pointer, Option.bind_eq_bind,
    Option.bind_eq_some_iff] at through
  obtain ⟨block, found, -⟩ := through
  rw [found]
  rfl

/-- The head of a group member is served by the kv head of the group. -/
theorem groupHead {K : Type} {view : CacheView} {params : PagedAttentionParams K}
    {kvHead member : ℕ} (inside : member < groupSize view params) :
    (kvHead * groupSize view params + member) / groupSize view params = kvHead := by
  rw [Nat.mul_comm, Nat.mul_add_div (by omega), Nat.div_eq_of_lt inside, Nat.add_zero]

theorem Accepted.twoPassGroup_mean {T K : Type} [Field K] [LinearOrder K] (exp : Exponential K)
    (avx : Bool) {element : ElementType T K} {view : CacheView} (query : ℕ → T)
    {params : PagedAttentionParams K} (accepted : Accepted view element.size params)
    (scores : ℕ → ℕ → K) {kvHead : ℕ} (inside : kvHead < view.layout.shape.numKvHeads) :
    ∃ scores' sums,
      twoPassGroup exp avx element view query params scores kvHead = some (scores', sums) ∧
        ∀ member < groupSize view params, ∀ dim < view.layout.shape.headDim,
          (sums member).2 dim / (sums member).1 = attention exp element view query params
            (kvHead * groupSize view params + member) dim := by
  have group : (List.range (groupSize view params)).Nodup := List.nodup_range
  let value (token : ℕ) := vectorAt element view .value params.layer token kvHead
  let heads (member token : ℕ) := params.scale * dotHead avx view.layout.shape.headDim
    (queryHead element view query (kvHead * groupSize view params + member))
    (vectorAt element view .key params.layer token kvHead)
  let firstPass (state : ℕ → (ℕ → K) × WithBot K) (token : ℕ) :=
    (List.range (groupSize view params)).foldl (fun state member => Function.update state member
      (scoreStep (state member) token (heads member token))) state
  let passes := (List.range params.contextLen).foldl firstPass fun member => (scores member, ⊥)
  rw [twoPassGroup, accepted.walk_eq firstPass]
  · simp only [Option.bind_eq_bind, Option.bind_some]
    rw [accepted.walk_eq (fun state token =>
      (List.range (groupSize view params)).foldl (fun state member => Function.update state member
        (valueStep exp avx view.layout.shape.headDim (passes member) (state member) token
          (value token))) state)]
    · refine ⟨_, _, rfl, fun member listed dim below => ?_⟩
      have listed' := List.mem_range.mpr listed
      have pass : passes member = (List.range params.contextLen).foldl (fun state token =>
          scoreStep state token (heads member token)) (scores member, ⊥) :=
        Loops.foldl_foldl_update_apply (fun token member state =>
          scoreStep state token (heads member token)) group _ _ listed'
      rw [Loops.foldl_foldl_update_apply (fun token member state => valueStep exp avx
          view.layout.shape.headDim (passes member) state token (value token)) group _ _ listed',
        pass, attention_eq, groupHead listed]
      refine (twoPass_mean exp avx accepted.context_pos (heads member) _ value below).trans ?_
      congr 2
      funext token
      rw [score, groupHead listed]
      exact congrArg (params.scale * ·) (dotHead_eq avx _ _ _)
    · intro token below state
      obtain ⟨found, resolved⟩ := accepted.slot .value below inside
      rw [accepted.pointer_eq below resolved]
      simp only [value, ← read_eq_vectorAt resolved]
      rfl
  · intro token below state
    obtain ⟨found, resolved⟩ := accepted.slot .key below inside
    rw [accepted.pointer_eq below resolved]
    simp only [firstPass, heads, ← read_eq_vectorAt resolved]
    rfl

theorem Accepted.onlineGroup_mean {T K : Type} [Field K] [LinearOrder K] [IsStrictOrderedRing K]
    (exp : Exponential K) (avx : Bool) {element : ElementType T K} {view : CacheView}
    (query : ℕ → T) {params : PagedAttentionParams K}
    (accepted : Accepted view element.size params) {kvHead : ℕ}
    (inside : kvHead < view.layout.shape.numKvHeads) :
    ∃ sums, onlineGroup exp avx element view query params kvHead = some sums ∧
      ∀ member < groupSize view params, ∀ dim < view.layout.shape.headDim,
        (sums member).acc dim / (sums member).sum = attention exp element view query params
          (kvHead * groupSize view params + member) dim := by
  let value (token : ℕ) := vectorAt element view .value params.layer token kvHead
  let heads (member token : ℕ) := params.scale * dotHead avx view.layout.shape.headDim
    (queryHead element view query (kvHead * groupSize view params + member))
    (vectorAt element view .key params.layer token kvHead)
  rw [onlineGroup, accepted.walk_eq (fun state token =>
    (List.range (groupSize view params)).foldl (fun state member => Function.update state member
      (onlineStep exp avx view.layout.shape.headDim (heads member token) (value token)
        (state member))) state)]
  · refine ⟨_, rfl, fun member listed dim below => ?_⟩
    rw [Loops.foldl_foldl_update_apply (fun token member state => onlineStep exp avx
        view.layout.shape.headDim (heads member token) (value token) state) List.nodup_range _ _
        (List.mem_range.mpr listed), attention_eq, groupHead listed]
    refine (online_mean exp avx below accepted.context_pos (heads member) value).trans ?_
    congr 2
    funext token
    rw [score, groupHead listed]
    exact congrArg (params.scale * ·) (dotHead_eq avx _ _ _)
  · intro token below state
    obtain ⟨key, key_resolved⟩ := accepted.slot .key below inside
    obtain ⟨found, resolved⟩ := accepted.slot .value below inside
    rw [accepted.pointer_eq below key_resolved, accepted.pointer_eq below resolved]
    simp only [heads, value, ← read_eq_vectorAt resolved, ← read_eq_vectorAt key_resolved]
    rfl

theorem Accepted.groupSums_mean {T K : Type} [Field K] [LinearOrder K] [IsStrictOrderedRing K]
    (exp : Exponential K) (online avx : Bool) {element : ElementType T K} {view : CacheView}
    (query : ℕ → T) {params : PagedAttentionParams K}
    (accepted : Accepted view element.size params) (scores : ℕ → ℕ → K) {kvHead : ℕ}
    (inside : kvHead < view.layout.shape.numKvHeads) :
    ∃ scores' sums,
      groupSums exp online avx element view query params scores kvHead = some (scores', sums) ∧
        ∀ member < groupSize view params, ∀ dim < view.layout.shape.headDim,
          (sums member).2 dim / (sums member).1 = attention exp element view query params
            (kvHead * groupSize view params + member) dim := by
  rw [groupSums]
  cases online with
  | false => exact accepted.twoPassGroup_mean exp avx query scores inside
  | true =>
      obtain ⟨sums, sums_eq, mean⟩ := accepted.onlineGroup_mean exp avx query inside
      exact ⟨_, _, by rw [if_pos rfl, sums_eq]; rfl, mean⟩

theorem rows_group {T : Type} {rows width : ℕ} {value : ℕ → ℕ → T} {out : ℕ → T}
    (stored : Loops.Rows rows width value out) (group : ℕ) {row : ℕ → ℕ → T}
    (same : ∀ member < group, ∀ dim < width, row member dim = value (rows + member) dim) :
    Loops.Rows (rows + group) width value ((List.range group).foldl (fun out member =>
      Loops.storeRow out ((rows + member) * width) width (row member)) out) := by
  induction group with
  | zero => exact stored
  | succ group induction =>
      rw [List.range_succ, List.foldl_append]
      exact (induction fun member below => same member (by omega)).storeRow
        (same group (Nat.lt_succ_self group))

/-- The optimised kernel accepts and stores the softmax averages. -/
theorem Accepted.opt_rows {T K : Type} [Field K] [LinearOrder K] [IsStrictOrderedRing K]
    (exp : Exponential K) (online avx : Bool) {element : ElementType T K} {view : CacheView}
    (query : ℕ → T) {params : PagedAttentionParams K}
    (accepted : Accepted view element.size params) (out : ℕ → T) :
    ∃ final, pagedAttentionDecodeOpt exp true online avx element view query params out =
        some final ∧
      Loops.Rows params.numQueryHeads view.layout.shape.headDim
        (fun head dim => element.ofFloat (attention exp element view query params head dim))
        final := by
  rw [pagedAttentionDecodeOpt, accepted.consistent, accepted.framed, accepted.heads]
  simp only [Bool.not_true, Bool.false_eq_true, if_false, Option.bind_eq_bind]
  -- The rows of the first kv heads are stored after as many rounds of the loop.
  suffices rounds : ∀ count ≤ view.layout.shape.numKvHeads, ∃ state,
      (List.range count).foldlM (fun (state : (ℕ → ℕ → K) × (ℕ → T)) kvHead =>
        (groupSums exp online avx element view query params state.1 kvHead).bind fun result =>
          some (result.1, (List.range (groupSize view params)).foldl (fun out member =>
            Loops.storeRow out
              ((kvHead * groupSize view params + member) * view.layout.shape.headDim)
              view.layout.shape.headDim fun dim =>
                element.ofFloat ((result.2 member).2 dim * (1 / (result.2 member).1)))
            state.2)) ((fun _ _ => 0), out) = some state ∧
      Loops.Rows (count * groupSize view params) view.layout.shape.headDim
        (fun head dim => element.ofFloat (attention exp element view query params head dim))
        state.2 by
    obtain ⟨state, run_eq, rows⟩ := rounds _ le_rfl
    exact ⟨state.2, (congrArg (·.bind fun final => some final.2) run_eq).trans rfl, rows⟩
  intro count
  induction count with
  | zero => exact fun _ => ⟨_, rfl, fun row none => by omega⟩
  | succ count induction =>
      intro below
      obtain ⟨state, run_eq, rows⟩ := induction (by omega)
      obtain ⟨scores, sums, sums_eq, mean⟩ :=
        accepted.groupSums_mean exp online avx query state.1 (Nat.lt_of_succ_le below)
      rw [List.range_succ, List.foldlM_append, run_eq, Option.bind_eq_bind, Option.bind_some,
        List.foldlM_cons, sums_eq]
      refine ⟨_, rfl, ?_⟩
      rw [Nat.succ_mul]
      refine rows_group rows _ fun member listed dim inside => ?_
      rw [mul_one_div, mean member listed dim inside]

theorem Accepted.decode_rows {T K : Type} [Field K] [LinearOrder K] (exp : Exponential K)
    {element : ElementType T K} {view : CacheView} (query : ℕ → T)
    {params : PagedAttentionParams K} (accepted : Accepted view element.size params)
    (out : ℕ → T) :
    ∃ final, pagedAttentionDecode exp element view query params out = some final ∧
      pagedAttentionDecodeBlocked exp element view query params out = some final ∧
      Loops.Rows params.numQueryHeads view.layout.shape.headDim
        (fun head dim => element.ofFloat (attention exp element view query params head dim))
        final := by
  refine ⟨_, ?_, ?_, rows_decode exp element query accepted.context_pos params.numQueryHeads
    ((fun _ => 0), out)⟩
  · rw [pagedAttentionDecode, accepted.consistent, accepted.resolved]
    rfl
  · rw [pagedAttentionDecodeBlocked, accepted.consistent, accepted.framed]
    simp only [Bool.not_true, Bool.false_eq_true, if_false]
    rw [Loops.foldlM_eq_some]
    · rfl
    · intro head member state
      rw [accepted.blockedHead_eq exp query state.1 (List.mem_range.mp member)]
      rfl

/-- `std::uint16_t`. -/
noncomputable def uint16 : ElementType ℕ ℝ where
  size := 2
  load bytes := (bytes.getD 0 0).toNat + 256 * (bytes.getD 1 0).toNat
  toFloat value := value
  ofFloat value := ⌊value⌋₊ % 2 ^ 16

/-- Two tokens of one element each, in two frames. -/
def twoTokens : CacheView :=
  let pool : AllocatorConfig := ⟨⟨1, 1, 1, 1, 2, 0⟩, 1, 4, four_lt_word⟩
  let opened := ((KVCacheManager.create (.create pool (fun _ => 1) none)).createSequence ⟨1, 1⟩).2
  let grown := (opened.reserveTokens 1 2).2
  (grown.cacheView 1 .textKV).getD ⟨1, .textKV, none, none, none, ⟨pool.blockShape⟩⟩

end PagedAttention
end QwenVLPaged
