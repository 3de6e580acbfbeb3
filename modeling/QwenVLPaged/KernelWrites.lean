import QwenVLPaged.KernelAcceptance
import QwenVLPaged.Library.Raising

/-!
# Refused calls write nothing

Here the kernels are programs over the memory behind `out`, which keeps what was stored before a
kernel returns. Besides returning false a kernel could only stop at a division by zero. The kernels
that compute their offsets inside the loops over the heads return false there only before the first
row is stored.
-/

namespace QwenVLPaged

/-- Why a kernel stops early. -/
inductive KernelFault
  | refused
  | dividedByZero
  deriving DecidableEq

/-- A kernel, or a part of one, that writes to `out`. -/
abbrev KernelM (T : Type) := Raising.Program KernelFault (ℕ → T)

namespace PagedAttention

open Raising (require outcome each outcome_bind outcome_each outcome_foldlM outcome_foldlM_of_some
  outcome_foldlM_raises)

def divide {T : Type} (dividend divisor : ℕ) : KernelM T ℕ :=
  if divisor = 0 then throw .dividedByZero else pure (dividend / divisor)

def remainder {T : Type} (dividend divisor : ℕ) : KernelM T ℕ :=
  if divisor = 0 then throw .dividedByZero else pure (dividend % divisor)

/-- Store one row of `out`. -/
def storeHead {T : Type} (head headDim : ℕ) (row : ℕ → T) : KernelM T Unit :=
  modify fun out => Loops.storeRow out (head * headDim) headDim row

/-- The checks that all kernels begin with; `given` tells whether both pointers are set. -/
def checkArguments {T K : Type} (view : CacheView) (size : ℕ) (given : Bool)
    (params : PagedAttentionParams K) : KernelM T Unit := do
  let shape := view.layout.shape
  require (view.valid = true ∧ given = true) .refused
  require (size = shape.bytesPerElement ∧ params.contextLen ≠ 0 ∧ params.layer < shape.numLayers ∧
    params.numQueryHeads ≠ 0) .refused
  let rest ← remainder params.numQueryHeads shape.numKvHeads
  require (rest = 0) .refused

/-- `CacheView::slot`, with its divisions. -/
def slotPointer {T : Type} (view : CacheView) (size : ℕ) (stream : KVStream)
    (layer token kvHead : ℕ) : KernelM T (Option (PhysicalBlock × ℕ)) :=
  if view.valid = true ∧ size = view.layout.shape.bytesPerElement then do
    let _ ← remainder token view.layout.shape.tokensPerBlock
    let _ ← divide token view.layout.shape.tokensPerBlock
    pure (view.slot size stream layer token kvHead)
  else pure none

/-- The walk of the reference over the page table. -/
def resolveContext {T K : Type} (view : CacheView) (size : ℕ) (params : PagedAttentionParams K) :
    KernelM T Unit :=
  (List.range view.layout.shape.numKvHeads) |> each fun kvHead =>
    (List.range params.contextLen) |> each fun token => do
      let key ← slotPointer view size .key params.layer token kvHead
      let value ← slotPointer view size .value params.layer token kvHead
      require (key.isSome = true ∧ value.isSome = true) .refused

/-- `paged_attention_decode`. -/
def decodeProgram {T K : Type} [Field K] [LinearOrder K] (exp : Exponential K)
    (element : ElementType T K) (view : CacheView) (query : ℕ → T) (given : Bool)
    (params : PagedAttentionParams K) : KernelM T Unit := do
  checkArguments view element.size given params
  let group ← divide params.numQueryHeads view.layout.shape.numKvHeads
  resolveContext view element.size params
  let _ ← (List.range params.numQueryHeads).foldlM (fun scores head => do
    let _ ← divide head group
    let (scores, row) := decodeHead exp element view query params scores head
    storeHead head view.layout.shape.headDim (element.ofFloat ∘ row)
    pure scores) fun _ => (0 : K)
  pure ()

/-- Resolve the blocks of the context. -/
def resolveFrames {T K : Type} (view : CacheView) (params : PagedAttentionParams K) :
    KernelM T Unit := do
  let tokensPerBlock := view.layout.shape.tokensPerBlock
  let blocks ← divide (wrap32 (params.contextLen + tokensPerBlock - 1)) tokensPerBlock
  (List.range blocks) |> each fun logical =>
    require ((frame view params logical).isSome = true) .refused

/-- `paged_attention_decode_blocked`. -/
def blockedProgram {T K : Type} [Field K] [LinearOrder K] (exp : Exponential K)
    (element : ElementType T K) (view : CacheView) (query : ℕ → T) (given : Bool)
    (params : PagedAttentionParams K) : KernelM T Unit := do
  checkArguments view element.size given params
  let group ← divide params.numQueryHeads view.layout.shape.numKvHeads
  resolveFrames view params
  let _ ← (List.range params.numQueryHeads).foldlM (fun scores head => do
    let _ ← divide head group
    match blockedHead exp element view query params scores head with
    | none => throw .refused
    | some (scores, row) =>
        storeHead head view.layout.shape.headDim (element.ofFloat ∘ row)
        pure scores) fun _ => (0 : K)
  pure ()

/-- `paged_attention_decode_opt` with fused query heads. -/
def optProgram {T K : Type} [Field K] [LinearOrder K] (exp : Exponential K) (online avx : Bool)
    (element : ElementType T K) (view : CacheView) (query : ℕ → T) (given : Bool)
    (params : PagedAttentionParams K) : KernelM T Unit := do
  checkArguments view element.size given params
  let group ← divide params.numQueryHeads view.layout.shape.numKvHeads
  resolveFrames view params
  let _ ← (List.range view.layout.shape.numKvHeads).foldlM (fun scores kvHead => do
    match groupSums exp online avx element view query params scores kvHead with
    | none => throw .refused
    | some (scores, sums) =>
        (List.range group).foldlM (fun _ member =>
          storeHead (kvHead * group + member) view.layout.shape.headDim fun dim =>
            element.ofFloat ((sums member).2 dim * (1 / (sums member).1))) ()
        pure scores) fun _ _ => (0 : K)
  pure ()

/-- The four kernels of the header. -/
def kernelPrograms {T K : Type} [Field K] [LinearOrder K] (exp : Exponential K) (avx512 : Bool)
    (element : ElementType T K) (view : CacheView) (query : ℕ → T) (given : Bool)
    (params : PagedAttentionParams K) : List (KernelM T Unit) :=
  [decodeProgram exp element view query given params,
    blockedProgram exp element view query given params,
    optProgram exp false false element view query given params,
    optProgram exp true avx512 element view query given params]

/-! ## The checks -/

/-- A refused call leaves the memory alone, an accepted one leaves its result. -/
def settle {T : Type} (out : ℕ → T) : Option (ℕ → T) → Except KernelFault Unit × (ℕ → T)
  | some final => (.ok (), final)
  | none => (.error .refused, out)

theorem outcome_divide {T : Type} {dividend divisor : ℕ} (positive : 0 < divisor) (out : ℕ → T) :
    outcome (divide dividend divisor : KernelM T ℕ) out = (.ok (dividend / divisor), out) := by
  rw [divide, if_neg positive.ne']
  rfl

theorem outcome_remainder {T : Type} {dividend divisor : ℕ} (positive : 0 < divisor)
    (out : ℕ → T) :
    outcome (remainder dividend divisor : KernelM T ℕ) out = (.ok (dividend % divisor), out) := by
  rw [remainder, if_neg positive.ne']
  rfl

theorem outcome_require {T : Type} (condition : Prop) [Decidable condition] (fault : KernelFault)
    (out : ℕ → T) :
    outcome (require condition fault : KernelM T Unit) out =
      if condition then (.ok (), out) else (.error fault, out) := by
  rw [require]
  split <;> rfl

theorem outcome_checkArguments {T K : Type} (view : CacheView) (size : ℕ) (given : Bool)
    (params : PagedAttentionParams K) (out : ℕ → T) :
    outcome (checkArguments view size given params : KernelM T Unit) out =
      if given && consistent view size params then (.ok (), out) else (.error .refused, out) := by
  unfold checkArguments
  dsimp only
  rw [outcome_bind, outcome_require]
  by_cases usable : view.valid = true ∧ given = true
  · obtain ⟨valid, rfl⟩ := usable
    obtain ⟨-, -, kvHeads⟩ := dims_pos_of_valid valid
    rw [if_pos ⟨valid, rfl⟩]
    dsimp only
    rw [outcome_bind, outcome_require]
    by_cases shaped : size = view.layout.shape.bytesPerElement ∧ params.contextLen ≠ 0 ∧
        params.layer < view.layout.shape.numLayers ∧ params.numQueryHeads ≠ 0
    · rw [if_pos shaped]
      dsimp only
      rw [outcome_bind, outcome_remainder kvHeads]
      dsimp only
      rw [outcome_require]
      refine if_congr ?_ rfl rfl
      obtain ⟨sized, context, layer, heads⟩ := shaped
      simp [consistent, valid, sized, context, layer, heads]
    · rw [if_neg shaped]
      dsimp only
      rw [if_neg]
      intro passed
      simp only [Bool.true_and] at passed
      have checked := checked_of_consistent passed
      refine shaped ⟨checked.sized, checked.context.ne', checked.layer, fun none => ?_⟩
      have heads := checked.heads
      have positive := Nat.mul_pos checked.kvHeads checked.group
      omega
  · rw [if_neg usable]
    dsimp only
    rw [if_neg]
    intro passed
    simp only [Bool.and_eq_true] at passed
    exact usable ⟨(checked_of_consistent passed.2).valid, passed.1⟩

/-! ## The reference -/

theorem outcome_slotPointer {T : Type} (view : CacheView) (size : ℕ) (stream : KVStream)
    (layer token kvHead : ℕ) (out : ℕ → T) :
    outcome (slotPointer view size stream layer token kvHead : KernelM T _) out =
      (.ok (view.slot size stream layer token kvHead), out) := by
  unfold slotPointer
  split
  · rename_i usable
    have tokens := (dims_pos_of_valid usable.1).2.1
    rw [outcome_bind, outcome_remainder tokens]
    dsimp only
    rw [outcome_bind, outcome_divide tokens]
    rfl
  · rename_i unusable
    have missing : view.slot size stream layer token kvHead = none := by
      rw [CacheView.slot, if_pos]
      by_contra passed
      refine unusable ?_
      simpa using passed
    rw [missing]
    rfl

theorem outcome_resolveContext {T K : Type} (view : CacheView) (size : ℕ)
    (params : PagedAttentionParams K) (out : ℕ → T) :
    outcome (resolveContext view size params : KernelM T Unit) out =
      if resolved view size params then (.ok (), out) else (.error .refused, out) := by
  refine outcome_each fun kvHead _ => outcome_each fun token _ => ?_
  rw [outcome_bind, outcome_slotPointer]
  dsimp only
  rw [outcome_bind, outcome_slotPointer]
  dsimp only
  rw [outcome_require]
  exact if_congr (by simp) rfl rfl

/-- What follows the checks of a kernel. -/
theorem outcome_checked {T K : Type} {view : CacheView} {size : ℕ} {given : Bool}
    {params : PagedAttentionParams K} {rest : ℕ → KernelM T Unit} {out : ℕ → T}
    {result : Option (ℕ → T)}
    (accepted : consistent view size params = true →
      outcome (rest (groupSize view params)) out = settle out result)
    (refused : consistent view size params = false → result = none) :
    outcome (do
        checkArguments view size given params
        let group ← divide params.numQueryHeads view.layout.shape.numKvHeads
        rest group) out =
      settle out (if given then result else none) := by
  rw [outcome_bind, outcome_checkArguments]
  rcases given with _ | _
  · rfl
  rcases passed : consistent view size params with _ | _
  · simp only [Bool.and_false, Bool.false_eq_true, if_false, if_true, refused passed]
    rfl
  · simp only [Bool.and_self, if_true]
    rw [outcome_bind, outcome_divide (checked_of_consistent passed).kvHeads]
    exact accepted passed

theorem outcome_decodeProgram {T K : Type} [Field K] [LinearOrder K] (exp : Exponential K)
    (element : ElementType T K) (view : CacheView) (query : ℕ → T) (given : Bool)
    (params : PagedAttentionParams K) (out : ℕ → T) :
    outcome (decodeProgram exp element view query given params) out =
      settle out (if given then pagedAttentionDecode exp element view query params out
        else none) := by
  refine outcome_checked (fun passed => ?_) fun refused => ?_
  · have checked := checked_of_consistent passed
    rw [outcome_bind, outcome_resolveContext]
    rcases walked : resolved view element.size params with _ | _
    · simp only [pagedAttentionDecode, walked, Bool.not_false, Bool.false_eq_true, if_true, if_false,
        ite_self]
      rfl
    · simp only [pagedAttentionDecode, passed, walked, Bool.not_true, Bool.false_eq_true, if_true,
        if_false]
      rw [outcome_bind, outcome_foldlM]
      · rfl
      · intro head _ scores state
        rw [outcome_bind, outcome_divide checked.group]
        rfl
  · simp [pagedAttentionDecode, refused]

/-! ## The kernels that resolve blocks -/

theorem outcome_resolveFrames {T K : Type} {view : CacheView}
    (tokens : 0 < view.layout.shape.tokensPerBlock) (params : PagedAttentionParams K)
    (out : ℕ → T) :
    outcome (resolveFrames view params : KernelM T Unit) out =
      if framed view params then (.ok (), out) else (.error .refused, out) := by
  unfold resolveFrames
  dsimp only
  rw [outcome_bind, outcome_divide tokens]
  refine outcome_each fun logical _ => ?_
  rw [outcome_require]

theorem outcome_storeHeads {T : Type} (heads : List ℕ) (place : ℕ → ℕ) (headDim : ℕ)
    (row : ℕ → ℕ → T) (out : ℕ → T) :
    outcome (heads.foldlM (fun _ member => storeHead (place member) headDim (row member)) () :
        KernelM T Unit) out =
      (.ok (), heads.foldl (fun out member =>
        Loops.storeRow out (place member * headDim) headDim (row member)) out) := by
  induction heads generalizing out with
  | nil => rfl
  | cons head heads induction =>
      rw [List.foldlM_cons, outcome_bind]
      exact induction _

/-- Once the frames are resolved, either every round of a kernel stores its rows, or the first one is
refused before it stores anything. -/
theorem outcome_rounds {T K β : Type} {view : CacheView} {size : ℕ}
    {params : PagedAttentionParams K} (checked : Checked view size params)
    {body : β → ℕ → KernelM T β} (step : β × (ℕ → T) → ℕ → Option (β × (ℕ → T))) {start : β}
    {out : ℕ → T} {rounds : ℕ} (some_rounds : 0 < rounds)
    (returns : ∀ value memory label next, step (value, memory) label = some next →
      outcome (body value label) memory = (.ok next.1, next.2))
    (succeeds : framed view params = true → Stored view params ∨ logicalBlocks view params = 0 →
      ((List.range rounds).foldlM step (start, out)).isSome)
    (raises : ¬ Stored view params → logicalBlocks view params ≠ 0 →
      step (start, out) 0 = none ∧ outcome (body start 0) out = (.error .refused, out)) :
    outcome (do
        resolveFrames view params
        let _ ← (List.range rounds).foldlM body start
        pure ()) out =
      settle out (if framed view params then
        ((List.range rounds).foldlM step (start, out)).bind fun final => some final.2 else none) := by
  rw [outcome_bind, outcome_resolveFrames checked.tokens]
  rcases frames : framed view params with _ | _
  · rfl
  simp only [if_true]
  by_cases stored : Stored view params ∨ logicalBlocks view params = 0
  · obtain ⟨final, loop⟩ := Option.isSome_iff_exists.mp (succeeds frames stored)
    rw [outcome_bind, outcome_foldlM_of_some returns loop, loop]
    rfl
  · rw [not_or] at stored
    obtain ⟨refused, raised⟩ := raises stored.1 stored.2
    obtain ⟨count, more⟩ := Nat.exists_eq_succ_of_ne_zero some_rounds.ne'
    rw [outcome_bind, more, List.range_succ_eq_map, outcome_foldlM_raises raised,
      List.foldlM_cons, refused]
    rfl

theorem outcome_blockedProgram {T K : Type} [Field K] [LinearOrder K] (exp : Exponential K)
    (element : ElementType T K) (view : CacheView) (query : ℕ → T) (given : Bool)
    (params : PagedAttentionParams K) (small : params.contextLen < 2 ^ 32) (out : ℕ → T) :
    outcome (blockedProgram exp element view query given params) out =
      settle out (if given then pagedAttentionDecodeBlocked exp element view query params out
        else none) := by
  refine outcome_checked (fun passed => ?_) fun refused => ?_
  · have checked := checked_of_consistent passed
    refine (outcome_rounds checked (fun state head =>
      (blockedHead exp element view query params state.1 head).bind fun result =>
        some (result.1, Loops.storeRow state.2 (head * view.layout.shape.headDim)
          view.layout.shape.headDim (element.ofFloat ∘ result.2))) ?_ ?_ ?_ ?_).trans ?_
    · rw [checked.heads]
      exact Nat.mul_pos checked.kvHeads checked.group
    · intro scores memory head next stored
      obtain ⟨result, found, equal⟩ := Option.bind_eq_some_iff.mp stored
      obtain rfl := Option.some.inj equal
      rw [outcome_bind, outcome_divide checked.group]
      simp only [found]
      rfl
    · intro frames stored
      refine Loops.foldlM_isSome (fun head member state => ?_) _
      obtain ⟨result, found⟩ := Option.isSome_iff_exists.mp (blockedHead_isSome exp checked frames
        stored query state.1 (List.mem_range.mp member))
      simp [found]
    · intro missing blocks
      have none := blockedHead_eq_none exp checked small missing blocks query (fun _ => 0) 0
      refine ⟨by rw [none]; rfl, ?_⟩
      rw [outcome_bind, outcome_divide checked.group]
      simp only [none]
      rfl
    · rw [pagedAttentionDecodeBlocked, passed]
      cases framed view params <;> rfl
  · simp [pagedAttentionDecodeBlocked, refused]

theorem outcome_optProgram {T K : Type} [Field K] [LinearOrder K] (exp : Exponential K)
    (online avx : Bool) (element : ElementType T K) (view : CacheView) (query : ℕ → T)
    (given : Bool) (params : PagedAttentionParams K) (small : params.contextLen < 2 ^ 32)
    (out : ℕ → T) :
    outcome (optProgram exp online avx element view query given params) out =
      settle out (if given then
        pagedAttentionDecodeOpt exp true online avx element view query params out else none) := by
  refine outcome_checked (fun passed => ?_) fun refused => ?_
  · have checked := checked_of_consistent passed
    refine (outcome_rounds checked (fun state kvHead =>
      (groupSums exp online avx element view query params state.1 kvHead).bind fun result =>
        some (result.1, (List.range (groupSize view params)).foldl (fun out member =>
          Loops.storeRow out
            ((kvHead * groupSize view params + member) * view.layout.shape.headDim)
            view.layout.shape.headDim fun dim =>
              element.ofFloat ((result.2 member).2 dim * (1 / (result.2 member).1))) state.2))
      checked.kvHeads ?_ ?_ ?_).trans ?_
    · intro scores memory kvHead next stored
      obtain ⟨result, found, equal⟩ := Option.bind_eq_some_iff.mp stored
      obtain rfl := Option.some.inj equal
      simp only [found]
      rw [outcome_bind, outcome_storeHeads]
      rfl
    · intro frames stored
      refine Loops.foldlM_isSome (fun kvHead member state => ?_) _
      obtain ⟨result, found⟩ := Option.isSome_iff_exists.mp (groupSums_isSome exp online avx checked
        frames stored query state.1 (List.mem_range.mp member))
      simp [found]
    · intro missing blocks
      have none := groupSums_eq_none exp online avx checked small missing blocks query
        (fun _ _ => 0) 0
      refine ⟨by rw [none]; rfl, ?_⟩
      simp only [none]
      rfl
    · rw [pagedAttentionDecodeOpt, passed]
      cases framed view params <;> rfl
  · simp [pagedAttentionDecodeOpt, refused]

/-! ## Refusals -/

/-- A kernel that returns false has not modified `out`, and no kernel divides by zero. -/
theorem refused_call_writes_nothing {T K : Type} [Field K] [LinearOrder K] (exp : Exponential K)
    (avx512 : Bool) (element : ElementType T K) (view : CacheView) (query : ℕ → T) (given : Bool)
    (params : PagedAttentionParams K) (small : params.contextLen < 2 ^ 32) (out : ℕ → T) :
    ∀ kernel ∈ kernelPrograms exp avx512 element view query given params,
      ∀ fault, (outcome kernel out).1 = .error fault →
        fault = .refused ∧ ∀ index, (outcome kernel out).2 index = out index := by
  have settled {kernel : KernelM T Unit} {result : Option (ℕ → T)}
      (computes : outcome kernel out = settle out result) (fault : KernelFault)
      (stops : (outcome kernel out).1 = .error fault) :
      fault = .refused ∧ ∀ index, (outcome kernel out).2 index = out index := by
    rw [computes] at stops ⊢
    rcases result with _ | final
    · exact ⟨(Except.error.inj stops).symm, fun _ => rfl⟩
    · simp [settle] at stops
  intro kernel member
  simp only [kernelPrograms, List.mem_cons, List.not_mem_nil, or_false] at member
  rcases member with rfl | rfl | rfl | rfl
  · exact settled (outcome_decodeProgram exp element view query given params out)
  · exact settled (outcome_blockedProgram exp element view query given params small out)
  · exact settled (outcome_optProgram exp false false element view query given params small out)
  · exact settled (outcome_optProgram exp true avx512 element view query given params small out)

/-- One token of three layers in frames that hold two of them. -/
def splitLayers : CacheView :=
  let pool : AllocatorConfig := ⟨⟨1, 3, 1, 1, 2, 2⟩, 1, 1, one_lt_word⟩
  let cache := (KVCacheManager.fresh pool (fun _ => 0) 0).run
    [.createSequence ⟨1, 1⟩, .reserveTokens 1 1]
  (cache.cacheView 1 .textKV).getD ⟨1, .textKV, none, none, none, ⟨pool.blockShape⟩⟩

/-- The third layer is refused after its frame was resolved. -/
theorem refused_call_writes_nothing_splitLayers :
    framed splitLayers ⟨2, 1, 1, (1 : ℝ)⟩ = true ∧
      ∀ kernel ∈ kernelPrograms .real true uint16 splitLayers (fun _ => 3) true ⟨2, 1, 1, 1⟩,
        ∀ fault, (outcome kernel fun _ => 7).1 = .error fault →
          fault = .refused ∧ ∀ index, (outcome kernel fun _ => 7).2 index = 7 :=
  ⟨by decide +kernel, refused_call_writes_nothing .real true uint16 splitLayers (fun _ => 3) true
    ⟨2, 1, 1, 1⟩ (by norm_num) fun _ => 7⟩

end PagedAttention
end QwenVLPaged
