import QwenVLPaged.TritonDecode

/-!
# Splitting the context

A partition walks its own run of logical blocks, and the runs of all partitions together are the
blocks of the table. Whatever the table holds past the active blocks, every token of the context is
seen by one partition, and merging the partial sums gives the quotient of the single program.
-/

namespace QwenVLPaged
namespace DecodeTensors

/-! ## What one block contributes -/

/-- Address of one element of a token, through the block table. -/
def tokenAddr {K : Type} (tensors : DecodeTensors K) (seq head token dim : ℕ) : ℤ :=
  let physical := tensors.blockTable
    (seq * tensors.maxBlocksPerSeq + token / tensors.tokensPerBlock)
  physical * tensors.elementsPerBlock + (tensors.layer * tensors.layerStride +
    head / tensors.groupSize * tensors.headStride : ℕ) +
    (token % tensors.tokensPerBlock : ℕ) * tensors.tokenStride + dim

/-- Score and value of one token. -/
def entry {K : Type} [Field K] (tensors : DecodeTensors K) (seq head token : ℕ) :
    K × (ℕ → K) :=
  (((List.range tensors.headDim).map fun dim =>
      tensors.kvPool (tensors.tokenAddr seq head token dim) *
        tensors.queryAt seq head dim).sum * tensors.scale,
    fun dim => tensors.kvPool (tensors.tokenAddr seq head token dim + tensors.streamStride))

/-- Number of tokens of the context in one logical block. -/
def covered {K : Type} (tensors : DecodeTensors K) (seq logicalBlock : ℕ) : ℕ :=
  min (tensors.contextLens seq - logicalBlock * tensors.tokensPerBlock) tensors.tokensPerBlock

/-- Tokens of the context in one logical block. -/
def blockTokens {K : Type} (tensors : DecodeTensors K) (seq logicalBlock : ℕ) : List ℕ :=
  (List.range (tensors.covered seq logicalBlock)).map
    (logicalBlock * tensors.tokensPerBlock + ·)

theorem covered_le {K : Type} (tensors : DecodeTensors K) (seq logicalBlock : ℕ) :
    tensors.covered seq logicalBlock ≤ tensors.tokensPerBlock := min_le_right _ _

theorem tokenMask_iff {K : Type} (tensors : DecodeTensors K) (seq logicalBlock offset : ℕ) :
    tensors.tokenMask seq logicalBlock offset = true ↔
      offset < tensors.covered seq logicalBlock := by
  rw [tokenMask, decide_eq_true_iff, tokensHere, covered]
  omega

/-- A block with tokens of the context is active. -/
theorem active_of_covered {K : Type} {tensors : DecodeTensors K} {seq logicalBlock : ℕ}
    (blocky : 0 < tensors.tokensPerBlock) (some : 0 < tensors.covered seq logicalBlock) :
    logicalBlock < tensors.numLogicalBlocks seq := by
  rw [covered] at some
  rw [numLogicalBlocks, ceilDiv, Nat.lt_iff_add_one_le, Nat.le_div_iff_mul_le blocky,
    Nat.succ_mul]
  omega

/-- A masked-in offset of a block is addressed through the table. -/
theorem addr_eq {K : Type} {tensors : DecodeTensors K} {seq logicalBlock offset : ℕ} (head : ℕ)
    (blocky : 0 < tensors.tokensPerBlock) (inside : offset < tensors.covered seq logicalBlock)
    (dim : ℕ) :
    tensors.addr seq head logicalBlock offset dim =
      tensors.tokenAddr seq head (logicalBlock * tensors.tokensPerBlock + offset) dim := by
  have active := active_of_covered blocky (Nat.zero_lt_of_lt inside)
  have below : offset < tensors.tokensPerBlock := inside.trans_le (covered_le ..)
  have block : (logicalBlock * tensors.tokensPerBlock + offset) / tensors.tokensPerBlock =
      logicalBlock := by
    rw [Nat.mul_comm, Nat.mul_add_div blocky, Nat.div_eq_of_lt below, Nat.add_zero]
  have rest : (logicalBlock * tensors.tokensPerBlock + offset) % tensors.tokensPerBlock =
      offset := by
    rw [Nat.mul_comm, Nat.mul_add_mod, Nat.mod_eq_of_lt below]
  rw [addr, physicalId, if_pos active, tokenAddr, block, rest]

theorem scores_eq {K : Type} [Field K] {tensors : DecodeTensors K} {seq logicalBlock offset : ℕ}
    (head : ℕ) (blocky : 0 < tensors.tokensPerBlock)
    (inside : offset < tensors.covered seq logicalBlock) :
    tensors.scores seq head logicalBlock offset =
      ((tensors.entry seq head (logicalBlock * tensors.tokensPerBlock + offset)).1 :
        WithBot K) := by
  have mask := (tensors.tokenMask_iff seq logicalBlock offset).mpr inside
  rw [scores, if_pos mask, entry]
  simp only [keys, if_pos mask, addr_eq head blocky inside]

theorem values_eq {K : Type} [Field K] {tensors : DecodeTensors K} {seq logicalBlock offset : ℕ}
    (head : ℕ) (blocky : 0 < tensors.tokensPerBlock)
    (inside : offset < tensors.covered seq logicalBlock) (dim : ℕ) :
    tensors.values seq head logicalBlock offset dim =
      (tensors.entry seq head (logicalBlock * tensors.tokensPerBlock + offset)).2 dim := by
  have mask := (tensors.tokenMask_iff seq logicalBlock offset).mpr inside
  rw [values, if_pos mask, entry, addr_eq head blocky inside]

/-- A masked sum over a block is a sum over its tokens. -/
theorem sum_block {K : Type} [Field K] (tensors : DecodeTensors K) (seq head logicalBlock : ℕ)
    (term : ℕ → K) (summand : K × (ℕ → K) → K)
    (masked : ∀ offset, ¬ offset < tensors.covered seq logicalBlock → term offset = 0)
    (same : ∀ offset < tensors.covered seq logicalBlock, term offset = summand
      (tensors.entry seq head (logicalBlock * tensors.tokensPerBlock + offset))) :
    ((List.range tensors.tokensPerBlock).map term).sum =
      (((tensors.blockTokens seq logicalBlock).map (tensors.entry seq head)).map summand).sum := by
  have split : term = fun offset =>
      if offset < tensors.covered seq logicalBlock then term offset else 0 := by
    funext offset
    split
    · rfl
    · rename_i outside
      exact masked offset outside
  rw [split, Loops.sum_masked term (tensors.covered_le seq logicalBlock), blockTokens, List.map_map, List.map_map]
  exact congrArg List.sum (List.map_congr_left fun offset inside =>
    same offset (List.mem_range.mp inside))

/-- One round adds the tokens of its block to the partial sums. -/
theorem blockStep_of {K : Type} [Field K] [LinearOrder K] {exp : Exponential K}
    {tensors : DecodeTensors K} (blocky : 0 < tensors.tokensPerBlock) {seq head : ℕ}
    {state : BlockLoop K} {scored : List (K × (ℕ → K))} (of : state.sums.Of exp scored)
    (logicalBlock : ℕ) :
    (tensors.blockStep exp seq head state logicalBlock).sums.Of exp
      (scored ++ (tensors.blockTokens seq logicalBlock).map (tensors.entry seq head)) := by
  let newMax := (tensors.blockStep exp seq head state logicalBlock).sums.top
  have raised : state.sums.top ≤ newMax := le_max_left _ _
  have bounded (offset : ℕ) (inside : offset < tensors.covered seq logicalBlock) :
      tensors.scores seq head logicalBlock offset ≤ newMax :=
    le_trans ((Loops.le_foldl_max (tensors.scores seq head logicalBlock) ⊥).2 offset
      (List.mem_range.mpr (inside.trans_le (covered_le ..)))) (le_max_right _ _)
  have above : ∀ entry ∈ (tensors.blockTokens seq logicalBlock).map (tensors.entry seq head),
      (entry.1 : WithBot K) ≤ newMax := by
    intro found member
    obtain ⟨token, listed, rfl⟩ := List.mem_map.mp member
    obtain ⟨offset, inside, rfl⟩ := List.mem_map.mp listed
    rw [← scores_eq head blocky (List.mem_range.mp inside)]
    exact bounded offset (List.mem_range.mp inside)
  have alpha : (if state.sums.top = ⊥ then 0 else exp.gap state.sums.top newMax) =
      exp.gap state.sums.top newMax := by
    split
    · rename_i unseen
      rw [unseen, exp.gap_bot]
    · rfl
  have masked (offset : ℕ) (outside : ¬ offset < tensors.covered seq logicalBlock) :
      ¬ tensors.tokenMask seq logicalBlock offset = true := by
    rwa [tokenMask_iff]
  have absorbed := of.absorb raised above
  rw [← alpha] at absorbed
  have sum := sum_block tensors seq head logicalBlock
    (fun offset => if tensors.tokenMask seq logicalBlock offset then
      exp.gap (tensors.scores seq head logicalBlock offset) newMax else 0)
    (fun entry => exp.gap entry.1 newMax)
    (fun offset outside => if_neg (masked offset outside))
    (fun offset inside => by
      rw [if_pos ((tensors.tokenMask_iff _ _ _).mpr inside), scores_eq head blocky inside])
  have acc (dim : ℕ) := sum_block tensors seq head logicalBlock
    (fun offset => (if tensors.tokenMask seq logicalBlock offset then
      exp.gap (tensors.scores seq head logicalBlock offset) newMax else 0) *
        tensors.values seq head logicalBlock offset dim)
    (fun entry => exp.gap entry.1 newMax * entry.2 dim)
    (fun offset outside => by rw [if_neg (masked offset outside), zero_mul])
    (fun offset inside => by
      rw [if_pos ((tensors.tokenMask_iff _ _ _).mpr inside), scores_eq head blocky inside,
        values_eq head blocky inside])
  simp only [← sum, ← acc] at absorbed
  exact absorbed

/-! ## What a loop over blocks has seen -/

/-- The loop has loaded exactly these tokens, through active entries of the table. -/
structure Visited {K : Type} [Field K] [LinearOrder K] (exp : Exponential K)
    (tensors : DecodeTensors K) (seq head : ℕ) (state : BlockLoop K) (tokens : List ℕ) :
    Prop where
  sums : state.sums.Of exp (tokens.map (tensors.entry seq head))
  tokens : state.tokens = tokens
  entries : ∀ logicalBlock ∈ state.entries, logicalBlock < tensors.numLogicalBlocks seq

theorem Visited.blockStep {K : Type} [Field K] [LinearOrder K] {exp : Exponential K}
    {tensors : DecodeTensors K} (blocky : 0 < tensors.tokensPerBlock) {seq head : ℕ}
    {state : BlockLoop K} {tokens : List ℕ} (visited : Visited exp tensors seq head state tokens)
    (logicalBlock : ℕ) :
    Visited exp tensors seq head (tensors.blockStep exp seq head state logicalBlock)
      (tokens ++ tensors.blockTokens seq logicalBlock) := by
  refine ⟨?_, ?_, ?_⟩
  · rw [List.map_append]
    exact blockStep_of blocky visited.sums logicalBlock
  · have filtered : (List.range tensors.tokensPerBlock).filter
        (tensors.tokenMask seq logicalBlock) =
        List.range (tensors.covered seq logicalBlock) := by
      have mask : tensors.tokenMask seq logicalBlock =
          fun offset => decide (offset < tensors.covered seq logicalBlock) := by
        funext offset
        rw [Bool.eq_iff_iff, tokenMask_iff, decide_eq_true_iff]
      rw [mask, Loops.filter_range (tensors.covered_le seq logicalBlock)]
    rw [DecodeTensors.blockStep, blockTokens, ← filtered, visited.tokens]
  · intro loaded member
    rcases List.mem_append.mp member with earlier | last
    · exact visited.entries loaded earlier
    · split at last
      · rename_i active
        rwa [List.mem_singleton.mp last]
      · exact absurd last List.not_mem_nil

theorem visited_blockLoop {K : Type} [Field K] [LinearOrder K] (exp : Exponential K)
    {tensors : DecodeTensors K} (blocky : 0 < tensors.tokensPerBlock) (seq head first count : ℕ) :
    Visited exp tensors seq head (tensors.blockLoop exp seq head first count)
      ((List.range count).flatMap fun offset => tensors.blockTokens seq (first + offset)) := by
  induction count with
  | zero => exact ⟨PartialSoftmax.of_empty exp, rfl, by simp [blockLoop]⟩
  | succ count induction =>
      rw [blockLoop, List.range_succ, List.foldl_append, List.flatMap_append,
        List.flatMap_singleton]
      exact induction.blockStep blocky (first + count)

/-! ## Covering the context -/

theorem blockTokens_eq {K : Type} (tensors : DecodeTensors K) (seq logicalBlock : ℕ) :
    tensors.blockTokens seq logicalBlock = List.range' (logicalBlock * tensors.tokensPerBlock)
      (min (logicalBlock * tensors.tokensPerBlock + tensors.tokensPerBlock)
        (tensors.contextLens seq) - logicalBlock * tensors.tokensPerBlock) := by
  rw [blockTokens, List.range'_eq_map_range, covered]
  congr 2
  omega

/-- Enough blocks hold the tokens of the context, once each and in order. -/
theorem flatMap_blockTokens {K : Type} (tensors : DecodeTensors K) {seq blocks : ℕ}
    (enough : tensors.contextLens seq ≤ blocks * tensors.tokensPerBlock) :
    (List.range blocks).flatMap (tensors.blockTokens seq) =
      List.range (tensors.contextLens seq) := by
  rw [funext (tensors.blockTokens_eq seq), Loops.flatMap_blocks, Nat.min_eq_right enough]

/-- The partitions of the table walk its blocks one after the other. -/
theorem flatMap_partitions {K : Type} (tensors : DecodeTensors K) (seq partitions size : ℕ) :
    (List.range partitions).flatMap (fun partitionIdx =>
        (List.range size).flatMap fun offset =>
          tensors.blockTokens seq (partitionIdx * size + offset)) =
      (List.range (partitions * size)).flatMap (tensors.blockTokens seq) := by
  rw [← Loops.flatMap_full_blocks, List.flatMap_assoc]
  congr 1
  funext partitionIdx
  rw [List.range'_eq_map_range, List.flatMap_map]

/-- A context that the table can hold. -/
def Holds {K : Type} (tensors : DecodeTensors K) (seq : ℕ) : Prop :=
  1 ≤ tensors.contextLens seq ∧
    ceilDiv (tensors.contextLens seq) tensors.tokensPerBlock ≤ tensors.maxBlocksPerSeq

theorem Holds.enough {K : Type} {tensors : DecodeTensors K} {seq : ℕ}
    (holds : tensors.Holds seq) (blocky : 0 < tensors.tokensPerBlock) {blocks : ℕ}
    (table : tensors.maxBlocksPerSeq ≤ blocks) :
    tensors.contextLens seq ≤ blocks * tensors.tokensPerBlock :=
  (le_ceilDiv_mul blocky).trans (Nat.mul_le_mul_right _ (holds.2.trans table))

/-- The re-derived split covers the table. -/
theorem Holds.partitions {K : Type} {tensors : DecodeTensors K} {seq : ℕ}
    (holds : tensors.Holds seq) (blocky : 0 < tensors.tokensPerBlock) {numPartitions : ℕ}
    (some : 0 < numPartitions) :
    tensors.maxBlocksPerSeq ≤
      tensors.partitionCount numPartitions * tensors.partitionBlocks numPartitions := by
  have table : 0 < tensors.maxBlocksPerSeq := (ceilDiv_pos holds.1 blocky).trans_le holds.2
  exact le_ceilDiv_mul (ceilDiv_pos table some)

/-! ## Launches -/

theorem row_injective {K : Type} {tensors : DecodeTensors K} {seq seq' head head' : ℕ}
    (inside : head < tensors.numQueryHeads) (inside' : head' < tensors.numQueryHeads)
    (same : tensors.row seq head = tensors.row seq' head') : seq = seq' ∧ head = head' := by
  have split (seq head : ℕ) (inside : head < tensors.numQueryHeads) :
      tensors.row seq head / tensors.numQueryHeads = seq ∧
        tensors.row seq head % tensors.numQueryHeads = head := by
    rw [row, Nat.mul_comm, Nat.mul_add_div (by omega), Nat.div_eq_of_lt inside, Nat.mul_add_mod,
      Nat.mod_eq_of_lt inside]
    exact ⟨Nat.add_zero seq, rfl⟩
  obtain ⟨quotient, remainder⟩ := split seq head inside
  obtain ⟨quotient', remainder'⟩ := split seq' head' inside'
  rw [same] at quotient remainder
  exact ⟨quotient.symm.trans quotient', remainder.symm.trans remainder'⟩

theorem mem_grid {K : Type} {tensors : DecodeTensors K} {program : ℕ × ℕ} :
    program ∈ tensors.grid ↔
      program.1 < tensors.numQueryHeads ∧ program.2 < tensors.numSeqs := by
  obtain ⟨head, seq⟩ := program
  rw [grid, List.pair_mem_product, List.mem_range, List.mem_range]

theorem mem_partialGrid {K : Type} {tensors : DecodeTensors K} {numPartitions : ℕ}
    {program : ℕ × ℕ × ℕ} :
    program ∈ tensors.partialGrid numPartitions ↔ program.1 < tensors.numQueryHeads ∧
      program.2.1 < tensors.numSeqs ∧ program.2.2 < numPartitions := by
  obtain ⟨head, seq, partitionIdx⟩ := program
  rw [partialGrid, List.pair_mem_product, List.pair_mem_product, List.mem_range, List.mem_range,
    List.mem_range]

/-- A launch over the grid, in any order, leaves in each row what its own program stores. -/
theorem launch_rows {K : Type} {tensors : DecodeTensors K} {order : List (ℕ × ℕ)}
    (launched : order.Perm tensors.grid) (value : ℕ → ℕ → ℕ → K) (out : ℕ → K) {seq head : ℕ}
    (listed : seq < tensors.numSeqs) (inside : head < tensors.numQueryHeads) {dim : ℕ}
    (below : dim < tensors.headDim) :
    order.foldl (tensors.storeOut value) out (tensors.row seq head * tensors.headDim + dim) =
      value seq head dim := by
  refine Loops.foldl_observe (tensors.storeOut value)
    (fun out => out (tensors.row seq head * tensors.headDim + dim))
    (launched.mem_iff.mpr (mem_grid.mpr ⟨inside, listed⟩ : (head, seq) ∈ tensors.grid))
    (fun memory => Loops.storeRow_self _ _ _ _ below) ?_ out
  intro other member different memory
  refine Loops.storeRow_of_ne _ _ below fun same => different ?_
  obtain ⟨rfl, rfl⟩ := row_injective inside (mem_grid.mp (launched.mem_iff.mp member)).1 same
  rfl

/-- The partial launch leaves in each slot the sums of its own partition. -/
theorem launch_partials {K : Type} [Field K] [LinearOrder K] (exp : Exponential K)
    {tensors : DecodeTensors K} {numPartitions : ℕ} (partitionBlocks : ℕ)
    {order : List (ℕ × ℕ × ℕ)} (launched : order.Perm (tensors.partialGrid numPartitions))
    (scratch : Partials K) {seq head partitionIdx : ℕ} (listed : seq < tensors.numSeqs)
    (inside : head < tensors.numQueryHeads) (part : partitionIdx < numPartitions) :
    let partials := order.foldl (tensors.partialKernel exp numPartitions partitionBlocks) scratch
    let slot := tensors.slot numPartitions seq head partitionIdx
    let sums := (tensors.blockLoop exp seq head (partitionIdx * partitionBlocks)
      partitionBlocks).sums
    partials.max slot = sums.top ∧ partials.sum slot = sums.sum ∧
      ∀ dim < tensors.headDim, partials.out (slot * tensors.headDim + dim) = sums.acc dim := by
  intro partials slot sums
  let kernel := tensors.partialKernel exp numPartitions partitionBlocks
  have member : (head, seq, partitionIdx) ∈ order :=
    launched.mem_iff.mpr (mem_partialGrid.mpr ⟨inside, listed, part⟩)
  have elsewhere (other : ℕ × ℕ × ℕ) (found : other ∈ order)
      (different : other ≠ (head, seq, partitionIdx)) :
      slot ≠ tensors.slot numPartitions other.2.1 other.1 other.2.2 := by
    obtain ⟨inside', -, part'⟩ := mem_partialGrid.mp (launched.mem_iff.mp found)
    intro same
    refine different ?_
    have parts := congrArg (· % numPartitions) same
    have rows := congrArg (· / numPartitions) same
    simp only [slot, DecodeTensors.slot, Nat.mul_comm _ numPartitions, Nat.mul_add_mod,
      Nat.mod_eq_of_lt part, Nat.mod_eq_of_lt part'] at parts
    simp only [slot, DecodeTensors.slot, Nat.mul_comm _ numPartitions,
      Nat.mul_add_div (Nat.zero_lt_of_lt part), Nat.div_eq_of_lt part, Nat.div_eq_of_lt part',
      Nat.add_zero] at rows
    obtain ⟨seqs, heads⟩ := row_injective inside inside' rows
    rw [seqs, heads, parts]
  refine ⟨?_, ?_, fun dim below => ?_⟩
  · exact Loops.foldl_observe kernel (fun partials => partials.max slot) member
      (fun memory => Function.update_self ..)
      (fun other found different memory =>
        Function.update_of_ne (elsewhere other found different) ..) scratch
  · exact Loops.foldl_observe kernel (fun partials => partials.sum slot) member
      (fun memory => Function.update_self ..)
      (fun other found different memory =>
        Function.update_of_ne (elsewhere other found different) ..) scratch
  · exact Loops.foldl_observe kernel
      (fun partials => partials.out (slot * tensors.headDim + dim)) member
      (fun memory => Loops.storeRow_self _ _ _ _ below)
      (fun other found different memory =>
        Loops.storeRow_of_ne _ _ below (elsewhere other found different)) scratch

/-! ## The split and the single program agree -/

/-- The softmax average of the values of the context, read through the block table. -/
def attention {K : Type} [Field K] [LinearOrder K] (exp : Exponential K)
    (tensors : DecodeTensors K) (seq head dim : ℕ) : K :=
  let weight (token : ℕ) : K := exp.toFun ((∑ index ∈ Finset.range tensors.headDim,
    tensors.kvPool (tensors.tokenAddr seq head token index) *
      tensors.queryAt seq head index) * tensors.scale)
  (∑ token ∈ Finset.range (tensors.contextLens seq), weight token *
      tensors.kvPool (tensors.tokenAddr seq head token dim + tensors.streamStride)) /
    ∑ token ∈ Finset.range (tensors.contextLens seq), weight token

theorem attention_eq {K : Type} [Field K] [LinearOrder K] (exp : Exponential K)
    (tensors : DecodeTensors K) (seq head dim : ℕ) :
    tensors.attention exp seq head dim = exp.mean
      ((List.range (tensors.contextLens seq)).map (tensors.entry seq head)) dim := by
  rw [Exponential.mean, Exponential.weighted, Exponential.total, List.map_map, List.map_map]
  rfl

/-- The single program divides out to the softmax average. -/
theorem Holds.decode_mean {K : Type} [Field K] [LinearOrder K] (exp : Exponential K)
    {tensors : DecodeTensors K} {seq : ℕ} (holds : tensors.Holds seq)
    (blocky : 0 < tensors.tokensPerBlock) (head dim : ℕ) :
    tensors.decodeRow exp seq head dim = tensors.attention exp seq head dim := by
  have visited := visited_blockLoop exp blocky seq head 0 tensors.maxBlocksPerSeq
  simp only [Nat.zero_add] at visited
  rw [tensors.flatMap_blockTokens (holds.enough blocky le_rfl)] at visited
  rw [attention_eq]
  refine visited.sums.mean ?_ dim
  simp [Nat.ne_of_gt holds.1]

/-- The tokens of all partitions are the tokens of the context. -/
theorem Holds.visits {K : Type} [Field K] [LinearOrder K] (exp : Exponential K)
    {tensors : DecodeTensors K} {seq : ℕ} (holds : tensors.Holds seq)
    (blocky : 0 < tensors.tokensPerBlock) {numPartitions : ℕ} (some : 0 < numPartitions)
    (head : ℕ) :
    (List.range (tensors.partitionCount numPartitions)).flatMap (fun partitionIdx =>
        (tensors.blockLoop exp seq head (partitionIdx * tensors.partitionBlocks numPartitions)
          (tensors.partitionBlocks numPartitions)).tokens) =
      List.range (tensors.contextLens seq) := by
  rw [List.flatMap_congr fun partitionIdx _ => (visited_blockLoop exp blocky seq head
      (partitionIdx * tensors.partitionBlocks numPartitions)
      (tensors.partitionBlocks numPartitions)).tokens,
    flatMap_partitions, tensors.flatMap_blockTokens (holds.enough blocky
      (holds.partitions blocky some))]

/-- The merged partial sums divide out to the softmax average. -/
theorem Holds.merge_mean {K : Type} [Field K] [LinearOrder K] (exp : Exponential K)
    {tensors : DecodeTensors K} {seq : ℕ} (holds : tensors.Holds seq)
    (blocky : 0 < tensors.tokensPerBlock) {numPartitions : ℕ} (some : 0 < numPartitions)
    (head dim : ℕ) {top : WithBot K}
    (above : ∀ partitionIdx < tensors.partitionCount numPartitions,
      (tensors.blockLoop exp seq head (partitionIdx * tensors.partitionBlocks numPartitions)
        (tensors.partitionBlocks numPartitions)).sums.top ≤ top) :
    let sums (partitionIdx : ℕ) := (tensors.blockLoop exp seq head
      (partitionIdx * tensors.partitionBlocks numPartitions)
      (tensors.partitionBlocks numPartitions)).sums
    ((List.range (tensors.partitionCount numPartitions)).map fun partitionIdx =>
        (sums partitionIdx).acc dim * exp.gap (sums partitionIdx).top top).sum /
      ((List.range (tensors.partitionCount numPartitions)).map fun partitionIdx =>
        (sums partitionIdx).sum * exp.gap (sums partitionIdx).top top).sum =
      tensors.attention exp seq head dim := by
  intro sums
  have visited (partitionIdx : ℕ) := visited_blockLoop exp blocky seq head
    (partitionIdx * tensors.partitionBlocks numPartitions)
    (tensors.partitionBlocks numPartitions)
  have merged := PartialSoftmax.of_merge (fun partitionIdx _ => (visited partitionIdx).sums)
    fun partitionIdx member => above partitionIdx (List.mem_range.mp member)
  rw [← List.map_flatMap, flatMap_partitions, tensors.flatMap_blockTokens (holds.enough blocky
    (holds.partitions blocky some))] at merged
  rw [attention_eq]
  refine merged.mean ?_ dim
  simp [Nat.ne_of_gt holds.1]

theorem le_nextPowerOfTwo (count : ℕ) : count ≤ nextPowerOfTwo count :=
  Nat.le_pow_clog Nat.one_lt_two count

/-- The reduce program reads the slots of its row and divides out to the softmax average. -/
theorem Holds.reduce_mean {K : Type} [Field K] [LinearOrder K] (exp : Exponential K)
    {tensors : DecodeTensors K} {seq head : ℕ} (holds : tensors.Holds seq)
    (blocky : 0 < tensors.tokensPerBlock) {numPartitions : ℕ} (some : 0 < numPartitions)
    {order : List (ℕ × ℕ × ℕ)}
    (launched : order.Perm (tensors.partialGrid (tensors.partitionCount numPartitions)))
    (scratch : Partials K) (listed : seq < tensors.numSeqs)
    (inside : head < tensors.numQueryHeads) {dim : ℕ} (below : dim < tensors.headDim) :
    let count := tensors.partitionCount numPartitions
    tensors.reduceRow exp count (nextPowerOfTwo count) (order.foldl (tensors.partialKernel exp
        count (tensors.partitionBlocks numPartitions)) scratch) seq head dim =
      tensors.attention exp seq head dim := by
  intro count
  let blocks := tensors.partitionBlocks numPartitions
  let partials := order.foldl (tensors.partialKernel exp count blocks) scratch
  let sums (partitionIdx : ℕ) := (tensors.blockLoop exp seq head (partitionIdx * blocks)
    blocks).sums
  let partialMax (offset : ℕ) := if decide (offset < count) then
    partials.max (tensors.row seq head * count + offset) else ⊥
  let globalMax := (List.range (nextPowerOfTwo count)).foldl
    (fun top offset => max top (partialMax offset)) ⊥
  have stored (offset : ℕ) (part : offset < count) :=
    launch_partials exp blocks launched scratch listed inside part
  have top (offset : ℕ) (part : offset < count) : partialMax offset = (sums offset).top := by
    simp only [partialMax, decide_eq_true part, if_true]
    exact (stored offset part).1
  have above (offset : ℕ) (part : offset < count) : (sums offset).top ≤ globalMax := by
    rw [← top offset part]
    exact (Loops.le_foldl_max partialMax ⊥).2 offset
      (List.mem_range.mpr (part.trans_le (le_nextPowerOfTwo count)))
  -- Masked loads are zero and empty partitions weigh nothing, so the sums run over the partitions.
  have masked (load value : ℕ → K) (same : ∀ offset < count, load offset = value offset) :
      ((List.range (nextPowerOfTwo count)).map fun offset =>
        (if decide (offset < count) then load offset else 0) *
          (if partialMax offset = ⊥ then 0 else exp.gap (partialMax offset) globalMax)).sum =
      ((List.range count).map fun offset =>
        value offset * exp.gap (sums offset).top globalMax).sum := by
    rw [← Loops.sum_masked _ (le_nextPowerOfTwo count)]
    refine congrArg List.sum (List.map_congr_left fun offset _ => ?_)
    by_cases part : offset < count
    · simp only [part, decide_true, if_true]
      rw [same offset part, top offset part]
      split
      · rename_i unseen
        rw [unseen, exp.gap_bot]
      · rfl
    · simp only [part, decide_false, if_false, Bool.false_eq_true, zero_mul]
  have numerator := masked
    (fun offset => partials.out ((tensors.row seq head * count + offset) * tensors.headDim + dim))
    (fun offset => (sums offset).acc dim) fun offset part => (stored offset part).2.2 dim below
  have denominator := masked (fun offset => partials.sum (tensors.row seq head * count + offset))
    (fun offset => (sums offset).sum) fun offset part => (stored offset part).2.1
  rw [← holds.merge_mean exp blocky some head dim above]
  exact congrArg₂ (· / ·) numerator denominator

/-- The split decode, in whatever order its programs run, stores the softmax average. -/
theorem Holds.split_mean {K : Type} [Field K] [LinearOrder K] (exp : Exponential K)
    {tensors : DecodeTensors K} {seq head : ℕ} (holds : tensors.Holds seq)
    (blocky : 0 < tensors.tokensPerBlock) {numPartitions : ℕ} (some : 0 < numPartitions)
    {order : LaunchOrder}
    (launched : order.partials.Perm (tensors.partialGrid (tensors.partitionCount numPartitions)))
    (reduced : order.reduce.Perm tensors.grid) (scratch : Partials K) (out : ℕ → K)
    (listed : seq < tensors.numSeqs) (inside : head < tensors.numQueryHeads) {dim : ℕ}
    (below : dim < tensors.headDim) :
    tensors.splitDecode exp numPartitions order scratch out
        (tensors.row seq head * tensors.headDim + dim) = tensors.attention exp seq head dim :=
  (launch_rows reduced _ out listed inside below).trans
    (holds.reduce_mean exp blocky some launched scratch listed inside below)

/-- So does the launch of the single-program kernel. -/
theorem Holds.triton_mean {K : Type} [Field K] [LinearOrder K] (exp : Exponential K)
    {tensors : DecodeTensors K} {seq head : ℕ} (holds : tensors.Holds seq)
    (blocky : 0 < tensors.tokensPerBlock) {order : List (ℕ × ℕ)}
    (launched : order.Perm tensors.grid) (out : ℕ → K) (listed : seq < tensors.numSeqs)
    (inside : head < tensors.numQueryHeads) {dim : ℕ} (below : dim < tensors.headDim) :
    order.foldl (tensors.decodeKernel exp) out (tensors.row seq head * tensors.headDim + dim) =
      tensors.attention exp seq head dim :=
  (launch_rows launched _ out listed inside below).trans
    (holds.decode_mean exp blocky head dim)

/-- The wrapper picks a split that it accepts. -/
theorem chooseNumPartitions_mem (numSeqs numQueryHeads maxLogicalBlocks : ℕ) :
    1 ≤ chooseNumPartitions numSeqs numQueryHeads maxLogicalBlocks ∧
      chooseNumPartitions numSeqs numQueryHeads maxLogicalBlocks ≤ maxPartitions := by
  simp only [chooseNumPartitions, maxPartitions]
  omega

/-- Whichever path the wrapper takes, and whether or not the caller gives the number of partitions,
it returns the softmax averages. -/
theorem partitioned_mean {K : Type} [Field K] [LinearOrder K] (exp : Exponential K)
    {tensors : DecodeTensors K} (blocky : 0 < tensors.tokensPerBlock)
    {numPartitions : Option ℕ} {order : LaunchOrder}
    (launched : order.partials.Perm (tensors.partialGrid (tensors.partitionCount
      (numPartitions.getD (chooseNumPartitions tensors.numSeqs tensors.numQueryHeads
        tensors.maxBlocksPerSeq)))))
    (reduced : order.reduce.Perm tensors.grid) {scratch : Partials K} {out final : ℕ → K}
    (returned : tensors.pagedAttentionDecodePartitioned exp numPartitions order scratch out =
      some final)
    {seq head : ℕ} (holds : tensors.Holds seq) (listed : seq < tensors.numSeqs)
    (inside : head < tensors.numQueryHeads) {dim : ℕ} (below : dim < tensors.headDim) :
    final (tensors.row seq head * tensors.headDim + dim) =
      tensors.attention exp seq head dim := by
  simp only [pagedAttentionDecodePartitioned] at returned
  split at returned
  · simp at returned
  split at returned
  · simp at returned
  rename_i range
  split at returned
  · rw [pagedAttentionDecodeTriton] at returned
    split at returned
    · simp at returned
    · rw [← Option.some.inj returned]
      exact holds.triton_mean exp blocky reduced out listed inside below
  · rw [← Option.some.inj returned]
    exact holds.split_mean exp blocky (by omega) launched reduced scratch out listed inside below

/-- Over the reals, for every batch whose contexts fit their tables, the partitions of a split
decode load every token of a context exactly once and only active entries of the table, and the
split decode and the single-program decode both store the softmax average of the values, in
whatever order their programs run. -/
theorem split_decode_agrees (tensors : DecodeTensors ℝ) (numPartitions : ℕ) (order : LaunchOrder)
    (single : List (ℕ × ℕ)) (scratch : Partials ℝ) (out out' : ℕ → ℝ)
    (blocky : 0 < tensors.tokensPerBlock) (some : 1 ≤ numPartitions)
    (launched : order.partials.Perm (tensors.partialGrid (tensors.partitionCount numPartitions)))
    (reduced : order.reduce.Perm tensors.grid) (alone : single.Perm tensors.grid)
    (holds : ∀ seq < tensors.numSeqs, tensors.Holds seq) :
    ∀ seq < tensors.numSeqs, ∀ head < tensors.numQueryHeads,
      let part (partitionIdx : ℕ) := tensors.blockLoop .real seq head
        (partitionIdx * tensors.partitionBlocks numPartitions)
        (tensors.partitionBlocks numPartitions)
      (List.range (tensors.partitionCount numPartitions)).flatMap (fun partitionIdx =>
          (part partitionIdx).tokens) = List.range (tensors.contextLens seq) ∧
        (∀ partitionIdx, ∀ entry ∈ (part partitionIdx).entries,
          entry < tensors.numLogicalBlocks seq) ∧
        ∀ dim < tensors.headDim,
          tensors.splitDecode .real numPartitions order scratch out
              (tensors.row seq head * tensors.headDim + dim) =
            tensors.attention .real seq head dim ∧
          single.foldl (tensors.decodeKernel .real) out'
              (tensors.row seq head * tensors.headDim + dim) =
            tensors.attention .real seq head dim := by
  intro seq listed head inside part
  have held := holds seq listed
  refine ⟨held.visits .real blocky some head, ?_, fun dim below => ⟨?_, ?_⟩⟩
  · intro partitionIdx entry member
    exact (visited_blockLoop .real blocky seq head _ _).entries entry member
  · exact held.split_mean .real blocky some launched reduced scratch out listed inside below
  · exact held.triton_mean .real blocky alone out' listed inside below

/-- One sequence of one token whose table has a padded second entry. -/
noncomputable def paddedTensors : DecodeTensors ℝ where
  kvPool address := address
  blockTable index := if index = 0 then 3 else -1
  contextLens _ := 1
  query _ := 1
  numSeqs := 1
  numQueryHeads := 1
  numKvHeads := 1
  headDim := 1
  maxBlocksPerSeq := 2
  elementsPerBlock := 2
  layer := 0
  layerStride := 2
  streamStride := 1
  tokenStride := 1
  headStride := 1
  tokensPerBlock := 1
  scale := 1

/-- Two partitions, of which the second is empty. -/
theorem split_decode_agrees_padded :
    paddedTensors.splitDecode .real 2 ⟨paddedTensors.partialGrid 2, paddedTensors.grid⟩
        ⟨fun _ => 0, fun _ => ⊥, fun _ => 0⟩ (fun _ => 0) 0 =
      paddedTensors.attention .real 0 0 0 := by
  have agrees := split_decode_agrees paddedTensors 2
    ⟨paddedTensors.partialGrid 2, paddedTensors.grid⟩ paddedTensors.grid
    ⟨fun _ => 0, fun _ => ⊥, fun _ => 0⟩ (fun _ => 0) (fun _ => 0) Nat.one_pos (by decide)
    (List.Perm.refl _) (List.Perm.refl _) (List.Perm.refl _)
    (fun _ _ => ⟨le_rfl, (by decide : ceilDiv 1 1 ≤ 2)⟩) 0 Nat.one_pos 0 Nat.one_pos
  exact (agrees.2.2 0 Nat.one_pos).1

end DecodeTensors
end QwenVLPaged
