import QwenVLPaged.ReserveExactness

/-!
# Block counts in 32 bits

The scheduler and the cache manager round tokens up to blocks in 32-bit arithmetic. The count of a
request is its exact need as long as no intermediate value reaches `2 ^ 32`, and smaller otherwise;
a reservation of too many tokens to be rounded up takes no frame and reports success.
-/

namespace QwenVLPaged

/-! ## Rounding up -/

/-- Rounding up past 32 bits gives fewer blocks than the tokens need. -/
theorem wrapped_blocks_lt {tokens size : ℕ} (positive : 0 < size) (small : size < 2 ^ 32)
    (wraps : 2 ^ 32 ≤ tokens + size - 1) :
    wrap32 (wrap32 tokens + size - 1) / size < ceilDiv tokens size := by
  have below : wrap32 (wrap32 tokens + size - 1) < tokens := by
    simp only [wrap32]
    omega
  have covered : tokens ≤ ceilDiv tokens size * size := le_ceilDiv_mul positive
  have down := Nat.div_mul_le_self (wrap32 (wrap32 tokens + size - 1)) size
  exact Nat.lt_of_mul_lt_mul_right (a := size) (by omega)

/-- Tokens that cannot be rounded up in 32 bits are rounded up to no block. -/
theorem blocksNeeded_of_wraps {tokens size : ℕ} (tokens_lt : tokens < 2 ^ 32)
    (size_lt : size < 2 ^ 32) (wraps : 2 ^ 32 ≤ tokens + size - 1) :
    KVCacheManager.blocksNeeded tokens size = 0 := by
  rw [KVCacheManager.blocksNeeded]
  apply Nat.div_eq_of_lt
  simp only [wrap32]
  omega

/-! ## Reservations -/

namespace KVCacheManager

/-- Every table of the sequence has room for so many more tokens than before. -/
def GainedSlots (before after : KVCacheManager) (sequenceId : SequenceId) (tokenCount : ℕ) :
    Prop :=
  ∃ state state', before.sequences.lookup sequenceId = some state ∧
    after.sequences.lookup sequenceId = some state' ∧
    List.Forall₂ (fun table table' => table.size * before.tokensPerBlock + tokenCount ≤
      table'.size * before.tokensPerBlock) state.tables state'.tables

/-- The tokens can be rounded up to blocks, and the blocks can be numbered, in 32 bits. -/
def Representable (manager : KVCacheManager) (sequenceId : SequenceId) (tokenCount : ℕ) : Prop :=
  ∀ state, manager.sequences.lookup sequenceId = some state → manager.tokensPerBlock ≠ 0 →
    ∀ table ∈ state.tables, tokenCount + manager.tokensPerBlock - 1 < 2 ^ 32 ∧
      (ceilDiv tokenCount manager.tokensPerBlock * state.tables.length ≤
          manager.allocator.freeList.length →
        table.size + ceilDiv tokenCount manager.tokensPerBlock ≤ 2 ^ 32)

theorem gainedSlots_of_exact {before after : KVCacheManager} {sequenceId : SequenceId}
    {state : SequenceState} {tokenCount : ℕ} {added : List (List BlockTableEntry)}
    (found : before.sequences.lookup sequenceId = some state)
    (blocky : before.tokensPerBlock ≠ 0)
    (exact : ExactlyReserved before after sequenceId state
      (ceilDiv tokenCount before.tokensPerBlock) added) :
    GainedSlots before after sequenceId tokenCount := by
  refine ⟨state, _, found, AList.lookup_inserted_self exact.sequences, ?_⟩
  have covered : tokenCount ≤
      ceilDiv tokenCount before.tokensPerBlock * before.tokensPerBlock :=
    le_ceilDiv_mul (Nat.pos_of_ne_zero blocky)
  refine List.forall₂_iff_get.mpr ⟨by simp [extendAll, exact.tables], ?_⟩
  intro layer inside inside'
  have behind : layer < added.length := exact.tables ▸ inside
  have count := (exact.each layer _ _ (List.getElem?_eq_getElem inside)
    (List.getElem?_eq_getElem behind)).1
  have grown : ((extendAll state.tables added).get ⟨layer, inside'⟩).size =
      (state.tables.get ⟨layer, inside⟩).size + ceilDiv tokenCount before.tokensPerBlock := by
    simp [extendAll, BlockTable.extend, BlockTable.size, count]
  rw [grown, Nat.add_mul]
  exact Nat.add_le_add_left covered _

theorem reserveTables_zero (sequenceId : SequenceId) (tokensPerBlock : ℕ)
    (allocator : MemoryAllocator) (tables : List BlockTable) :
    reserveTables sequenceId tokensPerBlock 0 allocator tables = (true, allocator, tables) := by
  induction tables with
  | nil => rfl
  | cons table tables induction => simp [reserveTables, reserveBlocks, induction]

/-- What an honest success says about the tables that the loops leave. -/
theorem gained_tables {manager : KVCacheManager} (sound : manager.Sound)
    {sequenceId : SequenceId} {tokenCount blocks : ℕ} {state : SequenceState}
    (honest : (manager.reserveTokens sequenceId tokenCount).1 = true →
      GainedSlots manager (manager.reserveTokens sequenceId tokenCount).2 sequenceId tokenCount)
    (found : manager.sequences.lookup sequenceId = some state)
    (blocky : manager.tokensPerBlock ≠ 0)
    (blocks_eq : blocksNeeded tokenCount manager.tokensPerBlock = blocks)
    (enough : blocks * state.tables.length ≤ manager.allocator.freeList.length) :
    List.Forall₂ (fun table table' => table.size * manager.tokensPerBlock + tokenCount ≤
        table'.size * manager.tokensPerBlock) state.tables
      (reserveTables sequenceId manager.tokensPerBlock blocks manager.allocator
        state.tables).2.2 := by
  obtain ⟨allocator, tables, run_eq, result_eq⟩ :=
    reserveTokens_grows sound found blocky blocks_eq enough
  obtain ⟨before, after, before_eq, after_eq, gained⟩ := honest (by rw [result_eq])
  obtain rfl := Option.some.inj (found.symm.trans before_eq)
  rw [result_eq, AList.lookup_insert] at after_eq
  rw [← Option.some.inj after_eq] at gained
  rw [run_eq]
  exact gained

/-- A reservation never reports more than it took exactly if the arithmetic is exact. -/
theorem reserve_gains_iff {manager : KVCacheManager} (sound : manager.Sound)
    (sequenceId : SequenceId) {tokenCount : ℕ} (small : tokenCount < 2 ^ 32)
    (size_lt : manager.tokensPerBlock < 2 ^ 32) :
    ((manager.reserveTokens sequenceId tokenCount).1 = true →
        GainedSlots manager (manager.reserveTokens sequenceId tokenCount).2 sequenceId
          tokenCount) ↔
      manager.Representable sequenceId tokenCount := by
  constructor
  · intro honest state found blocky table member
    have positive := Nat.pos_of_ne_zero blocky
    obtain ⟨layer, inside, rfl⟩ := List.mem_iff_getElem.mp member
    have fits : tokenCount + manager.tokensPerBlock - 1 < 2 ^ 32 := by
      by_contra wraps
      have gained := gained_tables sound honest found blocky
        (blocksNeeded_of_wraps small size_lt (by omega)) (by simp)
      rw [reserveTables_zero] at gained
      have more := (List.forall₂_iff_get.mp gained).2 layer inside inside
      simp only [List.get_eq_getElem] at more
      omega
    refine ⟨fits, fun enough => ?_⟩
    have gained := gained_tables sound honest found blocky (blocksNeeded_of_lt fits) enough
    obtain ⟨-, remapped⟩ := reserveTables_remaps sequenceId manager.tokensPerBlock
      (ceilDiv tokenCount manager.tokensPerBlock) sound.pool (sound.regular sequenceId state found)
    have inside' := gained.length_eq ▸ inside
    have bounded := (remapped.regular _ (List.getElem_mem inside')).bounded
    have more := (List.forall₂_iff_get.mp gained).2 layer inside inside'
    simp only [List.get_eq_getElem] at more
    generalize (reserveTables sequenceId manager.tokensPerBlock _ manager.allocator
      state.tables).2.2[layer] = table' at bounded more
    have space : tokenCount ≤ (2 ^ 32 - state.tables[layer].size) * manager.tokensPerBlock := by
      have width : table'.size * manager.tokensPerBlock ≤ 2 ^ 32 * manager.tokensPerBlock :=
        Nat.mul_le_mul_right _ bounded
      rw [Nat.sub_mul]
      omega
    have blocks := (ceilDiv_le_iff positive).mpr space
    have short := (sound.regular sequenceId state found _ member).bounded
    rw [BlockTable.size] at blocks ⊢
    omega
  · intro exact success
    cases found : manager.sequences.lookup sequenceId with
    | none => simp [reserveTokens, found] at success
    | some state =>
        obtain ⟨blocky, enough⟩ := reserveTokens_enough found success
        by_cases tabled : state.tables = []
        · obtain ⟨allocator, tables, run_eq, result_eq⟩ :=
            reserveTokens_grows sound found blocky rfl enough
          rw [tabled] at run_eq
          obtain ⟨-, -, rfl⟩ := run_eq
          rw [result_eq]
          refine ⟨state, _, found, AList.lookup_insert _, ?_⟩
          rw [tabled]
          exact List.Forall₂.nil
        · obtain ⟨table, member⟩ := List.exists_mem_of_ne_nil _ tabled
          have fits := (exact state found blocky table member).1
          rw [blocksNeeded_of_lt fits] at enough
          obtain ⟨allocator, tables, run_eq, result_eq⟩ :=
            reserveTokens_grows sound found blocky (blocksNeeded_of_lt fits) enough
          obtain ⟨_, added, again, reserved⟩ := exactlyReserved_of_enough sound found enough
            fun other inside => (exact state found blocky other inside).2 enough
          obtain ⟨rfl, rfl⟩ := Prod.mk.inj (Prod.mk.inj (run_eq.symm.trans again)).2
          rw [result_eq]
          exact gainedSlots_of_exact found blocky reserved

end KVCacheManager
/-! ## Lifetime counts -/

/-- Block tables of a sequence over frames of this shape. -/
def BlockShape.tables (shape : BlockShape) : ℕ :=
  if shape.perLayerFrames then shape.numLayers else 1

theorem BlockShape.tables_pos (shape : BlockShape) : 0 < shape.tables := by
  unfold BlockShape.tables BlockShape.perLayerFrames
  split
  · rename_i layered
    simp only [Bool.and_eq_true, decide_eq_true_eq] at layered
    omega
  · exact Nat.one_pos

namespace Scheduler

/-- Tokens of a request over its lifetime, without those of a usable prefix. -/
def lifetimeTokens (cache : KVCacheManager) (request : Request) : ℕ :=
  let cached := cachedTokens cache request
  let usable := if cached ≤ request.promptTokens then cached else 0
  request.promptTokens - usable + request.sampling.maxDecodeTokens

/-- Blocks that a request needs, counted without a bound. -/
def exactNeed (cache : KVCacheManager) (request : Request) : ℕ :=
  ceilDiv (lifetimeTokens cache request) cache.allocator.config.blockShape.tokensPerBlock *
    cache.allocator.config.blockShape.tables

/-- The pool has frames, and no step of the count leaves 32 bits. -/
def CountsExactly (cache : KVCacheManager) (request : Request) : Prop :=
  let config := cache.allocator.config
  let tokens := lifetimeTokens cache request
  let tokensPerBlock := config.blockShape.tokensPerBlock
  tokens = 0 ∨ tokensPerBlock = 0 ∨
    0 < config.maxBlocks ∧ tokens + tokensPerBlock - 1 < 2 ^ 32 ∧
      ceilDiv tokens tokensPerBlock * config.blockShape.tables < 2 ^ 32

theorem lifetimeBlocksFor_sound {cache : KVCacheManager} (sound : cache.Sound)
    (request : Request) :
    lifetimeBlocksFor cache request =
      if cache.allocator.config.maxBlocks = 0 ∨
          cache.allocator.config.blockShape.tokensPerBlock = 0 then 0
      else wrap32 (wrap32 (wrap32 (lifetimeTokens cache request) +
        cache.allocator.config.blockShape.tokensPerBlock - 1) /
          cache.allocator.config.blockShape.tokensPerBlock *
            cache.allocator.config.blockShape.tables) := by
  have zero := KVCacheManager.block_zero sound.pool
  unfold lifetimeBlocksFor blocksForTokens lifetimeTokens BlockShape.tables
  split at zero
  · rename_i empty
    simp [zero, empty]
  · rename_i nonempty
    obtain ⟨block, found, shape⟩ := zero
    by_cases flat : cache.allocator.config.blockShape.tokensPerBlock = 0
    · simp [found, shape, flat]
    · simp only [found, shape, nonempty, flat, or_self, if_false]

/-- The count of a request is its exact need exactly if no step of it leaves 32 bits. -/
theorem count_exact_iff {cache : KVCacheManager} (sound : cache.Sound) {request : Request}
    (size_lt : cache.allocator.config.blockShape.tokensPerBlock < 2 ^ 32) :
    lifetimeBlocksFor cache request = exactNeed cache request ↔ CountsExactly cache request := by
  have wide := cache.allocator.config.blockShape.tables_pos
  rw [lifetimeBlocksFor_sound sound]
  simp only [exactNeed, CountsExactly]
  generalize lifetimeTokens cache request = tokens
  generalize cache.allocator.config.blockShape.tables = tables at wide ⊢
  generalize cache.allocator.config.blockShape.tokensPerBlock = size at size_lt ⊢
  generalize cache.allocator.config.maxBlocks = frames
  rcases Nat.eq_zero_or_pos size with rfl | positive
  · simp [ceilDiv]
  · rcases Nat.eq_zero_or_pos tokens with rfl | some_tokens
    · simp only [ceilDiv_zero, Nat.zero_mul, true_or, iff_true]
      split
      · rfl
      · rw [show wrap32 (wrap32 0 + size - 1) / size = 0 from
          Nat.div_eq_of_lt (by simp only [wrap32]; omega), Nat.zero_mul]
        rfl
    · have need : 0 < ceilDiv tokens size * tables :=
        Nat.mul_pos (ceilDiv_pos some_tokens positive) wide
      simp only [some_tokens.ne', positive.ne', or_false, false_or]
      rcases Nat.eq_zero_or_pos frames with rfl | nonempty
      · simp only [if_true, lt_self_iff_false, false_and, iff_false]
        exact need.ne
      · rw [if_neg nonempty.ne']
        by_cases wraps : 2 ^ 32 ≤ tokens + size - 1
        · -- A wrapped round-up gives fewer blocks, and the product does not make up for it.
          have fewer := Nat.mul_lt_mul_of_pos_right
            (wrapped_blocks_lt positive size_lt wraps) wide
          have down : wrap32 (wrap32 (wrap32 tokens + size - 1) / size * tables) ≤
              wrap32 (wrap32 tokens + size - 1) / size * tables := Nat.mod_le _ _
          constructor
          · intro equal
            omega
          · rintro ⟨-, fits, -⟩
            omega
        · have tokens_eq : wrap32 tokens = tokens := wrap32_of_lt (by omega)
          have rounded : wrap32 (wrap32 tokens + size - 1) / size = ceilDiv tokens size := by
            rw [tokens_eq, wrap32_of_lt (by omega), ceilDiv]
          rw [rounded]
          constructor
          · intro equal
            exact ⟨nonempty, by omega, equal ▸ wrap32_lt _⟩
          · rintro ⟨-, -, product⟩
            exact wrap32_of_lt product

/-- An admitted request passed the test of its count. -/
theorem count_le_of_admitted {scheduler after : Scheduler} {candidate : Request}
    {plan : BatchPlan} {admittedThisStep : ℕ} {admitted : Request × BatchPlan}
    (success : scheduler.tryAdmit candidate plan admittedThisStep = (some admitted, after)) :
    lifetimeBlocksFor scheduler.cache candidate ≤ scheduler.totalBlocks := by
  by_contra above
  have refused : scheduler.totalBlocks < lifetimeBlocksFor scheduler.cache candidate :=
    not_le.mp above
  simp only [tryAdmit, refused, if_true] at success
  split at success <;> simp at success

/-- In every reachable state and at every point of the admission loop, a request whose count is
exact is admitted only if it fits the pool, and the count is exact unless a step of it leaves 32
bits; and a reservation that reports success has gained the tokens unless it does. -/
theorem block_counts_never_under_count (config : SchedulerConfig) (pool : AllocatorConfig)
    (slab : ℕ → UInt8) (swapSlots : Option ℕ) (ops : List SchedulerOp)
    (size_lt : pool.blockShape.tokensPerBlock < 2 ^ 32) :
    let scheduler := (create config (.overPool pool slab swapSlots)).run ops
    (∀ middle plan, AdmissionSteps (scheduler, .empty) (middle, plan) →
      ∀ candidate ∈ middle.pending,
        (lifetimeBlocksFor middle.cache candidate = exactNeed middle.cache candidate ↔
          CountsExactly middle.cache candidate) ∧
        (CountsExactly middle.cache candidate → ∀ admitted after,
          middle.tryAdmit candidate plan plan.prefillRequests.length = (some admitted, after) →
            exactNeed middle.cache candidate ≤ middle.totalBlocks)) ∧
      ∀ sequenceId tokenCount, tokenCount < 2 ^ 32 →
        (((scheduler.cache.reserveTokens sequenceId tokenCount).1 = true →
            scheduler.cache.GainedSlots
              (scheduler.cache.reserveTokens sequenceId tokenCount).2 sequenceId tokenCount) ↔
          scheduler.cache.Representable sequenceId tokenCount) := by
  intro scheduler
  have start := KVCacheManager.sound_listed_overPool pool slab swapSlots []
  have each (cache : KVCacheManager) (op : CacheOp)
      (holds : cache.Sound ∧ cache.allocator.config = pool) :
      (cache.step op).Sound ∧ (cache.step op).allocator.config = pool :=
    ⟨KVCacheManager.sound_step holds.1 op, (KVCacheManager.config_step holds.1 op).trans holds.2⟩
  have sound : scheduler.cache.Sound ∧ scheduler.cache.allocator.config = pool :=
    cache_run each ⟨start.1, rfl⟩ ops
  refine ⟨fun middle plan steps candidate _ => ?_, fun sequenceId tokenCount small => ?_⟩
  · have middle_sound : middle.cache.Sound ∧ middle.cache.allocator.config = pool := by
      have along (state : Scheduler × BatchPlan)
          (steps : AdmissionSteps (scheduler, .empty) state) :
          state.1.cache.Sound ∧ state.1.cache.allocator.config = pool := by
        induction steps with
        | refl => exact sound
        | tail _ last induction => exact cache_action (fun cache op _ => each cache op) last induction
      exact along _ steps
    have exact_iff : lifetimeBlocksFor middle.cache candidate = exactNeed middle.cache candidate ↔
        CountsExactly middle.cache candidate :=
      count_exact_iff middle_sound.1 (by rw [middle_sound.2]; exact size_lt)
    refine ⟨exact_iff, fun exact admitted after success => ?_⟩
    rw [← exact_iff.mpr exact]
    exact count_le_of_admitted success
  · refine KVCacheManager.reserve_gains_iff sound.1 sequenceId small ?_
    rw [KVCacheManager.tokensPerBlock_eq sound.1.pool, sound.2, AllocatorConfig.tokensPerBlock]
    split <;> omega

/-- A request of one prompt token and two decode tokens needs three of the four frames, and an
open sequence gains the three tokens it reserves. -/
theorem block_counts_never_under_count_small :
    let scheduler := (create plainConfig (.overPool fourFrames (fun _ => 0) none)).run
      [.enqueue (.ofTokens 1 1 2), .cache (.createSequence ⟨9, 9⟩)]
    let candidate := (Request.ofTokens 1 1 2).enqueued
    (scheduler.tryAdmit candidate .empty 0).1.isSome = true ∧
      exactNeed scheduler.cache candidate = 3 ∧
      exactNeed scheduler.cache candidate ≤ scheduler.totalBlocks ∧
      scheduler.cache.GainedSlots (scheduler.cache.reserveTokens 9 3).2 9 3 := by
  intro scheduler candidate
  have admitted : (scheduler.tryAdmit candidate .empty 0).1.isSome = true := by decide +kernel
  obtain ⟨granted, granted_eq⟩ := Option.isSome_iff_exists.mp admitted
  obtain ⟨counts, reserves⟩ := block_counts_never_under_count plainConfig fourFrames (fun _ => 0)
    none [.enqueue (.ofTokens 1 1 2), .cache (.createSequence ⟨9, 9⟩)] (by decide)
  obtain ⟨exact_iff, fits⟩ := counts scheduler .empty .refl candidate List.mem_cons_self
  refine ⟨admitted, by decide +kernel, fits (exact_iff.mp (by decide +kernel)) granted
    (scheduler.tryAdmit candidate .empty 0).2 (Prod.ext granted_eq rfl), ?_⟩
  refine (reserves 9 3 (by norm_num)).mpr ?_ (by decide +kernel)
  intro state found _ table member
  have sizes : (scheduler.cache.sequences.lookup 9).map (fun state => state.tables.map (·.size)) =
      some [0] := by decide +kernel
  rw [show scheduler.cache.sequences.lookup 9 = some state from found, Option.map_some,
    Option.some.injEq] at sizes
  have size : table.size = 0 := by
    have inside : table.size ∈ [0] := sizes ▸ List.mem_map_of_mem member
    simpa using inside
  have block_size : scheduler.cache.tokensPerBlock = 1 := by decide +kernel
  rw [size, show KVCacheManager.tokensPerBlock _ = 1 from block_size]
  exact ⟨by norm_num, fun _ => by decide⟩

/-- An unlimited decode budget is counted as no block at all, and a reservation of all 32-bit
tokens in blocks of two takes no frame. -/
theorem block_counts_wrap :
    (let scheduler := (create plainConfig (.overPool fourFrames (fun _ => 0) none)).run
        [.enqueue (.ofTokens 1 1 (2 ^ 32 - 1))]
      let candidate := (Request.ofTokens 1 1 (2 ^ 32 - 1)).enqueued
      (scheduler.tryAdmit candidate .empty 0).1.isSome = true ∧
        scheduler.totalBlocks < exactNeed scheduler.cache candidate) ∧
      let manager := (KVCacheManager.overPool KVCacheManager.pairedLayersConfig (fun _ => 0) none).run
        [.createSequence ⟨1, 1⟩]
      (manager.reserveTokens 1 (2 ^ 32 - 1)).1 = true ∧
        ¬ manager.GainedSlots (manager.reserveTokens 1 (2 ^ 32 - 1)).2 1 (2 ^ 32 - 1) := by
  refine ⟨by decide +kernel, by decide +kernel, fun gained => ?_⟩
  obtain ⟨state, state', found, found', more⟩ := gained
  have sizes : (((KVCacheManager.overPool KVCacheManager.pairedLayersConfig (fun _ => 0) none).run
      [.createSequence ⟨1, 1⟩]).reserveTokens 1 (2 ^ 32 - 1)).2.sequences.lookup 1 =
      ((KVCacheManager.overPool KVCacheManager.pairedLayersConfig (fun _ => 0) none).run
        [.createSequence ⟨1, 1⟩]).sequences.lookup 1 := by decide +kernel
  obtain rfl := Option.some.inj (found'.symm.trans (sizes.trans found))
  have tables : (((KVCacheManager.overPool KVCacheManager.pairedLayersConfig (fun _ => 0) none).run
      [.createSequence ⟨1, 1⟩]).sequences.lookup 1).map (·.tables.length) = some 2 := by
    decide +kernel
  rw [found] at tables
  have inside : 0 < state'.tables.length := by simp_all
  have first := (List.forall₂_iff_get.mp more).2 0 inside inside
  omega

end Scheduler
end QwenVLPaged
