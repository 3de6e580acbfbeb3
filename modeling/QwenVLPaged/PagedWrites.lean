import QwenVLPaged.CachedTables

/-!
# Writes of the Python cache

The invariant of the pool and what one call on a sequence may do. A frame that `writable_frame`
returns belongs to the block of the token and to nobody else, unless the answer comes from the
one-entry memo and the sequence was forked since the entry was made. A call on one sequence leaves
the blocks of every other sequence alone, except that the spacer grows.
-/

namespace QwenVLPaged

/-- The frame belonged to the block of the token and to no other sequence when it was returned. -/
structure WriteGrant.Sole (grant : WriteGrant) : Prop where
  exclusive : grant.manager.Exclusive grant.sequenceId
    (grant.token / grant.manager.allocator.config.blockShape.tokensPerBlock) grant.frame
  others : ∀ other frames, other ≠ grant.sequenceId →
    grant.manager.framesOf other = some frames → grant.frame ∉ frames

namespace PagedPool

open Raising

/-- Tokens that the blocks of a sequence can hold. -/
def capacity (pool : PagedPool) (id : SequenceId) : ℕ :=
  ((pool.manager.framesOf id).getD []).length * pool.tokensPerBlock

/-- The invariant of the pool. -/
structure Coherent (pool : PagedPool) : Prop where
  flat : pool.manager.Flat
  tables : pool.CachedTables
  memo : ∀ id token frame, pool.writable = some (id, token, frame) → pool.branched = false →
    pool.manager.Exclusive id (token / pool.tokensPerBlock) frame
  sole : ∀ grant ∈ pool.grants, grant.Sole
  committed : ∀ id lengths, pool.layerLengths id = some lengths →
    ∀ length ∈ lengths, length ≤ pool.capacity id

/-- The blocks of a sequence are still there, with the same frames and the same contents. -/
def Untouched (before after : PagedPool) (id : SequenceId) : Prop :=
  ∀ frames, before.manager.framesOf id = some frames →
    ∃ frames', after.manager.framesOf id = some frames' ∧ frames <+: frames' ∧
      frames.map before.manager.frameData <+: frames'.map after.manager.frameData

/-- What a call on a sequence may do. -/
structure Advances (id : SequenceId) (before after : PagedPool) : Prop where
  coherent : after.Coherent
  config : after.manager.allocator.config = before.manager.allocator.config
  scatter : after.scatter = before.scatter
  useKernel : after.useKernel = before.useKernel
  others : ∀ other, other ≠ id → Untouched before after other
  lengths : ∀ other, other ≠ id → after.layerLengths other = before.layerLengths other
  live : (before.manager.framesOf id).isSome → (after.manager.framesOf id).isSome
  capacity : before.capacity id ≤ after.capacity id

theorem Untouched.refl (pool : PagedPool) (id : SequenceId) : Untouched pool pool id :=
  fun frames found => ⟨frames, found, List.prefix_rfl, List.prefix_rfl⟩

theorem Untouched.trans {first second third : PagedPool} {id : SequenceId}
    (left : Untouched first second id) (right : Untouched second third id) :
    Untouched first third id := by
  intro frames found
  obtain ⟨frames', found', fronts, contents⟩ := left frames found
  obtain ⟨frames'', found'', fronts', contents'⟩ := right frames' found'
  exact ⟨frames'', found'', fronts.trans fronts', contents.trans contents'⟩

theorem Advances.refl {pool : PagedPool} (coherent : pool.Coherent) (id : SequenceId) :
    Advances id pool pool :=
  ⟨coherent, rfl, rfl, rfl, fun _ _ => .refl _ _, fun _ _ => rfl, fun live => live, le_rfl⟩

theorem Advances.trans {id : SequenceId} {first second third : PagedPool}
    (left : Advances id first second) (right : Advances id second third) :
    Advances id first third :=
  ⟨right.coherent, right.config.trans left.config, right.scatter.trans left.scatter,
    right.useKernel.trans left.useKernel,
    fun other different => (left.others other different).trans (right.others other different),
    fun other different => (right.lengths other different).trans (left.lengths other different),
    fun live => right.live (left.live live), left.capacity.trans right.capacity⟩

theorem Advances.shape {id : SequenceId} {before after : PagedPool}
    (advances : Advances id before after) : after.shape = before.shape := by
  rw [PagedPool.shape, advances.config]
  rfl

theorem Advances.tokensPerBlock {id : SequenceId} {before after : PagedPool}
    (advances : Advances id before after) : after.tokensPerBlock = before.tokensPerBlock := by
  rw [PagedPool.tokensPerBlock, advances.shape]
  rfl

theorem capacity_of_frames {pool : PagedPool} {id : SequenceId} {frames : List PhysicalBlockId}
    (frames_eq : pool.manager.framesOf id = some frames) :
    pool.capacity id = frames.length * pool.tokensPerBlock := by
  rw [capacity, frames_eq, Option.getD_some]

/-! ## Steps that keep every block -/

/-- Every sequence keeps its blocks. -/
theorem capacity_mono {before after : PagedPool} {id : SequenceId}
    (size : after.tokensPerBlock = before.tokensPerBlock) (untouched : Untouched before after id) :
    before.capacity id ≤ after.capacity id := by
  cases found : before.manager.framesOf id with
  | none => simp [capacity, found]
  | some frames =>
      obtain ⟨frames', found', front, -⟩ := untouched frames found
      rw [capacity_of_frames found, capacity_of_frames found', size]
      exact Nat.mul_le_mul_right _ front.length_le

theorem advances_of_untouched {before after : PagedPool} (coherent : after.Coherent)
    (config : after.manager.allocator.config = before.manager.allocator.config)
    (scatter : after.scatter = before.scatter) (useKernel : after.useKernel = before.useKernel)
    (layerLengths : after.layerLengths = before.layerLengths)
    (untouched : ∀ other, Untouched before after other) (id : SequenceId) :
    Advances id before after := by
  have size : after.tokensPerBlock = before.tokensPerBlock := by
    rw [tokensPerBlock, shape, config]
    rfl
  refine ⟨coherent, config, scatter, useKernel, fun other _ => untouched other,
    fun other _ => by rw [layerLengths], ?_, capacity_mono size (untouched id)⟩
  intro live
  obtain ⟨frames, found⟩ := Option.isSome_iff_exists.mp live
  obtain ⟨frames', found', -, -⟩ := untouched id frames found
  rw [found']
  rfl

/-- A change of the caches alone. -/
theorem Recached.coherent {before after : PagedPool} (coherent : before.Coherent)
    (recached : Recached before after) : after.Coherent := by
  have size : after.tokensPerBlock = before.tokensPerBlock := by
    rw [tokensPerBlock, shape, recached.manager]
    rfl
  refine ⟨by rw [recached.manager]; exact coherent.flat, recached.tables, ?_, ?_, ?_⟩
  · rw [recached.writable, recached.branched, recached.manager, size]
    exact coherent.memo
  · rw [recached.grants]
    exact coherent.sole
  · rw [recached.layerLengths]
    intro id lengths found length member
    rw [capacity, recached.manager, size]
    exact coherent.committed id lengths found length member

theorem Recached.untouched {before after : PagedPool} (recached : Recached before after)
    (id : SequenceId) : Untouched before after id := by
  intro frames found
  rw [recached.manager]
  exact ⟨frames, found, List.prefix_rfl, List.prefix_rfl⟩

theorem Recached.advances {before after : PagedPool} (coherent : before.Coherent)
    (recached : Recached before after) (id : SequenceId) : Advances id before after :=
  advances_of_untouched (recached.coherent coherent) (by rw [recached.manager]) recached.scatter
    recached.useKernel recached.layerLengths recached.untouched id

/-- A new cache manager in which every sequence kept its blocks and every exclusive frame its
owner. -/
theorem Coherent.remanaged {pool : PagedPool} (coherent : pool.Coherent) {manager : KVCacheManager}
    (flat : manager.Flat) (config : manager.allocator.config = pool.manager.allocator.config)
    (frames : ∀ id frames, pool.manager.framesOf id = some frames →
      ∃ frames', manager.framesOf id = some frames' ∧ frames <+: frames')
    (exclusive : ∀ id index frame, pool.manager.Exclusive id index frame →
      manager.Exclusive id index frame) :
    ({ pool with manager } : PagedPool).Coherent := by
  have size : ({ pool with manager } : PagedPool).tokensPerBlock = pool.tokensPerBlock := by
    simp only [tokensPerBlock, shape, config]
  refine ⟨flat, ⟨?_, ?_, coherent.tables.context⟩, ?_, coherent.sole, ?_⟩
  · intro id table found
    obtain ⟨old, old_eq, front⟩ := coherent.tables.host id table found
    obtain ⟨new, new_eq, extends_old⟩ := frames id old old_eq
    exact ⟨new, new_eq, front.trans extends_old⟩
  · intro id table found
    obtain ⟨present, fits, old, old_eq, front⟩ := coherent.tables.device id table found
    obtain ⟨new, new_eq, extends_old⟩ := frames id old old_eq
    exact ⟨present, fits, new, new_eq, front.trans extends_old⟩
  · intro id token frame memo current
    rw [size]
    exact exclusive _ _ _ (coherent.memo id token frame memo current)
  · intro id lengths found length member
    refine (coherent.committed id lengths found length member).trans ?_
    rw [capacity, capacity, size]
    refine Nat.mul_le_mul_right _ ?_
    cases old_eq : pool.manager.framesOf id with
    | none => simp
    | some old =>
        obtain ⟨new, new_eq, extends_old⟩ := frames id old old_eq
        simpa [new_eq] using extends_old.length_le

/-! ## Growing a table -/

/-- Room for one block of the full size can be asked for in 32 bits. -/
def Blocky (pool : PagedPool) : Prop := 0 < pool.tokensPerBlock ∧ pool.tokensPerBlock ≤ 2 ^ 31

/-- No remembered table length exceeds the table. -/
def Known (pool : PagedPool) : Prop :=
  ∀ id count, pool.tableLen id = some count →
    ∃ frames, pool.manager.framesOf id = some frames ∧ count ≤ frames.length

/-- No frame is left. -/
def Exhausted (pool : PagedPool) : Prop := pool.manager.allocator.freeList = []

/-- A call that grows tables and moves blocks, but writes nothing. -/
structure Quiet (before after : PagedPool) : Prop where
  coherent : after.Coherent
  config : after.manager.allocator.config = before.manager.allocator.config
  scatter : after.scatter = before.scatter
  useKernel : after.useKernel = before.useKernel
  layerLengths : after.layerLengths = before.layerLengths
  writable : after.writable = before.writable
  branched : after.branched = before.branched
  known : before.Blocky → before.Known → after.Known
  untouched : ∀ id, Untouched before after id

theorem Quiet.refl {pool : PagedPool} (coherent : pool.Coherent) : Quiet pool pool :=
  ⟨coherent, rfl, rfl, rfl, rfl, rfl, rfl, fun _ known => known, .refl pool⟩

theorem Quiet.advances {before after : PagedPool} (quiet : Quiet before after) (id : SequenceId) :
    Advances id before after :=
  advances_of_untouched quiet.coherent quiet.config quiet.scatter quiet.useKernel
    quiet.layerLengths quiet.untouched id

theorem Quiet.blocky {before after : PagedPool} (quiet : Quiet before after)
    (blocky : before.Blocky) : after.Blocky := by
  rw [Blocky, (quiet.advances 0).tokensPerBlock]
  exact blocky

theorem Quiet.trans {first second third : PagedPool} (left : Quiet first second)
    (right : Quiet second third) : Quiet first third :=
  ⟨right.coherent, right.config.trans left.config, right.scatter.trans left.scatter,
    right.useKernel.trans left.useKernel, right.layerLengths.trans left.layerLengths,
    right.writable.trans left.writable, right.branched.trans left.branched,
    fun blocky known => right.known (left.blocky blocky) (left.known blocky known),
    fun id => (left.untouched id).trans (right.untouched id)⟩

theorem Untouched.length_le {before after : PagedPool} {id : SequenceId}
    (untouched : Untouched before after id) {frames : List PhysicalBlockId}
    (found : before.manager.framesOf id = some frames) :
    ∃ longer, after.manager.framesOf id = some longer ∧ frames.length ≤ longer.length := by
  obtain ⟨longer, longer_eq, front, -⟩ := untouched frames found
  exact ⟨longer, longer_eq, front.length_le⟩

theorem Known.untouched {before after : PagedPool} (known : before.Known)
    (tableLen : after.tableLen = before.tableLen)
    (untouched : ∀ id, Untouched before after id) : after.Known := by
  intro id count found
  rw [tableLen] at found
  obtain ⟨frames, frames_eq, inside⟩ := known id count found
  obtain ⟨longer, longer_eq, longer_le⟩ := (untouched id).length_le frames_eq
  exact ⟨longer, longer_eq, inside.trans longer_le⟩

theorem Recached.quiet {before after : PagedPool} (coherent : before.Coherent)
    (recached : Recached before after) : Quiet before after :=
  ⟨recached.coherent coherent, by rw [recached.manager], recached.scatter, recached.useKernel,
    recached.layerLengths, recached.writable, recached.branched,
    fun _ known => known.untouched recached.tableLen recached.untouched, recached.untouched⟩

theorem Quiet.live {before after : PagedPool} (quiet : Quiet before after) {id : SequenceId}
    (live : (before.manager.framesOf id).isSome) : (after.manager.framesOf id).isSome :=
  (quiet.advances id).live live

theorem blocksNeeded_block_le (tokensPerBlock : ℕ) :
    KVCacheManager.blocksNeeded tokensPerBlock tokensPerBlock ≤ 1 := by
  have below : wrap32 (tokensPerBlock + tokensPerBlock - 1) ≤
      tokensPerBlock + tokensPerBlock - 1 := Nat.mod_le _ _
  rcases Nat.eq_zero_or_pos tokensPerBlock with rfl | positive
  · simp [KVCacheManager.blocksNeeded]
  · refine Nat.lt_succ_iff.mp ((Nat.div_lt_iff_lt_mul positive).mpr ?_)
    omega

theorem Blocky.blocksNeeded {pool : PagedPool} (blocky : pool.Blocky) :
    KVCacheManager.blocksNeeded pool.tokensPerBlock pool.tokensPerBlock = 1 := by
  obtain ⟨positive, small⟩ := blocky
  rw [KVCacheManager.blocksNeeded, wrap32_of_lt (by omega)]
  rw [Nat.div_eq_iff positive]
  omega

theorem freeList_eq_nil_of_no_frames {manager : KVCacheManager} (flat : manager.Flat)
    (empty : manager.allocator.config.maxBlocks = 0) : manager.allocator.freeList = [] := by
  refine List.eq_nil_iff_forall_not_mem.mpr fun frame free => ?_
  have inside := ((flat.accounted.ledger.formed.mem_free frame).mp free).1
  rw [empty] at inside
  exact Nat.not_lt_zero frame inside

/-- A reservation appends one block, or nothing is free. -/
theorem reserveBlock_ensures {pool : PagedPool} (coherent : pool.Coherent) (id : SequenceId)
    (message : String) :
    Ensures (reserveBlock id message) pool
      (fun _ after => Quiet pool after ∧ (pool.Blocky → ∀ frames,
        pool.manager.framesOf id = some frames → ∃ grown,
          after.manager.framesOf id = some grown ∧ frames.length + 1 ≤ grown.length))
      (fun _ after => Quiet pool after ∧
        (pool.Blocky → (pool.manager.framesOf id).isSome → after.Exhausted)) := by
  unfold reserveBlock
  apply ensures_get
  rcases coherent.flat.reserveTokens id pool.tokensPerBlock with
    ⟨refused, reason⟩ | ⟨manager, reserved, extended⟩
  · generalize pool.manager.reserveTokens id pool.tokensPerBlock = result at refused ⊢
    subst refused
    apply ensures_set
    refine ensures_require_last (by simp) fun _ => ⟨.refl coherent, fun blocky live => ?_⟩
    obtain ⟨frames, found⟩ := Option.isSome_iff_exists.mp live
    by_cases empty : pool.manager.allocator.config.maxBlocks = 0
    · exact freeList_eq_nil_of_no_frames coherent.flat empty
    · have size := KVCacheManager.tokensPerBlock_of_frames empty
      have few := reason frames found (by rw [size]; exact blocky.1.ne')
      rw [size] at few
      have one : KVCacheManager.blocksNeeded pool.tokensPerBlock
          pool.manager.allocator.config.blockShape.tokensPerBlock ≤ 1 :=
        blocksNeeded_block_le pool.tokensPerBlock
      have none_free : pool.manager.allocator.freeList.length = 0 := by omega
      exact List.length_eq_zero_iff.mp none_free
  · have nonempty (frames : List PhysicalBlockId)
        (found : pool.manager.framesOf id = some frames) :
        pool.manager.allocator.config.maxBlocks ≠ 0 := by
      intro empty
      have formed := coherent.flat.accounted.ledger.formed
      have unsized : pool.manager.tokensPerBlock = 0 := by
        rw [KVCacheManager.tokensPerBlock_eq formed.sound, AllocatorConfig.tokensPerBlock, if_pos empty]
      obtain ⟨state, state_eq, -⟩ := Option.map_eq_some_iff.mp found
      simp [KVCacheManager.reserveTokens, state_eq, unsized] at reserved
    generalize pool.manager.reserveTokens id pool.tokensPerBlock = result at reserved ⊢
    subst reserved
    apply ensures_set
    have contents (other : SequenceId) (frames : List PhysicalBlockId)
        (found : pool.manager.framesOf other = some frames) :=
      extended.contents coherent.flat found
    refine ensures_require_last (fun _ => ⟨⟨coherent.remanaged extended.flat extended.config ?_ ?_,
      extended.config, rfl, rfl, rfl, rfl, rfl, fun _ known => known.untouched rfl contents,
      contents⟩, ?_⟩) (by simp)
    · intro other frames found
      obtain ⟨grown, grown_eq, front, -⟩ := contents other frames found
      exact ⟨grown, grown_eq, front⟩
    · intro other index frame exclusive
      exact exclusive.extended extended
    · intro blocky frames found
      obtain ⟨old, new, old_eq, new_eq, count⟩ := extended.frames
      obtain rfl := Option.some.inj (found.symm.trans old_eq)
      refine ⟨_, new_eq, ?_⟩
      rw [KVCacheManager.tokensPerBlock_of_frames (nonempty frames found)] at count
      have one := blocky.blocksNeeded
      rw [List.length_append, count]
      exact Nat.add_le_add_left one.ge _

/-- The reservations of a sequence can fail only for want of a free frame. -/
def Reservable (pool : PagedPool) (id : SequenceId) : Prop :=
  pool.Blocky ∧ (pool.manager.framesOf id).isSome ∧
    (pool.scatter = true → (pool.manager.framesOf spacerId).isSome)

theorem Quiet.reservable {before after : PagedPool} (quiet : Quiet before after) {id : SequenceId}
    (reservable : before.Reservable id) : after.Reservable id := by
  refine ⟨quiet.blocky reservable.1, quiet.live reservable.2.1, fun scatter => ?_⟩
  exact quiet.live (reservable.2.2 (quiet.scatter ▸ scatter))

/-- The loop of `ensure_capacity` appends as many blocks as it counts. -/
theorem growTable_ensures {pool : PagedPool} (coherent : pool.Coherent) (id : SequenceId)
    (need remaining count : ℕ) :
    Ensures (growTable id need remaining count) pool
      (fun reached after => Quiet pool after ∧ reached = count + remaining ∧
        (pool.Blocky → ∀ frames, pool.manager.framesOf id = some frames → ∃ grown,
          after.manager.framesOf id = some grown ∧ frames.length + remaining ≤ grown.length))
      (fun _ after => Quiet pool after ∧ (pool.Reservable id → after.Exhausted)) := by
  induction remaining generalizing pool count with
  | zero =>
      exact ensures_pure ⟨.refl coherent, rfl, fun _ frames found => ⟨frames, found, le_rfl⟩⟩
  | succ remaining induction =>
      rw [growTable]
      refine ((reserveBlock_ensures coherent id _).mono (fun _ _ holds => holds)
        fun _ _ raised => ⟨raised.1, fun reservable => raised.2 reservable.1 reservable.2.1⟩).bind ?_
      intro _ first ⟨quiet, appended⟩
      apply ensures_get
      refine Ensures.bind (?_ : Ensures _ _ (fun _ after => Quiet first after) _) ?_
      · refine ensures_onlyIf ?_ fun _ => .refl quiet.coherent
        intro scatter
        refine (reserveBlock_ensures quiet.coherent spacerId _).mono (fun _ _ holds => holds.1) ?_
        intro _ after ⟨failed, reason⟩
        refine ⟨quiet.trans failed, fun reservable => reason (quiet.blocky reservable.1) ?_⟩
        exact quiet.live (reservable.2.2 (quiet.scatter ▸ scatter))
      · intro _ second spaced
        refine (invalidateTable_ensures spaced.coherent.tables id).bind ?_
        intro _ third recached
        have dropped := recached.quiet spaced.coherent
        have sofar := (quiet.trans spaced).trans dropped
        refine (induction dropped.coherent (count + 1)).mono ?_ ?_
        · intro reached after ⟨later, reached_eq, grown⟩
          refine ⟨sofar.trans later, by omega, fun blocky frames found => ?_⟩
          obtain ⟨one, one_eq, one_le⟩ := appended blocky frames found
          obtain ⟨two, two_eq, two_le⟩ := ((spaced.trans dropped).untouched id).length_le one_eq
          obtain ⟨all, all_eq, all_le⟩ := grown (sofar.blocky blocky) two two_eq
          exact ⟨all, all_eq, by omega⟩
        · intro _ after ⟨later, reason⟩
          exact ⟨sofar.trans later, fun reservable => reason (sofar.reservable reservable)⟩

theorem Quiet.remember {before after : PagedPool} (quiet : Quiet before after) (id : SequenceId)
    (count : ℕ)
    (bounded : before.Blocky → before.Known →
      ∃ frames, after.manager.framesOf id = some frames ∧ count ≤ frames.length) :
    Quiet before { after with tableLen := Function.update after.tableLen id (some count) } := by
  have coherent := quiet.coherent
  refine ⟨⟨coherent.flat, ⟨coherent.tables.host, coherent.tables.device, coherent.tables.context⟩,
    coherent.memo, coherent.sole, coherent.committed⟩, quiet.config, quiet.scatter,
    quiet.useKernel, quiet.layerLengths, quiet.writable, quiet.branched, ?_, quiet.untouched⟩
  intro blocky known other other_count found
  rcases update_eq_some found with ⟨rfl, new⟩ | ⟨-, old⟩
  · obtain rfl := Option.some.inj new
    exact bounded blocky known
  · exact quiet.known blocky known other other_count old

/-- The length that `ensure_capacity` starts from. -/
theorem knownBlocks_ensures (pool : PagedPool) (id : SequenceId) :
    Ensures (knownBlocks id) pool
      (fun known after => after = pool ∧ (pool.Known →
        ∃ frames, pool.manager.framesOf id = some frames ∧ known ≤ frames.length))
      (fun _ after => after = pool ∧ pool.manager.framesOf id = none) := by
  unfold knownBlocks
  apply ensures_get
  cases remembered : pool.tableLen id with
  | some count => exact ensures_pure ⟨rfl, fun known => known id count remembered⟩
  | none =>
      unfold blockTable
      simp only [bind_assoc]
      apply ensures_get
      rw [KVCacheManager.blockTableOf_framesOf]
      cases live : pool.manager.framesOf id with
      | none => exact ⟨rfl, rfl⟩
      | some frames => exact ⟨rfl, fun _ => ⟨frames, rfl, le_rfl⟩⟩

/-- The table covers the tokens it was asked for. -/
theorem ensureCapacity_ensures {pool : PagedPool} (coherent : pool.Coherent) (id : SequenceId)
    (totalTokens : ℕ) :
    Ensures (ensureCapacity id totalTokens) pool
      (fun _ after => Quiet pool after ∧ 0 < pool.tokensPerBlock ∧
        (pool.Blocky → pool.Known → totalTokens ≤ after.capacity id))
      (fun _ after => Quiet pool after ∧ (pool.Reservable id → after.Exhausted)) := by
  unfold ensureCapacity
  refine ((knownBlocks_ensures pool id).mono (fun _ _ holds => holds) ?_).bind ?_
  · rintro _ after ⟨rfl, missing⟩
    exact ⟨.refl coherent, fun reservable => by simp [Reservable, missing] at reservable⟩
  · rintro known after ⟨rfl, known_le⟩
    apply ensures_get
    apply ensures_require
    · intro positive
      refine (growTable_ensures coherent id _ _ known).bind ?_
      intro count grown ⟨quiet, count_eq, longer⟩
      have size := (quiet.advances id).tokensPerBlock
      have covered (blocky : after.Blocky) (remembered : after.Known) :
          ∃ all, grown.manager.framesOf id = some all ∧ count ≤ all.length ∧
            ceilDiv totalTokens after.tokensPerBlock ≤ all.length := by
        obtain ⟨frames, found, start⟩ := known_le remembered
        obtain ⟨all, all_eq, all_le⟩ := longer blocky frames found
        exact ⟨all, all_eq, by omega, by omega⟩
      refine ⟨quiet.remember id count ?_, Nat.pos_of_ne_zero positive, ?_⟩
      · intro blocky remembered
        obtain ⟨all, all_eq, inside, -⟩ := covered blocky remembered
        exact ⟨all, all_eq, inside⟩
      · intro blocky remembered
        obtain ⟨all, all_eq, -, enough⟩ := covered blocky remembered
        have reached : totalTokens ≤ grown.capacity id := by
          rw [capacity_of_frames all_eq, size]
          exact (le_ceilDiv_mul blocky.1).trans (Nat.mul_le_mul_right _ enough)
        exact reached
    · intro flat
      exact ⟨.refl coherent, fun reservable => absurd reservable.1.1.ne' flat⟩

/-! ## Making a token writable -/

/-- After a block moved, the caches of its sequence are dropped unless they already name the new
frame. -/
theorem dropRemapped_ensures {pool : PagedPool} (tables : pool.CachedTables) {id : SequenceId}
    {token : ℕ} {frame : PhysicalBlockId} {manager : KVCacheManager}
    (rewritten : pool.manager.Rewritten manager id (token / pool.tokensPerBlock) frame)
    {raised : String → PagedPool → Prop} :
    Ensures (onlyIf (pool.remapped id token frame = true) (invalidateTable id))
      { pool with manager } (fun _ after => Recached { pool with manager } after) raised := by
  obtain ⟨old, old_eq, inside, new_eq⟩ := rewritten.frames
  have elsewhere (other : SequenceId) (different : other ≠ id) (table : List PhysicalBlockId)
      (front : ∃ frames, pool.manager.framesOf other = some frames ∧ table <+: frames) :
      ∃ frames, manager.framesOf other = some frames ∧ table <+: frames := by
    rwa [rewritten.others other different]
  refine ensures_onlyIf ?_ ?_
  · intro _
    refine ⟨rfl, rfl, rfl, rfl, rfl, rfl, rfl, rfl, ?_, ?_, ?_⟩
    · intro other table found
      rcases update_eq_some found with ⟨-, gone⟩ | ⟨different, cached⟩
      · simp at gone
      · exact elsewhere other different table (tables.host other table cached)
    · intro other table found
      rcases update_eq_some found with ⟨-, gone⟩ | ⟨different, cached⟩
      · simp at gone
      · obtain ⟨present, fits, front⟩ := tables.device other table cached
        simp only [Function.update_of_ne different]
        exact ⟨present, fits, elsewhere other different table front⟩
    · intro other context found
      rcases update_eq_some found with ⟨-, gone⟩ | ⟨different, cached⟩
      · simp at gone
      · simp only [Function.update_of_ne different]
        exact tables.context other context cached
  · intro kept
    -- A host table that names the frame names the one it was mapped to before.
    have same (host : List PhysicalBlockId) (cached : pool.hostFrames id = some host) :
        manager.framesOf id = some old := by
      obtain ⟨frames, frames_eq, front⟩ := tables.host id host cached
      obtain rfl := Option.some.inj (frames_eq.symm.trans old_eq)
      have named : host[token / pool.tokensPerBlock]? = some frame := by
        simpa [remapped, cached] using kept
      have mapped : frames[token / pool.tokensPerBlock]? = some frame := by
        obtain ⟨rest, rfl⟩ := front
        rw [List.getElem?_append_left (List.getElem?_eq_some_iff.mp named).1, named]
      obtain ⟨position_lt, position_eq⟩ := List.getElem?_eq_some_iff.mp mapped
      rw [new_eq, ← position_eq, List.set_getElem_self]
    have here (host : List PhysicalBlockId) (cached : pool.hostFrames id = some host)
        (table : List PhysicalBlockId)
        (front : ∃ frames, pool.manager.framesOf id = some frames ∧ table <+: frames) :
        ∃ frames, manager.framesOf id = some frames ∧ table <+: frames := by
      rwa [same host cached, ← old_eq]
    refine ⟨rfl, rfl, rfl, rfl, rfl, rfl, rfl, rfl, ?_, ?_, tables.context⟩
    · intro other table cached
      by_cases this : other = id
      · subst this
        exact here table cached table (tables.host other table cached)
      · exact elsewhere other this table (tables.host other table cached)
    · intro other table cached
      obtain ⟨present, fits, front⟩ := tables.device other table cached
      refine ⟨present, fits, ?_⟩
      by_cases this : other = id
      · subst this
        obtain ⟨host, hosted⟩ := Option.isSome_iff_exists.mp present
        exact here host hosted table front
      · exact elsewhere other this table front

/-- A frame of the sequence's own for a token. No block changed its contents. -/
structure Granted (before after : PagedPool) (id : SequenceId) (token : ℕ)
    (frame : PhysicalBlockId) : Prop where
  coherent : after.Coherent
  config : after.manager.allocator.config = before.manager.allocator.config
  scatter : after.scatter = before.scatter
  useKernel : after.useKernel = before.useKernel
  layerLengths : after.layerLengths = before.layerLengths
  tableLen : after.tableLen = before.tableLen
  writable : after.writable = some (id, token, frame)
  branched : after.branched = false
  exclusive : after.manager.Exclusive id (token / before.tokensPerBlock) frame
  contents : ∀ other, after.manager.blockContents other = before.manager.blockContents other
  others : ∀ other, other ≠ id → after.manager.framesOf other = before.manager.framesOf other

/-- An exclusive frame may be handed out. -/
theorem sole_of_exclusive {manager : KVCacheManager} (flat : manager.Flat) {id : SequenceId}
    {token : ℕ} {frame : PhysicalBlockId}
    (exclusive : manager.Exclusive id
      (token / manager.allocator.config.blockShape.tokensPerBlock) frame) :
    WriteGrant.Sole ⟨id, token, frame, manager⟩ := by
  refine ⟨exclusive, ?_⟩
  intro other frames different found
  obtain ⟨mine, mine_eq, frame_eq, single⟩ := exclusive
  exact flat.unshared different mine_eq found (List.mem_of_getElem? frame_eq) single

theorem Coherent.grant {pool : PagedPool} (coherent : pool.Coherent) {id : SequenceId} {token : ℕ}
    {frame : PhysicalBlockId}
    (exclusive : pool.manager.Exclusive id (token / pool.tokensPerBlock) frame) :
    ({ pool with grants := ⟨id, token, frame, pool.manager⟩ :: pool.grants } :
      PagedPool).Coherent := by
  refine ⟨coherent.flat, ⟨coherent.tables.host, coherent.tables.device, coherent.tables.context⟩,
    coherent.memo, ?_, coherent.committed⟩
  intro grant member
  rcases List.mem_cons.mp member with rfl | old
  · exact sole_of_exclusive coherent.flat exclusive
  · exact coherent.sole grant old

theorem blockContents_rewritten {before after : KVCacheManager} {id : SequenceId} {index : ℕ}
    {frame : PhysicalBlockId} (rewritten : before.Rewritten after id index frame)
    (other : SequenceId) : after.blockContents other = before.blockContents other := by
  unfold KVCacheManager.blockContents
  cases old_eq : before.framesOf other with
  | none =>
      have different : other ≠ id := by
        rintro rfl
        obtain ⟨old, found, -, -⟩ := rewritten.frames
        simp [old_eq] at found
      rw [rewritten.others other different, old_eq]
      rfl
  | some old =>
      obtain ⟨new, new_eq⟩ : ∃ new, after.framesOf other = some new := by
        by_cases same : other = id
        · subst same
          obtain ⟨_, -, -, found⟩ := rewritten.frames
          exact ⟨_, found⟩
        · exact ⟨old, (rewritten.others other same).trans old_eq⟩
      rw [new_eq, Option.map_some, Option.map_some, rewritten.blocks other old new old_eq new_eq]

theorem length_of_blockContents {before after : KVCacheManager} {id : SequenceId}
    (same : after.blockContents id = before.blockContents id) :
    ((after.framesOf id).getD []).length = ((before.framesOf id).getD []).length := by
  have lengths := congrArg (fun contents => (contents.getD []).length) same
  unfold KVCacheManager.blockContents at lengths
  cases after_eq : after.framesOf id <;> cases before_eq : before.framesOf id <;>
    simp_all

/-- The answer of `writable_frame`, which is right unless the memo is older than a fork. -/
theorem writableFrame_ensures {pool : PagedPool} (coherent : pool.Coherent) (id : SequenceId)
    (token : ℕ) (current : pool.branched = true → pool.memo id token = none) :
    Ensures (writableFrame id token) pool
      (fun frame after => Granted pool after id token frame)
      (fun _ after => Quiet pool after ∧
        (token < 2 ^ 32 → token < pool.capacity id → after.Exhausted)) := by
  unfold writableFrame
  apply ensures_get
  cases hit : pool.memo id token with
  | some frame =>
      have fresh : pool.branched = false := by
        cases stale : pool.branched with
        | false => rfl
        | true => simp [current stale] at hit
      have memo_eq : pool.writable = some (id, token, frame) := by
        unfold memo at hit
        split at hit
        · rename_i owner position found memo_eq
          split at hit
          · rename_i same
            obtain ⟨rfl, rfl⟩ := same
            rw [memo_eq, Option.some.inj hit]
          · simp at hit
        · simp at hit
      have exclusive := coherent.memo id token frame memo_eq fresh
      exact ⟨coherent.grant exclusive, rfl, rfl, rfl, rfl, rfl, memo_eq, fresh, exclusive,
        fun _ => rfl, fun _ _ => rfl⟩
  | none =>
      apply ensures_require
      · intro narrow
        rcases coherent.flat.ensureTokenWritable id token with
          ⟨refused, reason⟩ | ⟨manager, frame, granted, rewritten⟩
        · rw [refused]
          apply ensures_set
          refine ⟨.refl coherent, fun _ inside => ?_⟩
          cases frames_eq : pool.manager.framesOf id with
          | none => simp [capacity, frames_eq] at inside
          | some frames =>
              rw [capacity_of_frames frames_eq] at inside
              have positive : pool.tokensPerBlock ≠ 0 := by
                intro flat
                simp [flat] at inside
              exact reason frames frames_eq ((Nat.div_lt_iff_lt_mul
                (Nat.pos_of_ne_zero positive)).mpr inside) positive
        · rw [granted]
          apply ensures_set
          refine (dropRemapped_ensures coherent.tables rewritten).bind ?_
          intro _ after recached
          apply ensures_modify
          have manager_eq : after.manager = manager := recached.manager
          have size : after.tokensPerBlock = pool.tokensPerBlock := by
            rw [tokensPerBlock, shape, manager_eq, rewritten.config]
            rfl
          have contents (other : SequenceId) : after.manager.blockContents other =
              pool.manager.blockContents other := by
            rw [manager_eq]
            exact blockContents_rewritten rewritten other
          have exclusive : after.manager.Exclusive id (token / after.tokensPerBlock) frame := by
            rw [manager_eq, size]
            exact rewritten.exclusive
          have settled : ({ after with
              writable := some (id, token, frame), branched := false } : PagedPool).Coherent := by
            refine ⟨by rw [manager_eq]; exact rewritten.flat,
              ⟨recached.tables.host, recached.tables.device, recached.tables.context⟩, ?_, ?_, ?_⟩
            · intro other position found memo_eq _
              obtain ⟨rfl, rfl, rfl⟩ := Option.some.inj memo_eq
              exact exclusive
            · intro grant member
              rw [recached.grants] at member
              exact coherent.sole grant member
            · intro other lengths found length member
              have held := coherent.committed other lengths (recached.layerLengths ▸ found) length
                member
              have same : after.capacity other = pool.capacity other := by
                rw [capacity, capacity, length_of_blockContents (contents other), size]
              exact held.trans same.ge
          refine ⟨settled.grant exclusive, ?_, recached.scatter, recached.useKernel,
            recached.layerLengths, recached.tableLen, rfl, rfl, size ▸ exclusive, contents, ?_⟩
          · change after.manager.allocator.config = _
            rw [manager_eq, rewritten.config]
          · intro other different
            change after.manager.framesOf other = _
            rw [manager_eq, rewritten.others other different]
      · intro wide
        exact ⟨.refl coherent, fun narrow => absurd narrow wide⟩

theorem capacity_of_contents {before after : PagedPool} {id : SequenceId}
    (config : after.manager.allocator.config = before.manager.allocator.config)
    (same : after.manager.blockContents id = before.manager.blockContents id) :
    after.capacity id = before.capacity id := by
  rw [capacity, capacity, length_of_blockContents same, tokensPerBlock, shape, config]
  rfl

theorem untouched_of_same {before after : PagedPool} {id : SequenceId}
    (frames : after.manager.framesOf id = before.manager.framesOf id)
    (contents : after.manager.blockContents id = before.manager.blockContents id) :
    Untouched before after id := by
  intro old found
  refine ⟨old, frames.trans found, List.prefix_rfl, ?_⟩
  unfold KVCacheManager.blockContents at contents
  rw [frames, found, Option.map_some, Option.map_some, Option.some.injEq] at contents
  rw [contents]

theorem isSome_of_blockContents {before after : KVCacheManager} {id : SequenceId}
    (same : (after.blockContents id).isSome = (before.blockContents id).isSome) :
    (after.framesOf id).isSome = (before.framesOf id).isSome := by
  simpa [KVCacheManager.blockContents] using same

theorem Granted.advances {before after : PagedPool} {id : SequenceId} {token : ℕ}
    {frame : PhysicalBlockId} (granted : Granted before after id token frame) :
    Advances id before after := by
  refine ⟨granted.coherent, granted.config, granted.scatter, granted.useKernel, ?_,
    fun _ _ => by rw [granted.layerLengths], ?_,
    (capacity_of_contents granted.config (granted.contents id)).ge⟩
  · intro other different
    exact untouched_of_same (granted.others other different) (granted.contents other)
  · intro live
    rw [isSome_of_blockContents (congrArg Option.isSome (granted.contents id))]
    exact live

/-! ## Storing tokens -/

@[simp]
theorem storeSlice_length (width : ℕ) (data : List UInt8) (start : ℕ)
    (elements : List (List UInt8)) : (storeSlice width data start elements).length = data.length := by
  induction elements generalizing data start with
  | nil => rfl
  | cons element elements induction => rw [storeSlice, induction, storeElement_length]

/-- What `writeTokens` does to the block of its tokens. -/
def storeTokens {shape : BlockShape} (keyBase valueBase position : ℕ)
    (tokens : List (TokenPair shape)) (data : List UInt8) : List UInt8 :=
  let start := position % shape.tokensPerBlock * (shape.numKvHeads * shape.headDim)
  storeSlice shape.bytesPerElement
    (storeSlice shape.bytesPerElement data (keyBase + start) (tokens.flatMap (·.1.elements)))
    (valueBase + start) (tokens.flatMap (·.2.elements))

/-- New contents of one block of a sequence. -/
structure Assigned (before after : PagedPool) (id : SequenceId) (index : ℕ)
    (update : List UInt8 → List UInt8) : Prop where
  coherent : after.Coherent
  config : after.manager.allocator.config = before.manager.allocator.config
  scatter : after.scatter = before.scatter
  useKernel : after.useKernel = before.useKernel
  layerLengths : after.layerLengths = before.layerLengths
  tableLen : after.tableLen = before.tableLen
  writable : after.writable = before.writable
  branched : after.branched = before.branched
  frames : ∀ other, after.manager.framesOf other = before.manager.framesOf other
  contents : ∀ other, after.manager.blockContents other =
    if other = id then (before.manager.blockContents other).map fun blocks =>
      blocks.modify index update
    else before.manager.blockContents other
  kept : ∀ other block frame, before.manager.Exclusive other block frame →
    after.manager.Exclusive other block frame

theorem assignSlice_ensures {pool : PagedPool} (coherent : pool.Coherent) {id : SequenceId}
    {index : ℕ} {frame : PhysicalBlockId} (exclusive : pool.manager.Exclusive id index frame)
    (start : ℕ) (elements : List (List UInt8)) {raised : String → PagedPool → Prop} :
    Ensures (assignSlice frame start elements) pool
      (fun _ after => Assigned pool after id index fun data =>
        storeSlice pool.shape.bytesPerElement data start elements) raised := by
  have overwritten : pool.manager.Overwritten
      { pool.manager with
        allocator := pool.manager.allocator.writeFrame frame fun data =>
          storeSlice pool.shape.bytesPerElement data start elements } frame
      fun data => storeSlice pool.shape.bytesPerElement data start elements :=
    coherent.flat.writeFrame exclusive fun data => storeSlice_length _ data start elements
  have kept (other : SequenceId) (block : ℕ) (found : PhysicalBlockId)
      (held : pool.manager.Exclusive other block found) := held.overwritten overwritten
  refine ⟨coherent.remanaged overwritten.flat overwritten.config ?_ kept, overwritten.config, rfl,
    rfl, rfl, rfl, rfl, rfl, overwritten.frames, ?_, kept⟩
  · intro other frames found
    exact ⟨frames, (overwritten.frames other).trans found, List.prefix_rfl⟩
  · intro other
    unfold KVCacheManager.blockContents
    rw [overwritten.frames other]
    cases found : pool.manager.framesOf other with
    | none => simp
    | some frames =>
        have data := overwritten.contents coherent.flat exclusive found
        split
        · rename_i same
          rw [if_pos same] at data
          simp only [Option.map_some, data]
        · rename_i different
          rw [if_neg different] at data
          simp only [Option.map_some, data]

/-- Tokens stored into blocks of one sequence that are its own. -/
structure Wrote (before after : PagedPool) (id : SequenceId)
    (update : List (List UInt8) → List (List UInt8)) : Prop where
  coherent : after.Coherent
  config : after.manager.allocator.config = before.manager.allocator.config
  scatter : after.scatter = before.scatter
  useKernel : after.useKernel = before.useKernel
  layerLengths : after.layerLengths = before.layerLengths
  tableLen : after.tableLen = before.tableLen
  contents : after.manager.blockContents id = (before.manager.blockContents id).map update
  count : after.capacity id = before.capacity id
  others : ∀ other, other ≠ id →
    after.manager.framesOf other = before.manager.framesOf other ∧
      after.manager.blockContents other = before.manager.blockContents other

theorem Wrote.refl {pool : PagedPool} (coherent : pool.Coherent) (id : SequenceId) :
    Wrote pool pool id fun blocks => blocks :=
  ⟨coherent, rfl, rfl, rfl, rfl, rfl, by simp, rfl, fun _ _ => ⟨rfl, rfl⟩⟩

theorem Wrote.trans {first second third : PagedPool} {id : SequenceId}
    {update update' : List (List UInt8) → List (List UInt8)} (left : Wrote first second id update)
    (right : Wrote second third id update') :
    Wrote first third id fun blocks => update' (update blocks) := by
  refine ⟨right.coherent, right.config.trans left.config, right.scatter.trans left.scatter,
    right.useKernel.trans left.useKernel, right.layerLengths.trans left.layerLengths,
    right.tableLen.trans left.tableLen, ?_, right.count.trans left.count, ?_⟩
  · rw [right.contents, left.contents, Option.map_map]
    rfl
  · intro other different
    obtain ⟨frames, contents⟩ := left.others other different
    obtain ⟨frames', contents'⟩ := right.others other different
    exact ⟨frames'.trans frames, contents'.trans contents⟩

theorem Wrote.advances {before after : PagedPool} {id : SequenceId}
    {update : List (List UInt8) → List (List UInt8)} (wrote : Wrote before after id update) :
    Advances id before after := by
  refine ⟨wrote.coherent, wrote.config, wrote.scatter, wrote.useKernel, ?_,
    fun _ _ => by rw [wrote.layerLengths], ?_, wrote.count.ge⟩
  · intro other different
    obtain ⟨frames, contents⟩ := wrote.others other different
    exact untouched_of_same frames contents
  · intro live
    have same : (after.manager.blockContents id).isSome =
        (before.manager.blockContents id).isSome := by
      rw [wrote.contents, Option.isSome_map]
    rw [isSome_of_blockContents same]
    exact live

theorem Granted.wrote {before after : PagedPool} {id : SequenceId} {token : ℕ}
    {frame : PhysicalBlockId} (granted : Granted before after id token frame) :
    Wrote before after id fun blocks => blocks :=
  ⟨granted.coherent, granted.config, granted.scatter, granted.useKernel, granted.layerLengths,
    granted.tableLen, by simp [granted.contents],
    capacity_of_contents granted.config (granted.contents id),
    fun other different => ⟨granted.others other different, granted.contents other⟩⟩

theorem Assigned.wrote {before after : PagedPool} {id : SequenceId} {index : ℕ}
    {update : List UInt8 → List UInt8} (assigned : Assigned before after id index update) :
    Wrote before after id fun blocks => blocks.modify index update := by
  refine ⟨assigned.coherent, assigned.config, assigned.scatter, assigned.useKernel,
    assigned.layerLengths, assigned.tableLen, ?_, ?_, ?_⟩
  · rw [assigned.contents, if_pos rfl]
  · rw [capacity, capacity, assigned.frames, tokensPerBlock, shape, assigned.config]
    rfl
  · intro other different
    rw [assigned.contents, if_neg different]
    exact ⟨assigned.frames other, rfl⟩

theorem writeTokens_ensures {pool : PagedPool} (coherent : pool.Coherent) (id : SequenceId)
    (keyBase valueBase position : ℕ) (tokens : List (TokenPair pool.shape))
    (positive : 0 < pool.tokensPerBlock)
    (current : pool.branched = true → pool.memo id position = none) :
    Ensures (writeTokens id keyBase valueBase position tokens) pool
      (fun _ after => Wrote pool after id (fun blocks => blocks.modify
          (position / pool.tokensPerBlock) (storeTokens keyBase valueBase position tokens)) ∧
        after.branched = false ∧ (∃ frame, after.writable = some (id, position, frame)) ∧
        position < pool.capacity id)
      (fun _ after => Quiet pool after ∧
        (position < 2 ^ 32 → position < pool.capacity id → after.Exhausted)) := by
  unfold writeTokens
  apply ensures_get
  refine (writableFrame_ensures coherent id position current).bind ?_
  intro frame granted_pool granted
  have shape_eq := granted.advances.shape
  refine (assignSlice_ensures granted.coherent granted.exclusive _ _).bind ?_
  intro _ keyed first
  refine (assignSlice_ensures first.coherent (first.kept _ _ _ granted.exclusive) _ _).mono ?_
    fun _ _ impossible => impossible
  intro _ after second
  have wrote := (granted.wrote.trans first.wrote).trans second.wrote
  have keyed_shape : keyed.shape = pool.shape := by
    rw [shape, first.config]
    exact shape_eq
  refine ⟨?_, ?_, ?_, ?_⟩
  · have update_eq : (fun blocks : List (List UInt8) => blocks.modify
        (position / pool.tokensPerBlock) (storeTokens keyBase valueBase position tokens)) =
        fun blocks => (blocks.modify (position / pool.tokensPerBlock) fun data =>
          storeSlice granted_pool.shape.bytesPerElement data
            (keyBase + position % pool.tokensPerBlock * pool.tokenElems)
            (tokens.flatMap (·.1.elements))).modify (position / pool.tokensPerBlock) fun data =>
          storeSlice keyed.shape.bytesPerElement data
            (valueBase + position % pool.tokensPerBlock * pool.tokenElems)
            (tokens.flatMap (·.2.elements)) := by
      funext blocks
      rw [List.modify_modify_eq, shape_eq, keyed_shape]
      rfl
    rw [update_eq]
    exact wrote
  · rw [second.branched, first.branched, granted.branched]
  · exact ⟨frame, by rw [second.writable, first.writable, granted.writable]⟩
  · obtain ⟨frames, frames_eq, frame_eq, -⟩ := granted.exclusive
    have inside := (List.getElem?_eq_some_iff.mp frame_eq).1
    rw [← granted.wrote.count, capacity_of_frames frames_eq, granted.advances.tokensPerBlock]
    exact (Nat.div_lt_iff_lt_mul positive).mp inside

/-- What the block loop does to the blocks of a sequence. -/
def storeBlocks {shape : BlockShape} (keyBase valueBase : ℕ) :
    ℕ → ℕ → List (TokenPair shape) → List (List UInt8) → List (List UInt8)
  | 0, _, _, blocks => blocks
  | _ + 1, _, [], blocks => blocks
  | fuel + 1, position, token :: tokens, blocks =>
      let count := min (shape.tokensPerBlock - position % shape.tokensPerBlock)
        (token :: tokens).length
      storeBlocks keyBase valueBase fuel (position + count) ((token :: tokens).drop count)
        (blocks.modify (position / shape.tokensPerBlock)
          (storeTokens keyBase valueBase position ((token :: tokens).take count)))

/-- A block that holds one token of a sequence holds all tokens up to its end. -/
theorem end_le_capacity {pool : PagedPool} {id : SequenceId} {position count : ℕ}
    (inside : position < pool.capacity id)
    (inside_block : position % pool.tokensPerBlock + count ≤ pool.tokensPerBlock) :
    position + count ≤ pool.capacity id := by
  unfold capacity at inside ⊢
  generalize ((pool.manager.framesOf id).getD []).length = blocks at inside ⊢
  have block_lt : position / pool.tokensPerBlock < blocks := Nat.div_lt_of_lt_mul (by
    rwa [Nat.mul_comm])
  calc position + count = pool.tokensPerBlock * (position / pool.tokensPerBlock) +
        (position % pool.tokensPerBlock + count) := by
        rw [← Nat.add_assoc, Nat.div_add_mod]
    _ ≤ pool.tokensPerBlock * (position / pool.tokensPerBlock) + pool.tokensPerBlock :=
        Nat.add_le_add_left inside_block _
    _ = (position / pool.tokensPerBlock + 1) * pool.tokensPerBlock := by ring
    _ ≤ blocks * pool.tokensPerBlock := Nat.mul_le_mul_right _ block_lt

/-- The block loop stores all tokens, or a frame is missing. -/
theorem writeBlocks_ensures {pool : PagedPool} {shape : BlockShape} (shape_eq : pool.shape = shape)
    (coherent : pool.Coherent) (id : SequenceId) (keyBase valueBase fuel position : ℕ)
    (tokens : List (TokenPair shape)) (enough : tokens.length ≤ fuel)
    (positive : 0 < pool.tokensPerBlock)
    (current : pool.branched = true → pool.memo id position = none) :
    Ensures (writeBlocks id keyBase valueBase fuel position tokens) pool
      (fun _ after => Wrote pool after id (storeBlocks keyBase valueBase fuel position tokens) ∧
        (tokens = [] → after = pool) ∧ (tokens ≠ [] → after.branched = false ∧ position + tokens.length ≤ pool.capacity id ∧
          ∃ token frame, after.writable = some (id, token, frame) ∧
            token < position + tokens.length))
      (fun _ after => Advances id pool after ∧
        (position + tokens.length ≤ 2 ^ 32 → position + tokens.length ≤ pool.capacity id →
          after.Exhausted)) := by
  induction fuel generalizing pool position tokens with
  | zero =>
      obtain rfl := List.length_eq_zero_iff.mp (Nat.le_zero.mp enough)
      exact ensures_pure ⟨.refl coherent id, fun _ => rfl, fun some_left => absurd rfl some_left⟩
  | succ fuel induction =>
      cases tokens with
      | nil =>
          exact ensures_pure ⟨.refl coherent id, fun _ => rfl, fun some_left => absurd rfl some_left⟩
      | cons token tokens =>
          subst shape_eq
          rw [writeBlocks]
          apply ensures_get
          dsimp only
          have offset_lt := Nat.mod_lt position positive
          generalize count_eq : min (pool.tokensPerBlock - position % pool.tokensPerBlock)
            (token :: tokens).length = count
          have count_pos : 0 < count := by
            rw [List.length_cons] at count_eq
            omega
          have count_le : count ≤ (token :: tokens).length := count_eq ▸ Nat.min_le_right _ _
          have inside_block : position % pool.tokensPerBlock + count ≤ pool.tokensPerBlock := by
            omega
          refine ((writeTokens_ensures coherent id keyBase valueBase position
            ((token :: tokens).take count) positive current).mono (fun _ _ holds => holds) ?_).bind ?_
          · intro _ after ⟨quiet, reason⟩
            have short : position < position + (token :: tokens).length :=
              Nat.lt_add_of_pos_right (count_pos.trans_le count_le)
            exact ⟨quiet.advances id, fun narrow inside =>
              reason (short.trans_le narrow) (short.trans_le inside)⟩
          · intro _ middle ⟨wrote, fresh, ⟨frame, memo_eq⟩, inside⟩
            have middle_shape := wrote.advances.shape
            have left_length : ((token :: tokens).drop count).length =
              (token :: tokens).length - count := List.length_drop
            refine (induction middle_shape wrote.coherent (position + count)
              ((token :: tokens).drop count) (by omega)
              (by rw [wrote.advances.tokensPerBlock]; exact positive) (by simp [fresh])).mono ?_ ?_
            · intro _ after ⟨rest, finished, ended⟩
              refine ⟨?_, by simp, fun _ => ?_⟩
              · have store_eq : storeBlocks keyBase valueBase (fuel + 1) position (token :: tokens) =
                    fun blocks => storeBlocks keyBase valueBase fuel (position + count)
                      ((token :: tokens).drop count) (blocks.modify
                        (position / pool.tokensPerBlock) (storeTokens keyBase valueBase position
                          ((token :: tokens).take count))) := by
                  rw [← count_eq]
                  rfl
                rw [store_eq]
                exact wrote.trans rest
              · by_cases done : (token :: tokens).drop count = []
                · obtain rfl := finished done
                  rw [done, List.length_nil] at left_length
                  have all : (token :: tokens).length = count := by omega
                  have covered : position + (token :: tokens).length ≤ pool.capacity id := by
                    rw [all]
                    exact end_le_capacity inside inside_block
                  exact ⟨fresh, covered, position, frame, memo_eq, by omega⟩
                · obtain ⟨fresh', covered, position', frame', memo_eq', before_end⟩ := ended done
                  rw [wrote.count] at covered
                  exact ⟨fresh', by omega, position', frame', memo_eq', by omega⟩
            · intro _ after ⟨advances, reason⟩
              have same_end : position + count + ((token :: tokens).drop count).length =
                  position + (token :: tokens).length := by omega
              refine ⟨wrote.advances.trans advances, fun narrow covered => reason ?_ ?_⟩
              · rw [same_end]
                exact narrow
              · rw [same_end, wrote.count]
                exact covered

end PagedPool
end QwenVLPaged
