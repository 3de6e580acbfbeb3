import QwenVLPaged.PagedWrites

/-!
# Frames handed out for writing

Every frame that `writable_frame` returned was the sequence's own, in every run in which the
one-entry memo never answers for a sequence that was forked since the entry was made. In such runs
an `update` of one sequence leaves what every other sequence gathers as it was.
-/

namespace QwenVLPaged
namespace KVCacheManager

/-- A child that maps the frames of its parent adds at most one reference to a frame. -/
theorem Flat.references_child_le {manager after : KVCacheManager} (flat : manager.Flat)
    {parentId childId : SequenceId} {parent child : SequenceState}
    (found : manager.sequences.lookup parentId = some parent)
    (unused : manager.sequences.lookup childId = none)
    (tables : child.tables = parent.tables.map fun table => table.fork childId)
    (sequences : after.sequences = manager.sequences.insert childId child)
    (prefixIndex : after.prefixIndex = manager.prefixIndex) (frame : PhysicalBlockId) :
    after.references frame ≤ manager.references frame + 1 := by
  have frames_eq : manager.framesOf parentId =
      some (parent.textTable.entries.map (·.physicalId)) := by
    rw [framesOf, found, Option.map_some]
  obtain ⟨state, state_eq, places_eq⟩ := flat.placesOf_eq frames_eq
  obtain rfl := Option.some.inj (found.symm.trans state_eq)
  have once := List.nodup_iff_count_le_one.mp (flat.distinct parentId _ frames_eq) frame
  rw [← count_places, places_insert manager sequences prefixIndex, List.count_append, tables,
    placesOf_fork, places_eq, placesWithout_of_absent unused, count_places,
    List.count_map_of_injective _ Place.frame (fun _ _ equal => Place.frame.inj equal)]
  omega

theorem Flat.references_fork_le {manager : KVCacheManager} (flat : manager.Flat)
    (parentId : SequenceId) (childMetadata : SequenceMetadata) (frame : PhysicalBlockId) :
    (manager.forkSequence parentId childMetadata).2.references frame ≤
      manager.references frame + 1 := by
  unfold KVCacheManager.forkSequence
  cases found : manager.sequences.lookup parentId with
  | none => exact Nat.le_succ _
  | some parent =>
      dsimp only
      split
      case isTrue => exact Nat.le_succ _
      case isFalse unused =>
        split
        case isTrue => exact Nat.le_succ _
        case isFalse =>
          have absent : manager.sequences.lookup childMetadata.sequenceId = none := by
            simpa using unused
          have tables : (⟨childMetadata, parent.tables.map fun table =>
              table.fork childMetadata.sequenceId, "", 0⟩ : SequenceState).tables =
              parent.tables.map fun table => table.fork childMetadata.sequenceId := rfl
          refine flat.references_child_le found absent tables ?_ ?_ frame
          · rfl
          · rfl

end KVCacheManager

namespace PagedPool

open Raising

/-! ## Branching -/

/-- The pool after a fork. -/
structure Forked (before after : PagedPool) (parentId childId : SequenceId) : Prop where
  coherent : after.Coherent
  scatter : after.scatter = before.scatter
  useKernel : after.useKernel = before.useKernel
  layerLengths : after.layerLengths = before.layerLengths
  tableLen : after.tableLen = before.tableLen
  writable : after.writable = before.writable
  stale : after.branched = true → before.branched = true ∨
    ∃ token frame, before.writable = some (parentId, token, frame)
  fresh : after.branched = false → before.branched = false
  manager : before.manager.Branched after.manager parentId childId

/-- No frame is so often referenced that one more reference does not fit. -/
def Countable (pool : PagedPool) : Prop :=
  ∀ frame, pool.manager.references frame + 1 < 2 ^ 32

theorem fork_ensures {pool : PagedPool} (coherent : pool.Coherent) (countable : pool.Countable)
    (parentId childId : SequenceId) :
    Ensures (fork parentId childId) pool (fun _ after => Forked pool after parentId childId)
      (fun _ after => after = pool ∧ ((pool.manager.framesOf parentId).isSome →
        (pool.manager.framesOf childId).isSome)) := by
  unfold fork
  apply ensures_get
  dsimp only
  have bounded (frame : PhysicalBlockId) :
      (pool.manager.forkSequence parentId ⟨childId, childId⟩).2.references frame < 2 ^ 32 :=
    (coherent.flat.references_fork_le parentId ⟨childId, childId⟩ frame).trans_lt (countable frame)
  rcases coherent.flat.forkSequence parentId ⟨childId, childId⟩ bounded with
    refused | ⟨manager, forked, branched⟩
  · rw [refused]
    apply ensures_set
    refine ensures_require_last (by simp) fun _ => ⟨by simp, fun live => ?_⟩
    by_contra unused
    obtain ⟨frames, frames_eq⟩ := Option.isSome_iff_exists.mp live
    have succeeds := coherent.flat.forkSequence_succeeds frames_eq
      (show pool.manager.framesOf (⟨childId, childId⟩ : SequenceMetadata).sequenceId = none by
        simpa using unused)
    rw [refused] at succeeds
    simp at succeeds
  · rw [forked]
    apply ensures_set
    refine ensures_require_last (fun _ => ?_) (by simp)
    have size : manager.allocator.config = pool.manager.allocator.config := branched.config
    have kept (id : SequenceId) (frames : List PhysicalBlockId)
        (found : pool.manager.framesOf id = some frames) : manager.framesOf id = some frames :=
      (branched.contents coherent.flat found).1
    refine ⟨⟨branched.flat, ⟨?_, ?_, coherent.tables.context⟩, ?_, coherent.sole, ?_⟩,
      rfl, rfl, rfl, rfl, rfl, ?_, fun fresh => (Bool.or_eq_false_iff.mp fresh).1, branched⟩
    · intro id table found
      obtain ⟨frames, frames_eq, front⟩ := coherent.tables.host id table found
      exact ⟨frames, kept id frames frames_eq, front⟩
    · intro id table found
      obtain ⟨present, fits, frames, frames_eq, front⟩ := coherent.tables.device id table found
      exact ⟨present, fits, frames, kept id frames frames_eq, front⟩
    · intro id token frame memo fresh
      simp only [Bool.or_eq_false_iff, Bool.true_and] at fresh
      obtain ⟨current, elsewhere⟩ := fresh
      rw [memo, Option.any_some, beq_eq_false_iff_ne] at elsewhere
      change manager.Exclusive id (token / manager.allocator.config.blockShape.tokensPerBlock) frame
      rw [size]
      exact (coherent.memo id token frame memo current).branched coherent.flat elsewhere branched
    · intro id lengths found length member
      have held := coherent.committed id lengths found length member
      refine held.trans (capacity_mono ?_ ?_)
      · simp only [tokensPerBlock, shape, size]
      · intro frames frames_eq
        obtain ⟨same, contents⟩ := branched.contents coherent.flat frames_eq
        exact ⟨frames, same, List.prefix_rfl, contents.symm ▸ List.prefix_rfl⟩
    · intro stale
      simp only [Bool.or_eq_true, Bool.true_and] at stale
      rcases stale with old | new
      · exact Or.inl old
      · cases memo : pool.writable with
        | none => simp [memo] at new
        | some entry =>
            rw [memo, Option.any_some, beq_iff_eq] at new
            exact Or.inr ⟨entry.2.1, entry.2.2, by rw [← new]⟩

/-! ## Lengths of the layers -/

/-- New lengths that the blocks can hold. -/
theorem Coherent.relength {pool : PagedPool} (coherent : pool.Coherent)
    {layerLengths : SequenceId → Option (List ℕ)}
    (held : ∀ id lengths, layerLengths id = some lengths →
      ∀ length ∈ lengths, length ≤ pool.capacity id) :
    ({ pool with layerLengths } : PagedPool).Coherent :=
  ⟨coherent.flat, ⟨coherent.tables.host, coherent.tables.device, coherent.tables.context⟩,
    coherent.memo, coherent.sole, held⟩

/-- A new length of one layer. -/
def withLength (pool : PagedPool) (id : SequenceId) (layer length : ℕ) : PagedPool :=
  { pool with
    layerLengths := Function.update pool.layerLengths id
      ((pool.layerLengths id).map fun lengths => lengths.set layer length) }

theorem Coherent.withLength {pool : PagedPool} (coherent : pool.Coherent) {id : SequenceId}
    {layer length : ℕ} (inside : length ≤ pool.capacity id) :
    (pool.withLength id layer length).Coherent := by
  refine coherent.relength ?_
  intro other lengths found value member
  rcases update_eq_some found with ⟨rfl, new⟩ | ⟨-, old⟩
  · obtain ⟨former, former_eq, rfl⟩ := Option.map_eq_some_iff.mp new
    rcases List.mem_or_eq_of_mem_set member with old | rfl
    · exact coherent.committed other former former_eq value old
    · exact inside
  · exact coherent.committed other lengths old value member

theorem withLength_advances {pool : PagedPool} (coherent : pool.Coherent) {id : SequenceId}
    {layer length : ℕ} (inside : length ≤ pool.capacity id) :
    Advances id pool (pool.withLength id layer length) :=
  ⟨coherent.withLength inside, rfl, rfl, rfl, fun other _ => .refl pool other,
    fun _ different => Function.update_of_ne different .., fun live => live, le_rfl⟩

/-! ## Appending tokens -/

theorem layerLength_ensures (pool : PagedPool) (id : SequenceId) (layer : ℕ) :
    Ensures (layerLength id layer) pool
      (fun length after => pool.lengthResult id layer = .ok length ∧ after = pool)
      (fun message after => pool.lengthResult id layer = .error message ∧ after = pool) := by
  have yields : Yields (layerLength id layer) pool (pool.lengthResult id layer) (· = pool) :=
    layerLength_yields pool id layer rfl
  exact yields.ensures

theorem lengthResult_mem {pool : PagedPool} {id : SequenceId} {layer length : ℕ}
    (found : pool.lengthResult id layer = .ok length) :
    ∃ lengths, pool.layerLengths id = some lengths ∧ lengths[layer]? = some length := by
  unfold lengthResult at found
  cases entry : (pool.layerLengths id).bind (·[layer]?) with
  | none => simp [entry] at found
  | some value =>
      obtain rfl : value = length := by simpa [entry] using found
      exact Option.bind_eq_some_iff.mp entry

theorem streamBase_ensures (pool : PagedPool) (layer : ℕ) (stream : KVStream) :
    Ensures (streamBase layer stream) pool
      (fun base after =>
        (KVBlockLayout.mk pool.shape).elementOffset layer stream 0 0 = some base ∧ after = pool)
      (fun _ after =>
        (KVBlockLayout.mk pool.shape).elementOffset layer stream 0 0 = none ∧ after = pool) := by
  unfold streamBase
  apply ensures_get
  cases offset : (KVBlockLayout.mk pool.shape).elementOffset layer stream 0 0 with
  | none => exact ensures_throw ⟨rfl, rfl⟩
  | some base => exact ensures_pure ⟨rfl, rfl⟩

/-- Tokens stored behind those of a layer, whose length is not yet adjusted. -/
structure Appended {shape : BlockShape} (before after : PagedPool) (id : SequenceId)
    (start : ℕ) (tokens : List (TokenPair shape)) (keyBase valueBase : ℕ) : Prop where
  advances : Advances id before after
  layerLengths : after.layerLengths = before.layerLengths
  covered : tokens ≠ [] → start + tokens.length ≤ after.capacity id
  contents : ∀ blocks, before.manager.blockContents id = some blocks → ∃ more,
    after.manager.blockContents id =
      some (storeBlocks keyBase valueBase tokens.length start tokens (blocks ++ more))
  memo : tokens ≠ [] → after.branched = false ∧
    ∃ token frame, after.writable = some (id, token, frame) ∧ token < start + tokens.length
  known : before.Blocky → before.Known → after.Known

/-- One token needs one turn of the block loop. -/
theorem storeBlocks_one {shape : BlockShape} (positive : 0 < shape.tokensPerBlock)
    (keyBase valueBase position : ℕ) (token : TokenPair shape) :
    storeBlocks keyBase valueBase 1 position [token] = fun blocks =>
      blocks.modify (position / shape.tokensPerBlock)
        (storeTokens keyBase valueBase position [token]) := by
  have offset_lt := Nat.mod_lt position positive
  have count_eq : min (shape.tokensPerBlock - position % shape.tokensPerBlock)
      ([token] : List (TokenPair shape)).length = 1 := by
    rw [List.length_singleton]
    omega
  funext blocks
  rw [storeBlocks, count_eq]
  rfl

theorem Quiet.contents {before after : PagedPool} (quiet : Quiet before after) {id : SequenceId}
    {blocks : List (List UInt8)} (found : before.manager.blockContents id = some blocks) :
    ∃ more, after.manager.blockContents id = some (blocks ++ more) := by
  obtain ⟨frames, frames_eq, rfl⟩ := Option.map_eq_some_iff.mp found
  obtain ⟨longer, longer_eq, -, more, contents⟩ := quiet.untouched id frames frames_eq
  refine ⟨more, ?_⟩
  rw [KVCacheManager.blockContents, longer_eq, Option.map_some, contents]

theorem Wrote.known {before after : PagedPool} {id : SequenceId}
    {update : List (List UInt8) → List (List UInt8)} (wrote : Wrote before after id update)
    (blocky : before.Blocky) (known : before.Known) : after.Known := by
  intro other count found
  rw [wrote.tableLen] at found
  obtain ⟨frames, frames_eq, inside⟩ := known other count found
  by_cases same : other = id
  · subst same
    obtain ⟨longer, longer_eq⟩ := Option.isSome_iff_exists.mp
      (wrote.advances.live (by rw [frames_eq]; rfl))
    have count_eq := wrote.count
    rw [capacity_of_frames longer_eq, capacity_of_frames frames_eq,
      wrote.advances.tokensPerBlock] at count_eq
    exact ⟨longer, longer_eq, inside.trans (Nat.eq_of_mul_eq_mul_right blocky.1 count_eq).ge⟩
  · exact ⟨frames, (wrote.others other same).1.trans frames_eq, inside⟩

theorem Quiet.appended {shape : BlockShape} {before grown after : PagedPool}
    (quiet : Quiet before grown) {id : SequenceId} {start : ℕ} {tokens : List (TokenPair shape)}
    {keyBase valueBase : ℕ}
    (wrote : Wrote grown after id (storeBlocks keyBase valueBase tokens.length start tokens))
    (covered : tokens ≠ [] → start + tokens.length ≤ grown.capacity id)
    (memo : tokens ≠ [] → after.branched = false ∧
      ∃ token frame, after.writable = some (id, token, frame) ∧ token < start + tokens.length) :
    Appended before after id start tokens keyBase valueBase := by
  refine ⟨(quiet.advances id).trans wrote.advances, wrote.layerLengths.trans quiet.layerLengths,
    fun some_left => (covered some_left).trans wrote.count.ge, ?_, memo,
    fun blocky known => wrote.known (quiet.blocky blocky) (quiet.known blocky known)⟩
  intro blocks found
  obtain ⟨more, grown_eq⟩ := quiet.contents found
  refine ⟨more, ?_⟩
  rw [wrote.contents, grown_eq, Option.map_some]

/-- A layer with its new length. -/
structure Updated {shape : BlockShape} (before after : PagedPool) (id : SequenceId)
    (layer start : ℕ) (tokens : List (TokenPair shape)) (keyBase valueBase : ℕ) : Prop where
  advances : Advances id before after
  layerLengths : after.layerLengths =
    (before.withLength id layer (start + tokens.length)).layerLengths
  contents : ∀ blocks, before.manager.blockContents id = some blocks → ∃ more,
    after.manager.blockContents id =
      some (storeBlocks keyBase valueBase tokens.length start tokens (blocks ++ more))
  memo : tokens ≠ [] → after.branched = false ∧
    ∃ token frame, after.writable = some (id, token, frame) ∧ token < start + tokens.length
  known : before.Blocky → before.Known → after.Known

theorem Recached.gatherResult_eq {before after : PagedPool} (recached : Recached before after)
    (id : SequenceId) (layer : ℕ) : after.gatherResult id layer = before.gatherResult id layer := by
  have size : after.tokensPerBlock = before.tokensPerBlock := by
    rw [tokensPerBlock, shape, recached.manager]
    rfl
  simp only [gatherResult, lengthResult, inputsResult, tableResult, size, recached.manager,
    recached.layerLengths]

/-- The length of a layer is one that its sequence can hold. -/
theorem Coherent.start_le {pool : PagedPool} (coherent : pool.Coherent) {id : SequenceId}
    {layer start : ℕ} (found : pool.lengthResult id layer = .ok start) :
    start ≤ pool.capacity id := by
  obtain ⟨lengths, lengths_eq, start_eq⟩ := lengthResult_mem found
  exact coherent.committed id lengths lengths_eq start (List.mem_of_getElem? start_eq)

theorem Appended.fits {shape : BlockShape} {before after : PagedPool} {id : SequenceId}
    {layer start : ℕ} {tokens : List (TokenPair shape)} {keyBase valueBase : ℕ}
    (appended : Appended before after id start tokens keyBase valueBase)
    (coherent : before.Coherent) (found : before.lengthResult id layer = .ok start) :
    start + tokens.length ≤ after.capacity id := by
  by_cases empty : tokens = []
  · subst empty
    exact (coherent.start_le found).trans appended.advances.capacity
  · exact appended.covered empty

theorem Appended.updated {shape : BlockShape} {before written after : PagedPool}
    {id : SequenceId} {layer start : ℕ} {tokens : List (TokenPair shape)} {keyBase valueBase : ℕ}
    (appended : Appended before written id start tokens keyBase valueBase)
    (fits : start + tokens.length ≤ written.capacity id)
    (recached : Recached (written.withLength id layer (start + tokens.length)) after) :
    Updated before after id layer start tokens keyBase valueBase := by
  have coherent := appended.advances.coherent
  have lengthened : Advances id written (written.withLength id layer (start + tokens.length)) :=
    withLength_advances coherent fits
  have same_manager : after.manager = written.manager := recached.manager
  refine ⟨(appended.advances.trans lengthened).trans
    (recached.advances lengthened.coherent id), ?_, ?_, ?_, ?_⟩
  · rw [recached.layerLengths, withLength, withLength, appended.layerLengths]
  · rw [same_manager]
    exact appended.contents
  · rw [recached.branched, recached.writable]
    exact appended.memo
  · intro blocky known other count found
    rw [recached.tableLen] at found
    rw [same_manager]
    exact appended.known blocky known other count found

/-- The end of `update`: the new length, and everything the layer holds. -/
theorem finish_ensures {shape : BlockShape} {before written : PagedPool} (coherent : before.Coherent)
    {id : SequenceId} {layer start : ℕ} {tokens : List (TokenPair shape)} {keyBase valueBase : ℕ}
    (found : before.lengthResult id layer = .ok start)
    (appended : Appended before written id start tokens keyBase valueBase) :
    Ensures (do
        setLayerLength id layer (start + tokens.length)
        let pool ← get
        if tokens.length = 1 ∧ pool.useKernel then
          return (tokens.map (·.1.elements), tokens.map (·.2.elements))
        else
          gather id layer) written
      (fun rows after => Updated before after id layer start tokens keyBase valueBase ∧
        (before.useKernel = false → after.gatherResult id layer = .ok rows))
      (fun message after => Updated before after id layer start tokens keyBase valueBase ∧
        after.gatherResult id layer = .error message) := by
  have fits := appended.fits coherent found
  have lengthened : (written.withLength id layer (start + tokens.length)).Coherent :=
    appended.advances.coherent.withLength fits
  apply ensures_modify
  apply ensures_get
  split
  · rename_i kernel
    refine ensures_pure ⟨appended.updated fits (.refl lengthened.tables), fun eager => ?_⟩
    have same : written.useKernel = before.useKernel := appended.advances.useKernel
    exact absurd (same.symm.trans kernel.2) (by simp [eager])
  · refine (gather_yields lengthened.tables id layer).ensures.mono ?_ ?_
    · rintro rows after ⟨rows_eq, recached⟩
      exact ⟨appended.updated fits recached, fun _ => (recached.gatherResult_eq id layer).trans rows_eq⟩
    · rintro message after ⟨message_eq, recached⟩
      exact ⟨appended.updated fits recached, (recached.gatherResult_eq id layer).trans message_eq⟩

theorem Quiet.memo_eq {before after : PagedPool} (quiet : Quiet before after) (id : SequenceId)
    (token : ℕ) : after.memo id token = before.memo id token := by
  rw [memo, memo, quiet.writable]

/-- The write phase of `update` on a table that is long enough. -/
theorem append_ensures {before grown : PagedPool} {shape : BlockShape} (quiet : Quiet before grown)
    (shape_eq : before.shape = shape) (positive : 0 < before.tokensPerBlock) {id : SequenceId}
    {start : ℕ} {tokens : List (TokenPair shape)} (keyBase valueBase : ℕ)
    (current : tokens ≠ [] → before.branched = true → before.memo id start = none)
    (write : PoolM Unit)
    (write_eq : write = if tokens.length = 1 then writeTokens id keyBase valueBase start tokens
      else writeBlocks id keyBase valueBase tokens.length start tokens) :
    Ensures write grown
      (fun _ after => Appended before after id start tokens keyBase valueBase)
      (fun _ after => Advances id before after ∧ (start + tokens.length ≤ 2 ^ 32 →
        start + tokens.length ≤ grown.capacity id → after.Exhausted)) := by
  have grown_shape : grown.shape = shape := (quiet.advances id).shape.trans shape_eq
  have grown_positive : 0 < grown.tokensPerBlock := by
    rw [(quiet.advances id).tokensPerBlock]
    exact positive
  have grown_current (some_left : tokens ≠ []) (stale : grown.branched = true) :
      grown.memo id start = none := by
    rw [quiet.memo_eq]
    exact current some_left (quiet.branched ▸ stale)
  subst write_eq
  split
  · rename_i single
    obtain ⟨token, rfl⟩ := List.length_eq_one_iff.mp single
    subst grown_shape
    refine (writeTokens_ensures quiet.coherent id keyBase valueBase start [token] grown_positive
      (grown_current (by simp))).mono ?_ ?_
    · rintro _ after ⟨wrote, fresh, ⟨frame, memo_eq⟩, inside⟩
      have stored := storeBlocks_one grown_positive keyBase valueBase start token
      refine quiet.appended (stored ▸ wrote) (fun _ => inside) fun _ =>
        ⟨fresh, start, frame, memo_eq, Nat.lt_succ_self start⟩
    · rintro _ after ⟨failed, reason⟩
      exact ⟨(quiet.advances id).trans (failed.advances id), reason⟩
  · by_cases empty : tokens = []
    · subst empty
      exact quiet.appended (.refl quiet.coherent id) (by simp) (by simp)
    · refine (writeBlocks_ensures grown_shape quiet.coherent id keyBase valueBase tokens.length start
        tokens le_rfl grown_positive (grown_current empty)).mono ?_ ?_
      · rintro _ after ⟨wrote, -, ended⟩
        obtain ⟨fresh, covered, memo⟩ := ended empty
        exact quiet.appended wrote (fun _ => covered) fun _ => ⟨fresh, memo⟩
      · rintro _ after ⟨failed, reason⟩
        exact ⟨(quiet.advances id).trans failed, reason⟩

/-- Why an `update` may raise: a frame is missing, or the rows cannot be read back. -/
def Blocked {shape : BlockShape} (before after : PagedPool) (id : SequenceId) (layer : ℕ)
    (tokens : List (TokenPair shape)) (message : String) : Prop :=
  ∀ start keyBase valueBase, before.lengthResult id layer = .ok start →
    (KVBlockLayout.mk shape).elementOffset layer .key 0 0 = some keyBase →
    (KVBlockLayout.mk shape).elementOffset layer .value 0 0 = some valueBase →
    before.Reservable id → before.Known → start + tokens.length ≤ 2 ^ 32 →
    after.Exhausted ∨ Updated before after id layer start tokens keyBase valueBase ∧
      after.gatherResult id layer = .error message

/-- A call of `update` that returned: the tokens are stored, and without the kernel it returned
everything the layer holds. -/
def Served {shape : BlockShape} (before after : PagedPool) (id : SequenceId) (layer : ℕ)
    (tokens : List (TokenPair shape)) (rows : List (List (List UInt8)) × List (List (List UInt8))) :
    Prop :=
  ∃ start keyBase valueBase, before.lengthResult id layer = .ok start ∧
    (KVBlockLayout.mk shape).elementOffset layer .key 0 0 = some keyBase ∧
    (KVBlockLayout.mk shape).elementOffset layer .value 0 0 = some valueBase ∧
    Updated before after id layer start tokens keyBase valueBase ∧
    (before.useKernel = false → after.gatherResult id layer = .ok rows)

theorem update_ensures {pool : PagedPool} {shape : BlockShape} (shape_eq : pool.shape = shape)
    (coherent : pool.Coherent) (id : SequenceId) (layer : ℕ) (tokens : List (TokenPair shape))
    (current : ∀ start, pool.lengthResult id layer = .ok start → tokens ≠ [] →
      pool.branched = true → pool.memo id start = none) :
    Ensures (update id layer tokens) pool
      (fun rows after => Served pool after id layer tokens rows)
      (fun message after => Advances id pool after ∧
        Blocked pool after id layer tokens message) := by
  unfold update
  refine ((layerLength_ensures pool id layer).mono (fun _ _ holds => holds) ?_).bind ?_
  · rintro message _ ⟨length_eq, rfl⟩
    refine ⟨.refl coherent id, ?_⟩
    intro start _ _ start_eq
    simp [length_eq] at start_eq
  · rintro start _ ⟨length_eq, rfl⟩
    refine ((streamBase_ensures _ layer .key).mono (fun _ _ holds => holds) ?_).bind ?_
    · rintro message _ ⟨key_eq, rfl⟩
      refine ⟨.refl coherent id, ?_⟩
      intro _ keyBase _ _ key_eq'
      simp [← shape_eq, key_eq] at key_eq'
    · rintro keyBase _ ⟨key_eq, rfl⟩
      refine ((streamBase_ensures _ layer .value).mono (fun _ _ holds => holds) ?_).bind ?_
      · rintro message _ ⟨value_eq, rfl⟩
        refine ⟨.refl coherent id, ?_⟩
        intro _ _ valueBase _ _ value_eq'
        simp [← shape_eq, value_eq] at value_eq'
      · rintro valueBase pool ⟨value_eq, rfl⟩
        rw [shape_eq] at key_eq value_eq
        refine ((ensureCapacity_ensures coherent id (start + tokens.length)).mono
          (fun _ _ holds => holds) ?_).bind ?_
        · rintro message after ⟨quiet, reason⟩
          exact ⟨quiet.advances id, fun _ _ _ _ _ _ reservable _ _ => Or.inl (reason reservable)⟩
        · rintro _ grown ⟨quiet, positive, covered⟩
          dsimp only
          have failed (message : String) (after : PagedPool)
              (raised : Advances id pool after ∧ (start + tokens.length ≤ 2 ^ 32 →
                start + tokens.length ≤ grown.capacity id → after.Exhausted)) :
              Advances id pool after ∧ Blocked pool after id layer tokens message := by
            refine ⟨raised.1, ?_⟩
            intro start' _ _ start_eq _ _ reservable known narrow
            obtain rfl : start = start' := by simpa [length_eq] using start_eq
            exact Or.inl (raised.2 narrow (covered reservable.1 known))
          have unread (message : String) (after : PagedPool)
              (raised : Updated pool after id layer start tokens keyBase valueBase ∧
                after.gatherResult id layer = .error message) :
              Advances id pool after ∧ Blocked pool after id layer tokens message := by
            refine ⟨raised.1.advances, ?_⟩
            intro start' keyBase' valueBase' start_eq key_eq' value_eq' _ _ _
            obtain rfl : start = start' := by simpa [length_eq] using start_eq
            obtain rfl : keyBase = keyBase' := Option.some.inj (key_eq.symm.trans key_eq')
            obtain rfl : valueBase = valueBase' := Option.some.inj (value_eq.symm.trans value_eq')
            exact Or.inr raised
          have finished (written : PagedPool)
              (appended : Appended pool written id start tokens keyBase valueBase) :=
            (finish_ensures coherent length_eq appended).mono
              (fun rows after holds => show Served pool after id layer tokens rows from
                ⟨start, keyBase, valueBase, length_eq, key_eq, value_eq, holds⟩)
              (fun message after holds => unread message after holds)
          split
          · rename_i single
            refine ((append_ensures quiet shape_eq positive keyBase valueBase
              (current start length_eq) _ (if_pos single).symm).mono (fun _ _ holds => holds)
              failed).bind ?_
            intro _ written appended
            exact finished written appended
          · rename_i several
            refine ((append_ensures quiet shape_eq positive keyBase valueBase
              (current start length_eq) _ (if_neg several).symm).mono (fun _ _ holds => holds)
              failed).bind ?_
            intro _ written appended
            exact finished written appended

/-! ## What other sequences gather -/

theorem gatherResult_of_frames {pool : PagedPool} {id : SequenceId} {layer length : ℕ}
    {frames : List PhysicalBlockId} (length_eq : pool.lengthResult id layer = .ok length)
    (frames_eq : pool.manager.framesOf id = some frames) (positive : 0 < pool.tokensPerBlock) :
    pool.gatherResult id layer = (do
      let table ← tensorOf (ceilDiv length pool.tokensPerBlock) frames
      let _ ← contextResult (ceilDiv length pool.tokensPerBlock * pool.tokensPerBlock)
      let index := table.take (ceilDiv length pool.tokensPerBlock)
      let keys ← streamResult pool.manager layer length index .key
      let values ← streamResult pool.manager layer length index .value
      return (keys, values)) := by
  rw [gatherResult, length_eq]
  change (do
    let inputs ← pool.inputsResult id (ceilDiv length pool.tokensPerBlock * pool.tokensPerBlock)
    let keys ← streamResult pool.manager layer length
      (inputs.1.take (ceilDiv length pool.tokensPerBlock)) .key
    let values ← streamResult pool.manager layer length
      (inputs.1.take (ceilDiv length pool.tokensPerBlock)) .value
    return (keys, values)) = _
  rw [inputsResult, if_neg positive.ne', tableResult_of_frames frames_eq, ceilDiv_mul positive]
  simp only [bind_assoc, pure_bind]

/-- Reading needs a table and blocks. -/
theorem framesOf_of_gather {pool : PagedPool} {id : SequenceId} {layer : ℕ}
    {rows : List (List (List UInt8)) × List (List (List UInt8))}
    (read : pool.gatherResult id layer = .ok rows) :
    0 < pool.tokensPerBlock ∧ (∃ length, pool.lengthResult id layer = .ok length) ∧
      ∃ frames, pool.manager.framesOf id = some frames := by
  rw [gatherResult] at read
  cases length_eq : pool.lengthResult id layer with
  | error message => simp [length_eq, bind, Except.bind] at read
  | ok length =>
      cases frames_eq : pool.manager.framesOf id with
      | none =>
          have unread : pool.tableResult id (ceilDiv (ceilDiv length pool.tokensPerBlock *
              pool.tokensPerBlock) pool.tokensPerBlock) =
              .error ("no cache view for sequence " ++ toString id) := by
            rw [tableResult, KVCacheManager.blockTableOf_framesOf, frames_eq]
            rfl
          simp only [length_eq, bind, Except.bind, inputsResult, unread] at read
          by_cases flat : pool.tokensPerBlock = 0
          · simp [flat] at read
          · simp [flat] at read
      | some frames =>
          refine ⟨Nat.pos_of_ne_zero ?_, ⟨length, rfl⟩, frames, rfl⟩
          intro flat
          simp [length_eq, bind, Except.bind, inputsResult, flat] at read

theorem streamResult_congr {before after : KVCacheManager}
    (config : after.allocator.config = before.allocator.config) {index : List PhysicalBlockId}
    (same : ∀ frame ∈ index, after.frameData frame = before.frameData frame) (layer length : ℕ)
    (stream : KVStream) :
    streamResult after layer length index stream = streamResult before layer length index stream := by
  have rows (shape : BlockShape) (base : ℕ) :
      (index.flatMap fun frame => frameRows shape (after.frameData frame) base) =
        index.flatMap fun frame => frameRows shape (before.frameData frame) base :=
    List.flatMap_congr fun frame member => by rw [same frame member]
  simp only [streamResult, config, rows]

/-- A call on one sequence leaves what the others gather. -/
theorem Advances.gather_eq {before after : PagedPool} {id : SequenceId} (coherent : before.Coherent)
    (advances : Advances id before after) {other : SequenceId} (different : other ≠ id)
    {layer : ℕ} {rows : List (List (List UInt8)) × List (List (List UInt8))}
    (read : before.gatherResult other layer = .ok rows) :
    after.gatherResult other layer = .ok rows := by
  obtain ⟨positive, ⟨length, length_eq⟩, frames, frames_eq⟩ := framesOf_of_gather read
  obtain ⟨longer, longer_eq, front, contents⟩ := advances.others other different frames frames_eq
  have size := advances.tokensPerBlock
  have length_eq' : after.lengthResult other layer = .ok length := by
    rw [lengthResult, advances.lengths other different]
    exact length_eq
  have inside : ceilDiv length before.tokensPerBlock ≤ frames.length := by
    rw [ceilDiv_le_iff positive, ← capacity_of_frames frames_eq]
    exact coherent.start_le length_eq
  have same_front : longer.take (ceilDiv length before.tokensPerBlock) =
      frames.take (ceilDiv length before.tokensPerBlock) := by
    obtain ⟨rest, rfl⟩ := front
    exact List.take_append_of_le_length inside
  have same_data : ∀ frame ∈ frames, after.manager.frameData frame =
      before.manager.frameData frame := by
    obtain ⟨rest, rfl⟩ := front
    rw [List.map_append] at contents
    have mapped := (List.prefix_of_prefix_length_le contents (List.prefix_append _ _)
      (by simp)).eq_of_length (by simp)
    exact fun frame member => (List.map_inj_left.mp mapped frame member).symm
  have same_table : tensorOf (ceilDiv length before.tokensPerBlock) longer =
      tensorOf (ceilDiv length before.tokensPerBlock) frames := by
    rw [tensorOf, tensorOf, same_front]
  rw [gatherResult_of_frames length_eq frames_eq positive] at read
  rw [gatherResult_of_frames length_eq' longer_eq (size ▸ positive), size, same_table]
  cases table_eq : tensorOf (ceilDiv length before.tokensPerBlock) frames with
  | error message =>
      rw [table_eq] at read
      exact read
  | ok table =>
      rw [table_eq] at read
      have indexed : ∀ frame ∈ table.take (ceilDiv length before.tokensPerBlock),
          after.manager.frameData frame = before.manager.frameData frame := by
        intro frame member
        rw [tensorOf] at table_eq
        split at table_eq
        · obtain rfl := Except.ok.inj table_eq
          exact same_data frame (List.mem_of_mem_take (List.mem_of_mem_take member))
        · simp at table_eq
      have ok_bind {α β : Type} (value : α) (next : α → Except String β) :
          (Except.ok value >>= next) = next value := rfl
      rw [← read]
      simp only [ok_bind, streamResult_congr advances.config indexed]

/-! ## Runs -/

/-- The memo does not answer for a sequence that was forked since the entry was made, and a fork
finds room for one more reference to every frame. -/
def Current {shape : BlockShape} (pool : PagedPool) : Op shape → Prop
  | .writableFrame id token => pool.branched = true → pool.memo id token = none
  | .update id layer tokens => ∀ start, pool.lengthResult id layer = .ok start → tokens ≠ [] →
      pool.branched = true → pool.memo id start = none
  | .fork _ _ => pool.Countable
  | .forkPagedCache _ _ => pool.Countable
  | _ => True

/-- The invariant over a pool of this configuration. -/
structure Settled (config : AllocatorConfig) (pool : PagedPool) : Prop where
  coherent : pool.Coherent
  config_eq : pool.manager.allocator.config = config

theorem Advances.settled {config : AllocatorConfig} {before after : PagedPool} {id : SequenceId}
    (settled : before.Settled config) (advances : Advances id before after) :
    after.Settled config :=
  ⟨advances.coherent, advances.config.trans settled.config_eq⟩

theorem Forked.settled {config : AllocatorConfig} {before after : PagedPool}
    {parentId childId : SequenceId} (settled : before.Settled config)
    (forked : Forked before after parentId childId) : after.Settled config :=
  ⟨forked.coherent, forked.manager.config.trans settled.config_eq⟩

/-- A child has the capacity of its parent. -/
theorem Forked.capacity_eq {before after : PagedPool} {parentId childId : SequenceId}
    (forked : Forked before after parentId childId) :
    after.capacity childId = before.capacity parentId := by
  obtain ⟨frames, parent_eq, child_eq⟩ := forked.manager.frames
  rw [capacity_of_frames parent_eq, capacity_of_frames child_eq, tokensPerBlock, shape,
    forked.manager.config]
  rfl

theorem Forked.untouched {before after : PagedPool} {parentId childId : SequenceId}
    (coherent : before.Coherent) (forked : Forked before after parentId childId)
    (id : SequenceId) : Untouched before after id := by
  intro frames found
  obtain ⟨same, contents⟩ := forked.manager.contents coherent.flat found
  exact ⟨frames, same, List.prefix_rfl, contents.symm ▸ List.prefix_rfl⟩

/-- The child of a cache has the lengths of its parent. -/
theorem forkPagedCache_ensures {pool : PagedPool} (coherent : pool.Coherent)
    (countable : pool.Countable) (parentId childId : SequenceId) :
    Ensures (forkPagedCache parentId childId) pool
      (fun _ after => ∃ forked lengths, Forked pool forked parentId childId ∧
        pool.layerLengths parentId = some lengths ∧ after.Coherent ∧
        after = { forked with
          layerLengths := Function.update pool.layerLengths childId (some lengths) })
      (fun _ after => after = pool ∧ ((pool.layerLengths parentId).getD [] ≠ [] →
        (pool.manager.framesOf parentId).isSome → (pool.manager.framesOf childId).isSome)) := by
  unfold forkPagedCache
  apply ensures_get
  dsimp only
  apply ensures_require
  · intro layered
    refine ((fork_ensures coherent countable parentId childId).mono (fun _ _ holds => holds)
      fun _ _ refused => ⟨refused.1, fun _ => refused.2⟩).bind ?_
    intro _ forked branch
    obtain ⟨lengths, lengths_eq⟩ : ∃ lengths, pool.layerLengths parentId = some lengths := by
      cases found : pool.layerLengths parentId with
      | none => simp [found] at layered
      | some lengths => exact ⟨lengths, rfl⟩
    have held : ∀ id values, Function.update pool.layerLengths childId (some lengths) id =
        some values → ∀ value ∈ values, value ≤ forked.capacity id := by
      intro id values found value member
      rcases update_eq_some found with ⟨rfl, new⟩ | ⟨-, old⟩
      · obtain rfl := Option.some.inj new
        rw [branch.capacity_eq]
        exact coherent.committed parentId lengths lengths_eq value member
      · exact branch.coherent.committed id values (branch.layerLengths ▸ old) value member
    have final_eq : ({ forked with
        layerLengths := Function.update forked.layerLengths childId
          (some ((pool.layerLengths parentId).getD [])) } : PagedPool) =
        { forked with
          layerLengths := Function.update pool.layerLengths childId (some lengths) } := by
      rw [branch.layerLengths, lengths_eq, Option.getD_some]
    have held_coherent := branch.coherent.relength held
    rw [← final_eq] at held_coherent
    exact ⟨forked, lengths, branch, lengths_eq, held_coherent, final_eq⟩
  · intro bare
    exact ⟨rfl, fun layered => absurd layered bare⟩

theorem settled_step {config : AllocatorConfig} {pool : PagedPool} (settled : pool.Settled config)
    {op : Op config.blockShape} (current : pool.Current op) : (pool.step op).Settled config := by
  have coherent := settled.coherent
  have shape_eq : pool.shape = config.blockShape := by rw [shape, settled.config_eq]
  cases op with
  | ensureCapacity id totalTokens =>
      exact (ensureCapacity_ensures coherent id totalTokens).final
        (fun _ _ quiet => (quiet.1.advances id).settled settled)
        fun _ _ quiet => (quiet.1.advances id).settled settled
  | writableFrame id token =>
      exact (writableFrame_ensures coherent id token current).final
        (fun _ _ granted => granted.advances.settled settled)
        fun _ _ quiet => (quiet.1.advances id).settled settled
  | decodeInputs id length =>
      exact ((decodeInputs_yields coherent.tables id length).2.advances coherent id).settled settled
  | fork parentId childId =>
      refine (fork_ensures coherent current parentId childId).final
        (fun _ _ forked => forked.settled settled) ?_
      rintro _ _ ⟨rfl, -⟩
      exact settled
  | forkPagedCache parentId childId =>
      refine (forkPagedCache_ensures coherent current parentId childId).final ?_ ?_
      · rintro _ _ ⟨forked, lengths, branch, -, coherent', rfl⟩
        exact ⟨coherent', (branch.settled settled).config_eq⟩
      · rintro _ _ ⟨rfl, -⟩
        exact settled
  | pagedLayers id =>
      refine ⟨coherent.relength ?_, settled.config_eq⟩
      intro other lengths found length member
      rcases update_eq_some found with ⟨-, new⟩ | ⟨-, old⟩
      · obtain rfl := Option.some.inj new
        rw [(List.mem_replicate.mp member).2]
        exact Nat.zero_le _
      · exact coherent.committed other lengths old length member
  | update id layer tokens =>
      refine (update_ensures shape_eq coherent id layer tokens current).final ?_ ?_
      · rintro _ _ ⟨_, _, _, -, -, -, updated, -⟩
        exact updated.advances.settled settled
      · rintro _ _ ⟨advances, -⟩
        exact advances.settled settled
  | reset id layer =>
      exact (withLength_advances coherent (Nat.zero_le _)).settled settled

theorem flat_root {config : AllocatorConfig} (layers : config.blockShape.layersPerFrame = 0) :
    ((KVCacheManager.create (.create config (fun _ => 0) none)).createSequence
      ⟨rootId, rootId⟩).2.Flat ∧
    ((KVCacheManager.create (.create config (fun _ => 0) none)).createSequence
      ⟨rootId, rootId⟩).2.allocator = .create config (fun _ => 0) none ∧
    ((KVCacheManager.create (.create config (fun _ => 0) none)).createSequence
      ⟨rootId, rootId⟩).2.framesOf spacerId = none ∧
    ((KVCacheManager.create (.create config (fun _ => 0) none)).createSequence
      ⟨rootId, rootId⟩).2.framesOf rootId = some [] := by
  have unused : (KVCacheManager.create (.create config (fun _ => 0) none)).framesOf
      (⟨rootId, rootId⟩ : SequenceMetadata).sequenceId = none := rfl
  obtain ⟨flat, allocator, root, others⟩ :=
    (KVCacheManager.flat_create layers fun _ => 0).createSequence unused
  refine ⟨flat, allocator, ?_, root⟩
  rw [others spacerId (by decide)]
  rfl

/-- A new pool holds the root and, to scatter its blocks, the spacer. -/
theorem manager_create {config : AllocatorConfig} (layers : config.blockShape.layersPerFrame = 0)
    (scatter useKernel : Bool) :
    (create config scatter useKernel).manager.Flat ∧
      (create config scatter useKernel).manager.allocator.config = config ∧
      (create config scatter useKernel).manager.framesOf rootId = some [] ∧
      (scatter = true →
        (create config scatter useKernel).manager.framesOf spacerId = some []) := by
  obtain ⟨flat, allocator, unused, root⟩ := flat_root layers
  cases scatter with
  | false =>
      refine ⟨flat, ?_, root, by simp⟩
      exact congrArg MemoryAllocator.config allocator
  | true =>
      have spacer_unused : ((KVCacheManager.create (.create config (fun _ => 0)
          none)).createSequence ⟨rootId, rootId⟩).2.framesOf
            (⟨spacerId, spacerId⟩ : SequenceMetadata).sequenceId = none := unused
      obtain ⟨flat', allocator', spacer, others⟩ := flat.createSequence spacer_unused
      refine ⟨flat', ?_, (others rootId (by decide)).trans root, fun _ => spacer⟩
      exact congrArg MemoryAllocator.config (allocator'.trans allocator)

/-- A new pool is in order. -/
theorem settled_create {config : AllocatorConfig} (layers : config.blockShape.layersPerFrame = 0)
    (scatter useKernel : Bool) : (create config scatter useKernel).Settled config := by
  obtain ⟨flat, config_eq, -, -⟩ := manager_create layers scatter useKernel
  refine ⟨⟨flat, ⟨by simp [create], by simp [create], by simp [create]⟩, by simp [create],
    by simp [create], ?_⟩, config_eq⟩
  intro id lengths found length member
  change Function.update (fun _ => none) rootId
    (some (List.replicate config.blockShape.numLayers 0)) id = some lengths at found
  rcases update_eq_some found with ⟨-, new⟩ | ⟨-, missing⟩
  · obtain rfl := Option.some.inj new
    rw [(List.mem_replicate.mp member).2]
    exact Nat.zero_le _
  · simp at missing

theorem settled_run {config : AllocatorConfig} (layers : config.blockShape.layersPerFrame = 0)
    (scatter useKernel : Bool) {ops : List (Op config.blockShape)}
    (current : Execution.Along step Current (create config scatter useKernel) ops) :
    ((create config scatter useKernel).run ops).Settled config := by
  have kept (pool : PagedPool) (op : Op config.blockShape) (settled : pool.Settled config)
      (guarded : pool.Current op) : (pool.step op).Settled config := settled_step settled guarded
  exact Execution.Along.invariant kept (settled_create layers scatter useKernel) current

/-- In every run in which the memo never answers for a sequence forked since the entry was made,
every frame that `writable_frame` returned was the sequence's own, and an `update` of one sequence
leaves what every other sequence gathers. -/
theorem writable_frames_sole_while_memo_current {config : AllocatorConfig}
    (layers : config.blockShape.layersPerFrame = 0) (scatter useKernel : Bool)
    (ops : List (Op config.blockShape))
    (current : Execution.Along step Current (create config scatter useKernel) ops) :
    (∀ grant ∈ ((create config scatter useKernel).run ops).grants, grant.Sole) ∧
      ∀ id layer (tokens : List (TokenPair config.blockShape)),
        Current ((create config scatter useKernel).run ops) (.update id layer tokens) →
        ∀ child, child ≠ id → ∀ childLayer rows,
          (outcome (gather child childLayer) ((create config scatter useKernel).run ops)).1 =
            .ok rows →
          (outcome (gather child childLayer)
            (((create config scatter useKernel).run ops).step (.update id layer tokens))).1 =
              .ok rows := by
  have settled := settled_run layers scatter useKernel current
  generalize (create config scatter useKernel).run ops = pool at settled
  refine ⟨settled.coherent.sole, ?_⟩
  intro id layer tokens guarded child different childLayer rows read
  have shape_eq : pool.shape = config.blockShape := by rw [shape, settled.config_eq]
  have advances : Advances id pool (pool.step (.update id layer tokens)) := by
    refine (update_ensures shape_eq settled.coherent id layer tokens guarded).final ?_ ?_
    · rintro _ _ ⟨_, _, _, -, -, -, updated, -⟩
      exact updated.advances
    · rintro _ _ ⟨advances, -⟩
      exact advances
  rw [(gather_yields settled.coherent.tables child childLayer).1] at read
  rw [(gather_yields advances.coherent.tables child childLayer).1]
  exact advances.gather_eq settled.coherent different read

theorem single_byte_length (value : UInt8) : [[value]].length = 1 * 1 := rfl

theorem single_byte_sized (value : UInt8) : ∀ element ∈ [[value]], element.length = 1 := by
  simp

/-- One token of one head with one element of one byte. -/
def byteRow (value : UInt8) : TokenRow ⟨2, 1, 1, 1, 1, 0⟩ :=
  ⟨[[value]], single_byte_length value, single_byte_sized value⟩

/-- A cache of blocks of two tokens. -/
def pairConfig : AllocatorConfig where
  blockShape := ⟨2, 1, 1, 1, 1, 0⟩
  alignmentBytes := kDefaultBlockAlignmentBytes
  maxBlocks := 4
  maxBlocks_lt := four_lt_word

/-- The parent stores a token, is forked and stores another one behind it. -/
def forkThenExtend : List (Op pairConfig.blockShape) :=
  [.update rootId 0 [(byteRow 1, byteRow 2)], .forkPagedCache rootId 2,
    .update rootId 0 [(byteRow 5, byteRow 6)]]

/-- The parent stores a token, is forked and starts over. -/
def forkThenReset : List (Op pairConfig.blockShape) :=
  [.update rootId 0 [(byteRow 1, byteRow 2)], .forkPagedCache rootId 2, .reset rootId 0,
    .update rootId 0 [(byteRow 5, byteRow 6)]]

/-- Few blocks are referenced few times. -/
theorem countable_of_few {pool : PagedPool}
    (few : pool.manager.liveEntries.length + pool.manager.pinnedIds.length + 1 < 2 ^ 32) :
    pool.Countable := by
  intro frame
  have mapped := List.countP_le_length (p := fun entry : BlockTableEntry =>
    entry.swapSlot.isNone && entry.physicalId == frame) (l := pool.manager.liveEntries)
  have pinned := List.count_le_length (a := frame) (l := pool.manager.pinnedIds)
  rw [KVCacheManager.references, KVCacheManager.mappings]
  omega

theorem writable_frames_sole_behind_fork :
    Execution.Along step Current (create pairConfig false false) forkThenExtend ∧
      (∀ grant ∈ ((create pairConfig false false).run forkThenExtend).grants, grant.Sole) ∧
      ((create pairConfig false false).run forkThenExtend).grants.length = 2 := by
  have current : Execution.Along step Current (create pairConfig false false) forkThenExtend := by
    refine ⟨?_, countable_of_few (by decide +kernel), ?_, trivial⟩
    · intro _ _ _ stale
      exact absurd stale (by decide +kernel)
    · intro start found _ _
      have behind : lengthResult ((create pairConfig false false).run (forkThenExtend.take 2))
          rootId 0 = .ok 1 := by decide +kernel
      obtain rfl : 1 = start := Except.ok.inj (behind.symm.trans found)
      decide +kernel
  exact ⟨current, (writable_frames_sole_while_memo_current rfl false false forkThenExtend
    current).1, by decide +kernel⟩

/-- A parent that starts over writes through the frame it shares with its child. -/
theorem writable_frame_shared_after_reset :
    ¬ (∀ grant ∈ ((create pairConfig false false).run forkThenReset).grants, grant.Sole) ∧
      (outcome (gather 2 0) ((create pairConfig false false).run (forkThenReset.take 3))).1 =
        .ok ([[[1]]], [[[2]]]) ∧
      (outcome (gather 2 0) ((create pairConfig false false).run forkThenReset)).1 =
        .ok ([[[5]]], [[[6]]]) := by
  have shared : ∃ grant ∈ ((create pairConfig false false).run forkThenReset).grants,
      grant.manager.allocator.refCount grant.frame = 2 := by
    decide +kernel
  refine ⟨?_, by decide +kernel, by decide +kernel⟩
  intro sole
  obtain ⟨grant, member, twice⟩ := shared
  obtain ⟨_, _, _, once⟩ := (sole grant member).exclusive
  omega

end PagedPool
end QwenVLPaged
