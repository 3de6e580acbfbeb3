import QwenVLPaged.Conservation
import QwenVLPaged.HeldFrames

/-!
# Writable flags

A block is mapped with its writable flag set, a fork clears the flags of the child and an attached
block has its flag cleared. Nothing clears the flags of the parent or of the publisher, so the
flags stay true to the reference counts exactly as long as no block gets shared.
-/

namespace QwenVLPaged

namespace KVCacheManager

/-- Who is marked writable on a resident frame is the only one that maps or pins it. -/
def Honest (manager : KVCacheManager) : Prop :=
  ∀ entry ∈ manager.liveEntries, entry.swapSlot = none → entry.writable = true →
    manager.allocator.refCount entry.physicalId = 1 ∧ manager.references entry.physicalId = 1

instance decidableHonest (manager : KVCacheManager) : Decidable manager.Honest :=
  inferInstanceAs (Decidable (∀ entry ∈ manager.liveEntries, _))

/-- The call shares no block: a forked sequence has none, and no prefix record is opened. -/
def KeepsApart (manager : KVCacheManager) : CacheOp → Prop
  | .forkSequence parentId childMetadata =>
      ∀ parent, manager.sequences.lookup parentId = some parent →
        manager.sequences.lookup childMetadata.sequenceId = none →
        anySwapped parent.tables = false → parent.tables.flatMap (·.entries) = []
  | .publishPrefix sequenceId key => ∀ state, ¬ OpensRecord manager sequenceId key state
  | _ => True

/-- Nothing is shared: every block is marked writable and no prefix is published. -/
structure Apart (manager : KVCacheManager) : Prop where
  sound : manager.Sound
  covered : manager.Covered true
  unpublished : manager.prefixIndex = ∅
  marked : ∀ entry ∈ manager.liveEntries, entry.writable = true

theorem references_pos {manager : KVCacheManager} {entry : BlockTableEntry}
    (member : entry ∈ manager.liveEntries) (resident : entry.swapSlot = none) :
    0 < manager.references entry.physicalId := by
  refine Nat.add_pos_left (List.countP_pos_iff.mpr ⟨entry, member, ?_⟩) _
  simp [resident]

theorem Covered.single {manager : KVCacheManager} (covered : manager.Covered true)
    {entry : BlockTableEntry} (member : entry ∈ manager.liveEntries)
    (resident : entry.swapSlot = none) (marked : entry.writable = true) :
    manager.allocator.refCount entry.physicalId = 1 := by
  have held : holdingOf true entry ∈ manager.holdings true := by
    refine List.mem_append_left _ (List.mem_map_of_mem (List.mem_filter.mpr ⟨member, ?_⟩))
    simp [resident]
  exact MemoryAllocator.Holds.single covered _ held (by simp [holdingOf, marked])

theorem Covered.honest {manager : KVCacheManager} (covered : manager.Covered true) :
    manager.Honest := by
  intro entry member resident marked
  have single := covered.single member resident marked
  have most := covered.references_le (by rw [single]; exact one_ne_zero)
  rw [single] at most
  exact ⟨single, Nat.le_antisymm most (references_pos member resident)⟩

/-! ## Calls that share nothing -/

theorem marked_insert {before after : KVCacheManager} {id : SequenceId} {state : SequenceState}
    (marked : ∀ entry ∈ before.liveEntries, entry.writable = true)
    (sequences : after.sequences = before.sequences.insert id state)
    (own : ∀ entry ∈ state.tables.flatMap (·.entries), entry.writable = true) :
    ∀ entry ∈ after.liveEntries, entry.writable = true := by
  intro entry member
  obtain ⟨other, found, lookup, inside⟩ := mem_liveEntries.mp member
  rw [AList.lookup_inserted sequences] at lookup
  split at lookup
  · exact own entry (Option.some.inj lookup ▸ inside)
  · exact marked entry (mem_liveEntries.mpr ⟨other, found, lookup, inside⟩)

theorem Apart.of_insert {before after : KVCacheManager} (apart : before.Apart) {id : SequenceId}
    {state : SequenceState} (sound : after.Sound) (covered : after.Covered true)
    (sequences : after.sequences = before.sequences.insert id state)
    (prefixIndex : after.prefixIndex = before.prefixIndex)
    (own : ∀ entry ∈ state.tables.flatMap (·.entries), entry.writable = true) : after.Apart :=
  ⟨sound, covered, prefixIndex.trans apart.unpublished, marked_insert apart.marked sequences own⟩

theorem Apart.own {manager : KVCacheManager} (apart : manager.Apart) {id : SequenceId}
    {state : SequenceState} (found : manager.sequences.lookup id = some state) :
    ∀ entry ∈ state.tables.flatMap (·.entries), entry.writable = true :=
  fun entry member => apart.marked entry (mem_liveEntries.mpr ⟨id, state, found, member⟩)

theorem marked_around {front back : List BlockTableEntry} {old new : BlockTableEntry}
    (marked : ∀ entry ∈ front ++ old :: back, entry.writable = true)
    (same : old.writable = true → new.writable = true) :
    ∀ entry ∈ front ++ new :: back, entry.writable = true := by
  intro entry member
  simp only [List.mem_append, List.mem_cons] at member marked
  rcases member with early | rfl | late
  · exact marked entry (Or.inl early)
  · exact same (marked old (Or.inr (Or.inl rfl)))
  · exact marked entry (Or.inr (Or.inr late))

theorem Apart.reserveTokens {manager : KVCacheManager} (apart : manager.Apart)
    (sequenceId : SequenceId) (tokenCount : ℕ) :
    (manager.reserveTokens sequenceId tokenCount).2.Apart := by
  have sound := (apart.sound.reserveTokens sequenceId tokenCount).sound
  have covered := apart.covered.reserveTokens sequenceId tokenCount
  unfold KVCacheManager.reserveTokens at sound covered ⊢
  cases found : manager.sequences.lookup sequenceId with
  | none => exact apart
  | some state =>
      simp only [found] at sound covered ⊢
      split
      · exact apart
      · rename_i blocky
        rw [if_neg blocky] at sound covered
        split
        · exact apart
        · rename_i enough
          rw [if_neg enough] at sound covered
          refine apart.of_insert sound covered rfl rfl ?_
          refine reserveTables_rule
            (motive := fun _ entries => ∀ entry ∈ entries, entry.writable = true) ?_
            sequenceId _ _ (apart.own found)
          intro _ _ front replaced back logical id before _ entry member
          simp only [List.mem_append, List.mem_cons] at member before
          rcases member with early | rfl | late
          · exact before entry (Or.inl (Or.inl early))
          · rfl
          · exact before entry (Or.inr late)

theorem Apart.swapOutSequence {manager : KVCacheManager} (apart : manager.Apart)
    (sequenceId : SequenceId) : (manager.swapOutSequence sequenceId).2.Apart := by
  have sound := apart.sound.swapOutSequence sequenceId
  have covered := apart.covered.swapOutSequence apart.sound sequenceId
  unfold KVCacheManager.swapOutSequence at sound covered ⊢
  cases found : manager.sequences.lookup sequenceId with
  | none => exact apart
  | some state =>
      simp only [found] at sound covered ⊢
      refine apart.of_insert sound covered rfl rfl ?_
      refine swapOutTables_rule
        (motive := fun _ entries => ∀ entry ∈ entries, entry.writable = true)
        (fun _ _ front entry back slot before _ _ => marked_around before fun same => same)
        (fun table member => (apart.sound.regular sequenceId state found table member).indexed)
        (apart.own found)

theorem Apart.swapInSequence {manager : KVCacheManager} (apart : manager.Apart)
    (sequenceId : SequenceId) : (manager.swapInSequence sequenceId).2.Apart := by
  have sound := (apart.sound.swapInSequence sequenceId).sound
  have covered := apart.covered.swapInSequence apart.sound sequenceId
  unfold KVCacheManager.swapInSequence at sound covered ⊢
  cases found : manager.sequences.lookup sequenceId with
  | none => exact apart
  | some state =>
      simp only [found] at sound covered ⊢
      split
      · exact apart
      · rename_i some_swapped
        rw [if_neg some_swapped] at sound covered
        split
        · exact apart
        · rename_i enough
          rw [if_neg enough] at sound covered
          refine apart.of_insert sound covered rfl rfl ?_
          refine swapInTables_rule
            (motive := fun _ entries => ∀ entry ∈ entries, entry.writable = true)
            ⟨fun _ _ front entry back slot id before _ _ => marked_around before fun same => same,
              fun _ _ _ _ before _ => before⟩
            (fun table member => (apart.sound.regular sequenceId state found table member).indexed)
            (apart.own found)


theorem Apart.createSequence {manager : KVCacheManager} (apart : manager.Apart)
    (metadata : SequenceMetadata) : (manager.createSequence metadata).2.Apart := by
  have sound := (apart.sound.createSequence metadata).sound
  have covered := apart.covered.createSequence metadata
  unfold KVCacheManager.createSequence at sound covered ⊢
  split
  · exact apart
  · rename_i unused
    rw [if_neg unused] at sound covered
    refine apart.of_insert sound covered rfl rfl ?_
    simp [BlockTable.create]

theorem Apart.forkSequence {manager : KVCacheManager} (apart : manager.Apart)
    (parentId : SequenceId) (childMetadata : SequenceMetadata)
    (keeps : manager.KeepsApart (.forkSequence parentId childMetadata)) :
    (manager.forkSequence parentId childMetadata).2.Apart := by
  have sound := (apart.sound.forkSequence parentId childMetadata).sound
  have covered := apart.covered.forkSequence parentId childMetadata (by
    intro parent found absent whole
    simp [keeps parent found absent whole])
  unfold KVCacheManager.forkSequence at sound covered ⊢
  cases found : manager.sequences.lookup parentId with
  | none => exact apart
  | some parent =>
      simp only [found] at sound covered ⊢
      split
      · exact apart
      · rename_i unused
        rw [if_neg unused] at sound covered
        split
        · exact apart
        · rename_i unswapped
          rw [if_neg unswapped] at sound covered
          have empty := keeps parent found (by simpa using unused) (by simpa using unswapped)
          refine apart.of_insert sound covered rfl rfl ?_
          rw [entries_fork, empty]
          simp

theorem addressed_mem {manager : KVCacheManager} {sequenceId : SequenceId} {token layer : ℕ}
    {entry : BlockTableEntry} (sound : manager.Sound)
    (here : manager.addressed sequenceId token layer = some entry) :
    entry ∈ manager.liveEntries := by
  simp only [addressed, Option.bind_eq_bind, Option.bind_eq_some_iff] at here
  obtain ⟨state, found, table, table_eq, front, -, entry_eq⟩ := here
  have table_mem := List.mem_of_getElem? table_eq
  rw [(sound.regular sequenceId state found table table_mem).indexed.entry_eq] at entry_eq
  exact mem_liveEntries.mpr ⟨sequenceId, state, found,
    List.mem_flatMap.mpr ⟨table, table_mem, List.mem_of_getElem? entry_eq⟩⟩

theorem Apart.referenced {manager : KVCacheManager} (apart : manager.Apart)
    (sequenceId : SequenceId) (token layer : ℕ) {entry : BlockTableEntry}
    (here : manager.addressed sequenceId token layer = some entry)
    (resident : entry.swapSlot = none) : manager.allocator.refCount entry.physicalId ≠ 0 := by
  have member := addressed_mem apart.sound here
  rw [apart.covered.single member resident (apart.marked entry member)]
  exact one_ne_zero

theorem Apart.ensureTokenWritable {manager : KVCacheManager} (apart : manager.Apart)
    (sequenceId : SequenceId) (token layer : ℕ) :
    (manager.ensureTokenWritable sequenceId token layer).2.Apart := by
  have sound := (apart.sound.ensureTokenWritable sequenceId token layer).sound
  have covered := apart.covered.ensureTokenWritable apart.sound sequenceId token layer
    fun _ _ here resident => apart.referenced sequenceId token layer here resident
  rcases ensureTokenWritable_effect apart.sound sequenceId token layer with
    same | ⟨state, table, index, entry, frame, -, made⟩
  · rw [same]
    exact apart
  · refine apart.of_insert sound covered made.sequences made.prefixIndex ?_
    obtain ⟨front, back, old, new⟩ := entries_privatized made.table_eq made.entry_eq frame
    have own := apart.own made.found
    rw [old] at own
    rw [new]
    exact marked_around own fun _ => rfl

theorem Apart.writeToken {manager : KVCacheManager} (apart : manager.Apart)
    (sequenceId : SequenceId) (token layer : ℕ) (stores : List TokenStore) :
    (manager.writeToken sequenceId token layer stores).2.Apart := by
  have ensured := apart.ensureTokenWritable sequenceId token layer
  have sound := (apart.sound.writeToken sequenceId token layer stores).sound
  have covered := apart.covered.writeToken apart.sound sequenceId token layer stores
    fun _ _ here resident => apart.referenced sequenceId token layer here resident
  unfold KVCacheManager.writeToken at sound covered ⊢
  rcases run_eq : manager.ensureTokenWritable sequenceId token layer with ⟨_ | frame, after⟩
  · rwa [run_eq] at ensured
  · rw [run_eq] at ensured sound covered
    exact ⟨sound, covered, ensured.unpublished, ensured.marked⟩

theorem Apart.publishPrefix {manager : KVCacheManager} (apart : manager.Apart)
    (sequenceId : SequenceId) (key : String)
    (keeps : manager.KeepsApart (.publishPrefix sequenceId key)) :
    (manager.publishPrefix sequenceId key).2.Apart := by
  have records : manager.prefixIndex.lookup key = none := by simp [apart.unpublished]
  simp only [KVCacheManager.publishPrefix, records]
  split
  · exact apart
  · rename_i keyed
    cases found : manager.sequences.lookup sequenceId with
    | none => exact apart
    | some state =>
        simp only
        split
        · exact apart
        · rename_i nonempty
          split
          · exact apart
          · rename_i unnamed
            split
            · exact apart
            · rename_i blocky
              split
              · exact apart
              · rename_i unswapped
                refine absurd ?_ (keeps state)
                exact ⟨keyed, found, by simpa using nonempty, unnamed, blocky,
                  by simpa using unswapped, by simp [recordsAt, records]⟩

theorem Apart.attachPrefix {manager : KVCacheManager} (apart : manager.Apart)
    (sequenceId : SequenceId) (key : String) : (manager.attachPrefix sequenceId key).2.Apart := by
  have records : manager.prefixIndex.lookup key = none := by simp [apart.unpublished]
  simp only [KVCacheManager.attachPrefix, records]
  repeat' split
  all_goals exact apart

theorem Apart.releaseSequence {manager : KVCacheManager} (apart : manager.Apart)
    (sequenceId : SequenceId) : (manager.releaseSequence sequenceId).Apart := by
  refine ⟨(apart.sound.releaseSequence sequenceId).sound,
    apart.covered.releaseSequence sequenceId, ?_, ?_⟩
  · have dropped (state : SequenceState) :
        (manager.dropPrefixUser state).1.prefixIndex = ∅ := by
      simp [dropPrefixUser, apart.unpublished, apply_ite]
    unfold KVCacheManager.releaseSequence
    split
    · exact apart.unpublished
    · simp [dropped]
  · intro entry member
    rw [liveEntries, sequences_releaseSequence] at member
    obtain ⟨id, state, found, inside⟩ := AList.mem_gather.mp member
    by_cases same : id = sequenceId
    · rw [same, AList.lookup_erase] at found
      simp at found
    · rw [AList.lookup_erase_ne same] at found
      exact apart.marked entry (mem_liveEntries.mpr ⟨id, state, found, inside⟩)

theorem apart_step {manager : KVCacheManager} (apart : manager.Apart) {op : CacheOp}
    (keeps : manager.KeepsApart op) : (manager.step op).Apart := by
  cases op with
  | createSequence metadata => exact apart.createSequence metadata
  | forkSequence parentId childMetadata => exact apart.forkSequence parentId childMetadata keeps
  | reserveTokens sequenceId tokenCount => exact apart.reserveTokens sequenceId tokenCount
  | ensureTokenWritable sequenceId token layer =>
      exact apart.ensureTokenWritable sequenceId token layer
  | writeToken sequenceId token layer stores =>
      exact apart.writeToken sequenceId token layer stores
  | swapOutSequence sequenceId => exact apart.swapOutSequence sequenceId
  | swapOutRequest requestId =>
      exact swapOutSequences_induction (fun _ id holds => holds.swapOutSequence id) apart _
  | swapInSequence sequenceId => exact apart.swapInSequence sequenceId
  | swapInRequest requestId =>
      exact swapInRequest_induction (fun _ id holds => holds.swapInSequence id) apart requestId
  | publishPrefix sequenceId key => exact apart.publishPrefix sequenceId key keeps
  | attachPrefix sequenceId key => exact apart.attachPrefix sequenceId key
  | releaseSequence sequenceId => exact apart.releaseSequence sequenceId
  | releaseRequest requestId =>
      exact releaseRequest_induction (fun _ id holds => holds.releaseSequence id) apart requestId

/-! ## Calls that share -/

/-- A resident block whose frame somebody else holds as well gives its flag the lie. -/
theorem not_honest_of_shared {manager : KVCacheManager} (covered : manager.Covered false)
    (entry : BlockTableEntry) (member : entry ∈ manager.liveEntries)
    (resident : entry.swapSlot = none) (marked : entry.writable = true)
    (shared : 1 < manager.references entry.physicalId) : ¬ manager.Honest := by
  intro honest
  have single := (honest entry member resident marked).1
  have most := covered.references_le (by rw [single]; exact one_ne_zero)
  omega

theorem not_honest_fork {manager : KVCacheManager} (apart : manager.Apart)
    {parentId : SequenceId} {childMetadata : SequenceMetadata}
    (shares : ¬ manager.KeepsApart (.forkSequence parentId childMetadata)) :
    ¬ (manager.step (.forkSequence parentId childMetadata)).Honest := by
  simp only [KeepsApart, not_forall] at shares
  obtain ⟨parent, found, absent, whole, blocks⟩ := shares
  obtain ⟨entry, member⟩ := List.exists_mem_of_ne_nil _ blocks
  have resident := resident_of_whole whole member
  have live := mem_liveEntries.mpr ⟨parentId, parent, found, member⟩
  have covered := covered_step apart.sound apart.covered.unflagged
    (.forkSequence parentId childMetadata)
  have forked : (manager.forkSequence parentId childMetadata).2.liveEntries =
      (parent.tables.flatMap (·.entries)).map (fun entry =>
        { entry with
          writable := false
          logical := { entry.logical with sequenceId := childMetadata.sequenceId } }) ++
        manager.liveEntries := by
    simp only [KVCacheManager.forkSequence, found, absent, whole, liveEntries, indexSequence,
      Option.isSome_none, Bool.false_eq_true, if_false, AList.gather_insert, entries_fork,
      AList.erase_of_lookup_none absent]
  refine not_honest_of_shared covered entry ?_ resident (apart.marked entry live) ?_
  · rw [step, forked]
    exact List.mem_append_right _ live
  · rw [step, references, mappings, forked, List.countP_append]
    have child : 0 < ((parent.tables.flatMap (·.entries)).map (fun entry =>
        { entry with
          writable := false
          logical := { entry.logical with sequenceId := childMetadata.sequenceId } })).countP
        fun other => other.swapSlot.isNone && other.physicalId == entry.physicalId :=
      List.countP_pos_iff.mpr ⟨_, List.mem_map_of_mem member, by simp [resident]⟩
    have own : 0 < manager.liveEntries.countP
        fun other => other.swapSlot.isNone && other.physicalId == entry.physicalId :=
      List.countP_pos_iff.mpr ⟨entry, live, by simp [resident]⟩
    omega

theorem not_honest_publish {manager : KVCacheManager} (apart : manager.Apart)
    {sequenceId : SequenceId} {key : String}
    (shares : ¬ manager.KeepsApart (.publishPrefix sequenceId key)) :
    ¬ (manager.step (.publishPrefix sequenceId key)).Honest := by
  simp only [KeepsApart, not_forall, not_not] at shares
  obtain ⟨state, opens⟩ := shares
  have covered := covered_step apart.sound apart.covered.unflagged (.publishPrefix sequenceId key)
  have records : manager.prefixIndex.lookup key = none := by simp [apart.unpublished]
  have nonempty : state.textTable.entries.isEmpty = false := by simpa using opens.nonempty
  obtain ⟨entry, text⟩ := List.exists_mem_of_ne_nil _ opens.nonempty
  have member : entry ∈ state.tables.flatMap (·.entries) :=
    List.mem_flatMap.mpr ⟨state.textTable, SequenceState.textTable_mem text, text⟩
  have resident := resident_of_whole opens.whole member
  have live := mem_liveEntries.mpr ⟨sequenceId, state, opens.found, member⟩
  have published : (manager.publishPrefix sequenceId key).2 =
      { manager with
        allocator := retainAll manager.allocator (physicalIdsOf state.tables)
        sequences := manager.sequences.insert sequenceId
          { state with prefixKey := key, prefixHash := manager.contentHashOf state.tables }
        prefixIndex := manager.prefixIndex.insert key
          [⟨manager.contentHashOf state.tables,
            wrap32 (state.textTable.size * manager.tokensPerBlock), 1,
            physicalIdsOf state.tables⟩] } := by
    simp [KVCacheManager.publishPrefix, opens.keyed, opens.found, nonempty, opens.unnamed,
      opens.blocky, opens.whole, records]
  have live_after : entry ∈ (manager.publishPrefix sequenceId key).2.liveEntries := by
    rw [published]
    exact (liveEntries_perm_named opens.found _ _).mem_iff.mpr live
  have pinned : entry.physicalId ∈ (manager.publishPrefix sequenceId key).2.pinnedIds := by
    rw [published, pinnedIds_insert rfl]
    refine List.mem_append_left _ ?_
    rw [List.flatMap_singleton, physicalIdsOf_eq]
    exact List.mem_map_of_mem member
  refine not_honest_of_shared covered entry live_after resident (apart.marked entry live) ?_
  have mapped : 0 < (manager.publishPrefix sequenceId key).2.mappings entry.physicalId :=
    List.countP_pos_iff.mpr ⟨entry, live_after, by simp [resident]⟩
  have counted := List.count_pos_iff.mpr pinned
  rw [step, references]
  omega

theorem not_honest_step {manager : KVCacheManager} (apart : manager.Apart) {op : CacheOp}
    (shares : ¬ manager.KeepsApart op) : ¬ (manager.step op).Honest := by
  cases op with
  | forkSequence parentId childMetadata => exact not_honest_fork apart shares
  | publishPrefix sequenceId key => exact not_honest_publish apart shares
  | _ => exact absurd trivial shares

/-! ## Whole runs -/

theorem apart_fresh (config : AllocatorConfig) (slab : ℕ → UInt8) (maxSlots : ℕ) :
    (fresh config slab maxSlots).Apart :=
  ⟨sound_fresh config slab maxSlots, covered_fresh true config slab maxSlots, rfl, by
    simp [liveEntries, fresh, create]⟩

theorem honest_run {manager : KVCacheManager} (apart : manager.Apart) {ops : List CacheOp}
    (keeps : Execution.Along step KeepsApart manager ops) (count : ℕ) :
    (manager.run (ops.take count)).Honest := by
  rw [← List.take_append_drop count ops, Execution.along_append] at keeps
  have kept (state : KVCacheManager) (op : CacheOp) (before : state.Apart)
      (guarded : state.KeepsApart op) : (state.step op).Apart := apart_step before guarded
  exact (Execution.Along.invariant kept apart keeps.1).covered.honest

theorem keepsApart_of_honest {manager : KVCacheManager} (apart : manager.Apart)
    {ops : List CacheOp} (honest : ∀ count, (manager.run (ops.take count)).Honest) :
    Execution.Along step KeepsApart manager ops := by
  induction ops generalizing manager with
  | nil => trivial
  | cons op ops induction =>
      have keeps : manager.KeepsApart op := by
        by_contra shares
        exact not_honest_step apart shares (by simpa [run] using honest 1)
      exact ⟨keeps, induction (apart_step apart keeps) fun count => honest (count + 1)⟩

/-- Along every run, the writable flags are true to the reference counts in every state exactly
when no step forks a sequence with blocks or opens a prefix record. -/
theorem writable_flags_honest_iff_unshared (config : AllocatorConfig) (slab : ℕ → UInt8)
    (maxSlots : ℕ) (ops : List CacheOp) :
    (∀ count, ((fresh config slab maxSlots).run (ops.take count)).Honest) ↔
      Execution.Along step KeepsApart (fresh config slab maxSlots) ops :=
  ⟨keepsApart_of_honest (apart_fresh config slab maxSlots),
    fun keeps count => honest_run (apart_fresh config slab maxSlots) keeps count⟩

/-- After a fork the block of the parent is still marked writable, on a frame with two
references. -/
theorem writable_flag_stale_after_fork :
    ¬ ((fresh smallConfig (fun _ => 0) 4).run
        [.createSequence ⟨1, 1⟩, .reserveTokens 1 1, .forkSequence 1 ⟨2, 1⟩]).Honest ∧
      ∃ entry ∈ ((fresh smallConfig (fun _ => 0) 4).run
          [.createSequence ⟨1, 1⟩, .reserveTokens 1 1, .forkSequence 1 ⟨2, 1⟩]).liveEntries,
        entry.swapSlot = none ∧ entry.writable = true ∧
          ((fresh smallConfig (fun _ => 0) 4).run
            [.createSequence ⟨1, 1⟩, .reserveTokens 1 1,
              .forkSequence 1 ⟨2, 1⟩]).allocator.refCount entry.physicalId = 2 := by
  decide +kernel

end KVCacheManager
end QwenVLPaged
