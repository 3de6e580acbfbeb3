import QwenVLPaged.CacheRun

/-!
# The accounts of the cache manager

`KVCacheManager.Accounted` is the invariant of the cache manager: the places owned by tables and
prefix records account exactly for the reference counts and the resident slots of the allocator,
and every sequence has well-indexed tables. `Rebooked` says how one call changes the accounts.
-/

namespace QwenVLPaged

/-- Number of block tables of every sequence over a pool. -/
def AllocatorConfig.tableCount (config : AllocatorConfig) : ℕ :=
  if config.maxBlocks = 0 then 1
  else if config.blockShape.perLayerFrames then config.blockShape.numLayers else 1

/-- Block size that the manager sees. -/
def AllocatorConfig.tokensPerBlock (config : AllocatorConfig) : ℕ :=
  if config.maxBlocks = 0 then 0 else config.blockShape.tokensPerBlock

/-- Page tables of one sequence: as many as the layout has, each indexed from zero on and each
block described as the manager describes it, and none nonempty behind an empty first one. -/
structure SequenceState.Tabled (config : AllocatorConfig) (id : SequenceId)
    (state : SequenceState) : Prop where
  owner : state.metadata.sequenceId = id
  count : state.tables.length = config.tableCount
  indexed : ∀ table ∈ state.tables, table.Indexed
  logicals : ∀ table ∈ state.tables, ∀ entry ∈ table.entries, ∃ index kind,
    entry.logical = KVCacheManager.logicalAt id kind config.tokensPerBlock index
  bounded : ∀ table ∈ state.tables, table.entries.length ≤ 2 ^ 32
  front : state.textTable.entries = [] → ∀ table ∈ state.tables, table.entries = []

theorem Ledger.of_places {allocator : MemoryAllocator} {claims : List Claim}
    {places : List Place} (ledger : Ledger allocator claims)
    (same : (claims.map Claim.place).Perm places) :
    Ledger allocator (places.map allocator.claimAt) := by
  refine ledger.perm ?_
  have mapped := same.map allocator.claimAt
  rwa [ledger.map_claimAt] at mapped

namespace KVCacheManager

theorem block_zero {allocator : MemoryAllocator} (sound : allocator.Sound) :
    if allocator.config.maxBlocks = 0 then allocator.block 0 = none
    else ∃ block, allocator.block 0 = some block ∧ block.shape = allocator.config.blockShape := by
  split
  · rename_i empty
    exact List.getElem?_eq_none (by rw [sound.blocks_length, empty])
  · rename_i nonempty
    obtain ⟨block, found⟩ := sound.block_of_lt (Nat.pos_of_ne_zero nonempty)
    exact ⟨block, found, sound.shapes 0 block found⟩

theorem tableCount_eq {manager : KVCacheManager} (sound : manager.allocator.Sound) :
    manager.tableCount = manager.allocator.config.tableCount := by
  have zero := block_zero sound
  unfold tableCount poolShape AllocatorConfig.tableCount
  split at zero
  · rename_i empty
    simp [zero, empty, BlockShape.empty, BlockShape.perLayerFrames, BlockShape.frameLayers]
  · rename_i nonempty
    obtain ⟨block, found, shape⟩ := zero
    simp [found, shape, nonempty]

theorem tokensPerBlock_eq {manager : KVCacheManager} (sound : manager.allocator.Sound) :
    manager.tokensPerBlock = manager.allocator.config.tokensPerBlock := by
  have zero := block_zero sound
  unfold tokensPerBlock AllocatorConfig.tokensPerBlock
  split at zero
  · rename_i empty
    simp [zero, empty]
  · rename_i nonempty
    obtain ⟨block, found, shape⟩ := zero
    simp [found, shape, nonempty]

/-! ## The invariant -/

/-- The invariant of the cache manager. -/
structure Accounted (manager : KVCacheManager) : Prop where
  ledger : Ledger manager.allocator (manager.places.map manager.allocator.claimAt)
  tabled : ∀ id state, manager.sequences.lookup id = some state →
    state.Tabled manager.allocator.config id
  records : ∀ key records, manager.prefixIndex.lookup key = some records →
    ∀ record ∈ records,
      record.physicalIds.length ≤ manager.allocator.config.tableCount * 2 ^ 32

theorem accounted_fresh (config : AllocatorConfig) (slab : ℕ → UInt8) (maxSlots : ℕ) :
    (fresh config slab maxSlots).Accounted := by
  refine ⟨?_, by simp [fresh, create], by simp [fresh, create]⟩
  have empty : (fresh config slab maxSlots).places = [] := by
    simp [places, liveEntries, pinnedIds, fresh, create]
  rw [empty]
  refine Ledger.create config slab _ ?_
  intro installed equal
  rw [← Option.some.inj equal]
  rfl

/-! ## Splitting the accounts -/

/-- Places owned by everybody but one sequence. -/
def placesWithout (manager : KVCacheManager) (id : SequenceId) : List Place :=
  ((manager.sequences.erase id).gather fun _ state => state.tables.flatMap (·.entries)).map
    BlockTableEntry.place ++ manager.pinnedIds.map .frame

theorem places_perm {manager : KVCacheManager} {id : SequenceId} {state : SequenceState}
    (found : manager.sequences.lookup id = some state) :
    manager.places.Perm (placesOf state.tables ++ manager.placesWithout id) := by
  have entries := (AList.gather_perm_of_lookup
    (fun _ (state : SequenceState) => state.tables.flatMap (·.entries)) found).map
      BlockTableEntry.place
  rw [places, placesWithout, ← List.append_assoc]
  simpa [placesOf, liveEntries] using entries.append_right _

theorem places_insert (manager : KVCacheManager) {manager' : KVCacheManager} {id : SequenceId}
    {state : SequenceState} (sequences : manager'.sequences = manager.sequences.insert id state)
    (prefixIndex : manager'.prefixIndex = manager.prefixIndex) :
    manager'.places = placesOf state.tables ++ manager.placesWithout id := by
  simp [places, placesWithout, liveEntries, pinnedIds, sequences, prefixIndex, placesOf]

theorem placesWithout_of_absent {manager : KVCacheManager} {id : SequenceId}
    (absent : manager.sequences.lookup id = none) : manager.placesWithout id = manager.places := by
  rw [placesWithout, AList.erase_of_lookup_none absent]
  rfl

theorem mem_places_of_mem_tables {manager : KVCacheManager} {id : SequenceId}
    {state : SequenceState} (found : manager.sequences.lookup id = some state) {place : Place}
    (member : place ∈ placesOf state.tables) : place ∈ manager.places :=
  (places_perm found).mem_iff.mpr (List.mem_append_left _ member)

theorem mem_pinnedIds {manager : KVCacheManager} {id : PhysicalBlockId} :
    id ∈ manager.pinnedIds ↔ ∃ key records, manager.prefixIndex.lookup key = some records ∧
      ∃ record ∈ records, id ∈ record.physicalIds := by
  simp [pinnedIds, AList.mem_gather]

/-- Records published under a key. -/
def recordsAt (manager : KVCacheManager) (key : String) : List PrefixRecord :=
  (manager.prefixIndex.lookup key).getD []

/-- Frames pinned under all the other keys. -/
def pinnedWithout (manager : KVCacheManager) (key : String) : List PhysicalBlockId :=
  (manager.prefixIndex.erase key).gather fun _ records => records.flatMap (·.physicalIds)

theorem pinnedIds_perm (manager : KVCacheManager) (key : String) :
    manager.pinnedIds.Perm
      ((manager.recordsAt key).flatMap (·.physicalIds) ++ manager.pinnedWithout key) := by
  unfold recordsAt pinnedWithout
  cases found : manager.prefixIndex.lookup key with
  | none =>
      rw [AList.erase_of_lookup_none found]
      exact List.Perm.refl _
  | some records => exact AList.gather_perm_of_lookup _ found

theorem pinnedIds_insert {before after : KVCacheManager} {key : String}
    {records : List PrefixRecord}
    (prefixIndex : after.prefixIndex = before.prefixIndex.insert key records) :
    after.pinnedIds = records.flatMap (·.physicalIds) ++ before.pinnedWithout key := by
  simp [pinnedIds, pinnedWithout, prefixIndex]

theorem places_of_pinned_perm {before after : KVCacheManager} {ids : List PhysicalBlockId}
    {entries : List BlockTableEntry} (live : after.liveEntries.Perm (entries ++ before.liveEntries))
    (pinned : after.pinnedIds.Perm (ids ++ before.pinnedIds)) :
    after.places.Perm
      (entries.map BlockTableEntry.place ++ (ids.map .frame ++ before.places)) := by
  have front := live.map BlockTableEntry.place
  have back := pinned.map Place.frame
  rw [List.map_append] at front back
  calc
    after.places.Perm ((entries.map BlockTableEntry.place ++
        before.liveEntries.map BlockTableEntry.place) ++
        (ids.map .frame ++ before.pinnedIds.map .frame)) := front.append back
    List.Perm _ (entries.map BlockTableEntry.place ++ (ids.map .frame ++ before.places)) := by
      rw [List.append_assoc]
      exact (List.perm_append_comm_assoc _ _ _).append_left _

theorem liveEntries_perm_insert {before after : KVCacheManager} {id : SequenceId}
    {state state' : SequenceState} {added : List BlockTableEntry}
    (found : before.sequences.lookup id = some state)
    (sequences : after.sequences = before.sequences.insert id state')
    (entries : (state'.tables.flatMap (·.entries)).Perm
      (added ++ state.tables.flatMap (·.entries))) :
    after.liveEntries.Perm (added ++ before.liveEntries) := by
  have old := AList.gather_perm_of_lookup
    (fun _ (state : SequenceState) => state.tables.flatMap (·.entries)) found
  rw [liveEntries, sequences, AList.gather_insert]
  calc
    List.Perm _ (added ++ state.tables.flatMap (·.entries) ++
        (before.sequences.erase id).gather fun _ state => state.tables.flatMap (·.entries)) :=
      entries.append_right _
    List.Perm _ (added ++ before.liveEntries) := by
      rw [List.append_assoc]
      exact old.symm.append_left _

theorem Accounted.split {manager : KVCacheManager} (accounted : manager.Accounted)
    {id : SequenceId} {state : SequenceState}
    (found : manager.sequences.lookup id = some state) :
    Ledger manager.allocator
      ((placesOf state.tables).map manager.allocator.claimAt ++
        (manager.placesWithout id).map manager.allocator.claimAt) := by
  rw [← List.map_append]
  exact accounted.ledger.perm ((places_perm found).map _)

@[simp]
theorem map_place_claimAt (allocator : MemoryAllocator) (places : List Place) :
    (places.map allocator.claimAt).map Claim.place = places := by
  rw [List.map_map]
  exact List.map_id _

/-- The claim at an owned place can be brought to the front. -/
theorem Accounted.claim_first {manager : KVCacheManager} (accounted : manager.Accounted)
    {place : Place} (member : place ∈ manager.places) :
    ∃ others, Ledger manager.allocator (manager.allocator.claimAt place :: others) :=
  ⟨_, accounted.ledger.perm ((List.perm_cons_erase member).map _)⟩

/-- A frame is free or somebody owns it. -/
theorem Accounted.maxBlocks_le {manager : KVCacheManager} (accounted : manager.Accounted) :
    manager.allocator.config.maxBlocks ≤
      manager.allocator.freeList.length + manager.places.length := by
  have frames : (Finset.range manager.allocator.config.maxBlocks).image Place.frame ⊆
      (manager.allocator.freeList.map Place.frame ++ manager.places).toFinset := by
    intro place member
    obtain ⟨id, below, rfl⟩ := Finset.mem_image.mp member
    rw [List.mem_toFinset, List.mem_append]
    rcases Nat.eq_zero_or_pos (manager.allocator.refCount id) with none | some
    · exact Or.inl (List.mem_map_of_mem ((accounted.ledger.formed.mem_free id).mpr
        ⟨Finset.mem_range.mp below, none⟩))
    · have counted := accounted.ledger.refs id
      rw [map_place_claimAt] at counted
      exact Or.inr (List.count_pos_iff.mp (counted ▸ some))
  calc
    manager.allocator.config.maxBlocks =
        ((Finset.range manager.allocator.config.maxBlocks).image Place.frame).card := by
      rw [Finset.card_image_of_injective _ fun _ _ equal => Place.frame.inj equal,
        Finset.card_range]
    _ ≤ (manager.allocator.freeList.map Place.frame ++ manager.places).toFinset.card :=
      Finset.card_le_card frames
    _ ≤ (manager.allocator.freeList.map Place.frame ++ manager.places).length :=
      List.toFinset_card_le _
    _ = manager.allocator.freeList.length + manager.places.length := by
      rw [List.length_append, List.length_map]

/-! ## Rebooking -/

/-- A call that exchanges claims: it ends with the owned ones, and with the kept places as they
were. -/
structure Rebooked (before after : KVCacheManager) (owned : List Claim) (kept : List Place) :
    Prop where
  ledger : Ledger after.allocator (owned ++ kept.map before.allocator.claimAt)
  places : after.places.Perm (owned.map Claim.place ++ kept)
  config : after.allocator.config = before.allocator.config

theorem Rebooked.ledger_places {before after : KVCacheManager} {owned : List Claim}
    {kept : List Place} (rebooked : Rebooked before after owned kept) :
    Ledger after.allocator (after.places.map after.allocator.claimAt) := by
  refine rebooked.ledger.of_places ?_
  rw [List.map_append, map_place_claimAt]
  exact rebooked.places.symm

/-- Kept places keep their bytes. -/
theorem Rebooked.claimAt_kept {before after : KVCacheManager} {owned : List Claim}
    {kept : List Place} (rebooked : Rebooked before after owned kept) {place : Place}
    (member : place ∈ kept) :
    after.allocator.claimAt place = before.allocator.claimAt place :=
  rebooked.ledger.claimAt_eq
    (List.mem_append_right _ (List.mem_map.mpr ⟨place, member, rfl⟩) :
      before.allocator.claimAt place ∈ _)

theorem Rebooked.map_owned {before after : KVCacheManager} {owned : List Claim}
    {kept : List Place} (rebooked : Rebooked before after owned kept) :
    (owned.map Claim.place).map after.allocator.claimAt = owned := by
  rw [List.map_map]
  refine (List.map_congr_left fun claim member => ?_).trans (List.map_id _)
  exact rebooked.ledger.claimAt_eq (List.mem_append_left _ member)

theorem tabled_insert {manager : KVCacheManager} (accounted : manager.Accounted)
    {id : SequenceId} {state : SequenceState} (added : state.Tabled manager.allocator.config id) :
    ∀ other found, (manager.sequences.insert id state).lookup other = some found →
      found.Tabled manager.allocator.config other := by
  intro other found member
  by_cases same : other = id
  · subst same
    rw [AList.lookup_insert] at member
    exact Option.some.inj member ▸ added
  · rw [AList.lookup_insert_ne same] at member
    exact accounted.tabled other found member

/-- Rebooking with new records under one key keeps the invariant. -/
theorem Accounted.insert_records {before after : KVCacheManager} (accounted : before.Accounted)
    {id : SequenceId} {state : SequenceState} {key : String} {records : List PrefixRecord}
    {owned : List Claim} {kept : List Place}
    (sequences : after.sequences = before.sequences.insert id state)
    (prefixIndex : after.prefixIndex = before.prefixIndex.insert key records)
    (tabled : state.Tabled before.allocator.config id)
    (bounded : ∀ record ∈ records,
      record.physicalIds.length ≤ before.allocator.config.tableCount * 2 ^ 32)
    (rebooked : Rebooked before after owned kept) : after.Accounted where
  ledger := rebooked.ledger_places
  tabled := by
    rw [rebooked.config, sequences]
    exact tabled_insert accounted tabled
  records := by
    rw [rebooked.config, prefixIndex]
    intro other found member
    by_cases same : other = key
    · subst same
      rw [AList.lookup_insert] at member
      exact Option.some.inj member ▸ bounded
    · rw [AList.lookup_insert_ne same] at member
      exact accounted.records other found member

/-- Rebooking one live or new sequence keeps the invariant. -/
theorem Accounted.insert {before after : KVCacheManager} (accounted : before.Accounted)
    {id : SequenceId} {state : SequenceState} {owned : List Claim} {kept : List Place}
    (sequences : after.sequences = before.sequences.insert id state)
    (prefixIndex : after.prefixIndex = before.prefixIndex)
    (tabled : state.Tabled before.allocator.config id)
    (rebooked : Rebooked before after owned kept) : after.Accounted where
  ledger := rebooked.ledger_places
  tabled := by
    rw [rebooked.config, sequences]
    exact tabled_insert accounted tabled
  records := by
    rw [rebooked.config, prefixIndex]
    exact accounted.records

end KVCacheManager
end QwenVLPaged
