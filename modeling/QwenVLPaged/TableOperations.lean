import QwenVLPaged.KVCacheManager
import QwenVLPaged.Ledger

/-!
# What the table loops do

Each loop of the cache manager walks block tables and calls the allocator. The lemmas here say
how the tables change and which claims are exchanged, for every ledger that contains the claims
of the tables; all other claims of the ledger are carried over with their bytes.
-/

namespace QwenVLPaged

/-- Where the contents of a mapped block live. -/
def BlockTableEntry.place (entry : BlockTableEntry) : Place :=
  match entry.swapSlot with
  | some slot => .slot slot
  | none => .frame entry.physicalId

theorem BlockTableEntry.place_of_resident {entry : BlockTableEntry}
    (resident : entry.swapSlot = none) : entry.place = .frame entry.physicalId := by
  simp [place, resident]

/-- Places of the blocks of a list of tables. -/
def placesOf (tables : List BlockTable) : List Place :=
  (tables.flatMap (·.entries)).map BlockTableEntry.place

@[simp]
theorem placesOf_nil : placesOf [] = [] := rfl

@[simp]
theorem placesOf_cons (table : BlockTable) (tables : List BlockTable) :
    placesOf (table :: tables) = table.entries.map BlockTableEntry.place ++ placesOf tables := by
  simp [placesOf]

/-- Append entries to a table. -/
def BlockTable.extend (table : BlockTable) (added : List BlockTableEntry) : BlockTable :=
  { table with entries := table.entries ++ added }

namespace Ledger

/-- Exchange the claim at one position of a list of owned claims. -/
theorem replaceAt {before after : MemoryAllocator} {owned rest : List Claim} {position : ℕ}
    {claim claim' : Claim} (ledger : Ledger before (owned ++ rest))
    (found : owned[position]? = some claim)
    (exchange : ∀ others, Ledger before (claim :: others) → Ledger after (claim' :: others)) :
    Ledger after (owned.set position claim' ++ rest) := by
  obtain ⟨inside, rfl⟩ := List.getElem?_eq_some_iff.mp found
  have split := (List.getElem_cons_eraseIdx_perm inside).symm.append_right rest
  have rejoin := (List.set_perm_cons_eraseIdx inside claim').append_right rest
  exact (exchange _ (ledger.perm split)).perm rejoin.symm

theorem retainAll {allocator : MemoryAllocator} {claims : List Claim} (extra : List Claim)
    {ids : List PhysicalBlockId} (ledger : Ledger allocator claims)
    (granted : ∀ claim ∈ extra, claim ∈ claims) (places : extra.map Claim.place = ids.map .frame)
    (bounded : ∀ id, ((extra ++ claims).map Claim.place).count (.frame id) < 2 ^ 32) :
    Ledger (KVCacheManager.retainAll allocator ids) (extra ++ claims) ∧
      (KVCacheManager.retainAll allocator ids).config = allocator.config := by
  induction ids generalizing allocator claims extra with
  | nil =>
      obtain rfl : extra = [] := by simpa using places
      exact ⟨ledger, rfl⟩
  | cons id ids induction =>
      cases extra with
      | nil => simp at places
      | cons claim extra =>
          simp only [List.map_cons, List.cons.injEq] at places
          have claim_mem := granted claim List.mem_cons_self
          have below : allocator.refCount id + 1 < 2 ^ 32 := by
            have total := bounded id
            simp only [List.cons_append, List.map_cons, List.map_append, List.count_cons,
              List.count_append, places.1, BEq.rfl, if_true] at total
            rw [ledger.refs id]
            omega
          obtain ⟨retained, same⟩ := ledger.retain claim_mem places.1 below
          have moved : (extra ++ claim :: claims).Perm (claim :: extra ++ claims) :=
            List.perm_middle
          have granted' : ∀ other ∈ extra, other ∈ claim :: claims := fun other member =>
            List.mem_cons_of_mem _ (granted other (List.mem_cons_of_mem _ member))
          obtain ⟨final, config⟩ := induction extra retained granted' places.2
            (fun other => by rw [(moved.map Claim.place).count_eq]; exact bounded other)
          exact ⟨final.perm moved, config.trans same⟩

theorem releaseAll {allocator : MemoryAllocator} {owned rest : List Claim}
    {ids : List PhysicalBlockId} (ledger : Ledger allocator (owned ++ rest))
    (places : owned.map Claim.place = ids.map .frame) :
    Ledger (KVCacheManager.releaseAll allocator ids) rest ∧
      (KVCacheManager.releaseAll allocator ids).config = allocator.config := by
  induction ids generalizing allocator owned with
  | nil =>
      obtain rfl : owned = [] := by simpa using places
      exact ⟨ledger, rfl⟩
  | cons id ids induction =>
      cases owned with
      | nil => simp at places
      | cons claim owned =>
          simp only [List.map_cons, List.cons.injEq] at places
          obtain ⟨released, same⟩ := Ledger.release ledger places.1
          obtain ⟨final, config⟩ := induction released places.2
          exact ⟨final, config.trans same⟩

theorem releaseEntries {allocator : MemoryAllocator} {owned rest : List Claim}
    {entries : List BlockTableEntry} (ledger : Ledger allocator (owned ++ rest))
    (places : owned.map Claim.place = entries.map BlockTableEntry.place) :
    Ledger (entries.foldl KVCacheManager.releaseEntry allocator) rest ∧
      (entries.foldl KVCacheManager.releaseEntry allocator).config = allocator.config := by
  induction entries generalizing allocator owned with
  | nil =>
      obtain rfl : owned = [] := by simpa using places
      exact ⟨ledger, rfl⟩
  | cons entry entries induction =>
      cases owned with
      | nil => simp at places
      | cons claim owned =>
          simp only [List.map_cons, List.cons.injEq] at places
          have released : Ledger (KVCacheManager.releaseEntry allocator entry) (owned ++ rest) ∧
              (KVCacheManager.releaseEntry allocator entry).config = allocator.config := by
            unfold KVCacheManager.releaseEntry
            cases slot_eq : entry.swapSlot with
            | none =>
                exact Ledger.release ledger
                  (places.1.trans (BlockTableEntry.place_of_resident slot_eq))
            | some slot =>
                exact Ledger.discardSwapped ledger
                  (places.1.trans (by simp [BlockTableEntry.place, slot_eq]))
          obtain ⟨final, config⟩ := induction released.1 places.2
          exact ⟨final, config.trans released.2⟩

end Ledger

namespace KVCacheManager

/-! ## Reserving -/

/-- Newly mapped blocks: their frames come off the free list in order, one reference each. -/
structure Reserved (before after : MemoryAllocator) (added : List BlockTableEntry) : Prop where
  free : before.freeList = added.map (·.physicalId) ++ after.freeList
  resident : ∀ entry ∈ added, entry.swapSlot = none
  ledger : ∀ claims, Ledger before claims →
    ∃ fresh, fresh.map Claim.place = added.map BlockTableEntry.place ∧
      Ledger after (fresh ++ claims) ∧ after.config = before.config

theorem Reserved.refl (allocator : MemoryAllocator) : Reserved allocator allocator [] :=
  ⟨by simp, by simp, fun _ ledger => ⟨[], rfl, ledger, rfl⟩⟩

theorem Reserved.trans {first second third : MemoryAllocator} {front back : List BlockTableEntry}
    (left : Reserved first second front) (right : Reserved second third back) :
    Reserved first third (front ++ back) := by
  refine ⟨by rw [left.free, right.free]; simp, ?_, ?_⟩
  · intro entry member
    rcases List.mem_append.mp member with inside | inside
    · exact left.resident entry inside
    · exact right.resident entry inside
  · intro claims ledger
    obtain ⟨fresh, places, middle, config⟩ := left.ledger claims ledger
    obtain ⟨fresh', places', final, config'⟩ := right.ledger _ middle
    refine ⟨fresh ++ fresh', by simp [places, places'], ?_, config'.trans config⟩
    refine final.perm ?_
    rw [← List.append_assoc]
    exact List.perm_append_comm.append_right claims

theorem reserved_allocate {before after : MemoryAllocator} {id : PhysicalBlockId}
    (taken : before.allocate = (some id, after)) (logical : LogicalBlock) (writable : Bool) :
    Reserved before after [⟨logical, id, writable, none⟩] := by
  refine ⟨?_, by simp, ?_⟩
  · unfold MemoryAllocator.allocate at taken
    split at taken
    · simp at taken
    · rename_i stack
      simp only [Prod.mk.injEq, Option.some.injEq] at taken
      obtain ⟨rfl, rfl⟩ := taken
      simpa using stack
  · intro claims ledger
    obtain ⟨allocated, config⟩ := Ledger.allocate ledger taken
    exact ⟨[before.claimAt (.frame id)], rfl, allocated, config⟩

/-- The logical description that `reserve_tokens` and `attach_prefix` give the block at an
index. -/
def logicalAt (sequenceId : SequenceId) (cacheKind : CacheKind) (tokensPerBlock index : ℕ) :
    LogicalBlock :=
  ⟨sequenceId, index, cacheKind, wrap32 (index * tokensPerBlock), tokensPerBlock⟩

/-- Growing one table appends as many blocks as were asked for and free. -/
theorem reserveBlocks_spec (sequenceId : SequenceId) (tokensPerBlock baseIndex : ℕ)
    (remaining offset : ℕ) (allocator : MemoryAllocator) (table : BlockTable)
    (indexed : table.Indexed)
    (position : wrap32 (baseIndex + offset) = wrap32 table.entries.length)
    (room : table.entries.length + min remaining allocator.freeList.length ≤ 2 ^ 32) :
    ∃ added after,
      reserveBlocks sequenceId tokensPerBlock baseIndex remaining offset allocator table =
        (decide (remaining ≤ allocator.freeList.length), after, table.extend added) ∧
      (table.extend added).Indexed ∧ Reserved allocator after added ∧
      added.length = min remaining allocator.freeList.length ∧
      ∀ entry ∈ added, ∃ index, entry.logical =
        logicalAt sequenceId table.cacheKind tokensPerBlock index := by
  induction remaining generalizing offset allocator table with
  | zero =>
      refine ⟨[], allocator, ?_, ?_, Reserved.refl allocator, by simp, by simp⟩
      · simp [reserveBlocks, BlockTable.extend]
      · simpa [BlockTable.extend] using indexed
  | succ remaining induction =>
      rw [reserveBlocks]
      rcases taken_eq : allocator.allocate with ⟨_ | physical, after⟩
      · obtain ⟨empty, rfl⟩ := MemoryAllocator.allocate_eq_none taken_eq
        refine ⟨[], after, ?_, ?_, Reserved.refl after, by simp [empty], by simp⟩
        · simp [BlockTable.extend, empty]
        · simpa [BlockTable.extend] using indexed
      · have first := reserved_allocate taken_eq
          (logicalAt sequenceId table.cacheKind tokensPerBlock table.entries.length) true
        have free : allocator.freeList = physical :: after.freeList := by simpa using first.free
        have inside : table.entries.length < 2 ^ 32 := by
          rw [free, List.length_cons] at room
          omega
        have index_eq : wrap32 (baseIndex + offset) = table.entries.length :=
          position.trans (wrap32_of_lt inside)
        have mapped := indexed.map_next
          (logicalAt sequenceId table.cacheKind tokensPerBlock table.entries.length)
          rfl physical true
        simp only [index_eq]
        rw [show (⟨sequenceId, table.entries.length, table.cacheKind,
          wrap32 (table.entries.length * tokensPerBlock), tokensPerBlock⟩ : LogicalBlock) =
          logicalAt sequenceId table.cacheKind tokensPerBlock table.entries.length from rfl, mapped]
        obtain ⟨added, final, run_eq, final_indexed, reserved, count, logical⟩ :=
          induction (offset + 1) after _
            (indexed.append ⟨logicalAt sequenceId table.cacheKind tokensPerBlock
              table.entries.length, physical, true, none⟩ rfl)
            (by
              simp only [wrap32, List.length_append, List.length_singleton] at position ⊢
              omega)
            (by
              rw [free, List.length_cons] at room
              simp only [List.length_append, List.length_singleton]
              omega)
        refine ⟨⟨logicalAt sequenceId table.cacheKind tokensPerBlock table.entries.length,
          physical, true, none⟩ :: added, final, ?_, ?_, ?_, ?_, ?_⟩
        · rw [run_eq, free]
          simp [BlockTable.extend]
        · simpa [BlockTable.extend] using final_indexed
        · exact first.trans reserved
        · rw [free]
          simp [count]
        · intro entry member
          rcases List.mem_cons.mp member with rfl | old
          · exact ⟨table.entries.length, rfl⟩
          · exact logical entry old

/-- Append to each table its own list of entries. -/
def extendAll (tables : List BlockTable) (added : List (List BlockTableEntry)) :
    List BlockTable :=
  List.zipWith BlockTable.extend tables added

@[simp]
theorem extendAll_nil (added : List (List BlockTableEntry)) : extendAll [] added = [] := by
  simp [extendAll]

@[simp]
theorem extendAll_cons (table : BlockTable) (tables : List BlockTable)
    (entries : List BlockTableEntry) (added : List (List BlockTableEntry)) :
    extendAll (table :: tables) (entries :: added) =
      table.extend entries :: extendAll tables added := rfl

theorem extendAll_replicate_nil (tables : List BlockTable) :
    extendAll tables (List.replicate tables.length []) = tables := by
  induction tables with
  | nil => rfl
  | cons table tables induction =>
      rw [List.length_cons, List.replicate_succ, extendAll_cons, induction]
      simp [BlockTable.extend]

theorem entries_extendAll {tables : List BlockTable} {added : List (List BlockTableEntry)}
    (lengths : added.length = tables.length) :
    ((extendAll tables added).flatMap (·.entries)).Perm
      (added.flatten ++ tables.flatMap (·.entries)) := by
  induction tables generalizing added with
  | nil =>
      obtain rfl := List.length_eq_zero_iff.mp lengths
      simp
  | cons table tables induction =>
      cases added with
      | nil => simp at lengths
      | cons entries added =>
          have same_length : added.length = tables.length := by simpa using lengths
          have tail := induction same_length
          simp only [extendAll_cons, List.flatMap_cons, BlockTable.extend, List.flatten_cons,
            List.append_assoc]
          calc
            List.Perm _ (entries ++ (table.entries ++
                (extendAll tables added).flatMap (·.entries))) :=
              List.perm_append_comm_assoc _ _ _
            List.Perm _ (entries ++ (table.entries ++
                (added.flatten ++ tables.flatMap (·.entries)))) :=
              (tail.append_left _).append_left _
            List.Perm _ (entries ++ (added.flatten ++
                (table.entries ++ tables.flatMap (·.entries)))) :=
              (List.perm_append_comm_assoc _ _ _).append_left _

theorem placesOf_extendAll {tables : List BlockTable} {added : List (List BlockTableEntry)}
    (lengths : added.length = tables.length) :
    (placesOf (extendAll tables added)).Perm
      (added.flatten.map BlockTableEntry.place ++ placesOf tables) := by
  have entries := (entries_extendAll lengths).map BlockTableEntry.place
  rwa [List.map_append] at entries

theorem exists_of_mem_extendAll {tables : List BlockTable} {added : List (List BlockTableEntry)}
    {table : BlockTable} (member : table ∈ extendAll tables added) :
    ∃ source ∈ tables, ∃ entries ∈ added, table = source.extend entries := by
  obtain ⟨position, inside, rfl⟩ := List.mem_iff_getElem.mp member
  simp only [extendAll, List.length_zipWith, lt_min_iff] at inside
  exact ⟨tables[position], List.getElem_mem _, added[position], List.getElem_mem _, by
    simp [extendAll]⟩

/-- What growing every table of a sequence does. -/
structure TablesReserved (sequenceId : SequenceId) (tokensPerBlock blocks : ℕ)
    (before after : MemoryAllocator) (tables : List BlockTable)
    (added : List (List BlockTableEntry)) (complete : Bool) : Prop where
  lengths : added.length = tables.length
  logicals : ∀ entry ∈ added.flatten, ∃ index kind,
    entry.logical = logicalAt sequenceId kind tokensPerBlock index
  indexed : ∀ table ∈ extendAll tables added, table.Indexed
  reserved : Reserved before after added.flatten
  within : ∀ entries ∈ added, entries.length ≤ min blocks before.freeList.length
  full : complete = true → ∀ entries ∈ added, entries.length = blocks
  enough : blocks * tables.length ≤ before.freeList.length → complete = true
  /-- The first table is filled first. -/
  first : ∀ entries others, added = entries :: others → entries = [] → added.flatten = []

theorem reserveTables_spec (sequenceId : SequenceId) (tokensPerBlock blocks : ℕ)
    (allocator : MemoryAllocator) (tables : List BlockTable)
    (indexed : ∀ table ∈ tables, table.Indexed)
    (room : ∀ table ∈ tables,
      table.entries.length + min blocks allocator.freeList.length ≤ 2 ^ 32) :
    ∃ added after complete,
      reserveTables sequenceId tokensPerBlock blocks allocator tables =
        (complete, after, extendAll tables added) ∧
      TablesReserved sequenceId tokensPerBlock blocks allocator after tables added complete := by
  induction tables generalizing allocator with
  | nil =>
      refine ⟨[], allocator, true, rfl, rfl, by simp, by simp, Reserved.refl allocator, by simp,
        by simp, by simp, by simp⟩
  | cons table tables induction =>
      obtain ⟨entries, middle, run_eq, head_indexed, head_reserved, count, head_logicals⟩ :=
        reserveBlocks_spec sequenceId tokensPerBlock (wrap32 table.size) blocks 0 allocator table
          (indexed table List.mem_cons_self) (by simp [wrap32, BlockTable.size])
          (room table List.mem_cons_self)
      rw [reserveTables, run_eq]
      by_cases fits : blocks ≤ allocator.freeList.length
      · have middle_free : middle.freeList.length ≤ allocator.freeList.length := by
          rw [head_reserved.free, List.length_append]
          omega
        obtain ⟨added, after, complete, rest_eq, rest⟩ := induction middle
          (fun other member => indexed other (List.mem_cons_of_mem _ member))
          (fun other member => by
            have := room other (List.mem_cons_of_mem _ member)
            omega)
        have head_count : entries.length = blocks := by rw [count]; exact Nat.min_eq_left fits
        refine ⟨entries :: added, after, complete, by simp [fits, rest_eq],
          by simp [rest.lengths], ?_, ?_, head_reserved.trans rest.reserved, ?_, ?_, ?_, ?_⟩
        · intro entry member
          rcases List.mem_append.mp member with inside | inside
          · obtain ⟨index, logical⟩ := head_logicals entry inside
            exact ⟨index, _, logical⟩
          · exact rest.logicals entry inside
        · intro other member
          rcases List.mem_cons.mp member with rfl | inside
          · exact head_indexed
          · exact rest.indexed other inside
        · intro other member
          rcases List.mem_cons.mp member with rfl | inside
          · exact count.le
          · exact (rest.within other inside).trans
              (min_le_min_left _ middle_free)
        · intro done other member
          rcases List.mem_cons.mp member with rfl | inside
          · exact head_count
          · exact rest.full done other inside
        · intro enough
          apply rest.enough
          have split := congrArg List.length head_reserved.free
          simp only [List.length_append, List.length_map, head_count] at split
          rw [List.length_cons, Nat.mul_succ] at enough
          omega
        · rintro first others equal rfl
          obtain ⟨rfl, rfl⟩ := List.cons.inj equal
          -- No block was wanted, so no table grew at all.
          have none_wanted : blocks = 0 := by simpa using head_count.symm
          simp only [List.flatten_cons, List.nil_append]
          apply List.flatten_eq_nil_iff.mpr
          intro other member
          by_cases done : complete = true
          · exact List.length_eq_zero_iff.mp ((rest.full done other member).trans none_wanted)
          · exact absurd (rest.enough (by simp [none_wanted])) done
      · refine ⟨entries :: List.replicate tables.length [], middle, false, ?_, ?_, ?_, ?_, ?_,
          ?_, ?_, ?_, ?_⟩
        · simp [fits, extendAll_replicate_nil]
        · simp
        · intro entry member
          obtain ⟨index, logical⟩ := head_logicals entry (by simpa using member)
          exact ⟨index, _, logical⟩
        · intro other member
          rw [extendAll_cons, extendAll_replicate_nil] at member
          rcases List.mem_cons.mp member with rfl | inside
          · exact head_indexed
          · exact indexed other (List.mem_cons_of_mem _ inside)
        · simpa using head_reserved
        · intro other member
          rcases List.mem_cons.mp member with rfl | inside
          · exact count.le
          · simp [(List.mem_replicate.mp inside).2]
        · simp
        · intro enough
          exfalso
          apply fits
          refine le_trans ?_ enough
          rw [List.length_cons, Nat.mul_succ]
          exact Nat.le_add_left _ _
        · rintro first others equal rfl
          obtain ⟨rfl, rfl⟩ := List.cons.inj equal
          simp

/-! ## Swapping -/

/-- The same blocks at possibly other places: every block keeps its bytes. -/
structure Relocated (before after : MemoryAllocator) (entries entries' : List BlockTableEntry) :
    Prop where
  logicals : entries'.map (·.logical) = entries.map (·.logical)
  ledger : ∀ owned rest, owned.map Claim.place = entries.map BlockTableEntry.place →
    Ledger before (owned ++ rest) →
    ∃ owned', owned'.map Claim.place = entries'.map BlockTableEntry.place ∧
      owned'.map Claim.bytes = owned.map Claim.bytes ∧
      Ledger after (owned' ++ rest) ∧ after.config = before.config

theorem Relocated.refl (allocator : MemoryAllocator) (entries : List BlockTableEntry) :
    Relocated allocator allocator entries entries :=
  ⟨rfl, fun owned _ places ledger => ⟨owned, places, rfl, ledger, rfl⟩⟩

theorem Relocated.trans {first second third : MemoryAllocator}
    {entries middle final : List BlockTableEntry} (left : Relocated first second entries middle)
    (right : Relocated second third middle final) : Relocated first third entries final := by
  refine ⟨right.logicals.trans left.logicals, ?_⟩
  intro owned rest places ledger
  obtain ⟨owned', places', bytes', ledger', config'⟩ := left.ledger owned rest places ledger
  obtain ⟨owned'', places'', bytes'', ledger'', config''⟩ :=
    right.ledger owned' rest places' ledger'
  exact ⟨owned'', places'', bytes''.trans bytes', ledger'', config''.trans config'⟩

/-- Relocating two lists of blocks one after the other. -/
theorem Relocated.append {first second third : MemoryAllocator}
    {front front' back back' : List BlockTableEntry} (left : Relocated first second front front')
    (right : Relocated second third back back') :
    Relocated first third (front ++ back) (front' ++ back') := by
  refine ⟨by simp [left.logicals, right.logicals], ?_⟩
  intro owned rest places ledger
  rw [List.map_append] at places
  obtain ⟨ownedFront, ownedBack, rfl, places_front, places_back⟩ := List.map_eq_append_iff.mp places
  obtain ⟨ownedFront', places_front', bytes_front, ledger', config'⟩ :=
    left.ledger ownedFront (ownedBack ++ rest) places_front (by simpa using ledger)
  have swapped : Ledger second (ownedBack ++ (ownedFront' ++ rest)) :=
    ledger'.perm (List.perm_append_comm_assoc _ _ _)
  obtain ⟨ownedBack', places_back', bytes_back, ledger'', config''⟩ :=
    right.ledger ownedBack (ownedFront' ++ rest) places_back swapped
  refine ⟨ownedFront' ++ ownedBack', by simp [places_front', places_back'],
    by simp [bytes_front, bytes_back], ?_, config''.trans config'⟩
  rw [List.append_assoc]
  exact ledger''.perm (List.perm_append_comm_assoc _ _ _)

/-- Relocating the block at one position. -/
theorem relocated_modify {before after : MemoryAllocator} {entries : List BlockTableEntry}
    {position : ℕ} {entry : BlockTableEntry} {update : BlockTableEntry → BlockTableEntry}
    (found : entries[position]? = some entry)
    (logical : (update entry).logical = entry.logical)
    (exchange : ∀ bytes others, Ledger before (⟨entry.place, bytes⟩ :: others) →
      Ledger after (⟨(update entry).place, bytes⟩ :: others) ∧ after.config = before.config) :
    Relocated before after entries (entries.modify position update) := by
  obtain ⟨inside, entry_eq⟩ := List.getElem?_eq_some_iff.mp found
  have as_set : entries.modify position update = entries.set position (update entry) := by
    rw [List.modify_eq_set_getElem?, found]
    rfl
  rw [as_set]
  refine ⟨?_, ?_⟩
  · rw [List.map_set, logical, ← entry_eq,
      ← List.getElem_map BlockTableEntry.logical (h := by simpa using inside),
      List.set_getElem_self]
  intro owned rest places ledger
  have owned_length : owned.length = entries.length := by
    simpa using congrArg List.length places
  have owned_inside : position < owned.length := by omega
  have claim_place : (owned[position]).place = entry.place := by
    have at_position := congrArg (fun list => list[position]?) places
    simpa [owned_inside, found] using at_position
  have exchanged (others : List Claim) (claimed : Ledger before (owned[position] :: others)) :
      Ledger after (⟨(update entry).place, owned[position].bytes⟩ :: others) ∧
        after.config = before.config := by
    apply exchange
    rw [← claim_place]
    exact claimed
  refine ⟨owned.set position ⟨(update entry).place, owned[position].bytes⟩, ?_, ?_, ?_, ?_⟩
  · rw [List.map_set, List.map_set, places]
  · rw [List.map_set, ← List.getElem_map Claim.bytes (h := by simpa using owned_inside),
      List.set_getElem_self]
  · exact Ledger.replaceAt ledger (List.getElem?_eq_getElem owned_inside)
      fun others claimed => (exchanged others claimed).1
  · have split := (List.getElem_cons_eraseIdx_perm owned_inside).symm.append_right rest
    exact (exchanged _ (ledger.perm split)).2

theorem Relocated.indexed {before after : MemoryAllocator} {table : BlockTable}
    {entries : List BlockTableEntry} (relocated : Relocated before after table.entries entries)
    (indexed : table.Indexed) : ({ table with entries } : BlockTable).Indexed :=
  indexed.of_logicals relocated.logicals

/-- Evicting entries of one table that are resident at the start of the loop. -/
theorem swapOutEntries_spec (allocator : MemoryAllocator) (table : BlockTable) (indices : List ℕ)
    (indexed : table.Indexed) (distinct : indices.Nodup)
    (resident : ∀ index ∈ indices, ∀ entry, table.entries[index]? = some entry →
      entry.swapSlot = none) :
    ∃ swapped after entries,
      swapOutEntries allocator table indices = (swapped, after, { table with entries }) ∧
      Relocated allocator after table.entries entries := by
  induction indices generalizing allocator table with
  | nil => exact ⟨0, allocator, table.entries, rfl, Relocated.refl _ _⟩
  | cons index indices induction =>
      obtain ⟨not_later, distinct⟩ := List.nodup_cons.mp distinct
      have later_resident : ∀ other ∈ indices, ∀ entry, table.entries[other]? = some entry →
          entry.swapSlot = none :=
        fun other member => resident other (List.mem_cons_of_mem _ member)
      rw [swapOutEntries, indexed.entry_eq]
      cases found : table.entries[index]? with
      | none => exact induction allocator table indexed distinct later_resident
      | some entry =>
          have entry_resident := resident index List.mem_cons_self entry found
          simp only
          rcases swap_eq : allocator.swapOut entry.physicalId with ⟨_ | slot, after⟩
          · obtain rfl := MemoryAllocator.swapOut_eq_none swap_eq
            exact induction after table indexed distinct later_resident
          · have moved : Relocated allocator after table.entries
                (table.entries.modify index fun entry => { entry with swapSlot := some slot }) := by
              refine relocated_modify found rfl ?_
              intro bytes others ledger
              rw [BlockTableEntry.place_of_resident entry_resident] at ledger
              exact Ledger.swapOut ledger rfl swap_eq
            obtain ⟨swapped, final, entries, run_eq, rest⟩ := induction after
              { table with entries := table.entries.modify index _ }
              (moved.indexed indexed) distinct (by
                intro other member entry other_eq
                have different : index ≠ other := fun equal => not_later (equal ▸ member)
                simp only [List.getElem?_modify, different, if_false, Option.map_eq_map,
                  Option.map_id'] at other_eq
                exact later_resident other member entry other_eq)
            refine ⟨swapped + 1, final, entries, ?_, moved.trans rest⟩
            simp only [indexed.modifyEntry_eq, run_eq]

theorem residentIndices_nodup {table : BlockTable} (indexed : table.Indexed) :
    (residentIndices table).Nodup := by
  have all : table.entries.map (·.logical.index) = List.range table.entries.length := by
    apply List.ext_getElem?
    intro position
    rw [List.getElem?_map]
    cases found : table.entries[position]? with
    | none => simpa using List.getElem?_eq_none_iff.mp found
    | some entry =>
        have inside := (List.getElem?_eq_some_iff.mp found).1
        simp [indexed position entry found, inside]
  have sub : (residentIndices table).Sublist (table.entries.map (·.logical.index)) :=
    List.filter_sublist.map _
  exact sub.nodup (by rw [all]; exact List.nodup_range)

theorem mem_residentIndices {table : BlockTable} (indexed : table.Indexed) {index : ℕ}
    (member : index ∈ residentIndices table) {entry : BlockTableEntry}
    (found : table.entries[index]? = some entry) : entry.swapSlot = none := by
  obtain ⟨source, source_mem, rfl⟩ := List.mem_map.mp member
  obtain ⟨source_mem, resident⟩ := List.mem_filter.mp source_mem
  obtain ⟨position, inside, source_eq⟩ := List.mem_iff_getElem.mp source_mem
  have position_eq := indexed position source (List.getElem?_eq_some_iff.mpr ⟨inside, source_eq⟩)
  rw [position_eq, List.getElem?_eq_getElem inside, source_eq] at found
  simpa [← Option.some.inj found] using resident

/-- The same tables with their blocks possibly elsewhere. -/
structure TablesRelocated (before after : MemoryAllocator) (tables tables' : List BlockTable) :
    Prop where
  owners : tables'.map (fun table => (table.sequenceId, table.cacheKind, table.entries.length)) =
    tables.map fun table => (table.sequenceId, table.cacheKind, table.entries.length)
  indexed : ∀ table ∈ tables', table.Indexed
  blocks : Relocated before after (tables.flatMap (·.entries)) (tables'.flatMap (·.entries))

theorem TablesRelocated.refl (allocator : MemoryAllocator) {tables : List BlockTable}
    (indexed : ∀ table ∈ tables, table.Indexed) :
    TablesRelocated allocator allocator tables tables :=
  ⟨rfl, indexed, Relocated.refl _ _⟩

theorem TablesRelocated.cons {first second third : MemoryAllocator} {table : BlockTable}
    {entries : List BlockTableEntry} {tables tables' : List BlockTable}
    (indexed : table.Indexed) (head : Relocated first second table.entries entries)
    (tail : TablesRelocated second third tables tables') :
    TablesRelocated first third (table :: tables) ({ table with entries } :: tables') := by
  have same_length : entries.length = table.entries.length := by
    simpa using congrArg List.length head.logicals
  refine ⟨by simp [tail.owners, same_length], ?_, ?_⟩
  · intro other member
    rcases List.mem_cons.mp member with rfl | inside
    · exact head.indexed indexed
    · exact tail.indexed other inside
  · simpa using head.append tail.blocks

theorem swapOutTables_spec (allocator : MemoryAllocator) (tables : List BlockTable)
    (indexed : ∀ table ∈ tables, table.Indexed) :
    ∃ swapped after tables',
      swapOutTables allocator tables = (swapped, after, tables') ∧
      TablesRelocated allocator after tables tables' := by
  induction tables generalizing allocator with
  | nil => exact ⟨0, allocator, [], rfl, TablesRelocated.refl allocator (by simp)⟩
  | cons table tables induction =>
      have head_indexed := indexed table List.mem_cons_self
      obtain ⟨swapped, middle, entries, run_eq, head⟩ := swapOutEntries_spec allocator table
        (residentIndices table) head_indexed (residentIndices_nodup head_indexed)
        (fun index member entry found => mem_residentIndices head_indexed member found)
      obtain ⟨others, after, tables', rest_eq, tail⟩ := induction middle
        (fun other member => indexed other (List.mem_cons_of_mem _ member))
      refine ⟨swapped + others, after, { table with entries } :: tables', ?_,
        TablesRelocated.cons head_indexed head tail⟩
      simp only [swapOutTables, run_eq, rest_eq]

/-- Restoring entries of one table. On success the visited positions are resident. -/
theorem swapInEntries_spec (allocator : MemoryAllocator) (table : BlockTable)
    (positions : List ℕ) (indexed : table.Indexed) (distinct : positions.Nodup) :
    ∃ restored after entries,
      swapInEntries allocator table positions = (restored, after, { table with entries }) ∧
      Relocated allocator after table.entries entries ∧
      (∀ position, position ∉ positions → entries[position]? = table.entries[position]?) ∧
      (restored = true → ∀ position ∈ positions, ∀ entry,
        entries[position]? = some entry → entry.swapSlot = none) := by
  induction positions generalizing allocator table with
  | nil =>
      exact ⟨true, allocator, table.entries, rfl, Relocated.refl _ _, fun _ _ => rfl, by simp⟩
  | cons position positions induction =>
      obtain ⟨not_later, distinct⟩ := List.nodup_cons.mp distinct
      -- A position whose entry is skipped is still resident at the end.
      have skip (allocator : MemoryAllocator)
          (quiet : ∀ entry, table.entries[position]? = some entry → entry.swapSlot = none) :
          ∃ restored after entries,
            swapInEntries allocator table positions = (restored, after, { table with entries }) ∧
            Relocated allocator after table.entries entries ∧
            (∀ other, other ∉ position :: positions →
              entries[other]? = table.entries[other]?) ∧
            (restored = true → ∀ other ∈ position :: positions, ∀ entry,
              entries[other]? = some entry → entry.swapSlot = none) := by
        obtain ⟨restored, after, entries, run_eq, moved, frame, done⟩ :=
          induction allocator table indexed distinct
        refine ⟨restored, after, entries, run_eq, moved, ?_, ?_⟩
        · intro other outside
          exact frame other fun member => outside (List.mem_cons_of_mem _ member)
        · intro success other member entry found
          rcases List.mem_cons.mp member with rfl | later
          · exact quiet entry (frame other not_later ▸ found)
          · exact done success other later entry found
      rw [swapInEntries]
      cases found : table.entries[position]? with
      | none => exact skip allocator (by simp [found])
      | some visited =>
          simp only
          by_cases resident : visited.swapSlot = none
          · rw [if_pos (by simp [resident])]
            exact skip allocator (by simp [found, resident])
          · obtain ⟨slot, slot_eq⟩ := Option.ne_none_iff_exists'.mp resident
            rw [if_neg (by simp [slot_eq]), indexed position visited found, indexed.entry_eq, found]
            simp only [Option.bind_some, slot_eq]
            rcases swap_eq : allocator.swapIn slot with ⟨_ | id, after⟩
            · refine ⟨false, after, table.entries, rfl, ⟨rfl, ?_⟩, fun _ _ => rfl, by simp⟩
              intro owned rest places ledger
              obtain ⟨kept, config⟩ := Ledger.swapIn_none ledger swap_eq
              exact ⟨owned, places, rfl, kept, config⟩
            · have moved : Relocated allocator after table.entries
                  (table.entries.modify position fun entry =>
                    { entry with physicalId := id, swapSlot := none }) := by
                refine relocated_modify found rfl ?_
                intro bytes others ledger
                exact Ledger.swapIn ledger (by simp [BlockTableEntry.place, slot_eq]) swap_eq
              obtain ⟨restored, final, entries, run_eq, rest, frame, done⟩ := induction after
                { table with entries := table.entries.modify position _ }
                (moved.indexed indexed) distinct
              refine ⟨restored, final, entries, ?_, moved.trans rest, ?_, ?_⟩
              · simp only [indexed.modifyEntry_eq, run_eq]
              · intro other outside
                simp only [List.mem_cons, not_or] at outside
                have different : ¬ position = other := fun equal => outside.1 equal.symm
                rw [frame other outside.2]
                simp [different]
              · intro success other member entry entry_eq
                rcases List.mem_cons.mp member with rfl | later
                · rw [frame other not_later] at entry_eq
                  simp only [List.getElem?_modify, found, if_true, Option.map_eq_map,
                    Option.map_some, Option.some.injEq] at entry_eq
                  simp [← entry_eq]
                · exact done success other later entry entry_eq

theorem swapInTables_spec (allocator : MemoryAllocator) (tables : List BlockTable)
    (indexed : ∀ table ∈ tables, table.Indexed) :
    ∃ restored after tables',
      swapInTables allocator tables = (restored, after, tables') ∧
      TablesRelocated allocator after tables tables' ∧
      (restored = true → ∀ table ∈ tables', ∀ entry ∈ table.entries, entry.swapSlot = none) := by
  induction tables generalizing allocator with
  | nil => exact ⟨true, allocator, [], rfl, TablesRelocated.refl allocator (by simp), by simp⟩
  | cons table tables induction =>
      have head_indexed := indexed table List.mem_cons_self
      obtain ⟨restored, middle, entries, run_eq, head, -, head_done⟩ :=
        swapInEntries_spec allocator table (List.range table.size) head_indexed List.nodup_range
      have same_length : entries.length = table.entries.length := by
        simpa using congrArg List.length head.logicals
      have tail_indexed := fun other member => indexed other (List.mem_cons_of_mem table member)
      cases restored with
      | false =>
          refine ⟨false, middle, { table with entries } :: tables, ?_,
            TablesRelocated.cons head_indexed head (TablesRelocated.refl middle tail_indexed),
            by simp⟩
          simp only [swapInTables, run_eq]
      | true =>
          obtain ⟨others, after, tables', rest_eq, tail, tail_done⟩ := induction middle tail_indexed
          refine ⟨others, after, { table with entries } :: tables', ?_,
            TablesRelocated.cons head_indexed head tail, ?_⟩
          · simp only [swapInTables, run_eq, rest_eq]
          · intro success other member entry entry_mem
            rcases List.mem_cons.mp member with rfl | inside
            · obtain ⟨position, within, entry_eq⟩ := List.mem_iff_getElem.mp entry_mem
              refine head_done rfl position ?_ entry
                (List.getElem?_eq_some_iff.mpr ⟨within, entry_eq⟩)
              simp only at within
              simp only [BlockTable.size, List.mem_range]
              omega
            · exact tail_done success other inside entry entry_mem

/-! ## Attaching -/

theorem attachBlocks_spec (sequenceId : SequenceId) (tokensPerBlock index : ℕ)
    (ids : List PhysicalBlockId) (allocator : MemoryAllocator) (table : BlockTable)
    (indexed : table.Indexed) (position : table.entries.length = index)
    (room : index + ids.length ≤ 2 ^ 32) :
    ∃ added,
      attachBlocks sequenceId tokensPerBlock index ids allocator table =
        (retainAll allocator ids, table.extend added) ∧
      (table.extend added).Indexed ∧ added.map (·.physicalId) = ids ∧
      (∀ entry ∈ added, entry.swapSlot = none) ∧
      ∀ entry ∈ added, ∃ index, entry.logical =
        logicalAt sequenceId table.cacheKind tokensPerBlock index := by
  induction ids generalizing index allocator table with
  | nil => exact ⟨[], by simp [attachBlocks, retainAll, BlockTable.extend],
      by simpa [BlockTable.extend] using indexed, rfl, by simp, by simp⟩
  | cons id ids induction =>
      subst position
      have inside : table.entries.length < 2 ^ 32 := by
        rw [List.length_cons] at room
        omega
      have mapped := indexed.map_next
        (logicalAt sequenceId table.cacheKind tokensPerBlock table.entries.length)
        rfl id false
      obtain ⟨added, run_eq, final_indexed, physical, resident, logical⟩ :=
        induction (table.entries.length + 1) (allocator.retain id) _
          (indexed.append ⟨logicalAt sequenceId table.cacheKind tokensPerBlock
            table.entries.length, id, false, none⟩ rfl)
          (by simp) (by rw [List.length_cons] at room; omega)
      refine ⟨⟨logicalAt sequenceId table.cacheKind tokensPerBlock table.entries.length,
        id, false, none⟩ :: added, ?_, ?_, by simp [physical], ?_, ?_⟩
      · rw [attachBlocks, wrap32_of_lt inside]
        rw [show (⟨sequenceId, table.entries.length, table.cacheKind,
          wrap32 (table.entries.length * tokensPerBlock), tokensPerBlock⟩ : LogicalBlock) =
          logicalAt sequenceId table.cacheKind tokensPerBlock table.entries.length from rfl, mapped,
          run_eq]
        simp [retainAll, BlockTable.extend]
      · simpa [BlockTable.extend] using final_indexed
      · intro entry member
        rcases List.mem_cons.mp member with rfl | old
        · rfl
        · exact resident entry old
      · intro entry member
        rcases List.mem_cons.mp member with rfl | old
        · exact ⟨table.entries.length, rfl⟩
        · exact logical entry old

theorem retainAll_append (allocator : MemoryAllocator) (front back : List PhysicalBlockId) :
    retainAll allocator (front ++ back) = retainAll (retainAll allocator front) back := by
  simp [retainAll]

/-- What mapping a record's frames onto empty tables does. -/
structure TablesAttached (sequenceId : SequenceId) (tokensPerBlock idsPerTable : ℕ)
    (ids : List PhysicalBlockId) (tables : List BlockTable)
    (added : List (List BlockTableEntry)) : Prop where
  lengths : added.length = tables.length
  logicals : ∀ entry ∈ added.flatten, ∃ index kind,
    entry.logical = logicalAt sequenceId kind tokensPerBlock index
  indexed : ∀ table ∈ extendAll tables added, table.Indexed
  physical : added.flatten.map (·.physicalId) = ids
  resident : ∀ entry ∈ added.flatten, entry.swapSlot = none
  full : ∀ entries ∈ added, entries.length = idsPerTable

theorem attachTables_spec (sequenceId : SequenceId) (tokensPerBlock idsPerTable : ℕ)
    (ids : List PhysicalBlockId) (allocator : MemoryAllocator) (tables : List BlockTable)
    (empty : ∀ table ∈ tables, table.entries = [])
    (total : ids.length = idsPerTable * tables.length) (room : idsPerTable ≤ 2 ^ 32) :
    ∃ added,
      attachTables sequenceId tokensPerBlock idsPerTable ids allocator tables =
        (retainAll allocator ids, extendAll tables added) ∧
      TablesAttached sequenceId tokensPerBlock idsPerTable ids tables added := by
  induction tables generalizing ids allocator with
  | nil =>
      obtain rfl : ids = [] := by simpa using total
      exact ⟨[], rfl, rfl, by simp, by simp, rfl, by simp, by simp⟩
  | cons table tables induction =>
      have head_empty := empty table List.mem_cons_self
      have enough : idsPerTable ≤ ids.length := by
        rw [total, List.length_cons, Nat.mul_succ]
        exact Nat.le_add_left _ _
      have take_length : (ids.take idsPerTable).length = idsPerTable := by
        simpa using enough
      obtain ⟨entries, head_eq, head_indexed, head_physical, head_resident, head_logicals⟩ :=
        attachBlocks_spec sequenceId tokensPerBlock 0 (ids.take idsPerTable) allocator table
          (by intro position found member; simp [head_empty] at member) (by simp [head_empty])
          (by rw [take_length]; omega)
      obtain ⟨added, rest_eq, rest⟩ := induction (ids.drop idsPerTable)
        (retainAll allocator (ids.take idsPerTable))
        (fun other member => empty other (List.mem_cons_of_mem _ member)) (by
          rw [List.length_drop, total, List.length_cons, Nat.mul_succ]
          omega)
      have head_length : entries.length = idsPerTable := by
        rw [← take_length, ← head_physical, List.length_map]
      refine ⟨entries :: added, ?_, by simp [rest.lengths], ?_, ?_, ?_, ?_, ?_⟩
      · rw [attachTables, head_eq]
        simp only [rest_eq, extendAll_cons, ← retainAll_append, List.take_append_drop]
      · intro entry member
        rcases List.mem_append.mp member with inside | inside
        · obtain ⟨index, logical⟩ := head_logicals entry inside
          exact ⟨index, _, logical⟩
        · exact rest.logicals entry inside
      · intro other member
        rcases List.mem_cons.mp member with rfl | inside
        · exact head_indexed
        · exact rest.indexed other inside
      · simp [head_physical, rest.physical, List.take_append_drop]
      · intro entry member
        rcases List.mem_append.mp member with inside | inside
        · exact head_resident entry inside
        · exact rest.resident entry inside
      · intro other member
        rcases List.mem_cons.mp member with rfl | inside
        · exact head_length
        · exact rest.full other inside

end KVCacheManager
end QwenVLPaged
