import QwenVLPaged.Conservation

/-!
# Prefix pins

A prefix record lives as long as somebody names it. `Pinned` ties the user count of every record
to the live sequences whose `(prefix_key, prefix_hash)` name it. Publishing under a second key
overwrites the only name a sequence has, so the invariant needs that no sequence does that.
-/

namespace QwenVLPaged

namespace KVCacheManager

/-- The names that live sequences hold, once per sequence. -/
def names (manager : KVCacheManager) : List (String × UInt64) :=
  manager.sequences.gather fun _ state => [(state.prefixKey, state.prefixHash)]

/-- Number of live sequences that name a record. -/
def usersOf (manager : KVCacheManager) (key : String) (hash : UInt64) : ℕ :=
  manager.names.count (key, hash)

/-- Users of the records with a given hash. -/
def usersIn (records : List PrefixRecord) (hash : UInt64) : ℕ :=
  ((records.filter fun record => record.contentHash = hash).map (·.users)).sum

@[simp]
theorem usersIn_nil (hash : UInt64) : usersIn [] hash = 0 := rfl

@[simp]
theorem usersIn_append (front back : List PrefixRecord) (hash : UInt64) :
    usersIn (front ++ back) hash = usersIn front hash + usersIn back hash := by
  simp [usersIn]

theorem usersIn_cons (record : PrefixRecord) (records : List PrefixRecord) (hash : UInt64) :
    usersIn (record :: records) hash =
      (if record.contentHash = hash then record.users else 0) + usersIn records hash := by
  by_cases same : record.contentHash = hash <;> simp [usersIn, same]

theorem usersIn_eq_zero {records : List PrefixRecord} {hash : UInt64}
    (missing : ∀ record ∈ records, record.contentHash ≠ hash) : usersIn records hash = 0 := by
  have none_left : records.filter (fun record => decide (record.contentHash = hash)) = [] := by
    simpa [List.filter_eq_nil_iff] using missing
  simp [usersIn, none_left]

/-- With distinct hashes the users of a hash are the users of its record. -/
theorem usersIn_eq_of_mem {records : List PrefixRecord} {record : PrefixRecord}
    (distinct : (records.map (·.contentHash)).Nodup) (member : record ∈ records) :
    usersIn records record.contentHash = record.users := by
  obtain ⟨front, back, rfl⟩ := List.append_of_mem member
  rw [List.map_append, List.map_cons, List.nodup_append] at distinct
  obtain ⟨-, back_distinct, apart⟩ := distinct
  have front_missing : usersIn front record.contentHash = 0 :=
    usersIn_eq_zero fun other other_mem same =>
      apart _ (List.mem_map_of_mem other_mem) _ List.mem_cons_self same
  have back_missing : usersIn back record.contentHash = 0 :=
    usersIn_eq_zero fun other other_mem same =>
      (List.nodup_cons.mp back_distinct).1 (same ▸ List.mem_map_of_mem other_mem)
  rw [usersIn_append, usersIn_cons, front_missing, back_missing, if_pos rfl]
  omega

/-- The invariant of the prefix index. -/
structure Pinned (manager : KVCacheManager) : Prop where
  counted : ∀ key, key ≠ "" → ∀ hash, usersIn (manager.recordsAt key) hash = manager.usersOf key hash
  used : ∀ key, ∀ record ∈ manager.recordsAt key, 1 ≤ record.users
  distinct : ∀ key, ((manager.recordsAt key).map (·.contentHash)).Nodup
  keyed : ∀ key records, manager.prefixIndex.lookup key = some records → key ≠ "" ∧ records ≠ []
  mapped : ∀ id state, manager.sequences.lookup id = some state → state.prefixKey ≠ "" →
    state.textTable.entries ≠ []

theorem pinned_fresh (config : AllocatorConfig) (slab : ℕ → UInt8) (maxSlots : ℕ) :
    (fresh config slab maxSlots).Pinned := by
  refine ⟨?_, ?_, ?_, ?_, ?_⟩ <;>
    simp [fresh, create, recordsAt, usersOf, names]

/-! ## Names -/

theorem usersOf_insert_new {before after : KVCacheManager} {id : SequenceId}
    {state : SequenceState} (absent : before.sequences.lookup id = none)
    (sequences : after.sequences = before.sequences.insert id state) (key : String)
    (hash : UInt64) :
    after.usersOf key hash = before.usersOf key hash +
      if (state.prefixKey, state.prefixHash) = (key, hash) then 1 else 0 := by
  rw [usersOf, names, sequences, AList.gather_insert, AList.erase_of_lookup_none absent]
  simp only [List.singleton_append, List.count_cons, beq_iff_eq]
  rfl

theorem usersOf_erase {before after : KVCacheManager} {id : SequenceId}
    {state : SequenceState} (found : before.sequences.lookup id = some state)
    (sequences : after.sequences = before.sequences.erase id) (key : String) (hash : UInt64) :
    before.usersOf key hash = after.usersOf key hash +
      if (state.prefixKey, state.prefixHash) = (key, hash) then 1 else 0 := by
  have split := AList.gather_perm_of_lookup
    (fun _ (state : SequenceState) => [(state.prefixKey, state.prefixHash)]) found
  rw [usersOf, names, split.count_eq]
  simp only [List.singleton_append, List.count_cons, beq_iff_eq, usersOf, names, sequences]

theorem usersOf_insert {before after : KVCacheManager} {id : SequenceId}
    {state state' : SequenceState} (found : before.sequences.lookup id = some state)
    (sequences : after.sequences = before.sequences.insert id state') (key : String)
    (hash : UInt64) :
    after.usersOf key hash + (if (state.prefixKey, state.prefixHash) = (key, hash) then 1 else 0) =
      before.usersOf key hash +
        if (state'.prefixKey, state'.prefixHash) = (key, hash) then 1 else 0 := by
  have split := AList.gather_perm_of_lookup
    (fun _ (state : SequenceState) => [(state.prefixKey, state.prefixHash)]) found
  rw [usersOf, usersOf, names, names, sequences, split.count_eq, AList.gather_insert]
  simp only [List.singleton_append, List.count_cons, beq_iff_eq]
  omega

/-- A sequence that keeps its name leaves all user counts alone. -/
theorem usersOf_insert_same {before after : KVCacheManager} {id : SequenceId}
    {state state' : SequenceState} (found : before.sequences.lookup id = some state)
    (sequences : after.sequences = before.sequences.insert id state')
    (key_eq : state'.prefixKey = state.prefixKey) (hash_eq : state'.prefixHash = state.prefixHash)
    (key : String) (hash : UInt64) : after.usersOf key hash = before.usersOf key hash := by
  have moved := usersOf_insert found sequences key hash
  rw [key_eq, hash_eq] at moved
  omega

theorem mapped_insert {before after : KVCacheManager} (pinned : before.Pinned) {id : SequenceId}
    {state : SequenceState} (sequences : after.sequences = before.sequences.insert id state)
    (nonempty : state.prefixKey ≠ "" → state.textTable.entries ≠ []) :
    ∀ other found, after.sequences.lookup other = some found → found.prefixKey ≠ "" →
      found.textTable.entries ≠ [] := by
  intro other found member named
  rw [sequences] at member
  by_cases same : other = id
  · subst same
    rw [AList.lookup_insert] at member
    obtain rfl := Option.some.inj member
    exact nonempty named
  · rw [AList.lookup_insert_ne same] at member
    exact pinned.mapped other found member named

/-! ## What keeps the pins -/

/-- A call that touches neither records nor names. -/
theorem Pinned.keep {before after : KVCacheManager} (pinned : before.Pinned)
    (prefixIndex : after.prefixIndex = before.prefixIndex)
    (users : ∀ key, key ≠ "" → ∀ hash, after.usersOf key hash = before.usersOf key hash)
    (mapped : ∀ id state, after.sequences.lookup id = some state → state.prefixKey ≠ "" →
      state.textTable.entries ≠ []) : after.Pinned := by
  have records (key : String) : after.recordsAt key = before.recordsAt key := by
    rw [recordsAt, recordsAt, prefixIndex]
  refine ⟨?_, ?_, ?_, ?_, mapped⟩
  · intro key named hash
    rw [records, users key named hash]
    exact pinned.counted key named hash
  · intro key
    rw [records]
    exact pinned.used key
  · intro key
    rw [records]
    exact pinned.distinct key
  · rw [prefixIndex]
    exact pinned.keyed

/-- A prefix index that differs from another one under a single key. -/
structure Rekeyed (before after : KVCacheManager) (key : String) (records : List PrefixRecord) :
    Prop where
  here : after.recordsAt key = records
  elsewhere : ∀ other, other ≠ key → after.recordsAt other = before.recordsAt other
  keyed : ∀ other found, after.prefixIndex.lookup other = some found →
    (other = key ∧ found ≠ []) ∨ before.prefixIndex.lookup other = some found

theorem rekeyed_insert {before after : KVCacheManager} {key : String}
    {records : List PrefixRecord} (nonempty : records ≠ [])
    (prefixIndex : after.prefixIndex = before.prefixIndex.insert key records) :
    Rekeyed before after key records := by
  refine ⟨by simp [recordsAt, prefixIndex], ?_, ?_⟩
  · intro other different
    simp [recordsAt, prefixIndex, AList.lookup_insert_ne different]
  · intro other found member
    rw [prefixIndex] at member
    by_cases same : other = key
    · subst same
      rw [AList.lookup_insert] at member
      exact Or.inl ⟨rfl, Option.some.inj member ▸ nonempty⟩
    · rw [AList.lookup_insert_ne same] at member
      exact Or.inr member

theorem rekeyed_erase {before after : KVCacheManager} {key : String}
    (prefixIndex : after.prefixIndex = before.prefixIndex.erase key) :
    Rekeyed before after key [] := by
  refine ⟨by simp [recordsAt, prefixIndex], ?_, ?_⟩
  · intro other different
    simp [recordsAt, prefixIndex, AList.lookup_erase_ne different]
  · intro other found member
    rw [prefixIndex] at member
    by_cases same : other = key
    · subst same
      rw [AList.lookup_erase] at member
      simp at member
    · rw [AList.lookup_erase_ne same] at member
      exact Or.inr member

/-- A call that changes the records of one key together with their users. -/
theorem Pinned.rekey {before after : KVCacheManager} (pinned : before.Pinned) {key : String}
    {records : List PrefixRecord} (keyed : key ≠ "") (rekeyed : Rekeyed before after key records)
    (counted : ∀ hash, usersIn records hash = after.usersOf key hash)
    (others : ∀ other, other ≠ "" → other ≠ key → ∀ hash,
      after.usersOf other hash = before.usersOf other hash)
    (used : ∀ record ∈ records, 1 ≤ record.users)
    (distinct : (records.map (·.contentHash)).Nodup)
    (mapped : ∀ id state, after.sequences.lookup id = some state → state.prefixKey ≠ "" →
      state.textTable.entries ≠ []) : after.Pinned := by
  refine ⟨?_, ?_, ?_, ?_, mapped⟩
  · intro other named hash
    by_cases same : other = key
    · subst same
      rw [rekeyed.here]
      exact counted hash
    · rw [rekeyed.elsewhere other same, others other named same hash]
      exact pinned.counted other named hash
  · intro other
    by_cases same : other = key
    · subst same
      rw [rekeyed.here]
      exact used
    · rw [rekeyed.elsewhere other same]
      exact pinned.used other
  · intro other
    by_cases same : other = key
    · subst same
      rw [rekeyed.here]
      exact distinct
    · rw [rekeyed.elsewhere other same]
      exact pinned.distinct other
  · intro other found member
    rcases rekeyed.keyed other found member with ⟨rfl, nonempty⟩ | old
    · exact ⟨keyed, nonempty⟩
    · exact pinned.keyed other found old

theorem Pinned.opened {before after : KVCacheManager} {id : SequenceId} {state : SequenceState}
    (pinned : before.Pinned) (opened : Opened before after id state) : after.Pinned := by
  refine pinned.keep opened.prefixIndex ?_
    (mapped_insert pinned opened.sequences fun named => absurd opened.unnamed named)
  intro key named hash
  rw [usersOf_insert_new opened.absent opened.sequences, opened.unnamed]
  simp [named.symm]

theorem Pinned.grown {before after : KVCacheManager} {id : SequenceId} {state : SequenceState}
    {blocks : ℕ} {added : List (List BlockTableEntry)} {complete : Bool} (pinned : before.Pinned)
    (grown : Grown before after id state blocks added complete) : after.Pinned := by
  refine pinned.keep grown.prefixIndex
    (fun key _ hash => usersOf_insert_same grown.found grown.sequences rfl rfl key hash)
    (mapped_insert pinned grown.sequences ?_)
  intro named empty
  refine pinned.mapped id state grown.found named ?_
  cases tables_eq : state.tables with
  | nil => simp [SequenceState.textTable, tables_eq, BlockTable.create]
  | cons head tail =>
      cases added with
      | nil => simpa [tables_eq] using grown.reserved.lengths
      | cons entries others =>
          simp only [SequenceState.textTable, tables_eq, extendAll_cons, List.headD_cons,
            BlockTable.extend, List.append_eq_nil_iff] at empty ⊢
          exact empty.1

theorem Pinned.moved {before after : KVCacheManager} {id : SequenceId} {state : SequenceState}
    {tables : List BlockTable} (pinned : before.Pinned)
    (moved : Moved before after id state tables) : after.Pinned := by
  refine pinned.keep moved.prefixIndex
    (fun key _ hash => usersOf_insert_same moved.found moved.sequences rfl rfl key hash)
    (mapped_insert pinned moved.sequences ?_)
  intro named empty
  refine pinned.mapped id state moved.found named ?_
  have lengths := moved.lengths
  cases state_eq : state.tables with
  | nil => simp [SequenceState.textTable, state_eq, BlockTable.create]
  | cons head tail =>
      cases tables_eq : tables with
      | nil => simp [state_eq, tables_eq] at lengths
      | cons head' tail' =>
          simp only [state_eq, tables_eq, List.map_cons, List.cons.injEq] at lengths
          simp only [SequenceState.textTable, tables_eq, List.headD_cons] at empty
          simp only [SequenceState.textTable, state_eq, List.headD_cons]
          rw [empty] at lengths
          exact List.length_eq_zero_iff.mp lengths.1.symm

theorem Pinned.stored {before after : KVCacheManager} {frame : PhysicalBlockId}
    {update : List UInt8 → List UInt8} (pinned : before.Pinned)
    (stored : Stored before after frame update) : after.Pinned := by
  refine pinned.keep stored.prefixIndex ?_ ?_
  · intro key _ hash
    rw [usersOf, names, stored.sequences]
    rfl
  · rw [stored.sequences]
    exact pinned.mapped

/-- One more user of one record. -/
theorem usersIn_bump {front back : List PrefixRecord} {record : PrefixRecord} {users : ℕ}
    (first : ∀ other ∈ front ++ back, other.contentHash ≠ record.contentHash) (hash : UInt64) :
    usersIn (front ++ { record with users } :: back) hash =
      if record.contentHash = hash then users else usersIn (front ++ record :: back) hash := by
  simp only [usersIn_append, usersIn_cons]
  split
  · rename_i same
    subst same
    have front_missing := usersIn_eq_zero
      fun other member => first other (List.mem_append_left back member)
    have back_missing := usersIn_eq_zero
      fun other member => first other (List.mem_append_right front member)
    omega
  · rfl

theorem others_of_distinct {front back : List PrefixRecord} {record : PrefixRecord}
    (distinct : ((front ++ record :: back).map (·.contentHash)).Nodup) :
    ∀ other ∈ front ++ back, other.contentHash ≠ record.contentHash := by
  have moved : ((front ++ record :: back).map (·.contentHash)).Perm
      ((record :: (front ++ back)).map (·.contentHash)) := List.perm_middle.map _
  have apart := (List.nodup_cons.mp (moved.nodup distinct)).1
  intro other member same
  exact apart (List.mem_map.mpr ⟨other, member, same⟩)

/-- The users of one record grow by one with a new name for it. -/
theorem Pinned.renamed {before after : KVCacheManager} (pinned : before.Pinned) {id : SequenceId}
    {state state' : SequenceState} {key : String} {front back : List PrefixRecord}
    {record : PrefixRecord} (found : before.sequences.lookup id = some state)
    (unnamed : state.prefixKey = "") (keyed : key ≠ "")
    (records : before.prefixIndex.lookup key = some (front ++ record :: back))
    (sequences : after.sequences = before.sequences.insert id state')
    (key_eq : state'.prefixKey = key) (hash_eq : state'.prefixHash = record.contentHash)
    (nonempty : state'.textTable.entries ≠ [])
    (prefixIndex : after.prefixIndex = before.prefixIndex.insert key
      (front ++ { record with users := wrap32 (record.users + 1) } :: back))
    (bounded : after.usersOf key record.contentHash < 2 ^ 32) : after.Pinned := by
  have records_eq : before.recordsAt key = front ++ record :: back := by simp [recordsAt, records]
  have distinct := pinned.distinct key
  rw [records_eq] at distinct
  have shift (other : String) (named : other ≠ "") (hash : UInt64) :
      after.usersOf other hash = before.usersOf other hash +
        if (key, record.contentHash) = (other, hash) then 1 else 0 := by
    have moved := usersOf_insert found sequences other hash
    rw [unnamed, key_eq, hash_eq] at moved
    rw [← moved]
    simp [named.symm]
  have now : after.usersOf key record.contentHash = record.users + 1 := by
    rw [shift key keyed, if_pos rfl, ← pinned.counted key keyed, records_eq,
      usersIn_eq_of_mem distinct (by simp)]
  have exact_count : wrap32 (record.users + 1) = record.users + 1 :=
    wrap32_of_lt (now ▸ bounded)
  rw [exact_count] at prefixIndex
  refine pinned.rekey keyed (rekeyed_insert (by simp) prefixIndex) ?_ ?_ ?_ ?_
    (mapped_insert pinned sequences fun _ => nonempty)
  · intro hash
    rw [usersIn_bump (others_of_distinct distinct)]
    split
    · rename_i same
      rw [← same, now]
    · rename_i different
      rw [shift key keyed, ← pinned.counted key keyed, records_eq]
      simp [different]
  · intro other named different hash
    rw [shift other named]
    simp [different.symm]
  · intro other member
    rcases List.mem_append.mp member with inside | inside
    · exact pinned.used key other (by rw [records_eq]; simp [inside])
    · rcases List.mem_cons.mp inside with rfl | inside
      · simp
      · exact pinned.used key other (by rw [records_eq]; simp [inside])
  · simpa using distinct

theorem Pinned.joined {before after : KVCacheManager} {id : SequenceId} {state : SequenceState}
    {key : String} {front back : List PrefixRecord} {existing : PrefixRecord}
    (pinned : before.Pinned) (joined : Joined before after id state key front existing back)
    (unnamed : state.prefixKey = "")
    (bounded : after.usersOf key existing.contentHash < 2 ^ 32) : after.Pinned :=
  pinned.renamed joined.found unnamed joined.keyed joined.records joined.sequences rfl rfl
    joined.nonempty joined.prefixIndex bounded

theorem Pinned.attached {before after : KVCacheManager} {id : SequenceId} {state : SequenceState}
    {key : String} {record : PrefixRecord} {added : List (List BlockTableEntry)}
    (pinned : before.Pinned) (attached : Attached before after id state key record added)
    (bounded : after.usersOf key record.contentHash < 2 ^ 32) : after.Pinned := by
  have unnamed : state.prefixKey = "" := by
    by_contra named
    exact pinned.mapped id state attached.found named attached.text_empty
  have records : before.prefixIndex.lookup key = some ([] ++ record :: []) := attached.records
  exact pinned.renamed attached.found unnamed attached.keyed records attached.sequences rfl rfl
    attached.text_nonempty attached.prefixIndex bounded

theorem Pinned.published {before after : KVCacheManager} {id : SequenceId}
    {state : SequenceState} {key : String} {record : PrefixRecord} (pinned : before.Pinned)
    (published : Published before after id state key record) (unnamed : state.prefixKey = "") :
    after.Pinned := by
  have shift (other : String) (named : other ≠ "") (hash : UInt64) :
      after.usersOf other hash = before.usersOf other hash +
        if (key, record.contentHash) = (other, hash) then 1 else 0 := by
    have moved := usersOf_insert published.found published.sequences other hash
    rw [unnamed] at moved
    rw [← moved]
    simp [named.symm]
  refine pinned.rekey published.keyed (rekeyed_insert (by simp) published.prefixIndex) ?_ ?_ ?_ ?_
    (mapped_insert pinned published.sequences fun _ => published.nonempty)
  · intro hash
    rw [shift key published.keyed, ← pinned.counted key published.keyed, usersIn_append,
      usersIn_cons, usersIn_nil, published.users]
    simp
  · intro other named different hash
    rw [shift other named]
    simp [different.symm]
  · intro other member
    rcases List.mem_append.mp member with old | new
    · exact pinned.used key other old
    · rw [List.mem_singleton.mp new, published.users]
  · rw [List.map_append, List.nodup_append]
    refine ⟨pinned.distinct key, by simp, ?_⟩
    intro hash old hash' new same
    obtain ⟨other, other_mem, rfl⟩ := List.mem_map.mp old
    obtain rfl : hash' = record.contentHash := by simpa using new
    exact published.new other other_mem same

theorem Pinned.released {before after : KVCacheManager} {id : SequenceId} {state : SequenceState}
    (pinned : before.Pinned) (released : Released before after id state) : after.Pinned := by
  have users := usersOf_erase released.found released.sequences
  have mapped : ∀ other found, after.sequences.lookup other = some found →
      found.prefixKey ≠ "" → found.textTable.entries ≠ [] := by
    intro other found member
    rw [released.sequences] at member
    by_cases same : other = id
    · subst same
      rw [AList.lookup_erase] at member
      simp at member
    · rw [AList.lookup_erase_ne same] at member
      exact pinned.mapped other found member
  obtain ⟨freed, dropped⟩ := released.dropped
  generalize key_eq : state.prefixKey = key at dropped users
  generalize hash_eq : state.prefixHash = hash at dropped users
  cases dropped with
  | missing unnamed same =>
      refine pinned.keep same ?_ mapped
      intro other named other_hash
      rcases unnamed with rfl | unrecorded
      · rw [users other other_hash]
        simp [named.symm]
      · -- A name without a record would have been counted as a user.
        by_cases this_name : (key, hash) = (other, other_hash)
        · obtain ⟨rfl, rfl⟩ := Prod.mk.injEq .. ▸ this_name
          have counted := pinned.counted key named hash
          rw [recordsAt, usersIn_eq_zero unrecorded, users key hash, if_pos rfl] at counted
          omega
        · rw [users other other_hash, if_neg this_name, Nat.add_zero]
  | @kept front back record keyed found first named more same =>
      have records_eq : before.recordsAt key = front ++ record :: back := by simp [recordsAt, found]
      have distinct := pinned.distinct key
      rw [records_eq] at distinct
      subst named
      refine pinned.rekey keyed (rekeyed_insert (by simp) same) ?_ ?_ ?_ ?_ mapped
      · intro other_hash
        have counted := pinned.counted key keyed other_hash
        rw [records_eq, users key other_hash] at counted
        rw [usersIn_bump (others_of_distinct distinct)]
        split
        · rename_i this_hash
          subst this_hash
          rw [usersIn_eq_of_mem distinct (by simp), if_pos rfl] at counted
          omega
        · rename_i different
          rw [counted]
          simp [different]
      · intro other other_named different other_hash
        rw [users other other_hash]
        simp [different.symm]
      · intro other member
        rcases List.mem_append.mp member with inside | inside
        · exact pinned.used key other (by rw [records_eq]; simp [inside])
        · rcases List.mem_cons.mp inside with rfl | inside
          · exact more
          · exact pinned.used key other (by rw [records_eq]; simp [inside])
      · simpa using distinct
  | @last front back record keyed found first named none_left same =>
      have records_eq : before.recordsAt key = front ++ record :: back := by simp [recordsAt, found]
      have distinct := pinned.distinct key
      rw [records_eq] at distinct
      subst named
      have rekeyed : Rekeyed before after key (front ++ back) := by
        split at same
        · rename_i nothing
          rw [nothing]
          exact rekeyed_erase same
        · rename_i others
          exact rekeyed_insert others same
      refine pinned.rekey keyed rekeyed ?_ ?_ ?_ ?_ mapped
      · intro other_hash
        have counted := pinned.counted key keyed other_hash
        rw [records_eq, users key other_hash, usersIn_append, usersIn_cons] at counted
        rw [usersIn_append]
        by_cases this_hash : record.contentHash = other_hash
        · subst this_hash
          have used := pinned.used key record (by rw [records_eq]; simp)
          simp only [if_true] at counted
          omega
        · simp only [this_hash, if_false, Nat.zero_add] at counted
          simpa [this_hash] using counted
      · intro other other_named different other_hash
        rw [users other other_hash]
        simp [different.symm]
      · intro other member
        refine pinned.used key other ?_
        rw [records_eq]
        rcases List.mem_append.mp member with inside | inside <;> simp [inside]
      · exact distinct.sublist
          (((List.Sublist.refl front).append (List.sublist_cons_self record back)).map _)

/-! ## Runs -/

/-- No publication replaces the name a sequence already holds: the key is refused, or the sequence
is unnamed, has this very name, or is partly swapped out and refused. -/
def KeepsNames (manager : KVCacheManager) : CacheOp → Prop
  | .publishPrefix sequenceId key => key = "" ∨ ∀ state ∈ manager.sequences.lookup sequenceId,
      state.prefixKey = "" ∨ state.prefixKey = key ∨ anySwapped state.tables = true
  | _ => True

instance (manager : KVCacheManager) : (op : CacheOp) → Decidable (manager.KeepsNames op)
  | .publishPrefix sequenceId key =>
      inferInstanceAs (Decidable (key = "" ∨ ∀ state ∈ manager.sequences.lookup sequenceId, _))
  | .createSequence _ | .forkSequence _ _ | .reserveTokens _ _ | .ensureTokenWritable _ _ _
  | .writeToken _ _ _ _ | .swapOutSequence _ | .swapOutRequest _ | .swapInSequence _
  | .swapInRequest _ | .attachPrefix _ _ | .releaseSequence _ | .releaseRequest _ =>
      isTrue trivial

/-- A call within the 32-bit counters that replaces no name. -/
structure PinAdmissible (manager : KVCacheManager) (op : CacheOp) : Prop extends
    Admissible manager op where
  keeps_names : manager.KeepsNames op
  counted_users : ∀ key, key ≠ "" → ∀ hash, (manager.step op).usersOf key hash < 2 ^ 32

/-- The accounts together with the pins. -/
def AccountedPins (manager : KVCacheManager) : Prop := manager.Accounted ∧ manager.Pinned

theorem AccountedPins.swapOutSequence {manager : KVCacheManager} (holds : manager.AccountedPins)
    (sequenceId : SequenceId) : (manager.swapOutSequence sequenceId).2.AccountedPins := by
  refine ⟨holds.1.swapOutSequence sequenceId, ?_⟩
  rcases swapOutSequence_cases holds.1 sequenceId with same | ⟨_, _, _, _, run_eq, moved⟩
  · rw [same]
    exact holds.2
  · rw [run_eq]
    exact holds.2.moved moved

theorem AccountedPins.swapInSequence {manager : KVCacheManager} (holds : manager.AccountedPins)
    (sequenceId : SequenceId) : (manager.swapInSequence sequenceId).2.AccountedPins := by
  refine ⟨holds.1.swapInSequence sequenceId, ?_⟩
  rcases swapInSequence_cases holds.1 sequenceId with
    ⟨_, same, -⟩ | ⟨_, _, _, _, run_eq, moved, -⟩
  · rw [same]
    exact holds.2
  · rw [run_eq]
    exact holds.2.moved moved

theorem AccountedPins.releaseSequence {manager : KVCacheManager} (holds : manager.AccountedPins)
    (sequenceId : SequenceId) : (manager.releaseSequence sequenceId).AccountedPins := by
  refine ⟨holds.1.releaseSequence sequenceId, ?_⟩
  rcases releaseSequence_cases holds.1 sequenceId with ⟨-, same⟩ | ⟨_, released⟩
  · rw [same]
    exact holds.2
  · exact holds.2.released released

theorem accountedPins_step {manager : KVCacheManager} {op : CacheOp}
    (holds : manager.AccountedPins) (admissible : manager.PinAdmissible op) :
    (manager.step op).AccountedPins := by
  obtain ⟨accounted, pinned⟩ := holds
  -- Request calls are runs of sequence calls and preserve both parts together.
  cases op with
  | swapOutRequest requestId =>
      exact swapOutSequences_induction (fun _ id holds => holds.swapOutSequence id)
        ⟨accounted, pinned⟩ _
  | swapInRequest requestId =>
      exact swapInRequest_induction (fun _ id holds => holds.swapInSequence id)
        ⟨accounted, pinned⟩ requestId
  | releaseRequest requestId =>
      exact releaseRequest_induction (fun _ id holds => holds.releaseSequence id)
        ⟨accounted, pinned⟩ requestId
  | swapOutSequence sequenceId => exact AccountedPins.swapOutSequence ⟨accounted, pinned⟩ sequenceId
  | swapInSequence sequenceId => exact AccountedPins.swapInSequence ⟨accounted, pinned⟩ sequenceId
  | releaseSequence sequenceId => exact AccountedPins.releaseSequence ⟨accounted, pinned⟩ sequenceId
  | createSequence metadata =>
      refine ⟨accounted_step accounted admissible.toAdmissible, ?_⟩
      rcases createSequence_cases accounted metadata with same | ⟨after, run_eq, opened, -⟩
      · rwa [step, same]
      · rw [step, run_eq]
        exact pinned.opened opened
  | forkSequence parentId childMetadata =>
      refine ⟨accounted_step accounted admissible.toAdmissible, ?_⟩
      rcases forkSequence_cases accounted parentId childMetadata admissible.referenced with
        same | ⟨after, parent, child, run_eq, -, -, opened⟩
      · rwa [step, same]
      · rw [step, run_eq]
        exact pinned.opened opened
  | reserveTokens sequenceId tokenCount =>
      refine ⟨accounted_step accounted admissible.toAdmissible, ?_⟩
      rcases reserveTokens_cases accounted sequenceId tokenCount admissible.indexable with
        same | ⟨after, state, added, complete, run_eq, -, grown⟩
      · rwa [step, same]
      · rw [step, run_eq]
        exact pinned.grown grown
  | ensureTokenWritable sequenceId token layer =>
      refine ⟨accounted_step accounted admissible.toAdmissible, ?_⟩
      rcases ensureTokenWritable_cases accounted sequenceId token layer with
        same | ⟨after, state, tables, frame, run_eq, moved, -⟩
      · rwa [step, same]
      · rw [step, run_eq]
        exact pinned.moved moved
  | writeToken sequenceId token layer stores =>
      refine ⟨accounted_step accounted admissible.toAdmissible, ?_⟩
      rcases writeToken_cases accounted sequenceId token layer stores with
        same | ⟨middle, after, state, tables, frame, run_eq, moved, -, stored⟩
      · rwa [step, same]
      · rw [step, run_eq]
        exact (pinned.moved moved).stored stored
  | publishPrefix sequenceId key =>
      refine ⟨accounted_step accounted admissible.toAdmissible, ?_⟩
      have keeps := admissible.keeps_names
      have users := admissible.counted_users key
      -- A publication that changes anything is by a sequence without a name.
      have unnamed {state : SequenceState}
          (found : manager.sequences.lookup sequenceId = some state) (keyed : key ≠ "")
          (renamed : state.prefixKey ≠ key) (resident : anySwapped state.tables = false) :
          state.prefixKey = "" := by
        rcases keeps with rfl | keeps
        · exact absurd rfl keyed
        · rcases keeps state found with free | same | swapped
          · exact free
          · exact absurd same renamed
          · rw [resident] at swapped
            simp at swapped
      rcases publishPrefix_cases accounted sequenceId key admissible.referenced with
        ⟨done, same⟩ | ⟨after, state, front, existing, back, run_eq, -, joined⟩ |
          ⟨after, state, record, run_eq, -, published⟩
      · rwa [step, same]
      · rw [step, run_eq] at users ⊢
        exact pinned.joined joined
          (unnamed joined.found joined.keyed joined.renamed joined.resident)
          (users joined.keyed _)
      · rw [step, run_eq]
        exact pinned.published published
          (unnamed published.found published.keyed published.renamed published.resident)
  | attachPrefix sequenceId key =>
      refine ⟨accounted_step accounted admissible.toAdmissible, ?_⟩
      have users := admissible.counted_users key
      rcases attachPrefix_cases accounted sequenceId key admissible.referenced with
        same | ⟨after, state, record, added, run_eq, attached⟩
      · rwa [step, same]
      · rw [step, run_eq] at users ⊢
        exact pinned.attached attached (users attached.keyed _)

/-! ## Nothing leaks -/

/-- User counts are exact and positive, and with the last sequence everything is given back. -/
structure PinsExact (manager : KVCacheManager) : Prop where
  users : ∀ key records, manager.prefixIndex.lookup key = some records → ∀ record ∈ records,
    record.users = manager.usersOf key record.contentHash ∧ 1 ≤ record.users
  drained : manager.sequences = ∅ → manager.prefixIndex = ∅ ∧
    (∀ frame, frame < manager.allocator.config.maxBlocks → frame ∈ manager.allocator.freeList) ∧
    manager.allocator.residentKeys = []

theorem AccountedPins.exact {manager : KVCacheManager} (holds : manager.AccountedPins) :
    manager.PinsExact := by
  obtain ⟨accounted, pinned⟩ := holds
  have users : ∀ key records, manager.prefixIndex.lookup key = some records →
      ∀ record ∈ records, record.users = manager.usersOf key record.contentHash ∧
        1 ≤ record.users := by
    intro key records found record member
    have records_eq : manager.recordsAt key = records := by simp [recordsAt, found]
    have record_mem : record ∈ manager.recordsAt key := records_eq ▸ member
    refine ⟨?_, pinned.used key record record_mem⟩
    rw [← pinned.counted key (pinned.keyed key records found).1,
      usersIn_eq_of_mem (pinned.distinct key) record_mem]
  refine ⟨users, ?_⟩
  intro gone
  have unindexed : manager.prefixIndex = ∅ := by
    apply AList.ext
    by_contra some_left
    obtain ⟨⟨key, records⟩, member⟩ := List.exists_mem_of_ne_nil _ some_left
    have found : manager.prefixIndex.lookup key = some records :=
      Option.mem_def.mp (AList.mem_lookup_iff.mpr member)
    obtain ⟨record, record_mem⟩ := List.exists_mem_of_ne_nil _ (pinned.keyed key records found).2
    -- A record has a user, and users are live sequences.
    obtain ⟨count, positive⟩ := users key records found record record_mem
    rw [count] at positive
    simp [usersOf, names, gone] at positive
  have nothing : manager.places = [] := by
    simp [places, liveEntries, pinnedIds, gone, unindexed]
  have ledger := accounted.ledger
  rw [nothing] at ledger
  refine ⟨unindexed, ?_, ?_⟩
  · intro frame inside
    exact (ledger.formed.mem_free frame).mpr ⟨inside, by simpa using ledger.refs frame⟩
  · simpa using ledger.slots

/-- Prefix pins are never leaked while no sequence publishes under a second name. -/
theorem prefix_pins_exact (config : AllocatorConfig) (slab : ℕ → UInt8) (maxSlots : ℕ)
    (ops : List CacheOp)
    (admissible : Execution.Along step PinAdmissible (fresh config slab maxSlots) ops) :
    ((fresh config slab maxSlots).run ops).PinsExact := by
  have start : (fresh config slab maxSlots).AccountedPins :=
    ⟨accounted_fresh config slab maxSlots, pinned_fresh config slab maxSlots⟩
  exact (Execution.Along.invariant (fun _ _ => accountedPins_step) start admissible).exact

/-- Sharing under one key, until every sequence is released. -/
def drainingOps : List CacheOp :=
  sharingOps ++ [.releaseSequence 1, .releaseRequest 7, .releaseSequence 3]

theorem prefix_pins_exact_draining :
    Execution.Along step PinAdmissible (fresh smallConfig (fun _ => 0) 4) drainingOps ∧
      ((fresh smallConfig (fun _ => 0) 4).run drainingOps).PinsExact ∧
      ((fresh smallConfig (fun _ => 0) 4).run drainingOps).sequences = ∅ := by
  have small : Execution.Along step
      (fun manager op => (manager.step op).places.length < 2 ^ 32 ∧ manager.Indexable op ∧
        manager.KeepsNames op ∧ (manager.step op).names.length < 2 ^ 32)
      (fresh smallConfig (fun _ => 0) 4) drainingOps := by decide
  have admissible : Execution.Along step PinAdmissible (fresh smallConfig (fun _ => 0) 4)
      drainingOps := by
    refine small.imp fun manager op fits => ⟨admissible_of_length fits.1 fits.2.1, fits.2.2.1, ?_⟩
    intro key _ hash
    exact List.count_le_length.trans_lt fits.2.2.2
  exact ⟨admissible, prefix_pins_exact _ _ _ _ admissible,
    AList.ext (List.length_eq_zero_iff.mp (by decide))⟩

/-- One sequence, published under two keys and released. -/
def republishingOps : List CacheOp :=
  [.createSequence ⟨1, 7⟩, .reserveTokens 1 2, .publishPrefix 1 "first",
    .publishPrefix 1 "second", .releaseSequence 1]

/-- The record of the first key keeps its user and its frame for ever. -/
theorem prefix_pins_leak_on_second_key :
    Execution.Along step Admissible (fresh smallConfig (fun _ => 0) 4) republishingOps ∧
      ¬ ((fresh smallConfig (fun _ => 0) 4).run republishingOps).PinsExact := by
  have small : Execution.Along step
      (fun manager op => (manager.step op).places.length < 2 ^ 32 ∧ manager.Indexable op)
      (fresh smallConfig (fun _ => 0) 4) republishingOps := by decide
  refine ⟨small.imp fun _ _ fits => admissible_of_length fits.1 fits.2, ?_⟩
  intro pins
  have gone : ((fresh smallConfig (fun _ => 0) 4).run republishingOps).sequences = ∅ :=
    AList.ext (List.length_eq_zero_iff.mp (by decide))
  have left : ((fresh smallConfig (fun _ => 0) 4).run republishingOps).prefixIndex.entries.length
      = 1 := by decide
  rw [(pins.drained gone).1] at left
  simp at left

end KVCacheManager
end QwenVLPaged
