import QwenVLPaged.PrefixPins

/-!
# Contents under one prefix key

A prefix record stands for the bytes that its publisher mapped, and is told apart by their 64-bit
hash alone. Two contents with different hashes keep two records under a key as long as their
publishers live, and then nobody may share either; two contents with the same hash are one record.
-/

namespace QwenVLPaged

/-- FNV-1a hash of a byte string. -/
def fnvHash (bytes : List UInt8) : UInt64 :=
  bytes.foldl (fun hash byte => (hash ^^^ byte.toUInt64) * KVCacheManager.fnvPrime)
    KVCacheManager.fnvOffsetBasis

/-- Hash of the bytes of several tables. -/
def contentHash (contents : List (List UInt8)) : UInt64 :=
  contents.foldl (fun hash bytes => (hash ^^^ fnvHash bytes) * KVCacheManager.fnvPrime)
    KVCacheManager.fnvOffsetBasis

/-- The name that a sequence holds. -/
def SequenceState.name (state : SequenceState) : String × UInt64 :=
  (state.prefixKey, state.prefixHash)

/-- A live sequence that had no prefix key and has published under one: the bytes it mapped then,
table by table. -/
structure Publication where
  sequenceId : SequenceId
  key : String
  contents : List (List UInt8)
  deriving DecidableEq

namespace KVCacheManager

/-- Bytes of the frames mapped by a table, in logical order. -/
def mappedBytes (manager : KVCacheManager) (table : BlockTable) : List UInt8 :=
  table.entries.flatMap fun entry => (manager.allocator.frameBytes entry.physicalId).getD []

/-- Bytes of the frames mapped by several tables. -/
def contentsOf (manager : KVCacheManager) (tables : List BlockTable) : List (List UInt8) :=
  tables.map manager.mappedBytes

/-- The hash of a resident table is the hash of the bytes it maps. -/
theorem contentHashOfTable_eq {manager : KVCacheManager} {table : BlockTable}
    (resident : ∀ entry ∈ table.entries, entry.swapSlot = none) :
    manager.contentHashOfTable table = fnvHash (manager.mappedBytes table) := by
  unfold contentHashOfTable fnvHash mappedBytes
  generalize fnvOffsetBasis = hash
  generalize table.entries = entries at resident ⊢
  induction entries generalizing hash with
  | nil => rfl
  | cons entry entries induction =>
      obtain ⟨first, others⟩ := List.forall_mem_cons.mp resident
      rw [List.foldl_cons, List.flatMap_cons, List.foldl_append, induction _ others]
      congr 1
      cases block : manager.allocator.block entry.physicalId with
      | none => simp [first, MemoryAllocator.frameBytes, block]
      | some found => simp [first, MemoryAllocator.frameBytes, block]

theorem contentHashOf_eq {manager : KVCacheManager} {tables : List BlockTable}
    (resident : anySwapped tables = false) :
    manager.contentHashOf tables = contentHash (manager.contentsOf tables) := by
  have each : ∀ table ∈ tables, ∀ entry ∈ table.entries, entry.swapSlot = none := by
    simpa [anySwapped] using resident
  unfold contentHashOf contentHash contentsOf
  rw [List.foldl_map]
  refine List.foldl_ext _ _ _ fun hash table member => ?_
  rw [contentHashOfTable_eq (each table member)]

/-! ## Names and holders -/

/-- The name of a live sequence. -/
def nameOf (manager : KVCacheManager) (id : SequenceId) : Option (String × UInt64) :=
  (manager.sequences.lookup id).map SequenceState.name

/-- Live sequences that name a record or have published it. -/
def holders (log : List Publication) (manager : KVCacheManager) (key : String) (hash : UInt64) :
    Finset SequenceId :=
  manager.sequences.keys.toFinset.filter fun id => manager.nameOf id = some (key, hash) ∨
    ∃ publication ∈ log, publication.sequenceId = id ∧ publication.key = key ∧
      contentHash publication.contents = hash

theorem mem_holders {log : List Publication} {manager : KVCacheManager} {key : String}
    {hash : UInt64} {id : SequenceId} :
    id ∈ holders log manager key hash ↔ (manager.nameOf id).isSome ∧
      (manager.nameOf id = some (key, hash) ∨
        ∃ publication ∈ log, publication.sequenceId = id ∧ publication.key = key ∧
          contentHash publication.contents = hash) := by
  have live : id ∈ manager.sequences.keys ↔ (manager.nameOf id).isSome := by
    rw [← AList.mem_keys, ← AList.lookup_isSome, nameOf, Option.isSome_map]
  rw [holders, Finset.mem_filter, List.mem_toFinset, live]

/-- Every record has at least the users that hold it, and a hash has one record. -/
structure Held (log : List Publication) (manager : KVCacheManager) : Prop where
  distinct : ∀ key, ((manager.recordsAt key).map (·.contentHash)).Nodup
  users : ∀ key, key ≠ "" → ∀ hash,
    (holders log manager key hash).card ≤ usersIn (manager.recordsAt key) hash

/-- A call that touches neither names nor records. -/
structure Steady (before after : KVCacheManager) : Prop where
  names : ∀ id, after.nameOf id = before.nameOf id
  prefixIndex : after.prefixIndex = before.prefixIndex

theorem Steady.refl (manager : KVCacheManager) : Steady manager manager := ⟨fun _ => rfl, rfl⟩

theorem Steady.trans {first second third : KVCacheManager} (front : Steady first second)
    (back : Steady second third) : Steady first third :=
  ⟨fun id => (back.names id).trans (front.names id), back.prefixIndex.trans front.prefixIndex⟩

theorem nameOf_insert {before after : KVCacheManager} {id : SequenceId} {state : SequenceState}
    (sequences : after.sequences = before.sequences.insert id state) (other : SequenceId) :
    after.nameOf other = if other = id then some state.name else before.nameOf other := by
  rw [nameOf, sequences]
  split
  · rename_i same
    subst same
    rw [AList.lookup_insert]
    rfl
  · rename_i different
    rw [AList.lookup_insert_ne different]
    rfl

theorem steady_insert {before after : KVCacheManager} {id : SequenceId}
    {state state' : SequenceState} (found : before.sequences.lookup id = some state)
    (sequences : after.sequences = before.sequences.insert id state')
    (name : state'.name = state.name) (prefixIndex : after.prefixIndex = before.prefixIndex) :
    Steady before after := by
  refine ⟨fun other => ?_, prefixIndex⟩
  rw [nameOf_insert sequences]
  split
  · rename_i same
    rw [same, nameOf, found, name]
    rfl
  · rfl

theorem recordsAt_congr {before after : KVCacheManager}
    (prefixIndex : after.prefixIndex = before.prefixIndex) (key : String) :
    after.recordsAt key = before.recordsAt key := by
  rw [recordsAt, recordsAt, prefixIndex]

/-- Fewer holders of the same records. -/
theorem Held.mono {log log' : List Publication} {before after : KVCacheManager}
    (held : Held log before) (prefixIndex : after.prefixIndex = before.prefixIndex)
    (fewer : ∀ key, key ≠ "" → ∀ hash,
      holders log' after key hash ⊆ holders log before key hash) : Held log' after := by
  refine ⟨fun key => ?_, fun key keyed hash => ?_⟩
  · rw [recordsAt_congr prefixIndex]
    exact held.distinct key
  · rw [recordsAt_congr prefixIndex]
    exact (Finset.card_le_card (fewer key keyed hash)).trans (held.users key keyed hash)

theorem Held.steady {log : List Publication} {before after : KVCacheManager}
    (held : Held log before) (steady : Steady before after) : Held log after := by
  refine held.mono steady.prefixIndex fun key keyed hash id member => ?_
  rw [mem_holders, steady.names] at member
  exact mem_holders.mpr member

theorem Held.forget {log log' : List Publication} {manager : KVCacheManager}
    (held : Held log manager) (subset : log' ⊆ log) : Held log' manager := by
  refine held.mono rfl fun key keyed hash id member => ?_
  rw [mem_holders] at member ⊢
  refine ⟨member.1, member.2.imp_right ?_⟩
  rintro ⟨publication, inside, rest⟩
  exact ⟨publication, subset inside, rest⟩

/-! ## Calls -/

theorem steady_reserveTokens (manager : KVCacheManager) (sequenceId : SequenceId)
    (tokenCount : ℕ) : Steady manager (manager.reserveTokens sequenceId tokenCount).2 := by
  unfold reserveTokens
  split
  · exact .refl manager
  rename_i state found
  split
  · exact .refl manager
  simp only
  split
  · exact .refl manager
  · exact steady_insert found rfl rfl rfl

theorem steady_ensureTokenWritable (manager : KVCacheManager) (sequenceId : SequenceId)
    (tokenPosition layer : ℕ) :
    Steady manager (manager.ensureTokenWritable sequenceId tokenPosition layer).2 := by
  unfold ensureTokenWritable
  split
  · exact .refl manager
  rename_i state found
  split
  · exact .refl manager
  simp only
  repeat' split
  all_goals first
    | exact ⟨fun _ => rfl, rfl⟩
    | exact steady_insert found rfl rfl rfl

theorem steady_writeToken (manager : KVCacheManager) (sequenceId : SequenceId)
    (token layer : ℕ) (stores : List TokenStore) :
    Steady manager (manager.writeToken sequenceId token layer stores).2 := by
  have steady := manager.steady_ensureTokenWritable sequenceId token layer
  rw [writeToken]
  split
  · rename_i refused
    rwa [refused] at steady
  · rename_i granted
    rw [granted] at steady
    exact ⟨steady.names, steady.prefixIndex⟩

theorem steady_swapOutSequence (manager : KVCacheManager) (sequenceId : SequenceId) :
    Steady manager (manager.swapOutSequence sequenceId).2 := by
  unfold swapOutSequence
  split
  · exact .refl manager
  · rename_i state found
    exact steady_insert found rfl rfl rfl

theorem steady_swapInSequence (manager : KVCacheManager) (sequenceId : SequenceId) :
    Steady manager (manager.swapInSequence sequenceId).2 := by
  unfold swapInSequence
  split
  · exact .refl manager
  rename_i state found
  simp only
  split
  · exact .refl manager
  split
  · exact .refl manager
  · exact steady_insert found rfl rfl rfl

/-- Opening a new sequence adds a holder of nothing. -/
theorem Held.opened {log : List Publication} {before after : KVCacheManager} {id : SequenceId}
    {state : SequenceState} (held : Held log before)
    (live : ∀ publication ∈ log, (before.nameOf publication.sequenceId).isSome)
    (absent : before.sequences.lookup id = none)
    (sequences : after.sequences = before.sequences.insert id state)
    (unnamed : state.prefixKey = "") (prefixIndex : after.prefixIndex = before.prefixIndex) :
    Held log after := by
  refine held.mono prefixIndex fun key keyed hash other member => ?_
  rw [mem_holders, nameOf_insert sequences] at member
  rw [mem_holders]
  split at member
  · rename_i same
    rcases member.2 with named | ⟨publication, inside, about, -⟩
    · have key_eq := congrArg Prod.fst (Option.some.inj named)
      exact absurd (key_eq.symm.trans unnamed) keyed
    · have alive := live publication inside
      rw [about, same, nameOf, absent] at alive
      simp at alive
  · exact member

theorem held_createSequence {log : List Publication} {manager : KVCacheManager}
    (held : Held log manager)
    (live : ∀ publication ∈ log, (manager.nameOf publication.sequenceId).isSome)
    (metadata : SequenceMetadata) : Held log (manager.createSequence metadata).2 := by
  unfold createSequence
  split
  · exact held
  · rename_i absent
    exact held.opened live (by simpa using absent) rfl rfl rfl

theorem held_forkSequence {log : List Publication} {manager : KVCacheManager}
    (held : Held log manager)
    (live : ∀ publication ∈ log, (manager.nameOf publication.sequenceId).isSome)
    (parentId : SequenceId) (childMetadata : SequenceMetadata) :
    Held log (manager.forkSequence parentId childMetadata).2 := by
  unfold forkSequence
  split
  · exact held
  split
  · exact held
  rename_i absent
  split
  · exact held
  · exact held.opened live (by simpa using absent) rfl rfl rfl

/-- A sequence that takes a name becomes one more user of its record. -/
theorem Held.named {log new : List Publication} {before after : KVCacheManager}
    {id : SequenceId} {state : SequenceState} {key : String} {hash : UInt64}
    {records : List PrefixRecord} (held : Held log before)
    (rekeyed : Rekeyed before after key records)
    (sequences : after.sequences = before.sequences.insert id state)
    (name : state.name = (key, hash))
    (known : (before.nameOf id).isSome)
    (users : ∀ other, usersIn records other =
      usersIn (before.recordsAt key) other + if hash = other then 1 else 0)
    (distinct : (records.map (·.contentHash)).Nodup)
    (published : ∀ publication ∈ new, publication.sequenceId = id ∧ publication.key = key ∧
      contentHash publication.contents = hash) : Held (log ++ new) after := by
  have names := nameOf_insert sequences
  rw [name] at names
  -- Nobody but the renamed sequence is new to any record, and it only to the named one.
  have holder : ∀ other_key other_hash other, other ∈ holders (log ++ new) after other_key
      other_hash → other ∈ holders log before other_key other_hash ∨
        other = id ∧ other_key = key ∧ other_hash = hash := by
    intro other_key other_hash other member
    rw [mem_holders, names] at member
    rw [mem_holders]
    obtain ⟨alive, named | ⟨publication, inside, about, rest⟩⟩ := member
    · split at named
      · rename_i same
        obtain ⟨rfl, rfl⟩ := Prod.mk.inj (Option.some.inj named)
        exact Or.inr ⟨same, rfl, rfl⟩
      · rename_i different
        rw [if_neg different] at alive
        exact Or.inl ⟨alive, Or.inl named⟩
    · rcases List.mem_append.mp inside with old | fresh
      · refine Or.inl ⟨?_, Or.inr ⟨publication, old, about, rest⟩⟩
        split at alive
        · rename_i same
          rw [same]
          exact known
        · exact alive
      · obtain ⟨owner, key_eq, hash_eq⟩ := published publication fresh
        exact Or.inr ⟨about.symm.trans owner, rest.1.symm.trans key_eq, rest.2.symm.trans hash_eq⟩
  refine ⟨fun other => ?_, fun other_key keyed other_hash => ?_⟩
  · by_cases same : other = key
    · rw [same, rekeyed.here]
      exact distinct
    · rw [rekeyed.elsewhere other same]
      exact held.distinct other
  · have before_users := held.users other_key keyed other_hash
    by_cases same : other_key = key ∧ other_hash = hash
    · obtain ⟨rfl, rfl⟩ := same
      have grown : holders (log ++ new) after other_key other_hash ⊆
          insert id (holders log before other_key other_hash) := by
        intro other member
        rcases holder _ _ other member with old | ⟨rfl, -⟩
        · exact Finset.mem_insert_of_mem old
        · exact Finset.mem_insert_self _ _
      have card := (Finset.card_le_card grown).trans (Finset.card_insert_le _ _)
      rw [rekeyed.here, users, if_pos rfl]
      omega
    · have kept : holders (log ++ new) after other_key other_hash ⊆
          holders log before other_key other_hash := by
        intro other member
        exact (holder _ _ other member).resolve_right fun ⟨_, key_eq, hash_eq⟩ =>
          same ⟨key_eq, hash_eq⟩
      have card := (Finset.card_le_card kept).trans before_users
      by_cases key_eq : other_key = key
      · rw [key_eq, rekeyed.here, users]
        rw [key_eq] at card
        exact card.trans (Nat.le_add_right _ _)
      · rwa [rekeyed.elsewhere other_key key_eq]

/-- Records with one more user under a hash: of the record it has, or of a new one. -/
inductive UserAdded (before : List PrefixRecord) (hash : UInt64) : List PrefixRecord → Prop
  | joined {front back : List PrefixRecord} {existing : PrefixRecord}
      (records : before = front ++ existing :: back) (same : existing.contentHash = hash) :
      UserAdded before hash
        (front ++ { existing with users := wrap32 (existing.users + 1) } :: back)
  | opened {record : PrefixRecord} (missing : ∀ other ∈ before, other.contentHash ≠ hash)
      (same : record.contentHash = hash) (users : record.users = 1) :
      UserAdded before hash (before ++ [record])

theorem UserAdded.ne_nil {before after : List PrefixRecord} {hash : UInt64}
    (added : UserAdded before hash after) : after ≠ [] := by
  cases added <;> simp

theorem UserAdded.distinct {before after : List PrefixRecord} {hash : UInt64}
    (added : UserAdded before hash after) (distinct : (before.map (·.contentHash)).Nodup) :
    (after.map (·.contentHash)).Nodup := by
  cases added with
  | joined records same =>
      rw [records] at distinct
      simpa using distinct
  | @opened record missing same users =>
      rw [List.map_append, List.nodup_append]
      refine ⟨distinct, by simp, ?_⟩
      intro other old other' new equal
      obtain ⟨found, member, rfl⟩ := List.mem_map.mp old
      obtain rfl : other' = record.contentHash := by simpa using new
      exact missing found member (equal.trans same)

theorem UserAdded.usersIn {before after : List PrefixRecord} {hash : UInt64}
    (added : UserAdded before hash after) (distinct : (before.map (·.contentHash)).Nodup)
    (counted : ∀ record ∈ before, record.users + 1 < 2 ^ 32) (other : UInt64) :
    usersIn after other = usersIn before other + if hash = other then 1 else 0 := by
  cases added with
  | @joined front back existing records same =>
      have member : existing ∈ before := by simp [records]
      have users := usersIn_eq_of_mem distinct member
      rw [wrap32_of_lt (counted existing member)]
      rw [records] at distinct users ⊢
      rw [usersIn_bump (others_of_distinct distinct), same]
      split
      · rename_i equal
        rw [← equal, ← same, users]
      · rfl
  | @opened record missing same users =>
      rw [usersIn_append, usersIn_cons, usersIn_nil, users, same, Nat.add_zero]

/-- Publishing changes nothing, or names the sequence after its content and adds a user. -/
theorem publishPrefix_named (manager : KVCacheManager) (sequenceId : SequenceId) (key : String) :
    ((manager.publishPrefix sequenceId key).2 = manager ∧
      ((manager.publishPrefix sequenceId key).1 = true →
        ∀ state, manager.sequences.lookup sequenceId = some state → state.prefixKey ≠ "")) ∨
    ∃ state records, manager.sequences.lookup sequenceId = some state ∧
      anySwapped state.tables = false ∧
      UserAdded (manager.recordsAt key) (manager.contentHashOf state.tables) records ∧
      (manager.publishPrefix sequenceId key).2.sequences = manager.sequences.insert sequenceId
        { state with prefixKey := key, prefixHash := manager.contentHashOf state.tables } ∧
      (manager.publishPrefix sequenceId key).2.prefixIndex =
        manager.prefixIndex.insert key records := by
  unfold publishPrefix
  split
  · exact Or.inl ⟨rfl, by simp⟩
  rename_i keyed
  split
  · exact Or.inl ⟨rfl, by simp⟩
  rename_i state found
  split
  · exact Or.inl ⟨rfl, by simp⟩
  split
  · rename_i named
    refine Or.inl ⟨rfl, fun _ other other_found => ?_⟩
    rw [found] at other_found
    rw [← Option.some.inj other_found, named]
    exact keyed
  split
  · exact Or.inl ⟨rfl, by simp⟩
  split
  · exact Or.inl ⟨rfl, by simp⟩
  rename_i resident
  refine Or.inr ⟨state, ?_⟩
  simp only
  split
  · rename_i existing rest search
    obtain ⟨records, same, -⟩ := records_split search
    exact ⟨_, found, by simpa using resident, .joined records same, rfl, rfl⟩
  · rename_i search
    exact ⟨_, found, by simpa using resident, .opened (records_missing search) rfl rfl, rfl, rfl⟩

theorem attachPrefix_named (manager : KVCacheManager) (sequenceId : SequenceId) (key : String) :
    (manager.attachPrefix sequenceId key).2 = manager ∨
    ∃ state state' hash records, manager.sequences.lookup sequenceId = some state ∧
      state'.name = (key, hash) ∧ UserAdded (manager.recordsAt key) hash records ∧
      (manager.attachPrefix sequenceId key).2.sequences =
        manager.sequences.insert sequenceId state' ∧
      (manager.attachPrefix sequenceId key).2.prefixIndex =
        manager.prefixIndex.insert key records := by
  unfold attachPrefix
  split
  · exact Or.inl rfl
  split
  · exact Or.inl rfl
  rename_i state found
  split
  · exact Or.inl rfl
  split
  · rename_i record only
    simp only
    split
    · exact Or.inl rfl
    split
    · exact Or.inl rfl
    · have records : manager.recordsAt key = [] ++ record :: [] := by simp [recordsAt, only]
      exact Or.inr ⟨state, _, record.contentHash, _, found, rfl, .joined records rfl, rfl, rfl⟩
  · exact Or.inl rfl

/-- No record has all the users that its counter can hold. -/
def UsersCounted (manager : KVCacheManager) (_ : CacheOp) : Prop :=
  ∀ entry ∈ manager.prefixIndex.entries, ∀ record ∈ entry.2, record.users + 1 < 2 ^ 32

instance (manager : KVCacheManager) (op : CacheOp) : Decidable (manager.UsersCounted op) :=
  inferInstanceAs (Decidable (∀ entry ∈ _, ∀ record ∈ _, _))

theorem UsersCounted.recordsAt {manager : KVCacheManager} {op : CacheOp}
    (counted : manager.UsersCounted op) (key : String) :
    ∀ record ∈ manager.recordsAt key, record.users + 1 < 2 ^ 32 := by
  intro record member
  unfold KVCacheManager.recordsAt at member
  cases found : manager.prefixIndex.lookup key with
  | none => simp [found] at member
  | some records =>
      rw [found] at member
      exact counted ⟨key, records⟩ (AList.mem_lookup_iff.mp found) record member

/-- One user of one record less, together with the sequence that named it. -/
theorem Held.unnamed {log : List Publication} {before after : KVCacheManager} {id : SequenceId}
    {state : SequenceState} {records : List PrefixRecord} (held : Held log before)
    (found : before.sequences.lookup id = some state)
    (fewer : ∀ key hash, holders log after key hash ⊆ (holders log before key hash).erase id)
    (rekeyed : Rekeyed before after state.prefixKey records)
    (distinct : (records.map (·.contentHash)).Nodup)
    (users : ∀ hash, usersIn (before.recordsAt state.prefixKey) hash ≤
      usersIn records hash + if state.prefixHash = hash then 1 else 0) : Held log after := by
  refine ⟨fun key => ?_, fun key keyed hash => ?_⟩
  · by_cases same : key = state.prefixKey
    · rw [same, rekeyed.here]
      exact distinct
    · rw [rekeyed.elsewhere key same]
      exact held.distinct key
  · have card := Finset.card_le_card (fewer key hash)
    have before_users := held.users key keyed hash
    by_cases same : key = state.prefixKey
    · subst same
      have spare := users hash
      rw [rekeyed.here]
      split at spare
      · rename_i equal
        have holder : id ∈ holders log before state.prefixKey hash :=
          mem_holders.mpr ⟨by simp [nameOf, found],
            Or.inl (by simp [nameOf, found, SequenceState.name, equal])⟩
        have erased := Finset.card_erase_add_one holder
        omega
      · exact (card.trans (Finset.card_erase_le)).trans (before_users.trans spare)
    · rw [rekeyed.elsewhere key same]
      exact (card.trans (Finset.card_erase_le)).trans before_users

theorem Held.dropped {log : List Publication} {before after : KVCacheManager} {id : SequenceId}
    {state : SequenceState} {freed : List PhysicalBlockId} (held : Held log before)
    (found : before.sequences.lookup id = some state)
    (fewer : ∀ key hash, holders log after key hash ⊆ (holders log before key hash).erase id)
    (dropped : UserDropped before.prefixIndex after.prefixIndex state.prefixKey state.prefixHash
      freed) : Held log after := by
  have distinct := held.distinct state.prefixKey
  cases dropped with
  | missing unnamed same =>
      exact held.mono same fun key _ hash => (fewer key hash).trans (Finset.erase_subset _ _)
  | @kept front back record keyed records first named more same =>
      have records_eq : before.recordsAt state.prefixKey = front ++ record :: back := by
        simp [recordsAt, records]
      rw [records_eq] at distinct
      refine held.unnamed found fewer (rekeyed_insert (by simp) same) (by simpa using distinct)
        fun hash => ?_
      have bumped := @usersIn_bump front back record (record.users - 1)
        (others_of_distinct distinct) hash
      have users := usersIn_eq_of_mem distinct (by simp : record ∈ front ++ record :: back)
      rw [records_eq, bumped, named]
      split
      · rename_i equal
        rw [← equal, ← named, users]
        omega
      · exact Nat.le_add_right _ _
  | @last front back record keyed records first named none_left same =>
      have records_eq : before.recordsAt state.prefixKey = front ++ record :: back := by
        simp [recordsAt, records]
      rw [records_eq] at distinct
      have rekeyed : Rekeyed before after state.prefixKey (front ++ back) := by
        split at same
        · rename_i empty
          rw [empty]
          exact rekeyed_erase same
        · rename_i nonempty
          exact rekeyed_insert nonempty same
      have sublist : (front ++ back).Sublist (front ++ record :: back) :=
        (List.sublist_cons_self _ _).append_left front
      refine held.unnamed found fewer rekeyed (distinct.sublist (sublist.map _)) fun hash => ?_
      rw [records_eq, usersIn_append, usersIn_append, usersIn_cons, named]
      split <;> omega

/-- A released sequence gives back at most one user, of the record it names. -/
theorem held_releaseSequence {log : List Publication} {manager : KVCacheManager}
    (held : Held log manager) (sequenceId : SequenceId) :
    Held log (manager.releaseSequence sequenceId) := by
  cases found : manager.sequences.lookup sequenceId with
  | none => simpa [releaseSequence, found] using held
  | some state =>
      obtain ⟨freed, dropped, -⟩ := manager.dropPrefixUser_cases state
      have prefixIndex : (manager.releaseSequence sequenceId).prefixIndex =
          (manager.dropPrefixUser state).1.prefixIndex := by
        simp [releaseSequence, found]
      rw [← prefixIndex] at dropped
      have sequences := manager.sequences_releaseSequence sequenceId
      generalize manager.releaseSequence sequenceId = after at dropped sequences
      have names (id : SequenceId) :
          after.nameOf id = if id = sequenceId then none else manager.nameOf id := by
        rw [nameOf, sequences]
        split
        · rename_i same
          rw [same, AList.lookup_erase]
          rfl
        · rename_i different
          rw [AList.lookup_erase_ne different]
          rfl
      have fewer (key : String) (hash : UInt64) :
          holders log after key hash ⊆ (holders log manager key hash).erase sequenceId := by
        intro id member
        rw [mem_holders, names] at member
        split at member
        · simp at member
        · rename_i different
          exact Finset.mem_erase.mpr ⟨different, mem_holders.mpr member⟩
      exact held.dropped found fewer dropped

/-! ## Runs -/

/-- The first publication of a sequence that a call makes. -/
def publicationOf (manager : KVCacheManager) : CacheOp → List Publication
  | .publishPrefix sequenceId key =>
      match manager.sequences.lookup sequenceId with
      | none => []
      | some state =>
          if state.prefixKey = "" ∧ (manager.publishPrefix sequenceId key).1 = true then
            [⟨sequenceId, key, manager.contentsOf state.tables⟩]
          else
            []
  | _ => []

theorem held_publishPrefix {log : List Publication} {manager : KVCacheManager}
    (held : Held log manager) {sequenceId : SequenceId} {key : String}
    (counted : manager.UsersCounted (.publishPrefix sequenceId key)) :
    Held (log ++ manager.publicationOf (.publishPrefix sequenceId key))
      (manager.publishPrefix sequenceId key).2 := by
  obtain ⟨same, again⟩ | ⟨state, records, found, resident, added, sequences, prefixIndex⟩ :=
    manager.publishPrefix_named sequenceId key
  · have none_new : manager.publicationOf (.publishPrefix sequenceId key) = [] := by
      simp only [publicationOf]
      split
      · rfl
      · rename_i state found
        rw [if_neg]
        exact fun ⟨unnamed, done⟩ => again done state found unnamed
    rw [none_new, List.append_nil, same]
    exact held
  · refine held.named (rekeyed_insert added.ne_nil prefixIndex) sequences rfl
      (by simp [nameOf, found])
      (added.usersIn (held.distinct key) (counted.recordsAt key))
      (added.distinct (held.distinct key)) ?_
    intro publication member
    simp only [publicationOf, found] at member
    split at member
    · rw [List.mem_singleton.mp member]
      exact ⟨rfl, rfl, (contentHashOf_eq resident).symm⟩
    · exact absurd member List.not_mem_nil

theorem held_attachPrefix {log : List Publication} {manager : KVCacheManager}
    (held : Held log manager) {sequenceId : SequenceId} {key : String}
    (counted : manager.UsersCounted (.attachPrefix sequenceId key)) :
    Held log (manager.attachPrefix sequenceId key).2 := by
  obtain same | ⟨state, state', hash, records, found, name, added, sequences, prefixIndex⟩ :=
    manager.attachPrefix_named sequenceId key
  · rwa [same]
  · have renamed : Held (log ++ []) (manager.attachPrefix sequenceId key).2 :=
      held.named (rekeyed_insert added.ne_nil prefixIndex) sequences name
        (by simp [nameOf, found])
        (added.usersIn (held.distinct key) (counted.recordsAt key))
        (added.distinct (held.distinct key)) (by simp)
    rwa [List.append_nil] at renamed

theorem held_step {log : List Publication} {manager : KVCacheManager} {op : CacheOp}
    (held : Held log manager)
    (live : ∀ publication ∈ log, (manager.nameOf publication.sequenceId).isSome)
    (counted : manager.UsersCounted op) :
    Held (log ++ manager.publicationOf op) (manager.step op) := by
  have unlogged {after : KVCacheManager} (held : Held log after) : Held (log ++ []) after := by
    rwa [List.append_nil]
  cases op with
  | publishPrefix sequenceId key => exact held_publishPrefix held counted
  | createSequence metadata => exact unlogged (held_createSequence held live metadata)
  | forkSequence parentId childMetadata => exact unlogged (held_forkSequence held live _ _)
  | reserveTokens sequenceId tokenCount =>
      exact unlogged (held.steady (manager.steady_reserveTokens _ _))
  | ensureTokenWritable sequenceId token layer =>
      exact unlogged (held.steady (manager.steady_ensureTokenWritable _ _ _))
  | writeToken sequenceId token layer stores =>
      exact unlogged (held.steady (manager.steady_writeToken _ _ _ _))
  | swapOutSequence sequenceId => exact unlogged (held.steady (manager.steady_swapOutSequence _))
  | swapOutRequest requestId =>
      exact unlogged (swapOutSequences_induction
        (fun manager _ held => held.steady (manager.steady_swapOutSequence _)) held _)
  | swapInSequence sequenceId => exact unlogged (held.steady (manager.steady_swapInSequence _))
  | swapInRequest requestId =>
      exact unlogged (swapInRequest_induction
        (fun manager _ held => held.steady (manager.steady_swapInSequence _)) held _)
  | attachPrefix sequenceId key => exact unlogged (held_attachPrefix held counted)
  | releaseSequence sequenceId => exact unlogged (held_releaseSequence held _)
  | releaseRequest requestId =>
      exact unlogged (releaseRequest_induction (motive := Held log)
        (fun manager sequenceId held => held_releaseSequence held sequenceId) held _)

end KVCacheManager

/-- A cache manager and the first publications of its live sequences. -/
structure Publishing where
  manager : KVCacheManager
  log : List Publication

namespace Publishing

open KVCacheManager

/-- A manager without sequences. -/
def create (allocator : MemoryAllocator) : Publishing := ⟨.create allocator, []⟩

/-- Execute one call, log the publication it makes and forget those of released sequences. -/
def step (publishing : Publishing) (op : CacheOp) : Publishing where
  manager := publishing.manager.step op
  log := (publishing.log ++ publishing.manager.publicationOf op).filter fun publication =>
    (publishing.manager.step op).contains publication.sequenceId

/-- Execute a list of calls. -/
def run (publishing : Publishing) (ops : List CacheOp) : Publishing :=
  Execution.run step publishing ops

/-- The call meets no full user counter. -/
def UsersCounted (publishing : Publishing) (op : CacheOp) : Prop :=
  publishing.manager.UsersCounted op

instance (publishing : Publishing) (op : CacheOp) : Decidable (publishing.UsersCounted op) :=
  inferInstanceAs (Decidable (publishing.manager.UsersCounted op))

/-- Every logged publication belongs to a live sequence and has its record. -/
structure Kept (publishing : Publishing) : Prop where
  live : ∀ publication ∈ publishing.log,
    (publishing.manager.nameOf publication.sequenceId).isSome
  keyed : ∀ publication ∈ publishing.log, publication.key ≠ ""
  held : Held publishing.log publishing.manager

theorem kept_create (allocator : MemoryAllocator) : (create allocator).Kept := by
  refine ⟨by simp [create], by simp [create], ?_, ?_⟩
  · simp [create, KVCacheManager.create, recordsAt]
  · intro key keyed hash
    simp [create, KVCacheManager.create, holders]

theorem keyed_publicationOf {manager : KVCacheManager} {op : CacheOp} {publication : Publication}
    (member : publication ∈ manager.publicationOf op) : publication.key ≠ "" := by
  cases op with
  | publishPrefix sequenceId key =>
      simp only [publicationOf] at member
      split at member
      · simp at member
      split at member
      · rename_i done
        rw [List.mem_singleton.mp member]
        rintro rfl
        simp [publishPrefix] at done
      · simp at member
  | _ => simp [publicationOf] at member

theorem kept_step {publishing : Publishing} {op : CacheOp} (kept : publishing.Kept)
    (counted : publishing.UsersCounted op) : (publishing.step op).Kept := by
  refine ⟨?_, ?_, (held_step kept.held kept.live counted).forget (List.filter_subset_self _)⟩
  · intro publication member
    have alive := (List.mem_filter.mp member).2
    rwa [nameOf, Option.isSome_map]
  · intro publication member
    rcases List.mem_append.mp (List.mem_filter.mp member).1 with old | new
    · exact kept.keyed publication old
    · exact keyed_publicationOf new

/-- The record of a logged publication is in the index. -/
theorem Kept.record {publishing : Publishing} (kept : publishing.Kept)
    {publication : Publication} (member : publication ∈ publishing.log) :
    ∃ record ∈ publishing.manager.recordsAt publication.key,
      record.contentHash = contentHash publication.contents := by
  have holder : publication.sequenceId ∈ holders publishing.log publishing.manager publication.key
      (contentHash publication.contents) :=
    mem_holders.mpr ⟨kept.live publication member, Or.inr ⟨publication, member, rfl, rfl, rfl⟩⟩
  have used : 1 ≤ usersIn (publishing.manager.recordsAt publication.key)
      (contentHash publication.contents) :=
    (Finset.card_pos.mpr ⟨_, holder⟩).trans_le
      (kept.held.users _ (kept.keyed publication member) _)
  by_contra missing
  simp only [not_exists, not_and] at missing
  rw [usersIn_eq_zero missing] at used
  omega

/-- Nothing is shared under a key. -/
structure Unshared (manager : KVCacheManager) (key : String) : Prop where
  count : manager.prefixTokenCount key = 0
  attach : ∀ sequenceId, manager.attachPrefix sequenceId key = (0, manager)

theorem unshared_of_records {manager : KVCacheManager} {key : String}
    {first second : PrefixRecord} (left : first ∈ manager.recordsAt key)
    (right : second ∈ manager.recordsAt key)
    (different : first.contentHash ≠ second.contentHash) : Unshared manager key := by
  have several : ∀ record, manager.prefixIndex.lookup key ≠ some [record] := by
    intro record only
    simp only [recordsAt, only, Option.getD_some, List.mem_singleton] at left right
    exact different (left ▸ right ▸ rfl)
  refine ⟨?_, fun sequenceId => ?_⟩
  · unfold prefixTokenCount
    split
    · rfl
    split
    · rename_i record only
      exact absurd only (several record)
    · rfl
  · unfold attachPrefix
    split
    · rfl
    split
    · rfl
    split
    · rfl
    split
    · rename_i record only
      exact absurd only (several record)
    · rfl

/-- While two live sequences have published contents with different hashes under one key, nothing
is shared under it. -/
theorem different_contents_unshared (allocator : MemoryAllocator) (ops : List CacheOp)
    (counted : Execution.Along step UsersCounted (create allocator) ops) :
    ∀ first ∈ ((create allocator).run ops).log, ∀ second ∈ ((create allocator).run ops).log,
      first.key = second.key → contentHash first.contents ≠ contentHash second.contents →
      Unshared ((create allocator).run ops).manager first.key := by
  intro first left second right same different
  have preserved : ∀ (publishing : Publishing) (op : CacheOp), publishing.Kept →
      publishing.UsersCounted op → (publishing.step op).Kept :=
    fun _ _ kept counted => kept_step kept counted
  have kept : ((create allocator).run ops).Kept :=
    counted.invariant preserved (kept_create allocator)
  obtain ⟨record, inside, hash⟩ := kept.record left
  obtain ⟨record', inside', hash'⟩ := kept.record right
  rw [← same] at inside'
  refine unshared_of_records inside inside' ?_
  rwa [hash, hash']

/-- Three frames of one token with a key and a value of four bytes. -/
def eightBytes : AllocatorConfig := ⟨⟨1, 1, 1, 1, 4, 0⟩, 8, 3, three_lt_word⟩

/-- Two sequences cache a token each and publish it under one key; a third one waits. -/
def publishingOps (key value key' value' : List UInt8) : List CacheOp :=
  [.createSequence ⟨1, 1⟩, .reserveTokens 1 1,
    .writeToken 1 0 0 [⟨.key, 0, 0, 0, key⟩, ⟨.value, 0, 0, 0, value⟩],
    .createSequence ⟨2, 2⟩, .reserveTokens 2 1,
    .writeToken 2 0 0 [⟨.key, 0, 0, 0, key'⟩, ⟨.value, 0, 0, 0, value'⟩],
    .publishPrefix 1 "prompt", .publishPrefix 2 "prompt", .createSequence ⟨3, 3⟩]

/-- Two keys that differ in a bit keep two records. -/
theorem different_contents_unshared_bit :
    ((create (.create eightBytes (fun _ => 0) none)).run
        (publishingOps [1, 0, 0, 0] [0, 0, 0, 0] [0, 0, 0, 0] [0, 0, 0, 0])).log =
      [⟨1, "prompt", [[1, 0, 0, 0, 0, 0, 0, 0]]⟩, ⟨2, "prompt", [[0, 0, 0, 0, 0, 0, 0, 0]]⟩] ∧
    Unshared ((create (.create eightBytes (fun _ => 0) none)).run
      (publishingOps [1, 0, 0, 0] [0, 0, 0, 0] [0, 0, 0, 0] [0, 0, 0, 0])).manager "prompt" := by
  have log : ((create (.create eightBytes (fun _ => 0) none)).run
        (publishingOps [1, 0, 0, 0] [0, 0, 0, 0] [0, 0, 0, 0] [0, 0, 0, 0])).log =
      [⟨1, "prompt", [[1, 0, 0, 0, 0, 0, 0, 0]]⟩,
        ⟨2, "prompt", [[0, 0, 0, 0, 0, 0, 0, 0]]⟩] := by
    decide +kernel
  refine ⟨log, ?_⟩
  exact different_contents_unshared _ _ (by decide +kernel)
    ⟨1, "prompt", [[1, 0, 0, 0, 0, 0, 0, 0]]⟩ (by simp [log])
    ⟨2, "prompt", [[0, 0, 0, 0, 0, 0, 0, 0]]⟩ (by simp [log]) rfl (by decide +kernel)

/-- Two tokens with nothing in common but their hash: they count as one prefix, and a third
sequence maps the frame of the first. -/
theorem colliding_contents_shared :
    let publishing := (create (.create eightBytes (fun _ => 0) none)).run
      (publishingOps [216, 12, 81, 23] [31, 50, 97, 34] [95, 146, 32, 27] [241, 82, 63, 50])
    publishing.log = [⟨1, "prompt", [[216, 12, 81, 23, 31, 50, 97, 34]]⟩,
        ⟨2, "prompt", [[95, 146, 32, 27, 241, 82, 63, 50]]⟩] ∧
      publishing.manager.prefixTokenCount "prompt" = 1 ∧
      (publishing.manager.attachPrefix 3 "prompt").1 = 1 ∧
      (((publishing.manager.attachPrefix 3 "prompt").2.sequences.lookup 3).map
        (·.textTable.lookup 0)) = some (some 2) := by
  decide +kernel

end Publishing
end QwenVLPaged
