import QwenVLPaged.FrameFamilies
import QwenVLPaged.SchedulerCache

/-!
# Quotas of a family

The reference counts and user counts are 32-bit values. A quota says how many sequences each request
may have and which requests share a prefix, so that no family reaches `2 ^ 32` references. Calls
within the quota keep every account of the cache manager exact, for runs of any length.
-/

namespace QwenVLPaged

/-- How many sequences each request may have. The references that the sequences and the records of
one family can put on a frame fit into the counters. -/
structure Quota (Family : Type*) [DecidableEq Family] where
  family : RequestId → Family
  keyFamily : String → Family
  /-- Requests that may have sequences. -/
  ids : List RequestId
  allowed : RequestId → ℕ
  /-- Requests whose roots may be known by a prefix key. -/
  shares : RequestId → Bool
  apart : Function.Injective keyFamily
  outside : ∀ id, id ∉ ids → allowed id = 0
  sharing : ∀ id key, key ≠ "" → family id = keyFamily key → shares id = true
  fits : ∀ owner, ((ids.filter fun id => family id = owner).map fun id =>
    allowed id + if shares id then 1 else 0).sum < 2 ^ 32

namespace KVCacheManager

/-! ## Counters -/

/-- Nobody has more sequences than allowed. -/
def Within {Family : Type*} [DecidableEq Family] (quota : Quota Family)
    (manager : KVCacheManager) : Prop :=
  ∀ id, (manager.sequencesFor id).length ≤ quota.allowed id

theorem Within.covers {Family : Type*} [DecidableEq Family] {quota : Quota Family}
    {manager : KVCacheManager} (within : manager.Within quota) (id : RequestId)
    (some_left : manager.sequencesFor id ≠ []) : id ∈ quota.ids := by
  by_contra unknown
  have few := within id
  rw [quota.outside id unknown, Nat.le_zero, List.length_eq_zero_iff] at few
  exact some_left few

theorem Within.counted {Family : Type*} [DecidableEq Family] {quota : Quota Family}
    {manager : KVCacheManager} (within : manager.Within quota)
    (kindred : manager.Kindred quota.family quota.keyFamily) (listed : manager.Listed)
    (named : manager.RecordsNamed) (frame : PhysicalBlockId) :
    manager.references frame < 2 ^ 32 := by
  rcases kindred.references_le named listed within.covers quota.sharing frame with
    unused | ⟨owner, few⟩
  · rw [unused]
    exact Nat.two_pow_pos 32
  · calc
      manager.references frame ≤ ((quota.ids.filter fun id => quota.family id = owner).map fun id =>
          (manager.sequencesFor id).length + if quota.shares id then 1 else 0).sum := few
      _ ≤ ((quota.ids.filter fun id => quota.family id = owner).map fun id =>
          quota.allowed id + if quota.shares id then 1 else 0).sum :=
        List.sum_le_sum fun id _ => Nat.add_le_add_right (within id) _
      _ < 2 ^ 32 := quota.fits owner

theorem Within.counted_users {Family : Type*} [DecidableEq Family] {quota : Quota Family}
    {manager : KVCacheManager} (within : manager.Within quota)
    (kindred : manager.Kindred quota.family quota.keyFamily) (listed : manager.Listed)
    (key : String) (keyed : key ≠ "") (hash : UInt64) : manager.usersOf key hash < 2 ^ 32 := by
  have users := kindred.users_le listed within.covers quota.sharing keyed hash
  refine (users.trans ?_).trans_lt (quota.fits (quota.keyFamily key))
  generalize quota.ids.filter (fun id => quota.family id = quota.keyFamily key) = members
  induction members with
  | nil => exact le_rfl
  | cons id rest induction =>
      rw [List.countP_cons, List.map_cons, List.sum_cons]
      omega

/-! ## The invariant -/

/-- What calls within a quota keep. -/
structure Tended {Family : Type*} [DecidableEq Family] (quota : Quota Family)
    (manager : KVCacheManager) : Prop where
  sound : manager.Sound
  covered : manager.Covered false
  accounts : manager.AccountedPins
  listed : manager.Listed
  kindred : manager.Kindred quota.family quota.keyFamily
  within : manager.Within quota

/-- A call within the quota: it opens no sequence too many, grows no table past the last logical
index, and shares prefixes inside their family only. -/
def Permits {Family : Type*} [DecidableEq Family] (quota : Quota Family)
    (manager : KVCacheManager) : CacheOp → Prop
  | .createSequence metadata =>
      (manager.sequencesFor metadata.requestId).length < quota.allowed metadata.requestId
  | .forkSequence parentId childMetadata =>
      (manager.sequencesFor childMetadata.requestId).length <
          quota.allowed childMetadata.requestId ∧
        ∀ parent, manager.sequences.lookup parentId = some parent →
          parent.metadata.requestId = childMetadata.requestId
  | .reserveTokens sequenceId tokenCount => manager.RoomFor sequenceId tokenCount
  | .publishPrefix sequenceId key => manager.KeyedBy quota.family quota.keyFamily sequenceId key
  | .attachPrefix sequenceId key => manager.KeyedBy quota.family quota.keyFamily sequenceId key
  | _ => True

/-- The request index is that of before. -/
theorem Within.unlisted {Family : Type*} [DecidableEq Family] {quota : Quota Family}
    {before after : KVCacheManager} (within : before.Within quota)
    (same : Unlisted before after) : after.Within quota := by
  intro id
  rw [sequencesFor, same.index]
  exact within id

/-- A sequence of a request below its quota is listed. -/
theorem Within.opened {Family : Type*} [DecidableEq Family] {quota : Quota Family}
    {before after : KVCacheManager} (within : before.Within quota) {owner : RequestId}
    {opened : SequenceId}
    (lists : ∀ id, after.sequencesFor id =
      if id = owner then before.sequencesFor id ++ [opened] else before.sequencesFor id)
    (room : (before.sequencesFor owner).length < quota.allowed owner) : after.Within quota := by
  intro id
  rw [lists]
  split
  · rename_i same
    rw [same, List.length_append, List.length_singleton]
    exact room
  · exact within id

theorem Within.releaseSequence {Family : Type*} [DecidableEq Family] {quota : Quota Family}
    {manager : KVCacheManager} (within : manager.Within quota) (sequenceId : SequenceId) :
    (manager.releaseSequence sequenceId).Within quota := by
  cases found : manager.sequences.lookup sequenceId with
  | none =>
      rw [KVCacheManager.releaseSequence, found]
      exact within
  | some state =>
      intro id
      rw [sequencesFor_releaseSequence found]
      split
      · exact List.length_filter_le _ _ |>.trans (within id)
      · exact within id

/-! ## The calls -/

theorem Tended.createSequence {Family : Type*} [DecidableEq Family] {quota : Quota Family}
    {manager : KVCacheManager} (tended : manager.Tended quota) {metadata : SequenceMetadata}
    (room : (manager.sequencesFor metadata.requestId).length <
      quota.allowed metadata.requestId) : (manager.createSequence metadata).2.Tended quota := by
  obtain ⟨sound, covered, ⟨accounted, pinned⟩, listed, kindred, within⟩ := tended
  rcases createSequence_cases accounted metadata with same | ⟨after, run_eq, opened, -⟩
  · rw [same]
    exact ⟨sound, covered, ⟨accounted, pinned⟩, listed, kindred, within⟩
  · have kindred' := kindred.createSequence metadata
    have sound' := sound_step sound (.createSequence metadata)
    have covered' := covered_step sound covered (.createSequence metadata)
    have listed' := listed.createSequence metadata
    simp only [step, run_eq] at kindred' sound' covered' listed' ⊢
    exact ⟨sound', covered', ⟨opened.accounted accounted, pinned.opened opened⟩, listed', kindred',
      within.opened (sequencesFor_createSequence run_eq) room⟩

/-- A call that shares frames keeps the accounts, since its family stays within the counters. -/
theorem Tended.share {Family : Type*} [DecidableEq Family] {quota : Quota Family}
    {manager : KVCacheManager} (tended : manager.Tended quota) {op : CacheOp}
    (indexable : manager.Indexable op) (keeps : manager.KeepsNames op)
    (kindred : (manager.step op).Kindred quota.family quota.keyFamily)
    (named : (manager.step op).RecordsNamed) (within : (manager.step op).Within quota) :
    (manager.step op).Tended quota := by
  have listed := listed_step tended.listed op
  have admissible : manager.PinAdmissible op :=
    ⟨⟨within.counted kindred listed named, indexable⟩, keeps, within.counted_users kindred listed⟩
  exact ⟨sound_step tended.sound op, covered_step tended.sound tended.covered op,
    accountedPins_step tended.accounts admissible, listed, kindred, within⟩

theorem Tended.forkSequence {Family : Type*} [DecidableEq Family] {quota : Quota Family}
    {manager : KVCacheManager} (tended : manager.Tended quota) {parentId : SequenceId}
    {childMetadata : SequenceMetadata}
    (room : (manager.sequencesFor childMetadata.requestId).length <
      quota.allowed childMetadata.requestId)
    (related : ∀ parent, manager.sequences.lookup parentId = some parent →
      parent.metadata.requestId = childMetadata.requestId) :
    (manager.forkSequence parentId childMetadata).2.Tended quota := by
  have shape : (manager.forkSequence parentId childMetadata).2.RecordsNamed ∧
      (manager.forkSequence parentId childMetadata).2.Within quota := by
    have named := tended.accounts.2.recordsNamed
    unfold KVCacheManager.forkSequence
    repeat' split
    all_goals first
      | exact ⟨named, tended.within⟩
      | skip
    rename_i missing _
    refine ⟨named.keep rfl fun id state found => ?_, tended.within.opened
      (fun id => sequencesFor_indexSequence _ childMetadata.requestId id _) room⟩
    refine ⟨state, ?_, rfl, rfl⟩
    have different : id ≠ childMetadata.sequenceId := by
      rintro rfl
      simp [found] at missing
    exact (AList.lookup_insert_ne different).trans found
  exact @Tended.share _ _ _ _ tended (.forkSequence parentId childMetadata) trivial trivial
    (tended.kindred.forkSequence parentId childMetadata fun parent found =>
      congrArg quota.family (related parent found)) shape.1 shape.2

theorem Tended.reserveTokens {Family : Type*} [DecidableEq Family] {quota : Quota Family}
    {manager : KVCacheManager} (tended : manager.Tended quota) {sequenceId : SequenceId}
    {tokenCount : ℕ} (room : manager.RoomFor sequenceId tokenCount) :
    (manager.reserveTokens sequenceId tokenCount).2.Tended quota := by
  have accounts : (manager.reserveTokens sequenceId tokenCount).2.AccountedPins := by
    obtain ⟨accounted, pinned⟩ := tended.accounts
    rcases reserveTokens_cases accounted sequenceId tokenCount room with
      same | ⟨after, state, added, complete, run_eq, -, grown⟩
    · rw [same]
      exact ⟨accounted, pinned⟩
    · rw [run_eq]
      exact ⟨grown.accounted accounted, pinned.grown grown⟩
  exact ⟨sound_step tended.sound (.reserveTokens sequenceId tokenCount),
    covered_step tended.sound tended.covered (.reserveTokens sequenceId tokenCount), accounts,
    listed_step tended.listed (.reserveTokens sequenceId tokenCount),
    tended.kindred.reserveTokens tended.covered sequenceId tokenCount,
    tended.within.unlisted (unlisted_reserveTokens _ _ _)⟩

theorem Tended.ensureTokenWritable {Family : Type*} [DecidableEq Family] {quota : Quota Family}
    {manager : KVCacheManager} (tended : manager.Tended quota) (sequenceId : SequenceId)
    (token layer : ℕ) : (manager.ensureTokenWritable sequenceId token layer).2.Tended quota := by
  have accounts : (manager.ensureTokenWritable sequenceId token layer).2.AccountedPins := by
    obtain ⟨accounted, pinned⟩ := tended.accounts
    rcases ensureTokenWritable_cases accounted sequenceId token layer with
      same | ⟨after, state, tables, frame, run_eq, moved, -⟩
    · rw [same]
      exact ⟨accounted, pinned⟩
    · rw [run_eq]
      exact ⟨moved.accounted accounted, pinned.moved moved⟩
  exact ⟨sound_step tended.sound (.ensureTokenWritable sequenceId token layer),
    covered_step tended.sound tended.covered (.ensureTokenWritable sequenceId token layer),
    accounts, listed_step tended.listed (.ensureTokenWritable sequenceId token layer),
    tended.kindred.ensureTokenWritable tended.sound tended.covered sequenceId token layer,
    tended.within.unlisted (unlisted_ensureTokenWritable _ _ _ _)⟩

theorem Tended.writeToken {Family : Type*} [DecidableEq Family] {quota : Quota Family}
    {manager : KVCacheManager} (tended : manager.Tended quota) (sequenceId : SequenceId)
    (token layer : ℕ) (stores : List TokenStore) :
    (manager.writeToken sequenceId token layer stores).2.Tended quota := by
  have accounts : (manager.writeToken sequenceId token layer stores).2.AccountedPins := by
    obtain ⟨accounted, pinned⟩ := tended.accounts
    rcases writeToken_cases accounted sequenceId token layer stores with
      same | ⟨middle, after, state, tables, frame, run_eq, moved, -, stored⟩
    · rw [same]
      exact ⟨accounted, pinned⟩
    · rw [run_eq]
      exact ⟨stored.accounted (moved.accounted accounted), (pinned.moved moved).stored stored⟩
  exact ⟨sound_step tended.sound (.writeToken sequenceId token layer stores),
    covered_step tended.sound tended.covered (.writeToken sequenceId token layer stores), accounts,
    listed_step tended.listed (.writeToken sequenceId token layer stores),
    tended.kindred.writeToken tended.sound tended.covered sequenceId token layer stores,
    tended.within.unlisted (unlisted_writeToken _ _ _ _ _)⟩

theorem Tended.swapOutSequence {Family : Type*} [DecidableEq Family] {quota : Quota Family}
    {manager : KVCacheManager} (tended : manager.Tended quota) (sequenceId : SequenceId) :
    (manager.swapOutSequence sequenceId).2.Tended quota :=
  ⟨sound_step tended.sound (.swapOutSequence sequenceId),
    covered_step tended.sound tended.covered (.swapOutSequence sequenceId),
    tended.accounts.swapOutSequence sequenceId, tended.listed.swapOutSequence sequenceId,
    tended.kindred.swapOutSequence tended.sound tended.covered sequenceId,
    tended.within.unlisted (unlisted_swapOutSequence _ _)⟩

theorem Tended.swapInSequence {Family : Type*} [DecidableEq Family] {quota : Quota Family}
    {manager : KVCacheManager} (tended : manager.Tended quota) (sequenceId : SequenceId) :
    (manager.swapInSequence sequenceId).2.Tended quota :=
  ⟨sound_step tended.sound (.swapInSequence sequenceId),
    covered_step tended.sound tended.covered (.swapInSequence sequenceId),
    tended.accounts.swapInSequence sequenceId, tended.listed.swapInSequence sequenceId,
    tended.kindred.swapInSequence tended.sound tended.covered sequenceId,
    tended.within.unlisted (unlisted_swapInSequence _ _)⟩

theorem Tended.releaseSequence {Family : Type*} [DecidableEq Family] {quota : Quota Family}
    {manager : KVCacheManager} (tended : manager.Tended quota) (sequenceId : SequenceId) :
    (manager.releaseSequence sequenceId).Tended quota :=
  ⟨sound_step tended.sound (.releaseSequence sequenceId),
    covered_step tended.sound tended.covered (.releaseSequence sequenceId),
    tended.accounts.releaseSequence sequenceId, tended.listed.releaseSequence sequenceId,
    tended.kindred.releaseSequence sequenceId, tended.within.releaseSequence sequenceId⟩

/-- The root of a request has no other name than the key of its family. -/
theorem Tended.name_eq {Family : Type*} [DecidableEq Family] {quota : Quota Family}
    {manager : KVCacheManager} (tended : manager.Tended quota) {sequenceId : SequenceId}
    {key : String} (keyed : manager.KeyedBy quota.family quota.keyFamily sequenceId key)
    {state : SequenceState} (found : manager.sequences.lookup sequenceId = some state) :
    state.prefixKey = "" ∨ state.prefixKey = key := by
  by_cases unnamed : state.prefixKey = ""
  · exact Or.inl unnamed
  · refine Or.inr (quota.apart ?_)
    rw [← (tended.kindred.named sequenceId state found unnamed).2, (keyed state found).2]

theorem Tended.publishPrefix {Family : Type*} [DecidableEq Family] {quota : Quota Family}
    {manager : KVCacheManager} (tended : manager.Tended quota) {sequenceId : SequenceId}
    {key : String} (keyed : manager.KeyedBy quota.family quota.keyFamily sequenceId key) :
    (manager.publishPrefix sequenceId key).2.Tended quota := by
  have named : (manager.publishPrefix sequenceId key).2.RecordsNamed := by
    have before := tended.accounts.2.recordsNamed
    rcases manager.publishPrefix_renamed sequenceId key with
      same | ⟨state, state', records, renamed, -, different⟩
    · rw [same]
      exact before
    · exact before.renamed renamed ((tended.name_eq keyed renamed.found).resolve_right different)
  have keeps : manager.KeepsNames (.publishPrefix sequenceId key) := by
    refine Or.inr fun state found => ?_
    rcases tended.name_eq keyed (Option.mem_def.mp found) with unnamed | same
    · exact Or.inl unnamed
    · exact Or.inr (Or.inl same)
  exact @Tended.share _ _ _ _ tended (.publishPrefix sequenceId key) trivial keeps
    (tended.kindred.publishPrefix keyed) named
    (tended.within.unlisted (unlisted_publishPrefix _ _ _))

theorem Tended.attachPrefix {Family : Type*} [DecidableEq Family] {quota : Quota Family}
    {manager : KVCacheManager} (tended : manager.Tended quota) {sequenceId : SequenceId}
    {key : String} (keyed : manager.KeyedBy quota.family quota.keyFamily sequenceId key) :
    (manager.attachPrefix sequenceId key).2.Tended quota := by
  have named : (manager.attachPrefix sequenceId key).2.RecordsNamed := by
    have before := tended.accounts.2.recordsNamed
    rcases attachPrefix_renamed tended.accounts.1 sequenceId key with
      same | ⟨after, state, state', record, records, run_eq, renamed, unmapped, -⟩
    · rw [same]
      exact before
    · rw [run_eq]
      refine before.renamed renamed ?_
      by_contra known
      exact tended.accounts.2.mapped sequenceId state renamed.found known unmapped
  exact @Tended.share _ _ _ _ tended (.attachPrefix sequenceId key) trivial trivial
    (tended.kindred.attachPrefix tended.accounts.1 keyed) named
    (tended.within.unlisted (unlisted_attachPrefix _ _ _))

theorem tended_step {Family : Type*} [DecidableEq Family] {quota : Quota Family}
    {manager : KVCacheManager} (tended : manager.Tended quota) {op : CacheOp}
    (permitted : manager.Permits quota op) : (manager.step op).Tended quota := by
  cases op with
  | createSequence metadata => exact tended.createSequence permitted
  | forkSequence parentId childMetadata => exact tended.forkSequence permitted.1 permitted.2
  | reserveTokens sequenceId tokenCount => exact tended.reserveTokens permitted
  | ensureTokenWritable sequenceId token layer =>
      exact tended.ensureTokenWritable sequenceId token layer
  | writeToken sequenceId token layer stores =>
      exact tended.writeToken sequenceId token layer stores
  | swapOutSequence sequenceId => exact tended.swapOutSequence sequenceId
  | swapOutRequest requestId =>
      exact swapOutSequences_induction (fun _ id holds => holds.swapOutSequence id) tended _
  | swapInSequence sequenceId => exact tended.swapInSequence sequenceId
  | swapInRequest requestId =>
      exact swapInRequest_induction (fun _ id holds => holds.swapInSequence id) tended requestId
  | publishPrefix sequenceId key => exact tended.publishPrefix permitted
  | attachPrefix sequenceId key => exact tended.attachPrefix permitted
  | releaseSequence sequenceId => exact tended.releaseSequence sequenceId
  | releaseRequest requestId =>
      exact releaseRequest_induction (fun _ id holds => holds.releaseSequence id) tended requestId

/-! ## The start -/

/-- An empty pool, with or without an empty host swap space. -/
theorem tended_overPool {Family : Type*} [DecidableEq Family] (quota : Quota Family)
    (config : AllocatorConfig) (slab : ℕ → UInt8) (swapSlots : Option ℕ) :
    (overPool config slab swapSlots).Tended quota := by
  have backed := backed_overPool config slab swapSlots
  have sound : (overPool config slab swapSlots).Sound := by
    refine sound_create (MemoryAllocator.sound_create _ _ _ fun installed equal => ?_)
    obtain ⟨slots, -, rfl⟩ := Option.map_eq_some_iff.mp equal
    rfl
  have nothing : (overPool config slab swapSlots).places = [] := by
    simp [places, liveEntries, pinnedIds, overPool, create]
  have unreferenced (frame : PhysicalBlockId) :
      (overPool config slab swapSlots).allocator.refCount frame = 0 := by
    have counts := backed.accounted.ledger.refs frame
    rw [nothing] at counts
    simpa using counts
  constructor
  case sound => exact sound
  case covered =>
    have unheld : (overPool config slab swapSlots).holdings false = [] := by
      simp [holdings, liveEntries, pinnedIds, overPool, create, pinsOf]
    rw [Covered, unheld]
    exact ⟨sound.pool, by simp, fun frame => by simp [unreferenced], by simp, by simp⟩
  case accounts =>
    refine ⟨backed.accounted, ?_, ?_, ?_, ?_, ?_⟩ <;>
      simp [overPool, create, recordsAt, usersOf, names]
  case listed => exact listed_create _
  case kindred => exact kindred_fresh _ _ _
  case within =>
    intro id
    simp [sequencesFor, overPool, create]

/-! ## Every run -/

/-- In every run of calls within a quota the counters are exact, whatever is shared, copied, swapped
or published, and nobody gets more sequences than allowed. -/
theorem counters_exact_within_quota {Family : Type*} [DecidableEq Family] (quota : Quota Family)
    (config : AllocatorConfig) (slab : ℕ → UInt8) (swapSlots : Option ℕ) (ops : List CacheOp)
    (permitted : Execution.Along step (Permits quota) (overPool config slab swapSlots) ops) :
    let manager := (overPool config slab swapSlots).run ops
    manager.Conserved ∧ manager.PinsExact ∧
      ∀ id, (manager.sequencesFor id).length ≤ quota.allowed id := by
  have kept : ∀ (manager : KVCacheManager) (op : CacheOp), manager.Tended quota →
      manager.Permits quota op → (manager.step op).Tended quota :=
    fun _ _ tended permits => tended_step tended permits
  have tended : ((overPool config slab swapSlots).run ops).Tended quota :=
    permitted.invariant kept (tended_overPool quota config slab swapSlots)
  exact ⟨tended.accounts.1.conserved, tended.accounts.exact, tended.within⟩

instance {Family : Type*} [DecidableEq Family] (quota : Quota Family) (manager : KVCacheManager) :
    DecidablePred (manager.Permits quota)
  | .createSequence metadata =>
      inferInstanceAs (Decidable
        ((manager.sequencesFor metadata.requestId).length < quota.allowed metadata.requestId))
  | .forkSequence parentId childMetadata =>
      inferInstanceAs (Decidable ((manager.sequencesFor childMetadata.requestId).length <
          quota.allowed childMetadata.requestId ∧
        ∀ parent ∈ manager.sequences.lookup parentId,
          parent.metadata.requestId = childMetadata.requestId))
  | .reserveTokens sequenceId tokenCount =>
      inferInstanceAs (Decidable (∀ state ∈ manager.sequences.lookup sequenceId,
        ∀ table ∈ state.tables, table.entries.length + manager.newBlocks tokenCount ≤ 2 ^ 32))
  | .publishPrefix sequenceId key | .attachPrefix sequenceId key =>
      inferInstanceAs (Decidable (∀ state ∈ manager.sequences.lookup sequenceId,
        sequenceId = state.metadata.requestId ∧
          quota.family state.metadata.requestId = quota.keyFamily key))
  | .ensureTokenWritable _ _ _ | .writeToken _ _ _ _ | .swapOutSequence _ | .swapOutRequest _
  | .swapInSequence _ | .swapInRequest _ | .releaseSequence _ | .releaseRequest _ => .isTrue trivial

/-- Two requests of one family, with two sequences each. -/
def pairQuota : Quota String where
  family _ := "p"
  keyFamily := id
  ids := [1, 2]
  allowed id := if id ∈ [1, 2] then 2 else 0
  shares _ := true
  apart := Function.injective_id
  outside _ unknown := if_neg unknown
  sharing _ _ _ _ := rfl
  fits owner := by
    by_cases same : "p" = owner
    · simp [same]
    · simp [same]

/-- A prefix is published and attached, a branch is opened, copied and swapped, and a request
ends. -/
def pairOps : List CacheOp :=
  [.createSequence ⟨1, 1⟩, .reserveTokens 1 3, .publishPrefix 1 "p", .forkSequence 1 ⟨3, 1⟩,
    .ensureTokenWritable 3 2 0, .createSequence ⟨2, 2⟩, .attachPrefix 2 "p", .swapOutRequest 1,
    .swapInRequest 1, .releaseSequence 1]

/-- Two sequences and the record are left. -/
theorem counters_exact_within_quota_pair :
    let manager := (overPool ⟨⟨2, 1, 1, 1, 1, 0⟩, 1, 8, eight_lt_word⟩ (fun _ => 0) (some 4)).run
      pairOps
    (manager.sequences.keys = [3, 2] ∧ manager.prefixIndex.keys = ["p"]) ∧
      manager.Conserved ∧ manager.PinsExact ∧
      ∀ id, (manager.sequencesFor id).length ≤ pairQuota.allowed id :=
  ⟨by decide +kernel, counters_exact_within_quota pairQuota _ _ (some 4) pairOps
    (by decide +kernel)⟩

/-! ## Room -/

/-- The frames of a sequence and the free frames are different frames of the pool. -/
theorem Tended.frames_le {Family : Type*} [DecidableEq Family] {quota : Quota Family}
    {manager : KVCacheManager} (tended : manager.Tended quota) {id : SequenceId}
    {state : SequenceState} (found : manager.sequences.lookup id = some state) :
    state.frames.length + manager.allocator.freeList.length ≤
      manager.allocator.config.maxBlocks := by
  have start := tended.kindred.start tended.covered found
  have pool := start.holds.sound
  have used (frame : PhysicalBlockId) (inside : frame ∈ state.frames) :
      frame ∉ manager.allocator.freeList := by
    refine start.holds.used ⟨frame, false⟩ (List.mem_append_left _ ?_)
    rw [holdingsOf_eq, mem_pinsOf]
    exact ⟨inside, rfl⟩
  have distinct : (state.frames ++ manager.allocator.freeList).Nodup := by
    refine List.nodup_append.mpr ⟨start.single, tended.accounts.1.ledger.formed.free_nodup, ?_⟩
    rintro frame inside other free rfl
    exact used frame inside free
  have below : state.frames ++ manager.allocator.freeList ⊆
      List.range manager.allocator.config.maxBlocks := by
    intro frame member
    rw [List.mem_range]
    rcases List.mem_append.mp member with inside | free
    · obtain ⟨entry, resident, rfl⟩ := List.mem_map.mp inside
      obtain ⟨listed, unswapped⟩ := List.mem_filter.mp resident
      have owned : Place.frame entry.physicalId ∈ manager.places := by
        refine mem_places_of_mem_tables found (List.mem_map.mpr ⟨entry, listed, ?_⟩)
        simp [BlockTableEntry.place, Option.isNone_iff_eq_none.mp unswapped]
      exact tended.accounts.1.ledger.lt_maxBlocks (List.mem_map_of_mem owned) rfl
    · exact ((tended.accounts.1.ledger.formed.mem_free frame).mp free).1
  calc
    state.frames.length + manager.allocator.freeList.length =
        (state.frames ++ manager.allocator.freeList).length := List.length_append.symm
    _ ≤ (List.range manager.allocator.config.maxBlocks).length :=
      (List.subperm_of_subset distinct below).length_le
    _ = manager.allocator.config.maxBlocks := List.length_range

/-- A resident sequence can map all free frames. -/
theorem Tended.roomFor {Family : Type*} [DecidableEq Family] {quota : Quota Family}
    {manager : KVCacheManager} (tended : manager.Tended quota) {id : SequenceId}
    {state : SequenceState} (found : manager.sequences.lookup id = some state)
    (resident : ∀ entry ∈ state.tables.flatMap BlockTable.entries, entry.swapSlot = none)
    (tokenCount : ℕ) : manager.RoomFor id tokenCount := by
  intro other same table member
  obtain rfl := Option.some.inj (found.symm.trans (Option.mem_def.mp same))
  have entries : table.entries.length ≤ state.frames.length := by
    rw [SequenceState.frames, residentFrames_of_resident resident, List.length_map]
    exact (List.sublist_flatten_of_mem (List.mem_map_of_mem member)).length_le
  have blocks : manager.newBlocks tokenCount ≤ manager.allocator.freeList.length :=
    min_le_right _ _
  have frames := tended.frames_le found
  have few := manager.allocator.config.maxBlocks_lt
  omega

end KVCacheManager
end QwenVLPaged
