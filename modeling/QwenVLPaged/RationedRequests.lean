import QwenVLPaged.FamilyQuotas
import QwenVLPaged.ReplayQueues

/-!
# Rationed requests

The scheduler opens the root of a request and closes all its sequences, and the driver opens the
branches in between. `Rationed` says that only requests in an owning queue have sequences, and that
a request has its root alone until its prompt is complete. Every call of the scheduler keeps it, and
with it the quota of the family.
-/

namespace QwenVLPaged

namespace KVCacheManager

/-! ## Lists of sequences -/

/-- The request index lists the same sequences. -/
def SameLists (before after : KVCacheManager) : Prop :=
  ∀ id, after.sequencesFor id = before.sequencesFor id

theorem SameLists.refl (manager : KVCacheManager) : SameLists manager manager := fun _ => rfl

theorem SameLists.trans {first second third : KVCacheManager} (early : SameLists first second)
    (late : SameLists second third) : SameLists first third :=
  fun id => (late id).trans (early id)

theorem Unlisted.sameLists {before after : KVCacheManager} (same : Unlisted before after) :
    SameLists before after := fun id => by rw [sequencesFor, same.index, sequencesFor]

theorem sameLists_swapOutRequest (manager : KVCacheManager) (requestId : RequestId) :
    SameLists manager (manager.swapOutRequest requestId).2 :=
  swapOutSequences_induction (motive := SameLists manager)
    (fun _ id same => same.trans (unlisted_swapOutSequence _ id).sameLists) (.refl manager) _

theorem sameLists_swapInRequest (manager : KVCacheManager) (requestId : RequestId) :
    SameLists manager (manager.swapInRequest requestId).2 :=
  swapInRequest_induction (motive := SameLists manager)
    (fun _ id same => same.trans (unlisted_swapInSequence _ id).sameLists) (.refl manager) requestId

/-- A released request has no sequences, and the others keep theirs. -/
theorem mem_releaseRequest {manager : KVCacheManager} (listed : manager.Listed)
    (requestId owner : RequestId) (id : SequenceId) :
    id ∈ (manager.releaseRequest requestId).sequencesFor owner ↔
      id ∈ manager.sequencesFor owner ∧ owner ≠ requestId := by
  have listed' : (manager.releaseRequest requestId).Listed :=
    listed_step listed (.releaseRequest requestId)
  have lists (cache : KVCacheManager) (holds : cache.Listed) :
      id ∈ cache.sequencesFor owner ↔ ∃ sizes, cache.outline id = some (owner, sizes) := by
    rw [holds.members]
    simp [outline_eq_some]
  rw [lists _ listed', lists _ listed, outline_releaseRequest listed]
  constructor
  · rintro ⟨sizes, kept⟩
    obtain ⟨held, different⟩ := Option.filter_eq_some_iff.mp kept
    exact ⟨⟨sizes, held⟩, by simpa using different⟩
  · rintro ⟨⟨sizes, held⟩, different⟩
    exact ⟨sizes, Option.filter_eq_some_iff.mpr ⟨held, by simpa using different⟩⟩

end KVCacheManager

namespace Scheduler

open KVCacheManager (SameLists Tended)

/-! ## Opening a root -/

/-- Opening a root does nothing, or creates it, attaches a prefix to it and reserves the rest. Then
it is kept, or taken back with all sequences of the request. -/
theorem openRoot_cases (cache : KVCacheManager) (candidate : Request) :
    openRoot cache candidate = (false, cache) ∨ ∃ opened joined grown,
      cache.createSequence candidate.metadata = (true, opened) ∧
      (joined = opened ∨ candidate.prefixKey ≠ "" ∧
        joined = (opened.attachPrefix candidate.rootSequenceId candidate.prefixKey).2) ∧
      (grown = joined ∨ ∃ tokenCount,
        grown = (joined.reserveTokens candidate.rootSequenceId tokenCount).2) ∧
      (openRoot cache candidate = (true, grown) ∨
        openRoot cache candidate = (false, grown.releaseRequest candidate.requestId)) := by
  rcases created : cache.createSequence candidate.metadata with ⟨_ | _, opened⟩
  · left
    rw [openRoot, created, KVCacheManager.createSequence_refused created]
  right
  have joins : ∃ attached joined,
      (if 0 < cachedTokens opened candidate ∧
          cachedTokens opened candidate ≤ candidate.promptTokens then
        opened.attachPrefix candidate.rootSequenceId candidate.prefixKey
      else (0, opened)) = (attached, joined) ∧
      (joined = opened ∨ candidate.prefixKey ≠ "" ∧
        joined = (opened.attachPrefix candidate.rootSequenceId candidate.prefixKey).2) := by
    split
    · rename_i usable
      have keyed : candidate.prefixKey ≠ "" := by
        intro empty
        simp [cachedTokens, empty] at usable
      exact ⟨_, _, rfl, Or.inr ⟨keyed, rfl⟩⟩
    · exact ⟨0, opened, rfl, Or.inl rfl⟩
  obtain ⟨attached, joined, attach_eq, joined_eq⟩ := joins
  have grows : ∃ reserved grown,
      (if 0 < candidate.promptTokens - attached then
        joined.reserveTokens candidate.rootSequenceId (candidate.promptTokens - attached)
      else (true, joined)) = (reserved, grown) ∧
      (grown = joined ∨ ∃ tokenCount,
        grown = (joined.reserveTokens candidate.rootSequenceId tokenCount).2) := by
    split
    · exact ⟨_, _, rfl, Or.inr ⟨_, rfl⟩⟩
    · exact ⟨true, joined, rfl, Or.inl rfl⟩
  obtain ⟨reserved, grown, reserve_eq, grown_eq⟩ := grows
  refine ⟨opened, joined, grown, rfl, joined_eq, grown_eq, ?_⟩
  simp only [openRoot, created, attach_eq, reserve_eq]
  split
  · exact Or.inr rfl
  · split
    · exact Or.inr rfl
    · exact Or.inl rfl

/-- What a quota knows of a request. -/
structure Registered {Family : Type*} [DecidableEq Family] (quota : Quota Family) (base : ℕ)
    (request : Request) : Prop where
  root : request.rootSequenceId = request.requestId
  low : request.requestId < base
  room : 0 < quota.allowed request.requestId
  keyed : request.prefixKey ≠ "" →
    quota.family request.requestId = quota.keyFamily request.prefixKey

theorem Registered.of_constants {Family : Type*} [DecidableEq Family] {quota : Quota Family}
    {base : ℕ} {request other : Request} (registered : Registered quota base other)
    (constants : request.constants = other.constants) : Registered quota base request := by
  have named : request.requestId = other.requestId := (congrArg Request.requestId constants :)
  have root : request.rootSequenceId = other.rootSequenceId :=
    (congrArg Request.rootSequenceId constants :)
  have key : request.prefixKey = other.prefixKey := (congrArg Request.prefixKey constants :)
  refine ⟨?_, ?_, ?_, ?_⟩
  · rw [root, named, registered.root]
  · rw [named]
    exact registered.low
  · rw [named]
    exact registered.room
  · rw [named, key]
    exact registered.keyed

/-- Opening a root stays within the quota. -/
theorem tended_openRoot {Family : Type*} [DecidableEq Family] {quota : Quota Family} {base : ℕ}
    {cache : KVCacheManager} (tended : cache.Tended quota) {candidate : Request}
    (registered : Registered quota base candidate)
    (idle : cache.sequencesFor candidate.requestId = []) :
    (openRoot cache candidate).2.Tended quota := by
  rcases openRoot_cases cache candidate with
    same | ⟨opened, joined, grown, created, attached, reserved, ended⟩
  · rw [same]
    exact tended
  have fresh : opened.Tended quota := by
    have room : (cache.sequencesFor candidate.metadata.requestId).length <
        quota.allowed candidate.metadata.requestId := by
      change (cache.sequencesFor candidate.requestId).length < quota.allowed candidate.requestId
      rw [idle]
      exact registered.room
    have kept := tended.createSequence room
    rwa [created] at kept
  have started : ∃ state, opened.sequences.lookup candidate.rootSequenceId = some state ∧
      state.metadata = candidate.metadata ∧
      ∀ entry ∈ state.tables.flatMap BlockTable.entries, entry.swapSlot = none := by
    rcases KVCacheManager.createSequence_cases tended.accounts.1 candidate.metadata with
      same | ⟨after, run_eq, effect, -⟩
    · rw [same] at created
      exact absurd (congrArg Prod.fst created) (by simp)
    · obtain rfl : after = opened := congrArg Prod.snd (run_eq.symm.trans created)
      refine ⟨_, by rw [effect.sequences]; exact AList.lookup_insert _, rfl, fun entry member => ?_⟩
      obtain ⟨table, table_mem, entry_mem⟩ := List.mem_flatMap.mp member
      rw [KVCacheManager.initialState_empty _ _ table table_mem] at entry_mem
      exact absurd entry_mem List.not_mem_nil
  obtain ⟨state, found, metadata, resident⟩ := started
  have join : joined.Tended quota ∧ ∃ state', joined.sequences.lookup candidate.rootSequenceId =
      some state' ∧ ∀ entry ∈ state'.tables.flatMap BlockTable.entries, entry.swapSlot = none := by
    rcases attached with rfl | ⟨keyed, rfl⟩
    · exact ⟨fresh, state, found, resident⟩
    · have shared : opened.KeyedBy quota.family quota.keyFamily candidate.rootSequenceId
          candidate.prefixKey := by
        intro other same
        obtain rfl := Option.some.inj (found.symm.trans same)
        rw [metadata]
        exact ⟨registered.root, registered.keyed keyed⟩
      refine ⟨fresh.attachPrefix shared, ?_⟩
      rcases KVCacheManager.attachPrefix_renamed fresh.accounts.1 candidate.rootSequenceId
        candidate.prefixKey with same | ⟨after, _, state', _, _, run_eq, renamed, -, -, whole, -⟩
      · rw [same]
        exact ⟨state, found, resident⟩
      · rw [run_eq]
        exact ⟨state', by rw [renamed.sequences]; exact AList.lookup_insert _, whole⟩
  obtain ⟨tended', state', found', resident'⟩ := join
  have grow : grown.Tended quota := by
    rcases reserved with rfl | ⟨tokenCount, rfl⟩
    · exact tended'
    · exact tended'.reserveTokens (tended'.roomFor found' resident' tokenCount)
  rcases ended with admitted | refused
  · rw [admitted]
    exact grow
  · rw [refused]
    exact @KVCacheManager.tended_step _ _ _ _ grow (.releaseRequest candidate.requestId) trivial

/-- What opening a root does to the lists of sequences. -/
theorem lists_openRoot {cache : KVCacheManager} (listed : cache.Listed) (candidate : Request) :
    (∃ after, openRoot cache candidate = (true, after) ∧ ∀ id, after.sequencesFor id =
      if id = candidate.requestId then cache.sequencesFor id ++ [candidate.rootSequenceId]
      else cache.sequencesFor id) ∨
    ∃ after, openRoot cache candidate = (false, after) ∧
      ∀ id owner, id ∈ after.sequencesFor owner → id ∈ cache.sequencesFor owner := by
  rcases openRoot_cases cache candidate with
    same | ⟨opened, joined, grown, created, attached, reserved, ended⟩
  · exact Or.inr ⟨cache, same, fun _ _ => id⟩
  have lists (id : RequestId) : grown.sequencesFor id =
      if id = candidate.requestId then cache.sequencesFor id ++ [candidate.rootSequenceId]
      else cache.sequencesFor id := by
    have join : SameLists opened joined := by
      rcases attached with rfl | ⟨-, rfl⟩
      · exact .refl _
      · exact (KVCacheManager.unlisted_attachPrefix _ _ _).sameLists
    have grow : SameLists joined grown := by
      rcases reserved with rfl | ⟨tokenCount, rfl⟩
      · exact .refl _
      · exact (KVCacheManager.unlisted_reserveTokens _ _ _).sameLists
    rw [grow id, join id]
    exact KVCacheManager.sequencesFor_createSequence created id
  have kept : grown.Listed := by
    have opened_listed := KVCacheManager.listed_step listed (.createSequence candidate.metadata)
    simp only [KVCacheManager.step, created] at opened_listed
    have joined_listed : joined.Listed := by
      rcases attached with rfl | ⟨-, rfl⟩
      · exact opened_listed
      · exact KVCacheManager.listed_step opened_listed (.attachPrefix _ _)
    rcases reserved with rfl | ⟨tokenCount, rfl⟩
    · exact joined_listed
    · exact KVCacheManager.listed_step joined_listed (.reserveTokens _ _)
  rcases ended with admitted | refused
  · exact Or.inl ⟨grown, admitted, lists⟩
  · refine Or.inr ⟨_, refused, fun id owner member => ?_⟩
    obtain ⟨inside, different⟩ := (KVCacheManager.mem_releaseRequest kept _ owner id).mp member
    rwa [lists, if_neg different] at inside

/-! ## The invariant -/

/-- The prompt is not complete, or will be prefilled again behind a preemption. -/
def Opening (request : Request) : Prop :=
  request.state = .prefill ∨ 0 < request.remainingPrefillTokens

/-- Every request with an open prompt had one before. -/
def Reopens (before after : Scheduler) : Prop :=
  ∀ request ∈ after.owning, Opening request → ∃ earlier ∈ before.owning,
    earlier.requestId = request.requestId ∧ Opening earlier

theorem Reopens.refl (scheduler : Scheduler) : Reopens scheduler scheduler :=
  fun request member opening => ⟨request, member, rfl, opening⟩

theorem reopens_preempt (scheduler : Scheduler) (requestId : RequestId) (reason : String) :
    Reopens scheduler (scheduler.preempt requestId reason).2 := by
  obtain same | ⟨request, cache, info, held, found, same⟩ :=
    scheduler.preempt_cases requestId reason
  · rw [same]
    exact .refl scheduler
  · rw [same]
    intro other member opening
    simp only [owning, List.mem_append, List.mem_singleton] at member
    rcases member with kept | parked | rfl
    · exact ⟨other, List.mem_append_left _ (mem_eraseRequest kept), rfl, opening⟩
    · exact ⟨other, List.mem_append_right _ parked, rfl, opening⟩
    · refine ⟨request, List.mem_append_left _ (mem_of_findRequest found), rfl, Or.inr ?_⟩
      exact opening.resolve_left (by simp)

theorem reopens_resume (scheduler : Scheduler) (requestId : RequestId) :
    Reopens scheduler (scheduler.resume requestId).2 := by
  obtain ⟨cache, same⟩ | ⟨request, cache, state, found, -, state_eq, same⟩ :=
    scheduler.resume_cases requestId
  · rw [same]
    exact fun request member opening => ⟨request, member, rfl, opening⟩
  · rw [same]
    intro other member opening
    simp only [owning, List.mem_append, List.mem_singleton] at member
    rcases member with (old | rfl) | kept
    · exact ⟨other, List.mem_append_left _ old, rfl, opening⟩
    · refine ⟨request, List.mem_append_right _ (mem_of_findRequest found), rfl, Or.inr ?_⟩
      -- A resumed request prefills only if something is left of its prompt.
      rcases opening with prefilling | left_over
      · rw [state_eq] at prefilling
        split at prefilling
        · assumption
        · exact absurd prefilling (by simp)
      · exact left_over
    · exact ⟨other, List.mem_append_right _ (mem_eraseRequest kept), rfl, opening⟩

theorem reopens_completeStep (scheduler : Scheduler) (requestId : RequestId)
    (producedTokens : ℕ) : Reopens scheduler (scheduler.completeStep requestId producedTokens) := by
  intro request member opening
  rcases mem_owning_completeStep member with old | ⟨earlier, inside, -, rfl⟩
  · exact ⟨request, old, rfl, opening⟩
  · refine ⟨earlier, inside, (identity_complete earlier producedTokens).1.symm, ?_⟩
    unfold Request.complete at opening
    split at opening
    · rename_i prefilling
      exact Or.inl prefilling
    · exact opening

/-- Only owning requests have sequences, none more than its quota, and one with an open prompt has
its root at most. Below the base a sequence has the number of its request. -/
structure Rationed {Family : Type*} [DecidableEq Family] (quota : Quota Family) (base : ℕ)
    (scheduler : Scheduler) : Prop where
  tended : scheduler.cache.Tended quota
  distinct : scheduler.requestIds.Nodup
  registered : ∀ request ∈ scheduler.queued, Registered quota base request
  rooted : ∀ owner, ∀ id ∈ scheduler.cache.sequencesFor owner, id < base → id = owner
  owned : ∀ id, scheduler.cache.sequencesFor id ≠ [] → id ∈ scheduler.owners.map (·.requestId)
  alone : ∀ request ∈ scheduler.owning, Opening request →
    (scheduler.cache.sequencesFor request.requestId).length ≤ 1

theorem owners_ids (scheduler : Scheduler) :
    scheduler.owners.map (·.requestId) = scheduler.owning.map (·.requestId) :=
  List.map_map

/-- The queues moved requests that own cache, and the lists of sequences stayed. -/
theorem Rationed.keep {Family : Type*} [DecidableEq Family] {quota : Quota Family} {base : ℕ}
    {before after : Scheduler} (rationed : Rationed quota base before)
    (stems : Stems before after) (ids : after.requestIds.Perm before.requestIds)
    (owners : after.owners.Perm before.owners) (reopens : Reopens before after)
    (lists : SameLists before.cache after.cache) (tended : after.cache.Tended quota) :
    Rationed quota base after where
  tended := tended
  distinct := ids.nodup_iff.mpr rationed.distinct
  registered request member := by
    obtain ⟨earlier, inside, same⟩ := stems request member
    exact (rationed.registered earlier inside).of_constants same
  rooted owner id member := rationed.rooted owner id (lists owner ▸ member)
  owned id some_left := by
    rw [lists] at some_left
    exact (owners.map _).mem_iff.mpr (rationed.owned id some_left)
  alone request member opening := by
    obtain ⟨earlier, inside, named, opening'⟩ := reopens request member opening
    rw [lists, ← named]
    exact rationed.alone earlier inside opening'

/-- A waiting request has no sequence. -/
theorem Rationed.idle {Family : Type*} [DecidableEq Family] {quota : Quota Family} {base : ℕ}
    {scheduler : Scheduler} (rationed : Rationed quota base scheduler) {request : Request}
    (waiting : request ∈ scheduler.pending) :
    scheduler.cache.sequencesFor request.requestId = [] := by
  by_contra some_left
  have owner := rationed.owned _ some_left
  rw [owners_ids] at owner
  obtain ⟨other, owning, named⟩ := List.mem_map.mp owner
  exact waiting_not_owning rationed.distinct waiting owning named.symm

/-- Only the cache changed, and it lost sequences at most. -/
theorem Rationed.thin {Family : Type*} [DecidableEq Family] {quota : Quota Family} {base : ℕ}
    {scheduler : Scheduler} (rationed : Rationed quota base scheduler) {cache : KVCacheManager}
    (tended : cache.Tended quota)
    (fewer : ∀ id owner, id ∈ cache.sequencesFor owner →
      id ∈ scheduler.cache.sequencesFor owner) :
    Rationed quota base { scheduler with cache } where
  tended := tended
  distinct := rationed.distinct
  registered := rationed.registered
  rooted owner id member := rationed.rooted owner id (fewer id owner member)
  owned id some_left := by
    obtain ⟨sequence, member⟩ := List.exists_mem_of_ne_nil _ some_left
    exact rationed.owned id (List.ne_nil_of_mem (fewer sequence id member))
  alone request member opening :=
    (List.subperm_of_subset (tended.listed.once _) fun id listed =>
      fewer id request.requestId listed).length_le.trans (rationed.alone request member opening)

/-- Only the cache changed, and no list of sequences did. -/
theorem Rationed.recache {Family : Type*} [DecidableEq Family] {quota : Quota Family} {base : ℕ}
    {scheduler : Scheduler} (rationed : Rationed quota base scheduler) {cache : KVCacheManager}
    (lists : SameLists scheduler.cache cache) (tended : cache.Tended quota) :
    Rationed quota base { scheduler with cache } :=
  rationed.keep (fun request member => ⟨request, member, rfl⟩) (.refl _) (.refl _)
    (fun request member opening => ⟨request, member, rfl, opening⟩) lists tended

/-! ## The calls of the scheduler -/

theorem rationed_preempt {Family : Type*} [DecidableEq Family] {quota : Quota Family} {base : ℕ}
    {scheduler : Scheduler} (rationed : Rationed quota base scheduler) (requestId : RequestId)
    (reason : String) : Rationed quota base (scheduler.preempt requestId reason).2 := by
  have cache : SameLists scheduler.cache (scheduler.preempt requestId reason).2.cache ∧
      (scheduler.preempt requestId reason).2.cache.Tended quota := by
    unfold preempt
    split
    · exact ⟨.refl _, rationed.tended⟩
    · rename_i request _
      exact ⟨KVCacheManager.sameLists_swapOutRequest _ _, @KVCacheManager.tended_step _ _ _ _
        rationed.tended (.swapOutRequest request.requestId) trivial⟩
  exact rationed.keep (scheduler.stems_preempt requestId reason)
    ((scheduler.identities_preempt requestId reason).map _)
    (scheduler.owners_preempt requestId reason) (scheduler.reopens_preempt requestId reason)
    cache.1 cache.2

theorem rationed_resume {Family : Type*} [DecidableEq Family] {quota : Quota Family} {base : ℕ}
    {scheduler : Scheduler} (rationed : Rationed quota base scheduler) (requestId : RequestId) :
    Rationed quota base (scheduler.resume requestId).2 := by
  have cache : SameLists scheduler.cache (scheduler.resume requestId).2.cache ∧
      (scheduler.resume requestId).2.cache.Tended quota := by
    rcases found : findRequest scheduler.preempted requestId with _ | request
    · simp only [resume, found]
      exact ⟨.refl _, rationed.tended⟩
    · have lists := scheduler.cache.sameLists_swapInRequest request.requestId
      have tended := @KVCacheManager.tended_step _ _ _ _ rationed.tended
        (.swapInRequest request.requestId) trivial
      simp only [KVCacheManager.step] at tended
      rcases swapped : scheduler.cache.swapInRequest request.requestId with ⟨_ | _, cache⟩
      · simp only [resume, found, swapped]
        rw [swapped] at lists tended
        exact ⟨lists, tended⟩
      · simp only [resume, found, swapped]
        rw [swapped] at lists tended
        exact ⟨lists, tended⟩
  have stems := @stems_step scheduler (.resume requestId) fun _ => SchedulerOp.noConfusion
  exact rationed.keep stems ((scheduler.identities_resume requestId).map _)
    (scheduler.owners_resume requestId) (scheduler.reopens_resume requestId) cache.1 cache.2

theorem rationed_completeStep {Family : Type*} [DecidableEq Family] {quota : Quota Family}
    {base : ℕ} {scheduler : Scheduler} (rationed : Rationed quota base scheduler)
    (requestId : RequestId) (producedTokens : ℕ) :
    Rationed quota base (scheduler.completeStep requestId producedTokens) := by
  have stems := @stems_step scheduler (.completeStep requestId producedTokens) fun _ =>
    SchedulerOp.noConfusion
  exact rationed.keep stems
    (.of_eq (congrArg (List.map _) (scheduler.identities_completeStep requestId producedTokens)))
    (.of_eq (scheduler.owners_completeStep requestId producedTokens))
    (scheduler.reopens_completeStep requestId producedTokens) (.refl _) rationed.tended

theorem rationed_enqueue {Family : Type*} [DecidableEq Family] {quota : Quota Family} {base : ℕ}
    {scheduler : Scheduler} (rationed : Rationed quota base scheduler) {request : Request}
    (registered : Registered quota base request)
    (fresh : request.requestId ∉ scheduler.requestIds) :
    Rationed quota base (scheduler.enqueue request) where
  tended := rationed.tended
  distinct := by
    have entering := (scheduler.identities_enqueue request).map (·.requestId)
    rw [List.map_append, List.map_singleton] at entering
    refine entering.nodup_iff.mpr (List.nodup_append.mpr ⟨rationed.distinct,
      List.nodup_singleton _, fun id inside other single same => ?_⟩)
    obtain rfl : id = request.requestId := same.trans (List.mem_singleton.mp single)
    exact fresh inside
  registered other member := by
    simp only [queued, List.mem_append] at member
    rcases member with waiting | owned
    · rcases List.mem_append.mp waiting with old | new
      · exact rationed.registered other (List.mem_append_left _ old)
      · rw [List.mem_singleton.mp new]
        exact registered.of_constants rfl
    · exact rationed.registered other (List.mem_append_right _ owned)
  rooted := rationed.rooted
  owned := rationed.owned
  alone := rationed.alone

/-- An admitted request gets its root, and had no sequence while it waited. -/
theorem rationed_accept {Family : Type*} [DecidableEq Family] {quota : Quota Family} {base : ℕ}
    {scheduler : Scheduler} (rationed : Rationed quota base scheduler) {position : ℕ}
    {candidate : Request} {cache : KVCacheManager}
    (waiting : scheduler.pending[position]? = some candidate)
    (opened : openRoot scheduler.cache candidate = (true, cache)) :
    Rationed quota base (scheduler.admitAt position candidate cache) := by
  have queued := List.mem_of_getElem? waiting
  have registered := rationed.registered candidate (List.mem_append_left _ queued)
  have idle := rationed.idle queued
  have tended := tended_openRoot rationed.tended registered idle
  rw [opened] at tended
  have lists : ∀ id, cache.sequencesFor id =
      if id = candidate.requestId then scheduler.cache.sequencesFor id ++ [candidate.rootSequenceId]
      else scheduler.cache.sequencesFor id := by
    rcases lists_openRoot rationed.tended.listed candidate with
      ⟨after, run_eq, lists⟩ | ⟨after, run_eq, -⟩
    · obtain rfl : after = cache := congrArg Prod.snd (run_eq.symm.trans opened)
      exact lists
    · rw [run_eq] at opened
      exact absurd (congrArg Prod.fst opened) (by simp)
  have owners := (scheduler.owners_admitAt position candidate cache).map (·.requestId)
  constructor
  case tended => exact tended
  case distinct =>
    exact ((identities_admitAt cache waiting).map _).nodup_iff.mpr rationed.distinct
  case registered =>
    intro request member
    rcases List.mem_append.mp member with still | owned
    · obtain ⟨earlier, inside, skips, rfl⟩ := mem_skipBefore still
      exact (rationed.registered earlier (List.mem_append_left _ inside)).of_constants rfl
    · rcases mem_owning_admitAt owned with old | rfl
      · exact rationed.registered request (List.mem_append_right _ old)
      · exact registered.of_constants rfl
  case rooted =>
    intro owner id member low
    change id ∈ cache.sequencesFor owner at member
    rw [lists] at member
    split at member
    · rename_i same
      rw [same, idle, List.nil_append, List.mem_singleton] at member
      rw [member, same, registered.root]
    · exact rationed.rooted owner id member low
  case owned =>
    intro id some_left
    change cache.sequencesFor id ≠ [] at some_left
    rw [owners.mem_iff, List.map_cons, List.mem_cons]
    by_cases same : id = candidate.requestId
    · exact Or.inl same
    · rw [lists, if_neg same] at some_left
      exact Or.inr (rationed.owned id some_left)
  case alone =>
    intro request member opening
    change (cache.sequencesFor request.requestId).length ≤ 1
    rw [lists]
    split
    · rename_i same
      rw [same, idle]
      exact le_rfl
    · rename_i different
      rcases mem_owning_admitAt member with old | rfl
      · exact rationed.alone request old opening
      · exact absurd rfl different

/-- A refused candidate leaves no sequence behind. -/
theorem rationed_refuse {Family : Type*} [DecidableEq Family] {quota : Quota Family} {base : ℕ}
    {scheduler : Scheduler} (rationed : Rationed quota base scheduler) {candidate : Request}
    {cache : KVCacheManager} (waiting : candidate ∈ scheduler.pending)
    (refused : openRoot scheduler.cache candidate = (false, cache)) :
    Rationed quota base { scheduler with cache } := by
  have registered := rationed.registered candidate (List.mem_append_left _ waiting)
  have tended := tended_openRoot rationed.tended registered (rationed.idle waiting)
  rw [refused] at tended
  rcases lists_openRoot rationed.tended.listed candidate with
    ⟨after, run_eq, -⟩ | ⟨after, run_eq, fewer⟩
  · rw [run_eq] at refused
    exact absurd (congrArg Prod.fst refused) (by simp)
  · obtain rfl : after = cache := congrArg Prod.snd (run_eq.symm.trans refused)
    exact rationed.thin tended fewer

theorem rationed_action {Family : Type*} [DecidableEq Family] {quota : Quota Family} {base : ℕ}
    {scheduler after : Scheduler} {plan planned : BatchPlan}
    (action : AdmissionStep (scheduler, plan) (after, planned))
    (rationed : Rationed quota base scheduler) : Rationed quota base after := by
  cases action with
  | reclaim => exact rationed_preempt rationed _ _
  | refuse waiting refused => exact rationed_refuse rationed waiting refused
  | accept waiting fits => exact rationed_accept rationed waiting fits.opened

theorem rationed_scheduleNext {Family : Type*} [DecidableEq Family] {quota : Quota Family}
    {base : ℕ} {scheduler : Scheduler} (rationed : Rationed quota base scheduler) :
    Rationed quota base scheduler.scheduleNext.2 :=
  scheduleNext_induction (motive := fun after _ => Rationed quota base after)
    (fun _ _ _ _ action => rationed_action action) rationed

/-- Cancelling finds nothing, or releases the cache of the request. -/
theorem cancel_releases (scheduler : Scheduler) (requestId : RequestId) :
    scheduler.cancel requestId = scheduler ∨
      (scheduler.cancel requestId).cache = scheduler.cache.releaseRequest requestId := by
  unfold cancel
  split
  · rename_i request found
    obtain ⟨-, -, -, -, named, -⟩ := findRequest_split found
    exact Or.inr (congrArg scheduler.cache.releaseRequest named)
  · split
    · rename_i request found
      obtain ⟨-, -, -, -, named, -⟩ := findRequest_split found
      exact Or.inr (congrArg scheduler.cache.releaseRequest named)
    · split
      · rename_i request found
        obtain ⟨-, -, -, -, named, -⟩ := findRequest_split found
        exact Or.inr (congrArg scheduler.cache.releaseRequest named)
      · exact Or.inl rfl

/-- A cancelled request gives all its sequences back. -/
theorem rationed_cancel {Family : Type*} [DecidableEq Family] {quota : Quota Family} {base : ℕ}
    {scheduler : Scheduler} (rationed : Rationed quota base scheduler) (requestId : RequestId) :
    Rationed quota base (scheduler.cancel requestId) := by
  rcases scheduler.cancel_releases requestId with same | released
  · rw [same]
    exact rationed
  have lists (id : SequenceId) (owner : RequestId)
      (member : id ∈ (scheduler.cancel requestId).cache.sequencesFor owner) :
      id ∈ scheduler.cache.sequencesFor owner ∧ owner ≠ requestId := by
    rw [released] at member
    exact (KVCacheManager.mem_releaseRequest rationed.tended.listed requestId owner id).mp member
  have tended : (scheduler.cancel requestId).cache.Tended quota := by
    rw [released]
    exact @KVCacheManager.tended_step _ _ _ _ rationed.tended (.releaseRequest requestId) trivial
  have stems := @stems_step scheduler (.cancel requestId) fun _ => SchedulerOp.noConfusion
  have ids := mem_requestIds_cancel rationed.distinct requestId
  have alone := @Driver.distinct_ids_step scheduler (.cancel requestId) []
    ((List.append_nil scheduler.requestIds).symm ▸ rationed.distinct)
  constructor
  case tended => exact tended
  case distinct => exact alone.of_append_left
  case registered =>
    intro request member
    obtain ⟨earlier, inside, same⟩ := stems request member
    exact (rationed.registered earlier inside).of_constants same
  case rooted => exact fun owner id member => rationed.rooted owner id (lists id owner member).1
  case owned =>
    intro id some_left
    obtain ⟨sequence, member⟩ := List.exists_mem_of_ne_nil _ some_left
    obtain ⟨inside, different⟩ := lists sequence id member
    have owner := rationed.owned id (List.ne_nil_of_mem inside)
    -- Nobody waits under the id, so it stays where it was.
    have queued : id ∈ (scheduler.cancel requestId).requestIds := by
      rw [ids, requestIds_eq, ← owners_ids]
      exact ⟨List.mem_append_right _ owner, different⟩
    rw [requestIds_eq, List.mem_append] at queued
    rw [owners_ids]
    refine queued.resolve_left fun waiting => ?_
    obtain ⟨request, pending, named⟩ := List.mem_map.mp waiting
    rw [owners_ids] at owner
    obtain ⟨other, owning, named'⟩ := List.mem_map.mp owner
    exact waiting_not_owning rationed.distinct (mem_cancel.1 pending) owning
      (named.trans named'.symm)
  case alone =>
    intro request member opening
    have inside : request ∈ scheduler.owning := by
      simp only [owning, List.mem_append] at member ⊢
      exact member.imp mem_cancel.2.1 mem_cancel.2.2
    refine (List.subperm_of_subset (tended.listed.once _) fun id listed => ?_).length_le.trans
      (rationed.alone request inside opening)
    exact (lists id request.requestId listed).1

/-! ## The calls of the driver -/

/-- Calls that keep the rations whatever their arguments are. -/
def Tame : SchedulerOp → Prop
  | .enqueue _ => False
  | .cache (.ensureTokenWritable _ _ _) => True
  | .cache _ => False
  | _ => True

theorem rationed_step {Family : Type*} [DecidableEq Family] {quota : Quota Family} {base : ℕ}
    {scheduler : Scheduler} (rationed : Rationed quota base scheduler) {op : SchedulerOp}
    (tame : Tame op) : Rationed quota base (scheduler.step op) := by
  cases op with
  | enqueue request => exact tame.elim
  | scheduleNext => exact rationed_scheduleNext rationed
  | completeStep requestId producedTokens => exact rationed_completeStep rationed _ _
  | preempt requestId reason => exact rationed_preempt rationed _ _
  | resume requestId => exact rationed_resume rationed _
  | cancel requestId => exact rationed_cancel rationed _
  | cache op =>
      cases op with
      | ensureTokenWritable sequenceId token layer =>
          exact rationed.recache (KVCacheManager.unlisted_ensureTokenWritable _ _ _ _).sameLists
            (rationed.tended.ensureTokenWritable sequenceId token layer)
      | createSequence _ | forkSequence _ _ | reserveTokens _ _ | writeToken _ _ _ _
      | swapOutSequence _ | swapOutRequest _ | swapInSequence _ | swapInRequest _
      | publishPrefix _ _ | attachPrefix _ _ | releaseSequence _ | releaseRequest _ =>
          exact tame.elim

/-- A sequence below the base is the root of its request. -/
theorem Rationed.root_owner {Family : Type*} [DecidableEq Family] {quota : Quota Family} {base : ℕ}
    {scheduler : Scheduler} (rationed : Rationed quota base scheduler) {id : SequenceId}
    (low : id < base) {state : SequenceState}
    (found : scheduler.cache.sequences.lookup id = some state) : state.metadata.requestId = id :=
  (rationed.rooted _ id ((rationed.tended.listed.members _ _).mpr ⟨state, found, rfl⟩) low).symm

theorem rationed_reserve {Family : Type*} [DecidableEq Family] {quota : Quota Family} {base : ℕ}
    {scheduler : Scheduler} (rationed : Rationed quota base scheduler) {sequenceId : SequenceId}
    {tokenCount : ℕ} (room : scheduler.cache.RoomFor sequenceId tokenCount) :
    Rationed quota base (scheduler.step (.cache (.reserveTokens sequenceId tokenCount))) :=
  rationed.recache (KVCacheManager.unlisted_reserveTokens _ _ _).sameLists
    (rationed.tended.reserveTokens room)

/-- A request publishes under its own key. -/
theorem rationed_publish {Family : Type*} [DecidableEq Family] {quota : Quota Family} {base : ℕ}
    {scheduler : Scheduler} (rationed : Rationed quota base scheduler) {id : RequestId}
    {key : String} (low : id < base) (related : quota.family id = quota.keyFamily key) :
    Rationed quota base (scheduler.step (.cache (.publishPrefix id key))) := by
  refine rationed.recache (KVCacheManager.unlisted_publishPrefix _ _ _).sameLists
    (rationed.tended.publishPrefix fun state found => ?_)
  have owner := rationed.root_owner low found
  exact ⟨owner.symm, owner ▸ related⟩

/-- A fork does nothing, or lists one more sequence. -/
theorem lists_forkSequence (cache : KVCacheManager) (parentId : SequenceId)
    (childMetadata : SequenceMetadata) :
    cache.forkSequence parentId childMetadata = (false, cache) ∨
      ∃ after, cache.forkSequence parentId childMetadata = (true, after) ∧
        ∀ id, after.sequencesFor id =
          if id = childMetadata.requestId then
            cache.sequencesFor id ++ [childMetadata.sequenceId]
          else
            cache.sequencesFor id := by
  unfold KVCacheManager.forkSequence
  repeat' split
  all_goals first
    | exact Or.inl rfl
    | exact Or.inr ⟨_, rfl, fun id => KVCacheManager.sequencesFor_indexSequence _ _ id _⟩

/-- A request whose prompt is complete gets one more branch. -/
theorem rationed_fork {Family : Type*} [DecidableEq Family] {quota : Quota Family} {base : ℕ}
    {scheduler : Scheduler} (rationed : Rationed quota base scheduler) {id : RequestId}
    {child : SequenceId} (low : id < base) (high : base ≤ child)
    (owner : id ∈ scheduler.owners.map (·.requestId))
    (complete : ∀ request ∈ scheduler.owning, request.requestId = id → ¬ Opening request)
    (room : (scheduler.cache.sequencesFor id).length < quota.allowed id) :
    Rationed quota base (scheduler.step (.cache (.forkSequence id ⟨child, id⟩))) := by
  have tended : (scheduler.cache.forkSequence id ⟨child, id⟩).2.Tended quota :=
    rationed.tended.forkSequence room fun parent found => rationed.root_owner low found
  rcases lists_forkSequence scheduler.cache id ⟨child, id⟩ with same | ⟨after, run_eq, lists⟩
  · rw [step, KVCacheManager.step, same]
    exact rationed
  rw [step, KVCacheManager.step, run_eq]
  rw [run_eq] at tended
  constructor
  case tended => exact tended
  case distinct => exact rationed.distinct
  case registered => exact rationed.registered
  case rooted =>
    intro other sequence member below
    change sequence ∈ after.sequencesFor other at member
    rw [lists] at member
    split at member
    · rcases List.mem_append.mp member with old | new
      · exact rationed.rooted other sequence old below
      · rw [List.mem_singleton.mp new] at below
        exact absurd below (not_lt.mpr high)
    · exact rationed.rooted other sequence member below
  case owned =>
    intro other some_left
    by_cases same : other = id
    · rw [same]
      exact owner
    · change after.sequencesFor other ≠ [] at some_left
      rw [lists, if_neg same] at some_left
      exact rationed.owned other some_left
  case alone =>
    intro request member opening
    have different : request.requestId ≠ id := fun same => complete request member same opening
    change (after.sequencesFor request.requestId).length ≤ 1
    rw [lists, if_neg different]
    exact rationed.alone request member opening

end Scheduler
end QwenVLPaged
