import QwenVLPaged.PartialBlocks
import QwenVLPaged.RationedRequests

/-!
# Families in a replay

The requests of a trace with a common prefix key are a family, and every other request is one of its
own. The driver opens at most `num_parallel_samples` sequences for a request. If these fit into the
32-bit reference counts of a family, they keep all counters exact during the whole replay, and a
replay that completes leaves nothing behind.
-/

namespace QwenVLPaged

namespace PagedReplay

open Scheduler (Rationed Registered Opening)
open KVCacheManager (Tended)

/-! ## The quota of a trace -/

/-- The samples and the roots of the requests with one key fit into a reference count. Without
prefix caching the keys are not read. -/
def BranchesCounted (requests : List TraceRequest) (config : ReplayConfig) : Prop :=
  config.prefixCaching = true → ∀ request ∈ requests, request.prefixKey ≠ "" →
    ((requests.filter fun other => other.prefixKey = request.prefixKey).map fun other =>
      max 1 other.numParallelSamples + 1).sum < 2 ^ 32

instance (requests : List TraceRequest) (config : ReplayConfig) :
    Decidable (BranchesCounted requests config) :=
  inferInstanceAs (Decidable (_ → ∀ request ∈ requests, _))

/-- The request of the trace with an id. -/
def requestOf (requests : List TraceRequest) (id : RequestId) : Option TraceRequest :=
  requests.find? fun request => request.requestId == id

/-- Requests that may share a prefix have the family of their key. -/
def familyOf (requests : List TraceRequest) (config : ReplayConfig) (id : RequestId) :
    String ⊕ RequestId :=
  match requestOf requests id with
  | none => .inr id
  | some request =>
      if config.prefixCaching ∧ request.prefixKey ≠ "" then .inl request.prefixKey else .inr id

/-- Sequences of a request: its root and the other samples. -/
def samplesOf (requests : List TraceRequest) (id : RequestId) : ℕ :=
  match requestOf requests id with
  | none => 0
  | some request => max 1 request.numParallelSamples

theorem requestOf_eq {requests : List TraceRequest}
    (distinct : (requests.map (·.requestId)).Nodup) {request : TraceRequest}
    (member : request ∈ requests) : requestOf requests request.requestId = some request := by
  rcases found : requestOf requests request.requestId with _ | other
  · have missing := List.find?_eq_none.mp found request member
    simp at missing
  · have inside := List.mem_of_find?_eq_some found
    have named := List.find?_some found
    rw [List.inj_on_of_nodup_map distinct inside member (by simpa using named)]

/-- The weights of the requests of one family are those of the requests it stands for. -/
theorem sum_family {requests : List TraceRequest} {config : ReplayConfig}
    (distinct : (requests.map (·.requestId)).Nodup) (owner : String ⊕ RequestId) :
    (((requests.map (·.requestId)).filter fun id => familyOf requests config id = owner).map
        fun id => samplesOf requests id +
          if (familyOf requests config id).isLeft then 1 else 0).sum =
      ((requests.filter fun request => familyOf requests config request.requestId = owner).map
        fun request => max 1 request.numParallelSamples +
          if owner.isLeft then 1 else 0).sum := by
  rw [List.filter_map, List.map_map]
  refine congrArg List.sum (List.map_congr_left fun request member => ?_)
  obtain ⟨inside, same⟩ := List.mem_filter.mp member
  have family : familyOf requests config request.requestId = owner := by simpa using same
  simp only [Function.comp_apply, family, samplesOf, requestOf_eq distinct inside]

/-- A request shares under its key, or is alone in its family. -/
theorem familyOf_cases {requests : List TraceRequest} (config : ReplayConfig)
    (distinct : (requests.map (·.requestId)).Nodup) {request : TraceRequest}
    (member : request ∈ requests) :
    config.prefixCaching = true ∧ request.prefixKey ≠ "" ∧
        familyOf requests config request.requestId = .inl request.prefixKey ∨
      familyOf requests config request.requestId = .inr request.requestId := by
  rw [familyOf, requestOf_eq distinct member]
  dsimp only
  split
  · rename_i shared
    exact Or.inl ⟨shared.1, shared.2, rfl⟩
  · exact Or.inr rfl

/-- Every family stays within the counters. -/
theorem family_counted {requests : List TraceRequest} {config : ReplayConfig}
    (distinct : (requests.map (·.requestId)).Nodup) (counted : BranchesCounted requests config)
    (owner : String ⊕ RequestId) :
    ((requests.filter fun request => familyOf requests config request.requestId = owner).map
      fun request => max 1 request.numParallelSamples + if owner.isLeft then 1 else 0).sum <
        2 ^ 32 := by
  generalize split : (requests.filter fun request =>
    familyOf requests config request.requestId = owner) = members
  have inside (request : TraceRequest) (member : request ∈ members) :
      request ∈ requests ∧ familyOf requests config request.requestId = owner := by
    rw [← split] at member
    simpa using List.mem_filter.mp member
  cases owner with
  | inl key =>
      cases members with
      | nil => exact Nat.two_pow_pos 32
      | cons first rest =>
          have named (request : TraceRequest) (member : request ∈ first :: rest) :
              config.prefixCaching = true ∧ request.prefixKey ≠ "" ∧ request.prefixKey = key := by
            obtain ⟨asked, same⟩ := inside request member
            rcases familyOf_cases config distinct asked with ⟨caching, keyed, family⟩ | family
            · exact ⟨caching, keyed, Sum.inl_injective (family.symm.trans same)⟩
            · exact absurd (family.symm.trans same) (by simp)
          obtain ⟨caching, keyed, first_key⟩ := named first List.mem_cons_self
          have fewer : (first :: rest).Sublist
              (requests.filter fun other => other.prefixKey = first.prefixKey) := by
            have kept : (first :: rest).filter (fun other => other.prefixKey = first.prefixKey) =
                first :: rest := by
              refine List.filter_eq_self.mpr fun request member => decide_eq_true ?_
              rw [(named request member).2.2, first_key]
            rw [← kept, ← split]
            exact List.filter_sublist.filter _
          calc
            ((first :: rest).map fun request => max 1 request.numParallelSamples + 1).sum ≤
                ((requests.filter fun other => other.prefixKey = first.prefixKey).map
                  fun other => max 1 other.numParallelSamples + 1).sum :=
              (fewer.map _).sum_le_sum fun _ _ => Nat.zero_le _
            _ < 2 ^ 32 := counted caching first (inside first List.mem_cons_self).1 keyed
  | inr id =>
      have named (request : TraceRequest) (member : request ∈ members) :
          request.requestId = id := by
        obtain ⟨asked, same⟩ := inside request member
        rcases familyOf_cases config distinct asked with ⟨-, -, family⟩ | family
        · exact absurd (family.symm.trans same) (by simp)
        · exact Sum.inr_injective (family.symm.trans same)
      have once : (members.map (·.requestId)).Nodup := by
        rw [← split]
        exact distinct.sublist (List.filter_sublist.map _)
      rcases members with _ | ⟨first, _ | ⟨second, rest⟩⟩
      · exact Nat.two_pow_pos 32
      · have samples := first.numParallelSamples_lt
        simp only [List.map_cons, List.map_nil, List.sum_singleton, Sum.isLeft_inr,
          Bool.false_eq_true, if_false]
        omega
      · rw [List.map_cons, List.map_cons, List.nodup_cons] at once
        refine absurd ?_ once.1
        rw [named first (by simp), named second (by simp)]
        exact List.mem_cons_self

/-- The quota of a trace. -/
def quotaOf (requests : List TraceRequest) (config : ReplayConfig)
    (distinct : (requests.map (·.requestId)).Nodup)
    (counted : BranchesCounted requests config) : Quota (String ⊕ RequestId) where
  family := familyOf requests config
  keyFamily := .inl
  ids := requests.map (·.requestId)
  allowed := samplesOf requests
  shares id := (familyOf requests config id).isLeft
  apart := Sum.inl_injective
  outside id unknown := by
    have missing : requestOf requests id = none := by
      refine List.find?_eq_none.mpr fun request member => ?_
      simpa using fun same : request.requestId = id => unknown (same ▸ List.mem_map_of_mem member)
    rw [samplesOf, missing]
  sharing id key _ same := by rw [same]; rfl
  fits owner := by
    rw [sum_family distinct]
    exact family_counted distinct counted owner

/-! ## The invariant -/

theorem plain_of_runs {allowed : SchedulerOp → Prop} {before after : PagedState}
    {tokensPerBlock : ℕ} (runs : Runs allowed before after)
    (plain : before.scheduler.cache.Plain tokensPerBlock) :
    after.scheduler.cache.Plain tokensPerBlock :=
  runs.keeps (motive := fun scheduler => scheduler.cache.Plain tokensPerBlock)
    (fun _ _ _ holds => Scheduler.cache_step (fun _ op _ => KVCacheManager.plain_step op) holds
      fun called _ => KVCacheManager.plain_step called holds) plain

/-- The rations hold, branches get numbers from the base on, and committed tokens are 32-bit
values. -/
structure Sampled {Family : Type*} [DecidableEq Family] (quota : Quota Family) (base : ℕ)
    (config : ReplayConfig) (state : PagedState) : Prop where
  rationed : Rationed quota base state.scheduler
  plain : state.scheduler.cache.Plain config.tokensPerBlock
  next : base ≤ state.nextForkSequence
  small : ∀ id entry, state.progress.lookup id = some entry → entry.committed < 2 ^ 32

/-- Only tame calls were made. -/
theorem Sampled.tame {Family : Type*} [DecidableEq Family] {quota : Quota Family} {base : ℕ}
    {config : ReplayConfig} {before after : PagedState} (sampled : Sampled quota base config before)
    (runs : Runs Scheduler.Tame before after)
    (next : before.nextForkSequence ≤ after.nextForkSequence)
    (small : ∀ id entry, after.progress.lookup id = some entry → entry.committed < 2 ^ 32) :
    Sampled quota base config after where
  rationed := runs.keeps (motive := Rationed quota base)
    (fun _ _ fits holds => Scheduler.rationed_step holds fits) sampled.rationed
  plain := plain_of_runs runs sampled.plain
  next := sampled.next.trans next
  small := small

theorem Sampled.idle {Family : Type*} [DecidableEq Family] {quota : Quota Family} {base : ℕ}
    {config : ReplayConfig} {before after : PagedState} (sampled : Sampled quota base config before)
    (runs : Runs Scheduler.Tame before after) (books : SameBooks before after) :
    Sampled quota base config after :=
  sampled.tame runs books.next.ge fun id entry found =>
    sampled.small id entry (books.progress ▸ found)

/-- The books of one request changed. -/
theorem small_of_books {id : RequestId} {related : RequestProgress → RequestProgress → Prop}
    {before after : PagedState} (books : BooksOf id related before after)
    (small : ∀ id entry, before.progress.lookup id = some entry → entry.committed < 2 ^ 32)
    {old : RequestProgress} (found : before.progress.lookup id = some old)
    (bounded : ∀ new, related old new → new.committed < 2 ^ 32) :
    ∀ other entry, after.progress.lookup other = some entry → entry.committed < 2 ^ 32 := by
  intro other entry inside
  by_cases same : other = id
  · subst same
    obtain ⟨new, found', wrote⟩ := books.entry old found
    obtain rfl := Option.some.inj (found'.symm.trans inside)
    exact bounded new wrote
  · exact small other entry ((books.others other same).symm.trans inside)

/-! ## Decoding -/

theorem newBlocks_one_le (manager : KVCacheManager) : manager.newBlocks 1 ≤ 1 := by
  refine (min_le_left _ _).trans ?_
  unfold KVCacheManager.blocksNeeded
  have wrapped : wrap32 (1 + manager.tokensPerBlock - 1) ≤ manager.tokensPerBlock := by
    rw [Nat.add_sub_cancel_left]
    exact Nat.mod_le _ _
  calc
    wrap32 (1 + manager.tokensPerBlock - 1) / manager.tokensPerBlock ≤
        manager.tokensPerBlock / manager.tokensPerBlock := Nat.div_le_div_right wrapped
    _ ≤ 1 := Nat.div_le_of_le_mul (by omega)

theorem sampled_ensureCapacity {Family : Type*} [DecidableEq Family] {quota : Quota Family}
    {base : ℕ} {config : ReplayConfig} {state : PagedState}
    (sampled : Sampled quota base config state) (sequenceId : SequenceId) {position : ℕ}
    (small : position < 2 ^ 32) :
    Sampled quota base config
      (ensureCapacity config.tokensPerBlock sequenceId position state).2 := by
  have books := books_ensureCapacity config.tokensPerBlock sequenceId position state
  have runs : Runs (fun _ => True) state
      (ensureCapacity config.tokensPerBlock sequenceId position state).2 :=
    runs_ensureCapacity (fun _ _ => trivial) _ _ _ _
  refine ⟨?_, plain_of_runs runs sampled.plain, sampled.next.trans books.next.ge,
    fun id entry found => sampled.small id entry (books.progress ▸ found)⟩
  unfold ensureCapacity
  split
  · exact sampled.rationed
  rename_i sequence found
  split
  · exact sampled.rationed
  rename_i short
  refine Scheduler.rationed_reserve sampled.rationed fun other same table member => ?_
  obtain rfl := Option.some.inj (found.symm.trans (Option.mem_def.mp same))
  -- The only table ends before the block of the position.
  have tabled := sampled.rationed.tended.accounts.1.tabled sequenceId sequence found
  have single : sequence.tables.length = 1 := by rw [tabled.count, sampled.plain.tables]
  obtain ⟨only, tables⟩ := List.length_eq_one_iff.mp single
  rw [tables, List.mem_singleton] at member
  have size : sequence.textTable.size = table.entries.length := by
    rw [SequenceState.textTable, tables, member]
    rfl
  have blocks := newBlocks_one_le state.scheduler.cache
  have below : position / config.tokensPerBlock ≤ position := Nat.div_le_self _ _
  omega

theorem sampled_growAll {Family : Type*} [DecidableEq Family] {quota : Quota Family} {base : ℕ}
    {config : ReplayConfig} {position : ℕ} (small : position < 2 ^ 32)
    (sequences : List SequenceId) {state : PagedState}
    (sampled : Sampled quota base config state) :
    Sampled quota base config (growAll config.tokensPerBlock position sequences state).2 := by
  induction sequences generalizing state with
  | nil => exact sampled
  | cons sequenceId rest induction =>
      have one := sampled_ensureCapacity sampled sequenceId small
      rw [growAll]
      split
      · rename_i failed
        rwa [failed] at one
      · rename_i grown
        rw [grown] at one
        exact induction one

theorem tame_commitToken (config : ReplayConfig) (id : RequestId) (progress : RequestProgress)
    (state : PagedState) :
    Runs Scheduler.Tame state (commitToken config id progress state) ∧
      (commitToken config id progress state).nextForkSequence = state.nextForkSequence := by
  have touched : Runs Scheduler.Tame state (progress.sequences.foldl
      (fun state sequenceId =>
        touchPosition config.tokensPerBlock sequenceId progress.committed state) state) :=
    Runs.foldl (fun state sequenceId =>
      runs_touchPosition (fun _ _ _ => trivial) _ sequenceId _ state) _ _
  have books : SameBooks state (progress.sequences.foldl
      (fun state sequenceId =>
        touchPosition config.tokensPerBlock sequenceId progress.committed state) state) :=
    SameBooks.foldl (fun state sequenceId => books_touchPosition _ _ _ state) _ _
  unfold commitToken
  generalize progress.sequences.foldl
    (fun state sequenceId =>
      touchPosition config.tokensPerBlock sequenceId progress.committed state) state =
    wrote at touched books
  have answered : Runs Scheduler.Tame state (call (.completeStep id 1)
      (setProgress id
        { progress with
          committed := wrap32 (progress.committed + 1)
          decoded := wrap32 (progress.decoded + 1) } wrote)) :=
    touched.trans ((Runs.idle rfl rfl).trans (.call _ trivial _))
  dsimp only
  split
  · exact ⟨(answered.of_eq rfl rfl).trans ((Runs.call (.cancel id) trivial _).of_eq rfl rfl),
      books.next⟩
  · exact ⟨answered.of_eq rfl rfl, books.next⟩

theorem sampled_decodeOne {Family : Type*} [DecidableEq Family] {quota : Quota Family} {base : ℕ}
    {config : ReplayConfig} (plan : BatchPlan) {state : PagedState}
    (sampled : Sampled quota base config state) (id : RequestId) :
    Sampled quota base config (decodeOne config plan id state) := by
  unfold decodeOne
  split
  · exact sampled
  rename_i progress found
  split
  · exact sampled
  have small := sampled.small id progress found
  have grew := sampled_growAll small progress.sequences sampled
  have books := books_growAll config.tokensPerBlock progress.committed progress.sequences state
  split
  · rename_i grown run_eq
    rw [run_eq] at grew books
    have found' : grown.progress.lookup id = some progress := by rw [books.progress, found]
    obtain ⟨runs, next⟩ := tame_commitToken config id progress grown
    refine grew.tame runs next.ge
      (small_of_books (books_commitToken config found').1 grew.small found' ?_)
    intro new wrote
    rw [wrote.committed]
    exact wrap32_lt _
  · rename_i failed run_eq
    rw [run_eq] at grew
    have parked : Runs Scheduler.Tame failed
        (parkNewest plan failed.scheduler.freeBlocks failed.live.reverse
          { failed with growthFailed := true }).2 :=
      (Runs.idle rfl rfl).trans (runs_parkNewest (fun _ _ => trivial) _ _ _ _)
    have flagged : SameBooks failed { failed with growthFailed := true } := ⟨rfl, rfl, rfl⟩
    have parked_books := flagged.trans
      (books_parkNewest plan failed.scheduler.freeBlocks failed.live.reverse _)
    exact grew.idle (parked.of_eq rfl rfl)
      ⟨parked_books.progress, parked_books.next, parked_books.live⟩

/-! ## Prefilling -/

/-- The request owns cache, and its prompt is complete. -/
structure Prompted (base : ℕ) (id : RequestId) (state : PagedState) : Prop where
  low : id < base
  owner : id ∈ state.scheduler.owners.map (·.requestId)
  complete : ∀ request ∈ state.scheduler.owning, request.requestId = id → ¬ Opening request
  named : ∀ entry, state.progress.lookup id = some entry → entry.request.requestId = id

/-- One more branch of a request whose prompt is complete. -/
theorem sampled_openBranch {Family : Type*} [DecidableEq Family] {quota : Quota Family} {base : ℕ}
    {config : ReplayConfig} {id : RequestId} {state : PagedState}
    (sampled : Sampled quota base config state) (prompted : Prompted base id state)
    (room : (state.scheduler.cache.sequencesFor id).length < quota.allowed id) :
    Sampled quota base config (openBranch id state) ∧ Prompted base id (openBranch id state) ∧
      ((openBranch id state).scheduler.cache.sequencesFor id).length ≤
        (state.scheduler.cache.sequencesFor id).length + 1 := by
  unfold openBranch
  split
  · exact ⟨sampled, prompted, Nat.le_succ _⟩
  rename_i progress found
  rw [prompted.named progress found]
  have forked := Scheduler.rationed_fork sampled.rationed prompted.low sampled.next prompted.owner
    prompted.complete room
  have plain := KVCacheManager.plain_step
    (.forkSequence id ⟨state.nextForkSequence, id⟩) sampled.plain
  have more : ((state.scheduler.cache.forkSequence id ⟨state.nextForkSequence, id⟩).2.sequencesFor
      id).length ≤ (state.scheduler.cache.sequencesFor id).length + 1 := by
    rcases Scheduler.lists_forkSequence state.scheduler.cache id ⟨state.nextForkSequence, id⟩ with
      same | ⟨after, run_eq, lists⟩
    · rw [same]
      exact Nat.le_succ _
    · rw [run_eq, lists, if_pos rfl, List.length_append, List.length_singleton]
  have next : base ≤ state.nextForkSequence + 1 := sampled.next.trans (Nat.le_succ _)
  dsimp only
  split
  · refine ⟨⟨forked, plain, next, fun other entry inside => ?_⟩,
      ⟨prompted.low, prompted.owner, prompted.complete, fun entry inside => ?_⟩, more⟩
    · obtain ⟨rfl, rfl⟩ | ⟨-, old⟩ := AList.lookup_insert_cases inside
      · exact sampled.small _ progress found
      · exact sampled.small other entry old
    · obtain ⟨-, rfl⟩ | ⟨-, old⟩ := AList.lookup_insert_cases inside
      · exact prompted.named progress found
      · exact prompted.named entry old
  · exact ⟨⟨forked, plain, next, sampled.small⟩,
      ⟨prompted.low, prompted.owner, prompted.complete, prompted.named⟩, more⟩

theorem sampled_openBranches {Family : Type*} [DecidableEq Family] {quota : Quota Family}
    {base : ℕ} {config : ReplayConfig} {id : RequestId} (count : ℕ) {state : PagedState}
    (sampled : Sampled quota base config state) (prompted : Prompted base id state)
    (room : (state.scheduler.cache.sequencesFor id).length + count ≤ quota.allowed id) :
    Sampled quota base config (openBranches id count state) := by
  induction count generalizing state with
  | zero => exact sampled
  | succ count induction =>
      obtain ⟨sampled', prompted', more⟩ := sampled_openBranch sampled prompted (by omega)
      exact induction sampled' prompted' (by omega)

/-- A complete prompt is published under the key of its request, and its branches are opened. -/
theorem sampled_completePrompt {Family : Type*} [DecidableEq Family] {quota : Quota Family}
    {base : ℕ} {config : ReplayConfig} {id : RequestId} {request : TraceRequest}
    {state : PagedState} (sampled : Sampled quota base config state)
    (prompted : Prompted base id state) (named : request.requestId = id)
    (shared : config.prefixCaching = true → request.prefixKey ≠ "" →
      quota.family id = quota.keyFamily request.prefixKey)
    (room : (state.scheduler.cache.sequencesFor id).length + (request.numParallelSamples - 1) ≤
      quota.allowed id) :
    Sampled quota base config (completePrompt config id request state) := by
  simp only [completePrompt]
  split
  · rename_i publishes
    rw [named]
    have published := Scheduler.rationed_publish sampled.rationed prompted.low
      (shared publishes.1 publishes.2)
    have plain := KVCacheManager.plain_step (.publishPrefix id request.prefixKey) sampled.plain
    have lists := (KVCacheManager.unlisted_publishPrefix state.scheduler.cache id
      request.prefixKey).sameLists id
    refine sampled_openBranches _ ⟨published, plain, sampled.next, sampled.small⟩
      ⟨prompted.low, prompted.owner, prompted.complete, prompted.named⟩ ?_
    change ((state.scheduler.cache.publishPrefix id request.prefixKey).2.sequencesFor id).length +
      _ ≤ _
    rw [lists]
    exact room
  · exact sampled_openBranches _ sampled prompted room

/-- The quota has room for the samples of every request, and knows the requests. -/
def Serves {Family : Type*} [DecidableEq Family] (quota : Quota Family) (base : ℕ)
    (config : ReplayConfig) (requests : List TraceRequest) : Prop :=
  ∀ request ∈ requests, Registered quota base (scheduledRequest config request) ∧
    max 1 request.numParallelSamples ≤ quota.allowed request.requestId

/-- Behind its last chunk a request decodes, and had no branch before. -/
theorem prompted_completed {scheduler : Scheduler} (distinct : scheduler.requestIds.Nodup)
    {id : RequestId} (filling : Filling scheduler id) (chunk : ℕ) (cache : KVCacheManager)
    (decoding : ({ scheduler.completeStep id chunk with cache } : Scheduler).stateOf id =
      some .decode) :
    (∀ request ∈ (scheduler.completeStep id chunk).owning, request.requestId = id →
        ¬ Opening request) ∧
      ∃ request ∈ scheduler.owning, request.requestId = id ∧ Opening request := by
  -- The request that decodes now is the one that was answered.
  have ids : (scheduler.completeStep id chunk).requestIds = scheduler.requestIds :=
    congrArg (List.map _) (scheduler.identities_completeStep id chunk)
  have unique := distinct
  rw [← ids, ← Scheduler.queued_ids] at unique
  obtain ⟨found, lookup, state⟩ := Option.map_eq_some_iff.mp decoding
  have inside : found ∈ (scheduler.completeStep id chunk).queued := by
    have member := mem_of_findRequest lookup
    simpa [Scheduler.queued, Scheduler.owning] using member
  obtain ⟨-, -, -, -, named, -⟩ := findRequest_split lookup
  have only (request : Request) (member : request ∈ (scheduler.completeStep id chunk).owning)
      (about : request.requestId = id) : request = found :=
    List.inj_on_of_nodup_map unique (List.mem_append_right _ member) inside
      (about.trans named.symm)
  have answered (request : Request)
      (member : request ∈ (scheduler.completeStep id chunk).owning)
      (about : request.requestId = id) : ∃ earlier ∈ scheduler.owning, earlier.requestId = id ∧
        earlier.state = .prefill ∧ request.remainingPrefillTokens = 0 := by
    have decodes : request.state = .decode := only request member about ▸ state
    rcases Scheduler.mem_owning_completeStep member with same | ⟨earlier, owned, about', rfl⟩
    · exact absurd decodes (filling.open_prompt request same about)
    · refine ⟨earlier, owned, about', ?_⟩
      have before := filling.open_prompt earlier owned about'
      unfold Request.complete at decodes ⊢
      split at decodes
      · rename_i prefilling
        rw [if_pos prefilling]
        split at decodes
        · rename_i enough
          rw [if_pos enough]
          exact ⟨prefilling, rfl⟩
        · exact absurd (prefilling.symm.trans decodes) (by simp)
      · exact absurd decodes before
  constructor
  · intro request member about opening
    obtain ⟨-, -, -, -, nothing_left⟩ := answered request member about
    rcases opening with prefilling | left_over
    · rw [only request member about, state] at prefilling
      exact absurd prefilling (by simp)
    · exact absurd nothing_left left_over.ne'
  · have owner := filling.owned
    rw [← scheduler.owners_completeStep id chunk, Scheduler.owners_ids] at owner
    obtain ⟨request, member, about⟩ := List.mem_map.mp owner
    obtain ⟨earlier, owned, about', prefilling, -⟩ := answered request member about
    exact ⟨earlier, owned, about', Or.inl prefilling⟩

/-- Calls that write a chunk and report it. -/
def Writing : SchedulerOp → Prop
  | .completeStep _ _ => True
  | .cache (.ensureTokenWritable _ _ _) => True
  | _ => False

theorem writing_cases {op : SchedulerOp} (writing : Writing op) :
    Scheduler.Tame op ∧ ∀ scheduler : Scheduler,
      KVCacheManager.SameLists scheduler.cache (scheduler.step op).cache := by
  cases op with
  | completeStep id produced => exact ⟨trivial, fun _ => .refl _⟩
  | cache op =>
      cases op with
      | ensureTokenWritable sequenceId token layer =>
          exact ⟨trivial, fun _ => (KVCacheManager.unlisted_ensureTokenWritable _ _ _ _).sameLists⟩
      | createSequence _ | forkSequence _ _ | reserveTokens _ _ | writeToken _ _ _ _
      | swapOutSequence _ | swapOutRequest _ | swapInSequence _ | swapInRequest _
      | publishPrefix _ _ | attachPrefix _ _ | releaseSequence _ | releaseRequest _ =>
          exact writing.elim
  | enqueue _ | scheduleNext | preempt _ _ | resume _ | cancel _ => exact writing.elim

/-- A chunk is written before the prompt is complete. -/
theorem sampled_writeChunk {Family : Type*} [DecidableEq Family] {quota : Quota Family} {base : ℕ}
    {config : ReplayConfig} {state : PagedState} (sampled : Sampled quota base config state)
    {id : RequestId} {old : RequestProgress} (found : state.progress.lookup id = some old)
    (chunk : ℕ) :
    let stepped := writeChunk config id chunk (greeted config old state.scheduler.cache)
      (greet config id old state)
    Sampled quota base config stepped ∧
      KVCacheManager.SameLists state.scheduler.cache stepped.scheduler.cache := by
  have greets : Runs Writing state (greet config id old state) ∧
      (greet config id old state).nextForkSequence = state.nextForkSequence := by
    unfold greet
    split
    · exact ⟨.refl _ _, rfl⟩
    · exact ⟨.idle rfl rfl, rfl⟩
  have touches : Runs Writing (greet config id old state) ((List.range chunk).foldl
      (touchPrompt config.tokensPerBlock (greeted config old state.scheduler.cache))
        (greet config id old state)) :=
    runs_touchPrompts (fun _ _ _ => trivial) _ _ _ _
  have books := books_touchPrompts config.tokensPerBlock
    (greeted config old state.scheduler.cache) chunk (greet config id old state)
  have present := (prefillOne_eq config chunk found).1
  intro stepped
  have runs : Runs Writing state stepped :=
    greets.1.trans (touches.trans ((Runs.idle rfl rfl).trans
      ((Runs.call (.completeStep id chunk) trivial _).of_eq rfl rfl)))
  constructor
  · refine sampled.tame (runs.mono fun _ writing => (writing_cases writing).1)
      (books.next.trans greets.2).ge fun other entry inside => ?_
    obtain ⟨-, rfl⟩ | ⟨different, earlier⟩ := AList.lookup_insert_cases inside
    · exact wrap32_lt _
    · rw [books.progress] at earlier
      refine sampled.small other entry ?_
      rw [← earlier]
      unfold greet
      split
      · rfl
      · exact (AList.lookup_insert_ne different).symm
  · exact runs.keeps (motive := fun scheduler =>
      KVCacheManager.SameLists state.scheduler.cache scheduler.cache)
      (fun scheduler op writing same => same.trans ((writing_cases writing).2 scheduler)) (.refl _)

theorem sampled_prefillOne {Family : Type*} [DecidableEq Family] {quota : Quota Family} {base : ℕ}
    {config : ReplayConfig} {requests : List TraceRequest} {state : PagedState}
    (serves : Serves quota base config requests) (listed : Listed requests config state)
    (sampled : Sampled quota base config state) {id : RequestId}
    (filling : Filling state.scheduler id) (chunk : ℕ) :
    Sampled quota base config (prefillOne config id chunk state) := by
  rcases found : state.progress.lookup id with _ | old
  · simpa only [prefillOne, found] using sampled
  obtain ⟨written, lists⟩ := sampled_writeChunk sampled found chunk
  obtain ⟨cache, scheduler⟩ := scheduler_writeChunk config id chunk old state
  obtain ⟨asked, named⟩ := listed.traced id old found
  obtain ⟨registered, samples⟩ := serves old.request asked
  have request : (greeted config old state.scheduler.cache).request = old.request := by
    unfold greeted
    split
    · rfl
    · rfl
  rw [(prefillOne_eq config chunk found).2]
  split
  · rename_i decoding
    rw [scheduler] at decoding
    obtain ⟨complete, earlier, owned, about, opening⟩ :=
      prompted_completed listed.distinct filling chunk cache decoding
    have alone := sampled.rationed.alone earlier owned opening
    rw [about] at alone
    rw [request]
    refine sampled_completePrompt written ⟨?_, ?_, ?_, fun entry inside => ?_⟩ named ?_ ?_
    · rw [← named]
      exact registered.low
    · rw [scheduler]
      exact (state.scheduler.owners_completeStep id chunk) ▸ filling.owned
    · rw [scheduler]
      exact complete
    · obtain ⟨-, rfl⟩ | ⟨different, -⟩ := AList.lookup_insert_cases inside
      · rw [← named]
        exact congrArg TraceRequest.requestId request
      · exact absurd rfl different
    · intro caching keyed
      have shares := registered.keyed
      simp only [scheduledRequest, caching, if_true] at shares
      rw [← named]
      exact shares keyed
    · have few := lists id
      rw [few]
      have allowed : max 1 old.request.numParallelSamples ≤ quota.allowed id := named ▸ samples
      omega
  · exact written

/-! ## Reached states -/

theorem sampled_keeps {Family : Type*} [DecidableEq Family] {quota : Quota Family} {base : ℕ}
    {trace : Trace} {requests : List TraceRequest} {config : ReplayConfig}
    (serves : Serves quota base config requests) :
    StepKeeps trace requests config (Sampled quota base config) where
  plans state _ sampled := by
    have runs : Runs Scheduler.Tame state (call .scheduleNext (begin state)) :=
      (Runs.idle rfl rfl).trans (.call _ trivial (begin state))
    exact sampled.idle runs ⟨rfl, rfl, rfl⟩
  prefills _ _ chunk listed filling sampled :=
    sampled_prefillOne serves listed sampled filling chunk
  decodes plan _ id _ _ sampled := sampled_decodeOne plan sampled id
  settles state _ sampled := by
    obtain ⟨progress, next, -⟩ := books_settle state
    have tame (op : SchedulerOp) (fits : OfSettling op) : Scheduler.Tame op := by
      cases op with
      | resume id => trivial
      | enqueue _ | scheduleNext | completeStep _ _ | preempt _ _ | cancel _ | cache _ =>
          exact fits.elim
    refine sampled.tame ((runs_settle state).mono tame) next.ge fun id entry found => ?_
    exact sampled.small id entry (progress ▸ found)
  accounts _ _ _ sampled := ⟨sampled.rationed, sampled.plain, sampled.next, sampled.small⟩

/-- The number of the first branch. Roots have the numbers of their requests. -/
def firstBranch (trace : Trace) (config : ReplayConfig) (slab : ℕ → UInt8) : SequenceId :=
  (initial trace config slab).nextForkSequence

theorem lt_firstBranch (trace : Trace) (config : ReplayConfig) (slab : ℕ → UInt8) :
    ∀ request ∈ trace.requests, request.requestId < firstBranch trace config slab := by
  have whole (rest : List TraceRequest) : ∀ state : PagedState,
      state.nextForkSequence ≤ (rest.foldl (enroll config) state).nextForkSequence ∧
        ∀ request ∈ rest,
          request.requestId < (rest.foldl (enroll config) state).nextForkSequence := by
    induction rest with
    | nil => exact fun state => ⟨le_rfl, fun request member => absurd member List.not_mem_nil⟩
    | cons first rest induction =>
        intro state
        obtain ⟨grown, later⟩ := induction (enroll config state first)
        have entered : (enroll config state first).nextForkSequence =
            max state.nextForkSequence (first.requestId + 1) := rfl
        rw [entered] at grown
        rw [List.foldl_cons]
        refine ⟨(le_max_left _ _).trans grown, fun request member => ?_⟩
        rcases List.mem_cons.mp member with rfl | inside
        · exact (le_max_right _ _).trans grown
        · exact later request inside
  exact (whole trace.requests _).2

theorem sampled_initial {Family : Type*} [DecidableEq Family] {quota : Quota Family}
    (trace : Trace) (config : ReplayConfig) (slab : ℕ → UInt8)
    (distinct : (trace.requests.map (·.requestId)).Nodup)
    (serves : Serves quota (firstBranch trace config slab) config trace.requests) :
    Sampled quota (firstBranch trace config slab) config (initial trace config slab) := by
  have start := @initial_induction trace config slab distinct
    (fun requests state => (∀ request ∈ requests, request ∈ trace.requests) →
      Rationed quota (firstBranch trace config slab) state.scheduler ∧
        state.scheduler.cache.Plain config.tokensPerBlock ∧
        ∀ id entry, state.progress.lookup id = some entry → entry.committed < 2 ^ 32)
    ?_ ?_
  · obtain ⟨rationed, plain, small⟩ := start.2 fun _ member => member
    exact ⟨rationed, plain, le_rfl, small⟩
  · intro _
    refine ⟨⟨KVCacheManager.tended_overPool quota _ slab _, List.nodup_nil, ?_, ?_, ?_, ?_⟩,
      plain_fresh trace config slab, ?_⟩
    · exact fun request member => absurd member List.not_mem_nil
    · exact fun owner id member => absurd member List.not_mem_nil
    · exact fun id some_left => absurd rfl some_left
    · exact fun request member => absurd member List.not_mem_nil
    · exact fun id entry found => absurd found (by simp [blank])
  · intro requests request state listed fresh before asked
    obtain ⟨rationed, plain, small⟩ := before fun other member =>
      asked other (List.mem_append_left _ member)
    have registered := (serves request (asked request (by simp))).1
    have unqueued : request.requestId ∉ state.scheduler.requestIds := by
      intro member
      obtain ⟨entry, found, -, -⟩ := listed.found member
      obtain ⟨inside, named⟩ := listed.traced _ entry found
      exact fresh (List.mem_map.mpr ⟨entry.request, inside, named⟩)
    refine ⟨Scheduler.rationed_enqueue rationed registered unqueued, plain, ?_⟩
    intro id entry found
    obtain ⟨-, rfl⟩ | ⟨-, old⟩ := AList.lookup_insert_cases found
    · exact Nat.two_pow_pos 32
    · exact small id entry old

theorem serves_quotaOf (trace : Trace) (config : ReplayConfig) (slab : ℕ → UInt8)
    (distinct : (trace.requests.map (·.requestId)).Nodup)
    (counted : BranchesCounted trace.requests config) :
    Serves (quotaOf trace.requests config distinct counted) (firstBranch trace config slab) config
      trace.requests := by
  intro request member
  have samples : samplesOf trace.requests request.requestId = max 1 request.numParallelSamples := by
    rw [samplesOf, requestOf_eq distinct member]
  have room : max 1 request.numParallelSamples ≤
      (quotaOf trace.requests config distinct counted).allowed request.requestId := samples.ge
  refine ⟨⟨rfl, lt_firstBranch trace config slab request member, ?_, fun keyed => ?_⟩, room⟩
  · exact lt_of_lt_of_le (by omega) room
  · change familyOf trace.requests config request.requestId = _
    rcases familyOf_cases config distinct member with ⟨caching, -, family⟩ | family
    · rw [family]
      simp [quotaOf, scheduledRequest, caching]
    · -- A request alone in its family has no key to share.
      have caching : config.prefixCaching = true := by
        by_contra off
        simp [scheduledRequest, off] at keyed
      simp only [scheduledRequest, caching, if_true] at keyed
      simp [familyOf, requestOf_eq distinct member, caching, keyed] at family

/-- The rations hold in every reached state of a replay. -/
theorem sampled_reached {trace : Trace} {config : ReplayConfig} {slab : ℕ → UInt8}
    {guard : PagedState → Prop} {state : PagedState}
    (distinct : (trace.requests.map (·.requestId)).Nodup)
    (counted : BranchesCounted trace.requests config)
    (reached : Reached trace config slab guard state) :
    Sampled (quotaOf trace.requests config distinct counted) (firstBranch trace config slab) config
      state := by
  have serves := serves_quotaOf trace config slab distinct counted
  exact (reached_induction distinct reached
    (sampled_initial trace config slab distinct serves) (sampled_keeps serves)).2

end PagedReplay
end QwenVLPaged
