import QwenVLPaged.PrefillConservation
import QwenVLPaged.ReplayCounters
import QwenVLPaged.SnugSequences

/-!
# The queues under a replay

A request of the trace is queued in the scheduler until the driver has cancelled it, and it is
cancelled with its last token. `Listed` relates the queues to the books of the driver, and
`reached_induction` packs the induction over the steps of a replay: an invariant has to be kept by
a plan, by a planned chunk, by a planned decode step and by what ends the step.
-/

namespace QwenVLPaged

/-- What no call changes about a queued request. -/
def Request.constants (request : Request) : Request :=
  { request with
    state := .pending
    remainingPrefillTokens := 0
    admissionSkips := 0
    lifetimeBlocks := 0 }

theorem Request.constants_complete (request : Request) (producedTokens : ℕ) :
    (request.complete producedTokens).constants = request.constants := by
  unfold Request.complete
  split
  · split
    · rfl
    · rfl
  · rfl

namespace Scheduler

/-- All requests that wait or own cache. -/
def queued (scheduler : Scheduler) : List Request := scheduler.pending ++ scheduler.owning

theorem queued_ids (scheduler : Scheduler) :
    scheduler.queued.map (·.requestId) = scheduler.requestIds := by
  rw [requestIds_eq, queued, List.map_append]

/-- Every queued request was one of the queued ones before. -/
def Stems (before after : Scheduler) : Prop :=
  ∀ request ∈ after.queued, ∃ earlier ∈ before.queued, request.constants = earlier.constants

theorem Stems.refl (scheduler : Scheduler) : Stems scheduler scheduler :=
  fun request member => ⟨request, member, rfl⟩

theorem Stems.trans {first second third : Scheduler} (early : Stems first second)
    (late : Stems second third) : Stems first third := by
  intro request member
  obtain ⟨middle, inside, same⟩ := late request member
  obtain ⟨earlier, inside', same'⟩ := early middle inside
  exact ⟨earlier, inside', same.trans same'⟩

/-- The waiting queue is left alone and the owning requests change their states only. -/
theorem stems_relabelled {before after : Scheduler} (pending : after.pending = before.pending)
    (relabelled : Relabelled before after) : Stems before after := by
  intro request member
  rcases List.mem_append.mp member with waiting | owned
  · exact ⟨request, List.mem_append_left _ (pending ▸ waiting), rfl⟩
  · obtain ⟨earlier, inside, state, rfl⟩ := relabelled request owned
    exact ⟨earlier, List.mem_append_right _ inside, rfl⟩

theorem stems_preempt (scheduler : Scheduler) (requestId : RequestId) (reason : String) :
    Stems scheduler (scheduler.preempt requestId reason).2 :=
  stems_relabelled (reclaimed_preempt scheduler requestId reason).pending
    (scheduler.relabelled_preempt requestId reason)

theorem stems_action {scheduler after : Scheduler} {plan planned : BatchPlan}
    (action : AdmissionStep (scheduler, plan) (after, planned)) : Stems scheduler after := by
  cases action with
  | reclaim watermark older newest => exact scheduler.stems_preempt _ _
  | refuse waiting refused => exact fun request member => ⟨request, member, rfl⟩
  | @accept _ _ position candidate cache waiting fits =>
      intro request member
      rcases List.mem_append.mp member with still | owned
      · obtain ⟨earlier, inside, skips, rfl⟩ := mem_skipBefore still
        exact ⟨earlier, List.mem_append_left _ inside, rfl⟩
      · rcases mem_owning_admitAt owned with old | rfl
        · exact ⟨request, List.mem_append_right _ old, rfl⟩
        · exact ⟨candidate, List.mem_append_left _ (List.mem_of_getElem? waiting), rfl⟩

theorem stems_scheduleNext (scheduler : Scheduler) :
    Stems scheduler scheduler.scheduleNext.2 :=
  scheduleNext_induction (motive := fun after _ => Stems scheduler after)
    (fun _ _ _ _ action early => early.trans (stems_action action)) (.refl scheduler)

/-- Calls other than an enqueue bring no request in. -/
theorem stems_step (scheduler : Scheduler) {op : SchedulerOp}
    (own : ∀ request, op ≠ .enqueue request) : Stems scheduler (scheduler.step op) := by
  cases op with
  | enqueue request => exact absurd rfl (own request)
  | scheduleNext => exact scheduler.stems_scheduleNext
  | completeStep requestId producedTokens =>
      intro request member
      rcases List.mem_append.mp member with waiting | owned
      · exact ⟨request, List.mem_append_left _ waiting, rfl⟩
      · rcases mem_owning_completeStep owned with old | ⟨earlier, inside, -, rfl⟩
        · exact ⟨request, List.mem_append_right _ old, rfl⟩
        · exact ⟨earlier, List.mem_append_right _ inside, earlier.constants_complete _⟩
  | preempt requestId reason => exact scheduler.stems_preempt _ _
  | resume requestId =>
      exact stems_relabelled (scheduler.pending_resume requestId).1
        (scheduler.relabelled_resume requestId)
  | cancel requestId =>
      intro request member
      refine ⟨request, ?_, rfl⟩
      simp only [queued, owning, List.mem_append] at member ⊢
      rcases member with waiting | active | preempted
      · exact Or.inl (mem_cancel.1 waiting)
      · exact Or.inr (Or.inl (mem_cancel.2.1 active))
      · exact Or.inr (Or.inr (mem_cancel.2.2 preempted))
  | cache op => exact fun request member => ⟨request, member, rfl⟩

theorem active_ids_completeStep (scheduler : Scheduler) (requestId : RequestId)
    (producedTokens : ℕ) :
    (scheduler.completeStep requestId producedTokens).active.map (·.requestId) =
      scheduler.active.map (·.requestId) := by
  have same := scheduler.owners_completeStep requestId producedTokens
  rw [owners, owners, List.map_append, List.map_append] at same
  have front := congrArg (List.map (·.requestId)) (List.append_cancel_right same)
  rw [List.map_map, List.map_map] at front
  exact front

/-- Cancelling takes its request out of the queues and no other. -/
theorem mem_requestIds_cancel {scheduler : Scheduler} (distinct : scheduler.requestIds.Nodup)
    (requestId other : RequestId) :
    other ∈ (scheduler.cancel requestId).requestIds ↔
      other ∈ scheduler.requestIds ∧ other ≠ requestId := by
  rcases scheduler.cancel_cases requestId with ⟨same, missing⟩ | ⟨request, named, split⟩
  · rw [same]
    refine ⟨fun member => ⟨member, ?_⟩, And.left⟩
    rintro rfl
    obtain ⟨identity, inside, about⟩ := List.mem_map.mp member
    exact missing identity inside about
  · have ids := split.map (·.requestId)
    change scheduler.requestIds.Perm (request.requestId :: (scheduler.cancel requestId).requestIds)
      at ids
    rw [named] at ids
    have fresh := (List.nodup_cons.mp (ids.nodup_iff.mp distinct)).1
    rw [ids.mem_iff, List.mem_cons]
    constructor
    · intro member
      exact ⟨Or.inr member, fun same => fresh (same ▸ member)⟩
    · rintro ⟨same | member, different⟩
      · exact absurd same different
      · exact member

end Scheduler

namespace PagedReplay

theorem scheduler_of_cache {before after : PagedState} (runs : Runs OfCache before after) :
    after.scheduler = { before.scheduler with cache := after.scheduler.cache } := by
  refine runs.keeps (motive := fun scheduler =>
    scheduler = { before.scheduler with cache := scheduler.cache }) ?_ rfl
  intro scheduler op fits same
  cases op with
  | cache op => rw [same]; rfl
  | enqueue _ | scheduleNext | completeStep _ _ | preempt _ _ | resume _ | cancel _ =>
      exact fits.elim

theorem ids_of_staying {before after : PagedState} (runs : Runs Staying before after) :
    after.scheduler.requestIds.Perm before.scheduler.requestIds := by
  refine runs.keeps (motive := fun scheduler =>
    scheduler.requestIds.Perm before.scheduler.requestIds) ?_ (.refl _)
  intro scheduler op fits same
  cases op with
  | scheduleNext => exact (scheduler.identities_scheduleNext.map _).trans same
  | completeStep id produced =>
      exact (List.Perm.of_eq (congrArg (List.map _)
        (scheduler.identities_completeStep id produced))).trans same
  | preempt id reason => exact ((scheduler.identities_preempt id reason).map _).trans same
  | resume id => exact ((scheduler.identities_resume id).map _).trans same
  | cache op => exact same
  | enqueue _ | cancel _ => exact fits.elim

theorem stems_of_runs {allowed : SchedulerOp → Prop} {before after : PagedState}
    (runs : Runs allowed before after) (own : ∀ op, allowed op → Driving op) :
    Scheduler.Stems before.scheduler after.scheduler :=
  runs.keeps (motive := Scheduler.Stems before.scheduler)
    (fun scheduler op fits early => early.trans (scheduler.stems_step (own op fits))) (.refl _)

/-- A written chunk is one answer to the scheduler behind calls of the cache. -/
theorem scheduler_writeChunk (config : ReplayConfig) (id : RequestId) (chunk : ℕ)
    (old : RequestProgress) (state : PagedState) :
    ∃ cache, (writeChunk config id chunk (greeted config old state.scheduler.cache)
      (greet config id old state)).scheduler =
        { state.scheduler.completeStep id chunk with cache } := by
  have greets : (greet config id old state).scheduler = state.scheduler := by
    unfold greet
    split
    · rfl
    · rfl
  have touches : Runs OfCache (greet config id old state) ((List.range chunk).foldl
      (touchPrompt config.tokensPerBlock (greeted config old state.scheduler.cache))
        (greet config id old state)) :=
    runs_touchPrompts (fun _ _ _ => trivial) _ _ _ _
  have touched := scheduler_of_cache touches
  rw [greets] at touched
  exact ⟨_, (congrArg (fun scheduler : Scheduler => scheduler.completeStep id chunk)
    touched).trans rfl⟩

/-- A prefill step calls the cache around one answer to the scheduler. -/
theorem scheduler_prefillOne (config : ReplayConfig) {id : RequestId} (chunk : ℕ)
    {state : PagedState} {old : RequestProgress} (found : state.progress.lookup id = some old) :
    ∃ cache, (prefillOne config id chunk state).scheduler =
      { state.scheduler.completeStep id chunk with cache } := by
  obtain ⟨cache, written⟩ := scheduler_writeChunk config id chunk old state
  rw [(prefillOne_eq config chunk found).2]
  split
  · have completes : Runs OfCache _ (completePrompt config id
        (greeted config old state.scheduler.cache).request
        (writeChunk config id chunk (greeted config old state.scheduler.cache)
          (greet config id old state))) :=
      runs_completePrompt (fun _ _ => trivial) (fun _ _ => trivial) _ _ _ _
    have completed := scheduler_of_cache completes
    rw [written] at completed
    exact ⟨_, completed⟩
  · exact ⟨cache, written⟩

/-- A committed token is reported, and the last one takes the request out of the scheduler. -/
theorem scheduler_commitToken (config : ReplayConfig) (id : RequestId)
    (progress : RequestProgress) (state : PagedState) :
    ∃ middle : PagedState, Runs Staying state middle ∧
      (commitToken config id progress state).scheduler =
        if progress.request.decodeActual ≤ wrap32 (progress.decoded + 1) then
          middle.scheduler.cancel id
        else
          middle.scheduler := by
  have touched : Runs Staying state (progress.sequences.foldl
      (fun state sequenceId =>
        touchPosition config.tokensPerBlock sequenceId progress.committed state) state) :=
    Runs.foldl (fun state sequenceId =>
      runs_touchPosition (fun _ _ _ => trivial) _ sequenceId _ state) _ _
  refine ⟨call (.completeStep id 1) (progress.sequences.foldl
    (fun state sequenceId =>
      touchPosition config.tokensPerBlock sequenceId progress.committed state) state),
    touched.trans (.call _ trivial _), ?_⟩
  unfold commitToken
  dsimp only
  split
  · rfl
  · rfl

/-! ## Queued requests -/

/-- A request of the list is queued until its entry says that it is finished. -/
structure Listed (requests : List TraceRequest) (config : ReplayConfig) (state : PagedState) :
    Prop where
  distinct : state.scheduler.requestIds.Nodup
  entered : ∀ request ∈ requests, ∃ entry,
    state.progress.lookup request.requestId = some entry ∧ entry.request = request
  traced : ∀ id entry, state.progress.lookup id = some entry →
    entry.request ∈ requests ∧ entry.request.requestId = id
  unfinished : ∀ id entry, state.progress.lookup id = some entry →
    (entry.finished = false ↔ id ∈ state.scheduler.requestIds)
  enlisted : ∀ request ∈ state.scheduler.queued, ∃ traced ∈ requests,
    request.constants = (scheduledRequest config traced).constants

/-- A queued request has its entry. -/
theorem Listed.found {requests : List TraceRequest} {config : ReplayConfig} {state : PagedState}
    (listed : Listed requests config state) {id : RequestId}
    (member : id ∈ state.scheduler.requestIds) :
    ∃ entry, state.progress.lookup id = some entry ∧ entry.finished = false ∧
      ∀ request ∈ state.scheduler.queued, request.requestId = id →
        request.constants = (scheduledRequest config entry.request).constants := by
  rw [← Scheduler.queued_ids] at member
  obtain ⟨request, inside, rfl⟩ := List.mem_map.mp member
  obtain ⟨traced, asked, constants⟩ := listed.enlisted request inside
  have named : request.requestId = traced.requestId := congrArg Request.requestId constants
  obtain ⟨entry, found, same⟩ := listed.entered traced asked
  rw [← named] at found
  refine ⟨entry, found, ?_, fun other inside' about => ?_⟩
  · rw [listed.unfinished _ entry found, ← Scheduler.queued_ids]
    exact List.mem_map_of_mem inside
  · obtain ⟨traced', asked', constants'⟩ := listed.enlisted other inside'
    have named' : other.requestId = traced'.requestId := congrArg Request.requestId constants'
    obtain ⟨entry', found', same'⟩ := listed.entered traced' asked'
    rw [← named', about, found] at found'
    obtain rfl := Option.some.inj found'
    rw [same']
    exact constants'

/-- Only the entry of one request changed, and what the queues hold of the others stayed. -/
theorem Listed.update {requests : List TraceRequest} {config : ReplayConfig}
    {before after : PagedState} (listed : Listed requests config before) {id : RequestId}
    {old new : RequestProgress} (found : before.progress.lookup id = some old)
    (found' : after.progress.lookup id = some new) (request : new.request = old.request)
    (others : ∀ other, other ≠ id → after.progress.lookup other = before.progress.lookup other)
    (distinct : after.scheduler.requestIds.Nodup)
    (ids : ∀ other, other ≠ id →
      (other ∈ after.scheduler.requestIds ↔ other ∈ before.scheduler.requestIds))
    (kept : new.finished = false ↔ id ∈ after.scheduler.requestIds)
    (stems : Scheduler.Stems before.scheduler after.scheduler) :
    Listed requests config after where
  distinct := distinct
  entered asked member := by
    obtain ⟨entry, inside, same⟩ := listed.entered asked member
    by_cases about : asked.requestId = id
    · obtain rfl := Option.some.inj (found.symm.trans (about ▸ inside))
      exact ⟨new, about ▸ found', request.trans same⟩
    · exact ⟨entry, (others _ about).trans inside, same⟩
  traced other entry inside := by
    by_cases about : other = id
    · subst about
      obtain rfl := Option.some.inj (found'.symm.trans inside)
      rw [request]
      exact listed.traced other old found
    · exact listed.traced other entry ((others other about).symm.trans inside)
  unfinished other entry inside := by
    by_cases about : other = id
    · subst about
      obtain rfl := Option.some.inj (found'.symm.trans inside)
      exact kept
    · rw [ids other about]
      exact listed.unfinished other entry ((others other about).symm.trans inside)
  enlisted asked member := by
    obtain ⟨earlier, inside, same⟩ := stems asked member
    obtain ⟨traced, asked', constants⟩ := listed.enlisted earlier inside
    exact ⟨traced, asked', same.trans constants⟩

/-- The books stayed, and nobody left the queues. -/
theorem Listed.still {requests : List TraceRequest} {config : ReplayConfig}
    {before after : PagedState} (listed : Listed requests config before)
    (progress : after.progress = before.progress)
    (ids : after.scheduler.requestIds.Perm before.scheduler.requestIds)
    (stems : Scheduler.Stems before.scheduler after.scheduler) :
    Listed requests config after where
  distinct := ids.nodup_iff.mpr listed.distinct
  entered := by rw [progress]; exact listed.entered
  traced := by rw [progress]; exact listed.traced
  unfinished id entry inside := by
    rw [progress] at inside
    rw [ids.mem_iff]
    exact listed.unfinished id entry inside
  enlisted asked member := by
    obtain ⟨earlier, inside, same⟩ := stems asked member
    obtain ⟨traced, asked', constants⟩ := listed.enlisted earlier inside
    exact ⟨traced, asked', same.trans constants⟩

/-- The queues behind a planned chunk. -/
theorem queues_prefillOne (config : ReplayConfig) (id : RequestId) (chunk : ℕ)
    (state : PagedState) :
    (prefillOne config id chunk state).scheduler.owners = state.scheduler.owners ∧
      (prefillOne config id chunk state).scheduler.pending = state.scheduler.pending ∧
      (prefillOne config id chunk state).scheduler.active.map (·.requestId) =
        state.scheduler.active.map (·.requestId) ∧
      (prefillOne config id chunk state).scheduler.requestIds = state.scheduler.requestIds := by
  rcases found : state.progress.lookup id with _ | old
  · simp only [prefillOne, found, and_self]
  · obtain ⟨cache, scheduler⟩ := scheduler_prefillOne config chunk found
    rw [scheduler]
    exact ⟨state.scheduler.owners_completeStep id chunk, rfl,
      state.scheduler.active_ids_completeStep id chunk,
      congrArg (List.map _) (state.scheduler.identities_completeStep id chunk)⟩

theorem listed_prefillOne {requests : List TraceRequest} {config : ReplayConfig}
    {state : PagedState} (listed : Listed requests config state) (id : RequestId) (chunk : ℕ) :
    Listed requests config (prefillOne config id chunk state) := by
  rcases found : state.progress.lookup id with _ | old
  · simpa only [prefillOne, found] using listed
  · obtain ⟨books, -⟩ := books_prefillOne config chunk found
    obtain ⟨new, found', written⟩ := books.entry old found
    obtain ⟨-, -, -, ids⟩ := queues_prefillOne config id chunk state
    refine listed.update found found' written.request books.others ?_ ?_ ?_ ?_
    · rw [ids]
      exact listed.distinct
    · exact fun other _ => by rw [ids]
    · rw [ids, written.finished]
      exact listed.unfinished id old found
    · exact stems_of_runs (runs_prefillOne config id chunk state) driving_of_prefill

/-- What is planned for decoding is queued, and does not wait. -/
def Due (scheduler : Scheduler) (id : RequestId) : Prop :=
  id ∈ scheduler.requestIds ∧ id ∉ scheduler.pending.map (·.requestId)

theorem Due.owning {scheduler : Scheduler} {id : RequestId} (due : Due scheduler id) :
    ∃ request ∈ scheduler.owning, request.requestId = id := by
  obtain ⟨member, moving⟩ := due
  rw [Scheduler.requestIds_eq, List.mem_append] at member
  exact List.mem_map.mp (member.resolve_left moving)

/-- The calls of a decode step take at most their own request out of the queues. -/
theorem queues_of_decode {id : RequestId} {before after : PagedState}
    (runs : Runs (OfDecode id) before after) (distinct : before.scheduler.requestIds.Nodup) :
    after.scheduler.requestIds.Nodup ∧
      (∀ other, other ≠ id →
        (other ∈ after.scheduler.requestIds ↔ other ∈ before.scheduler.requestIds)) ∧
      after.scheduler.pending ⊆ before.scheduler.pending := by
  refine runs.keeps (motive := fun scheduler => scheduler.requestIds.Nodup ∧
    (∀ other, other ≠ id → (other ∈ scheduler.requestIds ↔ other ∈ before.scheduler.requestIds)) ∧
    scheduler.pending ⊆ before.scheduler.pending) ?_
    ⟨distinct, fun _ _ => Iff.rfl, List.Subset.refl _⟩
  rintro scheduler op fits ⟨distinct, ids, waiting⟩
  cases op with
  | completeStep other produced =>
      have same : (scheduler.completeStep other produced).requestIds = scheduler.requestIds :=
        congrArg (List.map _) (scheduler.identities_completeStep other produced)
      rw [Scheduler.step, same]
      exact ⟨distinct, ids, waiting⟩
  | preempt other reason =>
      have same := (scheduler.identities_preempt other reason).map (·.requestId)
      refine ⟨same.nodup_iff.mpr distinct, fun third different => ?_, ?_⟩
      · exact same.mem_iff.trans (ids third different)
      · rw [Scheduler.step, (Scheduler.reclaimed_preempt scheduler other reason).pending]
        exact waiting
  | cancel other =>
      obtain rfl : other = id := fits
      have alone := @Driver.distinct_ids_step scheduler (.cancel other) []
        ((List.append_nil scheduler.requestIds).symm ▸ distinct)
      refine ⟨alone.of_append_left, fun third different => ?_, ?_⟩
      · exact ((Scheduler.mem_requestIds_cancel distinct other third).trans
          (and_iff_left different)).trans (ids third different)
      · rw [Scheduler.step, (scheduler.pending_cancel other).1]
        exact fun request member => waiting (Scheduler.mem_eraseRequest member)
  | cache op => exact ⟨distinct, ids, waiting⟩
  | enqueue _ | scheduleNext | resume _ => exact fits.elim

/-- What is due stays due while another request is answered. -/
theorem Due.decode {answered id : RequestId} {before after : PagedState}
    (due : Due before.scheduler id) (runs : Runs (OfDecode answered) before after)
    (distinct : before.scheduler.requestIds.Nodup) (different : id ≠ answered) :
    Due after.scheduler id := by
  obtain ⟨-, others, waiting⟩ := queues_of_decode runs distinct
  exact ⟨(others id different).mpr due.1, fun inside =>
    due.2 (List.map_subset _ waiting inside)⟩

/-- What a decode step does to the books of a queued request: nothing, or a token is committed and
the queues lose the request with its last one. -/
theorem decodeOne_effect {requests : List TraceRequest} {config : ReplayConfig}
    (plan : BatchPlan) {state : PagedState} {id : RequestId}
    (listed : Listed requests config state) (queued : id ∈ state.scheduler.requestIds) :
    (SameBooks state (decodeOne config plan id state) ∧
      countersOf (decodeOne config plan id state) = countersOf state ∧
      (decodeOne config plan id state).scheduler.requestIds.Perm state.scheduler.requestIds) ∨
    ∃ old new, state.progress.lookup id = some old ∧ old.finished = false ∧
      (decodeOne config plan id state).progress.lookup id = some new ∧
      TokenWritten old new ∧ (new.finished = true ↔ old.request.decodeActual ≤ new.decoded) ∧
      (∀ other, other ≠ id → (decodeOne config plan id state).progress.lookup other =
        state.progress.lookup other) ∧
      (decodeOne config plan id state).live = state.live ∧
      countersOf (decodeOne config plan id state) =
        (if new.finished then
          { countersOf state with completed := state.completed + 1 }
        else
          countersOf state) ∧
      (new.finished = false ↔ id ∈ (decodeOne config plan id state).scheduler.requestIds) := by
  obtain ⟨old, found, unfinished, -⟩ := listed.found queued
  rcases decodeOne_cases config plan found with ⟨books, counters, stays⟩ | ⟨-, committed⟩
  · exact Or.inl ⟨books, counters, ids_of_staying stays⟩
  right
  have grew := books_growAll config.tokensPerBlock old.committed old.sequences state
  have counted := counters_growAll config.tokensPerBlock old.committed old.sequences state
  have grows : Runs Staying state
      (growAll config.tokensPerBlock old.committed old.sequences state).2 :=
    runs_growAll (fun _ _ => trivial) _ _ _ _
  rw [committed]
  generalize (growAll config.tokensPerBlock old.committed old.sequences state).2 = grown
    at grew counted grows
  have found_grown : grown.progress.lookup id = some old := by rw [grew.progress, found]
  obtain ⟨books, live⟩ := books_commitToken config found_grown
  obtain ⟨new, found_new, wrote⟩ := books.entry old found_grown
  have finished : new.finished = true ↔ old.request.decodeActual ≤ new.decoded := by
    rw [wrote.finished, unfinished, Bool.false_or, decide_eq_true_iff]
  refine ⟨old, new, found, unfinished, found_new, wrote, finished, fun other different => ?_,
    live.trans grew.live, ?_, ?_⟩
  · rw [books.others other different, grew.progress]
  · have completed : grown.completed = state.completed := congrArg Counters.completed counted
    rw [counters_commitToken, ← wrote.decoded, counted, completed]
    exact if_congr finished.symm rfl rfl
  · obtain ⟨middle, stays, scheduler⟩ := scheduler_commitToken config id old grown
    have ids := ids_of_staying (grows.trans stays)
    rw [scheduler, ← Bool.not_eq_true, finished, wrote.decoded]
    split
    · rename_i enough
      have gone : id ∉ (middle.scheduler.cancel id).requestIds := by
        rw [Scheduler.mem_requestIds_cancel (ids.nodup_iff.mpr listed.distinct)]
        exact fun both => both.2 rfl
      simp [enough, gone]
    · rename_i few
      simp [few, ids.mem_iff.mpr queued]

theorem listed_decodeOne {requests : List TraceRequest} {config : ReplayConfig}
    (plan : BatchPlan) {state : PagedState} {id : RequestId}
    (listed : Listed requests config state) (queued : id ∈ state.scheduler.requestIds) :
    Listed requests config (decodeOne config plan id state) := by
  have runs := runs_decodeOne config plan id state
  have stems := stems_of_runs runs driving_of_decode
  obtain ⟨distinct, others, -⟩ := queues_of_decode runs listed.distinct
  rcases decodeOne_effect plan listed queued with ⟨books, -, ids⟩ |
    ⟨old, new, found, -, found', wrote, -, same, -, -, kept⟩
  · exact listed.still books.progress ids stems
  · exact listed.update found found' wrote.request same distinct others kept stems

theorem staying_of_settling (op : SchedulerOp) (fits : OfSettling op) : Staying op := by
  cases op with
  | resume id => trivial
  | enqueue _ | scheduleNext | completeStep _ _ | preempt _ _ | cancel _ | cache _ =>
      exact fits.elim

theorem listed_settle {requests : List TraceRequest} {config : ReplayConfig}
    {state : PagedState} (listed : Listed requests config state) :
    Listed requests config (settle state) :=
  listed.still (books_settle state).1
    (ids_of_staying ((runs_settle state).mono staying_of_settling))
    (stems_of_runs (runs_settle state) driving_of_settling)

theorem listed_scheduleNext {requests : List TraceRequest} {config : ReplayConfig}
    {state : PagedState} (listed : Listed requests config state) :
    Listed requests config (call .scheduleNext (begin state)) :=
  listed.still rfl (state.scheduler.identities_scheduleNext.map _)
    state.scheduler.stems_scheduleNext

/-! ## Induction over a replay -/

/-- What is planned for prefilling owns cache, and does not decode yet. -/
structure Filling (scheduler : Scheduler) (id : RequestId) : Prop where
  owned : id ∈ scheduler.owners.map (·.requestId)
  open_prompt : ∀ request ∈ scheduler.owning, request.requestId = id → request.state ≠ .decode

/-- A planned chunk is one of a request that does not decode. -/
theorem filling_planned {scheduler : Scheduler} (distinct : scheduler.requestIds.Nodup)
    {id : RequestId} {chunk : ℕ} (planned : (id, chunk) ∈ scheduler.scheduleNext.1.chunks) :
    Filling scheduler.scheduleNext.2 id := by
  refine ⟨(scheduler.chunked_scheduleNext planned).2, fun request member named => ?_⟩
  obtain ⟨-, owner, inside, same, state, -⟩ :=
    (Scheduler.budgeted_scheduleNext distinct).chunks id chunk planned
  have distinct' : scheduler.scheduleNext.2.requestIds.Nodup :=
    (scheduler.identities_scheduleNext.map _).nodup_iff.mpr distinct
  rwa [Scheduler.owning_unique distinct' member inside (named.trans same.symm)]

/-- A chunk of another request leaves the prompt open. -/
theorem Filling.prefillOne {config : ReplayConfig} {state : PagedState} {id answered : RequestId}
    (filling : Filling state.scheduler id) (different : id ≠ answered) (chunk : ℕ) :
    Filling (prefillOne config answered chunk state).scheduler id := by
  rcases found : state.progress.lookup answered with _ | old
  · simpa only [PagedReplay.prefillOne, found] using filling
  · obtain ⟨owners, -⟩ := queues_prefillOne config answered chunk state
    obtain ⟨cache, scheduler⟩ := scheduler_prefillOne config chunk found
    refine ⟨owners ▸ filling.owned, fun request member named => ?_⟩
    rw [scheduler] at member
    rcases Scheduler.mem_owning_completeStep member with same | ⟨earlier, -, about, rfl⟩
    · exact filling.open_prompt request same named
    · rw [(Scheduler.identity_complete earlier chunk).1, about] at named
      exact absurd named.symm different

/-- What the parts of a step keep while the requests are listed. -/
structure StepKeeps (trace : Trace) (requests : List TraceRequest) (config : ReplayConfig)
    (motive : PagedState → Prop) : Prop where
  plans : ∀ state, Listed requests config state → motive state →
    motive (call .scheduleNext (begin state))
  prefills : ∀ state id chunk, Listed requests config state → Filling state.scheduler id →
    motive state → motive (prefillOne config id chunk state)
  decodes : ∀ plan state id, Listed requests config state → Due state.scheduler id →
    motive state → motive (decodeOne config plan id state)
  settles : ∀ state, Listed requests config state → motive state → motive (settle state)
  accounts : ∀ plan state, Listed requests config state → motive state →
    motive (account trace config plan state)

theorem StepKeeps.prefillLoop {trace : Trace} {requests : List TraceRequest}
    {config : ReplayConfig} {motive : PagedState → Prop}
    (keeps : StepKeeps trace requests config motive) (chunks : List (RequestId × ℕ))
    {state : PagedState} (listed : Listed requests config state) (holds : motive state)
    (single : (chunks.map Prod.fst).Nodup)
    (filling : ∀ id chunk, (id, chunk) ∈ chunks → Filling state.scheduler id) :
    Listed requests config (prefillLoop config chunks state) ∧
      motive (prefillLoop config chunks state) ∧
      (prefillLoop config chunks state).scheduler.owners = state.scheduler.owners ∧
      (prefillLoop config chunks state).scheduler.pending = state.scheduler.pending := by
  induction chunks generalizing state with
  | nil => exact ⟨listed, holds, rfl, rfl⟩
  | cons planned rest induction =>
      obtain ⟨id, chunk⟩ := planned
      obtain ⟨owners, pending, -, -⟩ := queues_prefillOne config id chunk state
      obtain ⟨fresh, single'⟩ := List.nodup_cons.mp single
      obtain ⟨listed', holds', owners', pending'⟩ :=
        induction (listed_prefillOne listed id chunk)
          (keeps.prefills state id chunk listed (filling id chunk List.mem_cons_self) holds) single'
          fun other chunk' member => by
            refine (filling other chunk' (List.mem_cons_of_mem _ member)).prefillOne ?_ chunk
            rintro rfl
            exact fresh (List.mem_map.mpr ⟨(other, chunk'), member, rfl⟩)
      exact ⟨listed', holds', owners'.trans owners, pending'.trans pending⟩

theorem StepKeeps.decodeLoop {trace : Trace} {requests : List TraceRequest}
    {config : ReplayConfig} {motive : PagedState → Prop}
    (keeps : StepKeeps trace requests config motive) (plan : BatchPlan) (ids : List RequestId)
    {state : PagedState} (listed : Listed requests config state) (holds : motive state)
    (single : ids.Nodup) (due : ∀ id ∈ ids, Due state.scheduler id) :
    Listed requests config (decodeLoop config plan ids state) ∧
      motive (decodeLoop config plan ids state) := by
  induction ids generalizing state with
  | nil => exact ⟨listed, holds⟩
  | cons id rest induction =>
      obtain ⟨fresh, single'⟩ := List.nodup_cons.mp single
      have now := due id List.mem_cons_self
      refine induction (listed_decodeOne plan listed now.1)
        (keeps.decodes plan state id listed now holds) single' fun other member => ?_
      exact (due other (List.mem_cons_of_mem _ member)).decode
        (runs_decodeOne config plan id state) listed.distinct fun same => fresh (same ▸ member)

/-- A planned decode step is due when the chunks of the plan are done. -/
theorem due_planned {state after : PagedState} (distinct : state.scheduler.requestIds.Nodup)
    (owners : after.scheduler.owners = state.scheduler.scheduleNext.2.owners)
    (pending : after.scheduler.pending = state.scheduler.scheduleNext.2.pending)
    {id : RequestId} (planned : id ∈ state.scheduler.scheduleNext.1.decodeRequests) :
    Due after.scheduler id := by
  have distinct' : state.scheduler.scheduleNext.2.requestIds.Nodup :=
    (state.scheduler.identities_scheduleNext.map _).nodup_iff.mpr distinct
  obtain ⟨request, active, rfl, -⟩ := state.scheduler.decoding_planned planned
  have owned := List.mem_append_left state.scheduler.scheduleNext.2.preempted active
  have same : after.scheduler.requestIds = state.scheduler.scheduleNext.2.requestIds := by
    rw [Scheduler.requestIds, Scheduler.identities, owners, pending]
    rfl
  constructor
  · rw [same, Scheduler.requestIds_eq]
    exact List.mem_append_right _ (List.mem_map_of_mem owned)
  · rw [pending]
    intro inside
    obtain ⟨waiting, queued, named⟩ := List.mem_map.mp inside
    exact Scheduler.waiting_not_owning distinct' queued owned named

theorem StepKeeps.oneStep {trace : Trace} {requests : List TraceRequest} {config : ReplayConfig}
    {motive : PagedState → Prop} (keeps : StepKeeps trace requests config motive)
    {state : PagedState} (listed : Listed requests config state) (holds : motive state) :
    Listed requests config (oneStep trace config state) ∧ motive (oneStep trace config state) := by
  have budgeted := Scheduler.budgeted_scheduleNext listed.distinct
  have single : (state.scheduler.scheduleNext.1.chunks.map Prod.fst).Nodup := by
    rw [BatchPlan.chunks, List.map_fst_zip budgeted.lengths.le]
    exact budgeted.names.of_append_left
  obtain ⟨filled, filling, owners, pending⟩ := keeps.prefillLoop
    state.scheduler.scheduleNext.1.chunks (listed_scheduleNext listed)
    (keeps.plans state listed holds) single fun id chunk member =>
      filling_planned listed.distinct member
  obtain ⟨decoded, decoding⟩ := keeps.decodeLoop state.scheduler.scheduleNext.1
    state.scheduler.scheduleNext.1.decodeRequests filled filling
    budgeted.names.of_append_right
    fun id member => due_planned listed.distinct owners pending member
  have settled := listed_settle decoded
  exact ⟨settled.still rfl (.refl _) (.refl _),
    keeps.accounts _ _ settled (keeps.settles _ decoded decoding)⟩

/-! ## The first state -/

/-- A request enters the books and the queues under an id that is not taken. -/
theorem listed_enroll {requests : List TraceRequest} {config : ReplayConfig}
    {state : PagedState} (listed : Listed requests config state) {request : TraceRequest}
    (fresh : request.requestId ∉ requests.map (·.requestId)) :
    Listed (requests ++ [request]) config (enroll config state request) := by
  have entering := (state.scheduler.identities_enqueue (scheduledRequest config request)).map
    (·.requestId)
  rw [List.map_append, List.map_singleton] at entering
  change (enroll config state request).scheduler.requestIds.Perm
    (state.scheduler.requestIds ++ [request.requestId]) at entering
  have unqueued : request.requestId ∉ state.scheduler.requestIds := by
    intro member
    obtain ⟨entry, found, -, -⟩ := listed.found member
    obtain ⟨asked, named⟩ := listed.traced _ entry found
    exact fresh (List.mem_map.mpr ⟨entry.request, asked, named⟩)
  have member (id : RequestId) : id ∈ (enroll config state request).scheduler.requestIds ↔
      id ∈ state.scheduler.requestIds ∨ id = request.requestId := by
    rw [entering.mem_iff, List.mem_append, List.mem_singleton]
  constructor
  case distinct =>
    rw [entering.nodup_iff, List.nodup_append]
    refine ⟨listed.distinct, List.nodup_singleton _, fun id inside other single same => ?_⟩
    rw [List.mem_singleton.mp single] at same
    exact unqueued (same ▸ inside)
  case entered =>
    intro asked inside
    rcases List.mem_append.mp inside with old | new
    · obtain ⟨entry, found, same⟩ := listed.entered asked old
      have different : asked.requestId ≠ request.requestId := fun clash =>
        fresh (clash ▸ List.mem_map_of_mem old)
      exact ⟨entry, (AList.lookup_insert_ne different).trans found, same⟩
    · rw [List.mem_singleton.mp new]
      exact ⟨_, AList.lookup_insert _, rfl⟩
  case traced =>
    intro id entry found
    obtain ⟨rfl, rfl⟩ | ⟨-, old⟩ := AList.lookup_insert_cases found
    · exact ⟨List.mem_append_right _ List.mem_cons_self, rfl⟩
    · obtain ⟨asked, named⟩ := listed.traced id entry old
      exact ⟨List.mem_append_left _ asked, named⟩
  case unfinished =>
    intro id entry found
    rw [member]
    obtain ⟨rfl, rfl⟩ | ⟨different, old⟩ := AList.lookup_insert_cases found
    · exact iff_of_true rfl (Or.inr rfl)
    · rw [or_iff_left different]
      exact listed.unfinished id entry old
  case enlisted =>
    intro asked inside
    simp only [Scheduler.queued, List.mem_append] at inside
    rcases inside with waiting | owned
    · rcases List.mem_append.mp waiting with old | new
      · obtain ⟨traced, listed', same⟩ := listed.enlisted asked (List.mem_append_left _ old)
        exact ⟨traced, List.mem_append_left _ listed', same⟩
      · rw [List.mem_singleton.mp new]
        exact ⟨request, List.mem_append_right _ List.mem_cons_self, rfl⟩
    · obtain ⟨traced, listed', same⟩ := listed.enlisted asked (List.mem_append_right _ owned)
      exact ⟨traced, List.mem_append_left _ listed', same⟩

/-- The state before any request is enrolled. -/
def blank (trace : Trace) (config : ReplayConfig) (slab : ℕ → UInt8) : PagedState where
  scheduler := freshScheduler trace config slab
  progress := ∅
  nextForkSequence := 1
  waiting := trace.requests.length
  completed := 0
  live := []
  preemptedIds := []
  noProgressSteps := 0
  progressMade := false
  growthFailed := false
  metrics := .start "paged"
  calls := []

theorem listed_blank (trace : Trace) (config : ReplayConfig) (slab : ℕ → UInt8) :
    Listed [] config (blank trace config slab) := by
  constructor
  case distinct => exact List.nodup_nil
  case entered => exact fun request member => absurd member List.not_mem_nil
  case traced =>
    intro id entry found
    exact absurd found (by simp [blank])
  case unfinished =>
    intro id entry found
    exact absurd found (by simp [blank])
  case enlisted => exact fun request member => absurd member List.not_mem_nil

/-- What enrolling keeps holds of the first state. -/
theorem initial_induction {trace : Trace} {config : ReplayConfig} {slab : ℕ → UInt8}
    (distinct : (trace.requests.map (·.requestId)).Nodup)
    {motive : List TraceRequest → PagedState → Prop}
    (empty : motive [] (blank trace config slab))
    (enrolls : ∀ requests request state, Listed requests config state →
      request.requestId ∉ requests.map (·.requestId) → motive requests state →
      motive (requests ++ [request]) (enroll config state request)) :
    Listed trace.requests config (initial trace config slab) ∧
      motive trace.requests (initial trace config slab) := by
  have whole (rest : List TraceRequest) : ∀ (done : List TraceRequest) (state : PagedState),
      ((done ++ rest).map (·.requestId)).Nodup → Listed done config state → motive done state →
      Listed (done ++ rest) config (rest.foldl (enroll config) state) ∧
        motive (done ++ rest) (rest.foldl (enroll config) state) := by
    induction rest with
    | nil =>
        intro done state _ listed holds
        rw [List.append_nil]
        exact ⟨listed, holds⟩
    | cons request rest induction =>
        intro done state single listed holds
        have fresh : request.requestId ∉ done.map (·.requestId) := by
          rw [List.map_append, List.map_cons, List.nodup_append] at single
          exact fun member => single.2.2 _ member _ List.mem_cons_self rfl
        have next := induction (done ++ [request]) (enroll config state request)
          (by simpa using single) (listed_enroll listed fresh)
          (enrolls done request state listed fresh holds)
        simpa using next
  exact whole trace.requests [] (blank trace config slab) distinct (listed_blank _ _ _) empty

/-- An invariant of enrolling and of the parts of a step holds in every reached state of a trace
with distinct ids. -/
theorem reached_induction {trace : Trace} {config : ReplayConfig} {slab : ℕ → UInt8}
    {guard : PagedState → Prop} {state : PagedState}
    (distinct : (trace.requests.map (·.requestId)).Nodup)
    (reached : Reached trace config slab guard state) {motive : PagedState → Prop}
    (start : motive (initial trace config slab))
    (keeps : StepKeeps trace trace.requests config motive) :
    Listed trace.requests config state ∧ motive state := by
  induction reached with
  | start =>
      exact ⟨(initial_induction distinct (motive := fun _ _ => True) trivial
        fun _ _ _ _ _ _ => trivial).1, start⟩
  | step reached going guarded induction => exact keeps.oneStep induction.1 induction.2

end PagedReplay
end QwenVLPaged
