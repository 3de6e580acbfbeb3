import QwenVLPaged.PlanBudget
import QwenVLPaged.RootSizes

/-!
# Snug sequences

A driver writes tokens for the requests of a scheduler. `Snug` says that the sequences of a request
map no block beyond the one that holds the last token written or still to be prefilled. It is kept
by the calls of the scheduler, also when several requests carry one id: a request is admitted only
while no root of its id is open, so all requests of an id but one wait. Ids that were cancelled are
closed, and nothing is said about them.
-/

namespace QwenVLPaged

namespace Scheduler

open KVCacheManager (SameOutline Plain Gauged)

/-- Blocks are bounded by what was written for a request and what is left of its prompt. -/
structure Snug (tokensPerBlock : ℕ) (written : RequestId → ℕ) (closed : RequestId → Prop)
    (scheduler : Scheduler) : Prop where
  plain : scheduler.cache.Plain tokensPerBlock
  gauged : scheduler.cache.Gauged tokensPerBlock
  named : ∀ request ∈ scheduler.pending ++ scheduler.owning,
    request.rootSequenceId = request.requestId
  waiting : ∀ request ∈ scheduler.pending, request.remainingPrefillTokens = request.promptTokens
  decoded : ∀ request ∈ scheduler.active, request.state ≠ .prefill →
    request.remainingPrefillTokens = 0
  single : ∀ id, ¬ closed id → (scheduler.owners.map (·.requestId)).count id ≤ 1
  rooted : ∀ request ∈ scheduler.owning, ¬ closed request.requestId →
    ∃ sizes, scheduler.cache.outline request.requestId = some (request.requestId, sizes)
  whole : ∀ id owner sizes, scheduler.cache.outline id = some (owner, sizes) → ¬ closed owner →
    ∃ sizes', scheduler.cache.outline owner = some (owner, sizes')
  flat : ∀ id owner sizes, scheduler.cache.outline id = some (owner, sizes) →
    ∃ size, sizes = [size]
  snug : ∀ id owner size, scheduler.cache.outline id = some (owner, [size]) → ¬ closed owner →
    ∀ request ∈ scheduler.owning, request.requestId = owner →
      size * tokensPerBlock ≤
        written owner + request.remainingPrefillTokens + (tokensPerBlock - 1)

theorem Snug.mono {tokensPerBlock : ℕ} {written written' : RequestId → ℕ}
    {closed closed' : RequestId → Prop} {scheduler : Scheduler}
    (snug : Snug tokensPerBlock written closed scheduler)
    (more : ∀ id, ¬ closed' id → written id ≤ written' id) (fewer : ∀ id, closed id → closed' id) :
    Snug tokensPerBlock written' closed' scheduler where
  __ := snug
  single id free := snug.single id fun old => free (fewer id old)
  rooted request member free := snug.rooted request member fun old => free (fewer _ old)
  whole id owner sizes held free := snug.whole id owner sizes held fun old => free (fewer _ old)
  snug id owner size held free request member same := by
    have bound := snug.snug id owner size held (fun old => free (fewer _ old)) request member same
    have grown := more owner free
    omega

/-- Requests of one queue reappear in the other with a new state only. -/
def Relabelled (before after : Scheduler) : Prop :=
  ∀ request ∈ after.owning, ∃ earlier ∈ before.owning, ∃ state,
    request = { earlier with state }

theorem relabelled_preempt (scheduler : Scheduler) (requestId : RequestId) (reason : String) :
    Relabelled scheduler (scheduler.preempt requestId reason).2 := by
  obtain same | ⟨request, cache, info, held, found, same⟩ :=
    scheduler.preempt_cases requestId reason
  · rw [same]
    exact fun request member => ⟨request, member, _, rfl⟩
  · rw [same]
    intro other member
    simp only [owning, List.mem_append, List.mem_singleton] at member
    rcases member with kept | parked | rfl
    · exact ⟨other, List.mem_append_left _ (mem_eraseRequest kept), _, rfl⟩
    · exact ⟨other, List.mem_append_right _ parked, _, rfl⟩
    · exact ⟨request, List.mem_append_left _ (mem_of_findRequest found), _, rfl⟩

theorem relabelled_resume (scheduler : Scheduler) (requestId : RequestId) :
    Relabelled scheduler (scheduler.resume requestId).2 := by
  obtain ⟨cache, same⟩ | ⟨request, cache, state, found, -, -, same⟩ :=
    scheduler.resume_cases requestId
  · rw [same]
    exact fun request member => ⟨request, member, _, rfl⟩
  · rw [same]
    intro other member
    simp only [owning, List.mem_append, List.mem_singleton] at member
    rcases member with (old | rfl) | kept
    · exact ⟨other, List.mem_append_left _ old, _, rfl⟩
    · exact ⟨request, List.mem_append_right _ (mem_of_findRequest found), _, rfl⟩
    · exact ⟨other, List.mem_append_right _ (mem_eraseRequest kept), _, rfl⟩

/-- Moving requests between the owning queues keeps the bound while no sequence grows. -/
theorem Snug.relabel {tokensPerBlock : ℕ} {written : RequestId → ℕ}
    {closed : RequestId → Prop} {before after : Scheduler}
    (snug : Snug tokensPerBlock written closed before)
    (pending : after.pending = before.pending) (relabelled : Relabelled before after)
    (owners : after.owners.Perm before.owners)
    (decoded : ∀ request ∈ after.active, request.state ≠ .prefill →
      request.remainingPrefillTokens = 0)
    (outline : SameOutline before.cache after.cache)
    (plain : after.cache.Plain tokensPerBlock) (gauged : after.cache.Gauged tokensPerBlock) :
    Snug tokensPerBlock written closed after where
  plain := plain
  gauged := gauged
  named request member := by
    rcases List.mem_append.mp member with early | late
    · exact snug.named request (List.mem_append_left _ (pending ▸ early))
    · obtain ⟨earlier, inside, _, rfl⟩ := relabelled request late
      exact snug.named earlier (List.mem_append_right _ inside)
  waiting request member := snug.waiting request (pending ▸ member)
  decoded := decoded
  single id free := (((owners.map (·.requestId)).count_eq id).trans_le (snug.single id free))
  rooted request member free := by
    obtain ⟨earlier, inside, _, rfl⟩ := relabelled request member
    rw [outline]
    exact snug.rooted earlier inside free
  whole id owner sizes held free := by
    rw [outline] at held ⊢
    exact snug.whole id owner sizes held free
  flat id owner sizes held := snug.flat id owner sizes (outline id ▸ held)
  snug id owner size held free request member same := by
    obtain ⟨earlier, inside, _, rfl⟩ := relabelled request member
    exact snug.snug id owner size (outline id ▸ held) free earlier inside same

/-- Only the cache changed, and no sequence did. -/
theorem Snug.recache {tokensPerBlock : ℕ} {written : RequestId → ℕ}
    {closed : RequestId → Prop} {scheduler : Scheduler} {cache : KVCacheManager}
    (snug : Snug tokensPerBlock written closed scheduler)
    (outline : SameOutline scheduler.cache cache) (plain : cache.Plain tokensPerBlock)
    (gauged : cache.Gauged tokensPerBlock) :
    Snug tokensPerBlock written closed { scheduler with cache } :=
  snug.relabel rfl (fun request member => ⟨request, member, _, rfl⟩) (.refl _) snug.decoded
    outline plain gauged

/-! ## The calls of the scheduler -/

theorem outline_preempt (scheduler : Scheduler) (requestId : RequestId) (reason : String) :
    SameOutline scheduler.cache (scheduler.preempt requestId reason).2.cache := by
  unfold preempt
  split
  · exact fun _ => rfl
  · exact KVCacheManager.sameOutline_swapOutRequest _ _

theorem outline_resume (scheduler : Scheduler) (requestId : RequestId) :
    SameOutline scheduler.cache (scheduler.resume requestId).2.cache := by
  unfold resume
  split
  · exact fun _ => rfl
  · rename_i request _
    have restored := scheduler.cache.sameOutline_swapInRequest request.requestId
    split
    · rename_i cache failed
      rwa [failed] at restored
    · rename_i cache success
      rwa [success] at restored

theorem snug_preempt {tokensPerBlock : ℕ} {written : RequestId → ℕ}
    {closed : RequestId → Prop} {scheduler : Scheduler}
    (snug : Snug tokensPerBlock written closed scheduler) (requestId : RequestId)
    (reason : String) :
    Snug tokensPerBlock written closed (scheduler.preempt requestId reason).2 := by
  refine snug.relabel (reclaimed_preempt scheduler requestId reason).pending
    (scheduler.relabelled_preempt requestId reason) (scheduler.owners_preempt requestId reason)
    ?_ (scheduler.outline_preempt requestId reason) (cache_preempt (fun _ op _ => KVCacheManager.plain_step op) snug.plain requestId reason)
    (cache_preempt (fun _ op => KVCacheManager.gauged_step op) snug.gauged requestId reason)
  intro request member
  apply snug.decoded request
  unfold preempt at member
  split at member
  · exact member
  · exact mem_eraseRequest member

theorem snug_resume {tokensPerBlock : ℕ} {written : RequestId → ℕ}
    {closed : RequestId → Prop} {scheduler : Scheduler}
    (snug : Snug tokensPerBlock written closed scheduler) (requestId : RequestId) :
    Snug tokensPerBlock written closed (scheduler.resume requestId).2 := by
  have own (called : CacheOp) (equal : SchedulerOp.resume requestId = .cache called) : False := by
    cases equal
  refine snug.relabel (pending_resume scheduler requestId).1 (scheduler.relabelled_resume requestId)
    (scheduler.owners_resume requestId) ?_ (scheduler.outline_resume requestId)
    (cache_step (fun _ op _ => KVCacheManager.plain_step op) snug.plain
      fun called equal => (own called equal).elim)
    (cache_step (fun _ op => KVCacheManager.gauged_step op) snug.gauged
      fun called equal => (own called equal).elim)
  intro request member decoding
  obtain ⟨cache, same⟩ | ⟨parked, cache, state, -, -, state_eq, same⟩ :=
    scheduler.resume_cases requestId
  · rw [same] at member
    exact snug.decoded request member decoding
  · rw [same] at member
    rcases List.mem_append.mp member with old | new
    · exact snug.decoded request old decoding
    · obtain rfl := List.mem_singleton.mp new
      simp only [state_eq] at decoding
      split at decoding
      · exact (decoding rfl).elim
      · exact Nat.eq_zero_of_not_pos ‹_›

theorem mem_owning_admitAt {scheduler : Scheduler} {position : ℕ} {candidate request : Request}
    {cache : KVCacheManager}
    (member : request ∈ (scheduler.admitAt position candidate cache).owning) :
    request ∈ scheduler.owning ∨
      request = admittedRequest candidate (lifetimeBlocksFor scheduler.cache candidate) := by
  simp only [owning, admitAt, List.mem_append, List.mem_singleton] at member ⊢
  tauto

/-- An admitted request is the only one of its id: its root was not open. -/
theorem snug_accept {tokensPerBlock : ℕ} {written : RequestId → ℕ}
    {closed : RequestId → Prop} {scheduler : Scheduler} {position : ℕ} {candidate : Request}
    {cache : KVCacheManager} (snug : Snug tokensPerBlock written closed scheduler)
    (waiting : scheduler.pending[position]? = some candidate)
    (opened : openRoot scheduler.cache candidate = (true, cache)) :
    Snug tokensPerBlock written closed (scheduler.admitAt position candidate cache) := by
  have queued := List.mem_of_getElem? waiting
  have root := snug.named candidate (List.mem_append_left _ queued)
  have remaining : (admittedRequest candidate
      (lifetimeBlocksFor scheduler.cache candidate)).remainingPrefillTokens =
        candidate.promptTokens := by
    have fresh := snug.waiting candidate queued
    simp only [admittedRequest]
    split <;> omega
  obtain ⟨absent, size, outline, small⟩ :
      scheduler.cache.outline candidate.requestId = none ∧ ∃ size,
        KVCacheManager.OpenedWith scheduler.cache cache candidate.requestId candidate.requestId
          size ∧ size * tokensPerBlock ≤ candidate.promptTokens + (tokensPerBlock - 1) := by
    rcases openRoot_outline snug.plain snug.gauged candidate with
      same | ⟨absent, ⟨after, size, run_eq, outline, small⟩ | ⟨after, refused, -⟩⟩
    · simp [same] at opened
    · obtain rfl : after = cache := congrArg Prod.snd (run_eq.symm.trans opened)
      rw [root] at absent outline
      exact ⟨absent, size, outline, small⟩
    · simp [refused] at opened
  have alone (request : Request) (member : request ∈ scheduler.owning)
      (free : ¬ closed request.requestId) : request.requestId ≠ candidate.requestId := by
    intro same
    obtain ⟨sizes, held⟩ := snug.rooted request member free
    simp [same, absent] at held
  have still {id : SequenceId} {entry : RequestId × List ℕ}
      (held : scheduler.cache.outline id = some entry) : cache.outline id = some entry := by
    have different : id ≠ candidate.requestId := by
      rintro rfl
      simp [absent] at held
    rw [outline, if_neg different, held]
  have plain := openRoot_induction (fun _ op _ => KVCacheManager.plain_step op) snug.plain candidate
  have gauged := openRoot_induction (fun _ op => KVCacheManager.gauged_step op) snug.gauged
    candidate
  rw [opened] at plain gauged
  constructor
  case plain => exact plain
  case gauged => exact gauged
  case named =>
    intro request member
    rcases List.mem_append.mp member with early | late
    · obtain ⟨earlier, inside, skips, rfl⟩ := mem_skipBefore early
      exact snug.named earlier (List.mem_append_left _ inside)
    · rcases mem_owning_admitAt late with old | rfl
      · exact snug.named request (List.mem_append_right _ old)
      · exact root
  case waiting =>
    intro request member
    obtain ⟨earlier, inside, skips, rfl⟩ := mem_skipBefore member
    exact snug.waiting earlier inside
  case decoded =>
    intro request member decoding
    rcases List.mem_append.mp member with old | new
    · exact snug.decoded request old decoding
    · obtain rfl := List.mem_singleton.mp new
      exact (decoding rfl).elim
  case single =>
    intro id free
    rw [((scheduler.owners_admitAt position candidate cache).map (·.requestId)).count_eq id,
      List.map_cons]
    change (candidate.requestId :: scheduler.owners.map (·.requestId)).count id ≤ 1
    by_cases same : candidate.requestId = id
    · have none_left : (scheduler.owners.map (·.requestId)).count id = 0 := by
        rw [List.count_eq_zero]
        intro member
        obtain ⟨identity, inside, named⟩ := List.mem_map.mp member
        obtain ⟨request, owned, rfl⟩ := List.mem_map.mp inside
        exact alone request owned (by rw [show request.requestId = id from named]; exact free)
          (named.trans same.symm)
      rw [List.count_cons, none_left]
      split <;> omega
    · rw [List.count_cons_of_ne same]
      exact snug.single id free
  case rooted =>
    intro request member free
    rcases mem_owning_admitAt member with old | rfl
    · obtain ⟨sizes, held⟩ := snug.rooted request old free
      exact ⟨sizes, still held⟩
    · exact ⟨[size], outline.held⟩
  case whole =>
    intro id owner sizes held free
    change cache.outline id = _ at held
    rw [outline] at held
    split at held
    · obtain ⟨rfl, -⟩ := Prod.mk.inj (Option.some.inj held)
      exact ⟨[size], outline.held⟩
    · obtain ⟨sizes', root_held⟩ := snug.whole id owner sizes held free
      exact ⟨sizes', still root_held⟩
  case flat =>
    intro id owner sizes held
    change cache.outline id = _ at held
    rw [outline] at held
    split at held
    · exact ⟨size, (Prod.mk.inj (Option.some.inj held)).2.symm⟩
    · exact snug.flat id owner sizes held
  case snug =>
    intro id owner size' held free request member same
    change cache.outline id = _ at held
    rw [outline] at held
    split at held
    · obtain ⟨rfl, sizes⟩ := Prod.mk.inj (Option.some.inj held)
      obtain rfl : size = size' := by simpa using sizes
      rcases mem_owning_admitAt member with old | rfl
      · exact (alone request old (same ▸ free) same).elim
      · rw [remaining]
        omega
    · rcases mem_owning_admitAt member with old | rfl
      · exact snug.snug id owner size' held free request old same
      · -- A stray sequence of the id would have had an open root.
        obtain ⟨sizes, stray⟩ := snug.whole id owner [size'] held free
        rw [← same] at stray
        exact absurd (stray.symm.trans absent) (by simp)

/-- A refused candidate takes away sequences only if the root of its id was not open. -/
theorem snug_refuse {tokensPerBlock : ℕ} {written : RequestId → ℕ}
    {closed : RequestId → Prop} {scheduler : Scheduler} {candidate : Request}
    {cache : KVCacheManager} (snug : Snug tokensPerBlock written closed scheduler)
    (waiting : candidate ∈ scheduler.pending)
    (refused : openRoot scheduler.cache candidate = (false, cache)) :
    Snug tokensPerBlock written closed { scheduler with cache } := by
  have root := snug.named candidate (List.mem_append_left _ waiting)
  have plain := openRoot_induction (fun _ op _ => KVCacheManager.plain_step op) snug.plain candidate
  have gauged := openRoot_induction (fun _ op => KVCacheManager.gauged_step op) snug.gauged
    candidate
  rw [refused] at plain gauged
  rcases openRoot_outline snug.plain snug.gauged candidate with
    same | ⟨absent, ⟨after, size, run_eq, -⟩ | ⟨after, run_eq, outline⟩⟩
  · obtain rfl : scheduler.cache = cache := congrArg Prod.snd (same.symm.trans refused)
    exact snug
  · simp [run_eq] at refused
  · obtain rfl : after = cache := congrArg Prod.snd (run_eq.symm.trans refused)
    rw [root] at absent
    have kept {id : SequenceId} {owner : RequestId} {sizes : List ℕ}
        (held : after.outline id = some (owner, sizes)) :
        scheduler.cache.outline id = some (owner, sizes) := by
      rw [outline, Option.filter_eq_some_iff] at held
      exact held.1
    have stays {id : RequestId} {sizes : List ℕ}
        (held : scheduler.cache.outline id = some (id, sizes)) :
        after.outline id = some (id, sizes) := by
      have different : id ≠ candidate.requestId := by
        rintro rfl
        simp [absent] at held
      rw [outline, held, Option.filter_some]
      simp [different]
    constructor
    case plain => exact plain
    case gauged => exact gauged
    case named => exact snug.named
    case waiting => exact snug.waiting
    case decoded => exact snug.decoded
    case single => exact snug.single
    case rooted =>
      intro request member free
      obtain ⟨sizes, held⟩ := snug.rooted request member free
      exact ⟨sizes, stays held⟩
    case whole =>
      intro id owner sizes held free
      obtain ⟨sizes', root_held⟩ := snug.whole id owner sizes (kept held) free
      exact ⟨sizes', stays root_held⟩
    case flat => exact fun id owner sizes held => snug.flat id owner sizes (kept held)
    case snug =>
      exact fun id owner size held => snug.snug id owner size (kept held)

theorem snug_action {tokensPerBlock : ℕ} {written : RequestId → ℕ} {closed : RequestId → Prop}
    {scheduler after : Scheduler} {plan planned : BatchPlan}
    (action : AdmissionStep (scheduler, plan) (after, planned))
    (snug : Snug tokensPerBlock written closed scheduler) :
    Snug tokensPerBlock written closed after := by
  cases action with
  | reclaim => exact snug_preempt snug _ _
  | refuse waiting refused => exact snug_refuse snug waiting refused
  | accept waiting fits => exact snug_accept snug waiting fits.opened

theorem snug_scheduleNext {tokensPerBlock : ℕ} {written : RequestId → ℕ}
    {closed : RequestId → Prop} {scheduler : Scheduler}
    (snug : Snug tokensPerBlock written closed scheduler) :
    Snug tokensPerBlock written closed scheduler.scheduleNext.2 :=
  scheduleNext_induction (motive := fun after _ => Snug tokensPerBlock written closed after)
    (fun _ _ _ _ action => snug_action action) snug

theorem snug_enqueue {tokensPerBlock : ℕ} {written : RequestId → ℕ} {closed : RequestId → Prop}
    {scheduler : Scheduler} (snug : Snug tokensPerBlock written closed scheduler)
    {request : Request} (root : request.rootSequenceId = request.requestId) :
    Snug tokensPerBlock written closed (scheduler.enqueue request) where
  __ := snug
  named other member := by
    rcases List.mem_append.mp member with early | late
    · rcases List.mem_append.mp early with old | new
      · exact snug.named other (List.mem_append_left _ old)
      · rw [List.mem_singleton.mp new]
        exact root
    · exact snug.named other (List.mem_append_right _ late)
  waiting other member := by
    rcases List.mem_append.mp member with old | new
    · exact snug.waiting other old
    · rw [List.mem_singleton.mp new]
      rfl

theorem remaining_complete_le (request : Request) (producedTokens : ℕ) :
    request.remainingPrefillTokens ≤
      (request.complete producedTokens).remainingPrefillTokens + producedTokens := by
  simp only [Request.complete]
  split
  · split <;> dsimp only <;> omega
  · omega

theorem identity_complete (request : Request) (producedTokens : ℕ) :
    (request.complete producedTokens).requestId = request.requestId ∧
      (request.complete producedTokens).rootSequenceId = request.rootSequenceId := by
  simp only [Request.complete]
  repeat' split
  all_goals exact ⟨rfl, rfl⟩

/-- The owning requests after a completed step: the answered one counts down by at most what was
produced. -/
theorem mem_owning_completeStep {scheduler : Scheduler} {requestId : RequestId}
    {producedTokens : ℕ} {request : Request}
    (member : request ∈ (scheduler.completeStep requestId producedTokens).owning) :
    request ∈ scheduler.owning ∨ ∃ earlier ∈ scheduler.owning, earlier.requestId = requestId ∧
      request = earlier.complete producedTokens := by
  obtain ⟨-, same⟩ | ⟨earlier, front, back, found, named, queue, run_eq⟩ :=
    scheduler.completeStep_cases requestId producedTokens
  · rw [same] at member
    exact Or.inl member
  · rw [run_eq] at member
    simp only [owning, queue, List.mem_append, List.mem_cons] at member ⊢
    rcases member with (early | rfl | late) | parked
    · tauto
    · exact Or.inr ⟨earlier, by tauto, named, rfl⟩
    · tauto
    · tauto

/-- What is produced is counted as written, unless nothing was left of the prompt. -/
theorem snug_completeStep {tokensPerBlock : ℕ} {written written' : RequestId → ℕ}
    {closed : RequestId → Prop} {scheduler : Scheduler} {requestId : RequestId}
    {producedTokens : ℕ} (snug : Snug tokensPerBlock written closed scheduler)
    (more : ∀ id, ¬ closed id → written id ≤ written' id)
    (counted : ¬ closed requestId → written requestId + producedTokens ≤ written' requestId ∨
      ∀ request ∈ scheduler.owning, request.requestId = requestId →
        request.remainingPrefillTokens = 0) :
    Snug tokensPerBlock written' closed (scheduler.completeStep requestId producedTokens) where
  plain := snug.plain
  gauged := snug.gauged
  named request member := by
    rcases List.mem_append.mp member with early | late
    · exact snug.named request (List.mem_append_left _ early)
    · rcases mem_owning_completeStep late with old | ⟨earlier, old, -, rfl⟩
      · exact snug.named request (List.mem_append_right _ old)
      · obtain ⟨name, root⟩ := identity_complete earlier producedTokens
        rw [name, root]
        exact snug.named earlier (List.mem_append_right _ old)
  waiting := snug.waiting
  decoded request member decoding := by
    obtain ⟨earlier, old, rfl | rfl⟩ := mem_completeStep member
    · exact snug.decoded _ old decoding
    · simp only [Request.complete] at decoding ⊢
      split
      · split
        · rfl
        · simp_all
      · exact snug.decoded earlier old ‹_›
  single id free := by
    rw [owners_completeStep]
    exact snug.single id free
  rooted request member free := by
    rcases mem_owning_completeStep member with old | ⟨earlier, old, -, rfl⟩
    · exact snug.rooted request old free
    · rw [(identity_complete earlier producedTokens).1] at free ⊢
      exact snug.rooted earlier old free
  whole := snug.whole
  flat := snug.flat
  snug id owner size held free request member same := by
    have grown := more owner free
    rcases mem_owning_completeStep member with old | ⟨earlier, old, named, rfl⟩
    · have bound := snug.snug id owner size held free request old same
      omega
    · rw [(identity_complete earlier producedTokens).1] at same
      have bound := snug.snug id owner size held free earlier old same
      have left := remaining_complete_le earlier producedTokens
      rw [same] at named
      rcases counted (named ▸ free) with counted | finished
      · rw [← named] at counted
        omega
      · rw [finished earlier old (same.trans named)] at bound
        omega

theorem owners_cancel_sublist (scheduler : Scheduler) (requestId : RequestId) :
    (scheduler.cancel requestId).owners.Sublist scheduler.owners := by
  refine List.Sublist.map _ ?_
  unfold cancel
  repeat' split
  · exact List.Sublist.refl _
  · exact List.eraseP_sublist.append_right _
  · exact List.eraseP_sublist.append_left _
  · exact List.Sublist.refl _

/-- Cancelling changes nothing or takes away the sequences of the id. -/
theorem outline_cancel (scheduler : Scheduler) (requestId : RequestId)
    (listed : scheduler.cache.Listed) (id : SequenceId) :
    (scheduler.cancel requestId).cache.outline id = scheduler.cache.outline id ∨
      (scheduler.cancel requestId).cache.outline id =
        (scheduler.cache.outline id).filter fun held => held.1 != requestId := by
  have released (request : Request) (named : request.requestId = requestId) :
      (scheduler.cache.releaseRequest request.requestId).outline id =
        (scheduler.cache.outline id).filter fun held => held.1 != requestId := by
    rw [KVCacheManager.outline_releaseRequest listed, named]
  unfold cancel
  split
  · rename_i request found
    exact Or.inr (released request (findRequest_split found).choose_spec.choose_spec.2.2.1)
  · split
    · rename_i request found
      exact Or.inr (released request (findRequest_split found).choose_spec.choose_spec.2.2.1)
    · split
      · rename_i request found
        exact Or.inr (released request (findRequest_split found).choose_spec.choose_spec.2.2.1)
      · exact Or.inl rfl

theorem held_of_cancel {scheduler : Scheduler} (listed : scheduler.cache.Listed)
    {requestId owner : RequestId} {id : SequenceId} {sizes : List ℕ}
    (held : (scheduler.cancel requestId).cache.outline id = some (owner, sizes)) :
    scheduler.cache.outline id = some (owner, sizes) := by
  rcases scheduler.outline_cancel requestId listed id with same | filtered
  · rwa [same] at held
  · rw [filtered, Option.filter_eq_some_iff] at held
    exact held.1

/-- The sequences of the other ids stay. -/
theorem outline_cancel_of_ne {scheduler : Scheduler} (listed : scheduler.cache.Listed)
    {requestId owner : RequestId} {id : SequenceId} {sizes : List ℕ}
    (held : scheduler.cache.outline id = some (owner, sizes)) (different : owner ≠ requestId) :
    (scheduler.cancel requestId).cache.outline id = some (owner, sizes) := by
  rcases scheduler.outline_cancel requestId listed id with same | filtered
  · rw [same, held]
  · rw [filtered, held, Option.filter_some]
    simp [different]

/-- Cancelling closes an id and takes away its sequences. -/
theorem snug_cancel {tokensPerBlock : ℕ} {written : RequestId → ℕ}
    {closed closed' : RequestId → Prop} {scheduler : Scheduler} {requestId : RequestId}
    (snug : Snug tokensPerBlock written closed scheduler)
    (closing : ∀ id, closed' id ↔ closed id ∨ id = requestId) :
    Snug tokensPerBlock written closed' (scheduler.cancel requestId) := by
  have silent (called : CacheOp) (equal : SchedulerOp.cancel requestId = .cache called) : False := by
    cases equal
  have plain : (scheduler.cancel requestId).cache.Plain tokensPerBlock :=
    cache_step (fun _ op _ => KVCacheManager.plain_step op) snug.plain
      fun called equal => (silent called equal).elim
  have gauged : (scheduler.cancel requestId).cache.Gauged tokensPerBlock :=
    cache_step (fun _ op => KVCacheManager.gauged_step op) snug.gauged
      fun called equal => (silent called equal).elim
  have stays {id : RequestId} {sizes : List ℕ} (free : ¬ closed' id)
      (held : scheduler.cache.outline id = some (id, sizes)) :
      (scheduler.cancel requestId).cache.outline id = some (id, sizes) :=
    outline_cancel_of_ne snug.plain.listed held
      fun same => free ((closing id).mpr (Or.inr same))
  have before {id : RequestId} (free : ¬ closed' id) : ¬ closed id :=
    fun old => free ((closing id).mpr (Or.inl old))
  have members {request : Request} (member : request ∈ (scheduler.cancel requestId).owning) :
      request ∈ scheduler.owning := by
    rcases List.mem_append.mp member with active | parked
    · exact List.mem_append_left _ (mem_cancel.2.1 active)
    · exact List.mem_append_right _ (mem_cancel.2.2 parked)
  constructor
  case plain => exact plain
  case gauged => exact gauged
  case named =>
    intro request member
    rcases List.mem_append.mp member with early | late
    · exact snug.named request (List.mem_append_left _ (mem_cancel.1 early))
    · exact snug.named request (List.mem_append_right _ (members late))
  case waiting => exact fun request member => snug.waiting request (mem_cancel.1 member)
  case decoded => exact fun request member => snug.decoded request (mem_cancel.2.1 member)
  case single =>
    intro id free
    refine le_trans ?_ (snug.single id (before free))
    exact (scheduler.owners_cancel_sublist requestId).map _ |>.count_le id
  case rooted =>
    intro request member free
    obtain ⟨sizes, held⟩ := snug.rooted request (members member) (before free)
    exact ⟨sizes, stays free held⟩
  case whole =>
    intro id owner sizes held free
    obtain ⟨sizes', root_held⟩ := snug.whole id owner sizes (held_of_cancel snug.plain.listed held) (before free)
    exact ⟨sizes', stays free root_held⟩
  case flat => exact fun id owner sizes held => snug.flat id owner sizes (held_of_cancel snug.plain.listed held)
  case snug =>
    intro id owner size held free request member
    exact snug.snug id owner size (held_of_cancel snug.plain.listed held) (before free) request (members member)

/-! ## The calls of the cache -/

/-- A branch of a request maps what its root maps. -/
theorem snug_fork {tokensPerBlock : ℕ} {written : RequestId → ℕ} {closed : RequestId → Prop}
    {scheduler : Scheduler} (snug : Snug tokensPerBlock written closed scheduler)
    (child : SequenceMetadata)
    (root : ¬ closed child.requestId →
      ∃ sizes, scheduler.cache.outline child.requestId = some (child.requestId, sizes)) :
    Snug tokensPerBlock written closed
      (scheduler.step (.cache (.forkSequence child.requestId child))) := by
  have plain := KVCacheManager.plain_step (.forkSequence child.requestId child) snug.plain
  have gauged := KVCacheManager.gauged_step (.forkSequence child.requestId child) trivial
    snug.gauged
  rcases forked : scheduler.cache.forkSequence child.requestId child with ⟨_ | _, cache⟩
  · obtain rfl := KVCacheManager.forkSequence_refused forked
    simpa only [step, KVCacheManager.step, forked] using snug
  · simp only [step, KVCacheManager.step, forked] at plain gauged ⊢
    obtain ⟨owner, sizes, parent, absent, outline⟩ :=
      KVCacheManager.outline_forkSequence forked
    have old {id : SequenceId} {entry : RequestId × List ℕ}
        (held : scheduler.cache.outline id = some entry) : cache.outline id = some entry := by
      have different : id ≠ child.sequenceId := by
        rintro rfl
        simp [absent] at held
      rw [outline, if_neg different, held]
    constructor
    case plain => exact plain
    case gauged => exact gauged
    case named => exact snug.named
    case waiting => exact snug.waiting
    case decoded => exact snug.decoded
    case single => exact snug.single
    case rooted =>
      intro request member free
      obtain ⟨sizes, held⟩ := snug.rooted request member free
      exact ⟨sizes, old held⟩
    case whole =>
      intro id other sizes' held free
      rw [outline] at held
      split at held
      · obtain ⟨rfl, -⟩ := Prod.mk.inj (Option.some.inj held)
        obtain ⟨sizes, held⟩ := root free
        exact ⟨sizes, old held⟩
      · obtain ⟨sizes, held⟩ := snug.whole id other sizes' held free
        exact ⟨sizes, old held⟩
    case flat =>
      intro id other sizes' held
      rw [outline] at held
      split at held
      · obtain ⟨-, rfl⟩ := Prod.mk.inj (Option.some.inj held)
        exact snug.flat _ owner sizes parent
      · exact snug.flat id other sizes' held
    case snug =>
      intro id other size held free request member same
      rw [outline] at held
      split at held
      · obtain ⟨rfl, rfl⟩ := Prod.mk.inj (Option.some.inj held)
        obtain ⟨sizes, known⟩ := root free
        obtain ⟨rfl, -⟩ := Prod.mk.inj (Option.some.inj (parent.symm.trans known))
        exact snug.snug _ _ size parent free request member same
      · exact snug.snug id other size held free request member same

/-- One more block keeps the bound if the tokens written reach into it. -/
theorem snug_grow {tokensPerBlock : ℕ} {written : RequestId → ℕ} {closed : RequestId → Prop}
    {scheduler : Scheduler} (snug : Snug tokensPerBlock written closed scheduler)
    {id : SequenceId} {owner : RequestId} {size : ℕ}
    (held : scheduler.cache.outline id = some (owner, [size]))
    (room : ¬ closed owner → (size + 1) * tokensPerBlock ≤ written owner + (tokensPerBlock - 1)) :
    Snug tokensPerBlock written closed (scheduler.step (.cache (.reserveTokens id 1))) := by
  have plain := KVCacheManager.plain_step (.reserveTokens id 1) snug.plain
  have gauged := KVCacheManager.gauged_step (.reserveTokens id 1) trivial snug.gauged
  obtain ⟨-, size', bounded, outline⟩ := KVCacheManager.outline_reserveTokens held 1
  have one : KVCacheManager.blocksNeeded 1 scheduler.cache.tokensPerBlock ≤ 1 := by
    rw [KVCacheManager.blocksNeeded, Nat.add_sub_cancel_left]
    exact Nat.div_le_of_le_mul (by simpa [wrap32] using Nat.mod_le _ _)
  have moved (other : SequenceId) (owner' : RequestId)
      (known : ∃ sizes, scheduler.cache.outline other = some (owner', sizes)) :
      ∃ sizes, (scheduler.cache.step (.reserveTokens id 1)).outline other =
        some (owner', sizes) := by
    obtain ⟨sizes, known⟩ := known
    rw [KVCacheManager.step, outline]
    split
    · rename_i same
      rw [same, held] at known
      obtain ⟨rfl, -⟩ := Prod.mk.inj (Option.some.inj known)
      exact ⟨[size'], rfl⟩
    · exact ⟨sizes, known⟩
  constructor
  case plain => exact plain
  case gauged => exact gauged
  case named => exact snug.named
  case waiting => exact snug.waiting
  case decoded => exact snug.decoded
  case single => exact snug.single
  case rooted =>
    exact fun request member free => moved _ _ (snug.rooted request member free)
  case whole =>
    intro other owner' sizes' known free
    refine moved _ _ ?_
    change (scheduler.cache.reserveTokens id 1).2.outline other = _ at known
    rw [outline] at known
    split at known
    · obtain ⟨rfl, -⟩ := Prod.mk.inj (Option.some.inj known)
      exact snug.whole id owner [size] held free
    · exact snug.whole other owner' sizes' known free
  case flat =>
    intro other owner' sizes' known
    change (scheduler.cache.reserveTokens id 1).2.outline other = _ at known
    rw [outline] at known
    split at known
    · exact ⟨size', (Prod.mk.inj (Option.some.inj known)).2.symm⟩
    · exact snug.flat other owner' sizes' known
  case snug =>
    intro other owner' size'' known free request member same
    change (scheduler.cache.reserveTokens id 1).2.outline other = _ at known
    rw [outline] at known
    split at known
    · obtain ⟨rfl, sizes⟩ := Prod.mk.inj (Option.some.inj known)
      obtain rfl : size' = size'' := by simpa using sizes
      calc
        size' * tokensPerBlock ≤ (size + 1) * tokensPerBlock :=
          Nat.mul_le_mul_right _ (bounded.trans (Nat.add_le_add_left one size))
        _ ≤ written owner + (tokensPerBlock - 1) := room free
        _ ≤ written owner + request.remainingPrefillTokens + (tokensPerBlock - 1) := by omega
    · exact snug.snug other owner' size'' known free request member same

/-! ## What stays open -/

/-- Sequences of an id that is not closed outlive an action of the admission loop. -/
theorem outline_action {tokensPerBlock : ℕ} {written : RequestId → ℕ}
    {closed : RequestId → Prop} {scheduler after : Scheduler} {plan planned : BatchPlan}
    (snug : Snug tokensPerBlock written closed scheduler)
    (action : AdmissionStep (scheduler, plan) (after, planned)) {id : SequenceId}
    {owner : RequestId} {sizes : List ℕ}
    (held : scheduler.cache.outline id = some (owner, sizes)) (free : ¬ closed owner) :
    after.cache.outline id = some (owner, sizes) := by
  have different {candidate : Request} (waiting : candidate ∈ scheduler.pending)
      (absent : scheduler.cache.outline candidate.rootSequenceId = none) :
      owner ≠ candidate.requestId := by
    rintro rfl
    obtain ⟨sizes', root⟩ := snug.whole id _ sizes held free
    rw [snug.named candidate (List.mem_append_left _ waiting), root] at absent
    cases absent
  cases action with
  | @reclaim _ _ victim watermark older newest =>
      rw [outline_preempt, held]
  | @refuse _ _ candidate cache waiting refused =>
      rcases openRoot_outline snug.plain snug.gauged candidate with
        same | ⟨absent, ⟨after, size, run_eq, -⟩ | ⟨after, run_eq, outline⟩⟩
      · obtain rfl : scheduler.cache = cache := congrArg Prod.snd (same.symm.trans refused)
        exact held
      · simp [run_eq] at refused
      · obtain rfl : after = cache := congrArg Prod.snd (run_eq.symm.trans refused)
        rw [outline, held, Option.filter_some]
        simp [different waiting absent]
  | @accept _ _ position candidate cache found fits =>
      have waiting := List.mem_of_getElem? found
      have opened := fits.opened
      rcases openRoot_outline snug.plain snug.gauged candidate with
        same | ⟨absent, ⟨after, size, run_eq, outline, -⟩ | ⟨after, refused, -⟩⟩
      · simp [same] at opened
      · obtain rfl : after = cache := congrArg Prod.snd (run_eq.symm.trans opened)
        have other : id ≠ candidate.rootSequenceId := by
          rintro rfl
          simp [absent] at held
        change after.outline id = _
        rw [outline, if_neg other, held]
      · simp [refused] at opened

/-- A plan opens roots of waiting requests only, and nobody joins the queue. -/
theorem opened_scheduleNext {tokensPerBlock : ℕ} {written : RequestId → ℕ}
    {closed : RequestId → Prop} {scheduler : Scheduler}
    (snug : Snug tokensPerBlock written closed scheduler) :
    (∀ request ∈ scheduler.scheduleNext.2.pending,
      request.requestId ∈ scheduler.pending.map (·.requestId)) ∧
    ∀ id owner sizes, scheduler.scheduleNext.2.cache.outline id = some (owner, sizes) →
      scheduler.cache.outline id = some (owner, sizes) ∨
        id = owner ∧ owner ∈ scheduler.pending.map (·.requestId) := by
  have loop := scheduleNext_induction
    (motive := fun after _ => Snug tokensPerBlock written closed after ∧
      (∀ request ∈ after.pending, request.requestId ∈ scheduler.pending.map (·.requestId)) ∧
      ∀ id owner sizes, after.cache.outline id = some (owner, sizes) →
        scheduler.cache.outline id = some (owner, sizes) ∨
          id = owner ∧ owner ∈ scheduler.pending.map (·.requestId)) ?_
    ⟨snug, fun request member => List.mem_map_of_mem member, fun _ _ _ held => Or.inl held⟩
  · exact loop.2
  intro middle plan after planned action ⟨snug, waiting, old⟩
  refine ⟨snug_action action snug, ?_⟩
  cases action with
  | @reclaim _ _ victim watermark older newest =>
      refine ⟨fun request member => waiting request ?_, fun id owner sizes held => old id owner sizes ?_⟩
      · rwa [(reclaimed_preempt middle victim.requestId "cache pressure watermark").pending]
          at member
      · rwa [outline_preempt] at held
  | @refuse _ _ candidate cache found refused =>
      refine ⟨waiting, fun id owner sizes held => old id owner sizes ?_⟩
      rcases openRoot_outline snug.plain snug.gauged candidate with
        same | ⟨absent, ⟨after, size, run_eq, -⟩ | ⟨after, run_eq, outline⟩⟩
      · obtain rfl : middle.cache = cache := congrArg Prod.snd (same.symm.trans refused)
        exact held
      · simp [run_eq] at refused
      · obtain rfl : after = cache := congrArg Prod.snd (run_eq.symm.trans refused)
        change after.outline id = _ at held
        rw [outline, Option.filter_eq_some_iff] at held
        exact held.1
  | @accept _ _ position candidate cache found fits =>
      have queued := List.mem_of_getElem? found
      have root := snug.named candidate (List.mem_append_left _ queued)
      refine ⟨fun request member => ?_, fun id owner sizes held => ?_⟩
      · obtain ⟨earlier, inside, skips, rfl⟩ := mem_skipBefore member
        exact waiting earlier inside
      · have opened := fits.opened
        rcases openRoot_outline snug.plain snug.gauged candidate with
          same | ⟨absent, ⟨after, size, run_eq, outline, -⟩ | ⟨after, refused, -⟩⟩
        · simp [same] at opened
        · obtain rfl : after = cache := congrArg Prod.snd (run_eq.symm.trans opened)
          change after.outline id = _ at held
          rw [outline] at held
          split at held
          · rename_i same
            obtain ⟨rfl, -⟩ := Prod.mk.inj (Option.some.inj held)
            exact Or.inr ⟨same.trans root, waiting candidate queued⟩
          · exact old id owner sizes held
        · simp [refused] at opened

theorem outline_scheduleNext {tokensPerBlock : ℕ} {written : RequestId → ℕ}
    {closed : RequestId → Prop} {scheduler : Scheduler}
    (snug : Snug tokensPerBlock written closed scheduler) {id : SequenceId}
    {owner : RequestId} {sizes : List ℕ}
    (held : scheduler.cache.outline id = some (owner, sizes)) (free : ¬ closed owner) :
    scheduler.scheduleNext.2.cache.outline id = some (owner, sizes) :=
  (scheduleNext_induction
    (motive := fun after _ => Snug tokensPerBlock written closed after ∧
      after.cache.outline id = some (owner, sizes))
    (fun _ _ _ _ action holds =>
      ⟨snug_action action holds.1, outline_action holds.1 action holds.2 free⟩)
    ⟨snug, held⟩).2

end Scheduler
end QwenVLPaged
