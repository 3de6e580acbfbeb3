import QwenVLPaged.ReplayRun
import QwenVLPaged.SnugSequences

/-!
# Partial blocks

The sequences of a decoding request should map at most one block beyond its committed tokens, and
that block only partly. A decode step grows the sequences of a request in turn. If the pool runs out
in between, the grown ones keep a whole block that holds nothing, and the committed count stays.
`GrowsWhole` is the condition under which this does not happen; then the bound holds in every state
that a replay reaches, for every trace, also for one in which requests share an id.
-/

namespace QwenVLPaged

namespace PagedReplay

open KVCacheManager (SameOutline)

/-- Sequence numbers: a request is rooted at its own id, and branches get numbers beyond all ids,
below the next one to be given out. -/
structure Numbered (base : ℕ) (progress : Progress) (next : SequenceId) : Prop where
  above : base ≤ next
  below : ∀ id entry, progress.lookup id = some entry → id < base
  named : ∀ id entry, progress.lookup id = some entry → entry.request.requestId = id
  apart : ∀ id entry, progress.lookup id = some entry → ∀ sequenceId ∈ entry.sequences,
    sequenceId = id ∨ base ≤ sequenceId
  issued : ∀ id entry, progress.lookup id = some entry → ∀ sequenceId ∈ entry.sequences,
    sequenceId < next

/-- The sequences of a request may gain its root and numbers that were not given out. -/
theorem Numbered.update {base : ℕ} {progress : Progress} {next next' : SequenceId}
    (numbered : Numbered base progress next) {id : RequestId} {old entry : RequestProgress}
    (found : progress.lookup id = some old) (request : entry.request = old.request)
    (later : next ≤ next') (sequences : ∀ sequenceId ∈ entry.sequences,
      sequenceId ∈ old.sequences ∨ sequenceId = id ∨ base ≤ sequenceId ∧ sequenceId < next') :
    Numbered base (progress.insert id entry) next' where
  above := numbered.above.trans later
  below other known inside := by
    obtain ⟨rfl, rfl⟩ | ⟨-, inside⟩ := AList.lookup_insert_cases inside
    · exact numbered.below other old found
    · exact numbered.below other known inside
  named other known inside := by
    obtain ⟨rfl, rfl⟩ | ⟨-, inside⟩ := AList.lookup_insert_cases inside
    · rw [request]
      exact numbered.named other old found
    · exact numbered.named other known inside
  apart other known inside sequenceId member := by
    obtain ⟨rfl, rfl⟩ | ⟨-, inside⟩ := AList.lookup_insert_cases inside
    · rcases sequences sequenceId member with old_member | root | ⟨high, -⟩
      · exact numbered.apart other old found sequenceId old_member
      · exact Or.inl root
      · exact Or.inr high
    · exact numbered.apart other known inside sequenceId member
  issued other known inside sequenceId member := by
    obtain ⟨rfl, rfl⟩ | ⟨-, inside⟩ := AList.lookup_insert_cases inside
    · rcases sequences sequenceId member with old_member | root | ⟨-, given⟩
      · exact (numbered.issued other old found sequenceId old_member).trans_le later
      · rw [root]
        exact ((numbered.below other old found).trans_le numbered.above).trans_le later
      · exact given
    · exact (numbered.issued other known inside sequenceId member).trans_le later

/-- Numbers may be skipped. -/
theorem Numbered.skip {base : ℕ} {progress : Progress} {next next' : SequenceId}
    (numbered : Numbered base progress next) (later : next ≤ next') :
    Numbered base progress next' where
  __ := numbered
  above := numbered.above.trans later
  issued id entry found sequenceId member :=
    (numbered.issued id entry found sequenceId member).trans_le later

/-- The sequences of the requests are snug, and the driver knows them. -/
structure Tight (tokensPerBlock base : ℕ) (written : RequestId → ℕ) (scheduler : Scheduler)
    (progress : Progress) : Prop where
  snug : scheduler.Snug tokensPerBlock written (Finished progress)
  low : ∀ request ∈ scheduler.pending, request.requestId < base
  mapped : ∀ id entry, progress.lookup id = some entry → entry.finished = false →
    ∀ sequenceId ∈ entry.sequences,
      ∃ sizes, scheduler.cache.outline sequenceId = some (id, sizes)
  owned : ∀ id entry, progress.lookup id = some entry → ∀ sequenceId ∈ entry.sequences,
    ∀ owner sizes, scheduler.cache.outline sequenceId = some (owner, sizes) → owner = id
  roots : ∀ id < base, ∀ owner sizes,
    scheduler.cache.outline id = some (owner, sizes) → owner = id

/-! ## Calls -/

theorem Tight.mono {tokensPerBlock base : ℕ} {written written' : RequestId → ℕ}
    {scheduler : Scheduler} {progress : Progress}
    (tight : Tight tokensPerBlock base written scheduler progress)
    (more : ∀ id, ¬ Finished progress id → written id ≤ written' id) :
    Tight tokensPerBlock base written' scheduler progress where
  __ := tight
  snug := tight.snug.mono more fun _ done => done

/-- The call changes no sequence and does not touch the waiting requests. -/
theorem Tight.still {tokensPerBlock base : ℕ} {written written' : RequestId → ℕ}
    {scheduler after : Scheduler} {progress : Progress}
    (tight : Tight tokensPerBlock base written scheduler progress)
    (snug : after.Snug tokensPerBlock written' (Finished progress))
    (outline : SameOutline scheduler.cache after.cache)
    (pending : after.pending = scheduler.pending) :
    Tight tokensPerBlock base written' after progress where
  snug := snug
  low request member := tight.low request (pending ▸ member)
  mapped id entry found open_id sequenceId member := by
    rw [outline]
    exact tight.mapped id entry found open_id sequenceId member
  owned id entry found sequenceId member owner sizes held :=
    tight.owned id entry found sequenceId member owner sizes (outline sequenceId ▸ held)
  roots id low owner sizes held := tight.roots id low owner sizes (outline id ▸ held)

theorem Tight.touch {tokensPerBlock base : ℕ} {written : RequestId → ℕ}
    {scheduler : Scheduler} {progress : Progress}
    (tight : Tight tokensPerBlock base written scheduler progress) (sequenceId : SequenceId)
    (position layer : ℕ) :
    Tight tokensPerBlock base written
      (scheduler.step (.cache (.ensureTokenWritable sequenceId position layer))) progress :=
  have outline : SameOutline scheduler.cache
      (scheduler.cache.step (.ensureTokenWritable sequenceId position layer)) :=
    KVCacheManager.sameOutline_ensureTokenWritable scheduler.cache sequenceId position layer
  tight.still
    (tight.snug.recache outline (KVCacheManager.plain_step _ tight.snug.plain)
      (KVCacheManager.gauged_step _ trivial tight.snug.gauged))
    outline rfl

theorem Tight.preempt {tokensPerBlock base : ℕ} {written : RequestId → ℕ}
    {scheduler : Scheduler} {progress : Progress}
    (tight : Tight tokensPerBlock base written scheduler progress) (id : RequestId)
    (reason : String) :
    Tight tokensPerBlock base written (scheduler.preempt id reason).2 progress :=
  tight.still (Scheduler.snug_preempt tight.snug id reason) (scheduler.outline_preempt id reason)
    (Scheduler.reclaimed_preempt scheduler id reason).pending

theorem Tight.resume {tokensPerBlock base : ℕ} {written : RequestId → ℕ}
    {scheduler : Scheduler} {progress : Progress}
    (tight : Tight tokensPerBlock base written scheduler progress) (id : RequestId) :
    Tight tokensPerBlock base written (scheduler.resume id).2 progress :=
  tight.still (Scheduler.snug_resume tight.snug id) (scheduler.outline_resume id)
    (Scheduler.pending_resume scheduler id).1

/-- What is produced is committed, or nothing was left of the prompt. -/
theorem Tight.complete {tokensPerBlock base : ℕ} {written written' : RequestId → ℕ}
    {scheduler : Scheduler} {progress : Progress} {id : RequestId} {producedTokens : ℕ}
    (tight : Tight tokensPerBlock base written scheduler progress)
    (more : ∀ id, ¬ Finished progress id → written id ≤ written' id)
    (counted : ¬ Finished progress id → written id + producedTokens ≤ written' id ∨
      ∀ request ∈ scheduler.owning, request.requestId = id →
        request.remainingPrefillTokens = 0) :
    Tight tokensPerBlock base written' (scheduler.completeStep id producedTokens) progress :=
  tight.still (Scheduler.snug_completeStep tight.snug more counted) (fun _ => rfl) rfl

/-- New roots belong to waiting requests, whose ids are no branch of another one. -/
theorem Tight.scheduleNext {tokensPerBlock base : ℕ} {written : RequestId → ℕ}
    {scheduler : Scheduler} {progress : Progress} {next : SequenceId}
    (tight : Tight tokensPerBlock base written scheduler progress)
    (numbered : Numbered base progress next) :
    Tight tokensPerBlock base written scheduler.scheduleNext.2 progress where
  snug := Scheduler.snug_scheduleNext tight.snug
  low request member := by
    obtain ⟨earlier, inside, same⟩ := List.mem_map.mp
      ((Scheduler.opened_scheduleNext tight.snug).1 request member)
    rw [← same]
    exact tight.low earlier inside
  mapped id entry found unfinished sequenceId member := by
    obtain ⟨sizes, held⟩ := tight.mapped id entry found unfinished sequenceId member
    have free : ¬ Finished progress id := by
      rw [finished_found found, unfinished]
      exact Bool.false_ne_true
    exact ⟨sizes, Scheduler.outline_scheduleNext tight.snug held free⟩
  owned id entry found sequenceId member owner sizes held := by
    rcases (Scheduler.opened_scheduleNext tight.snug).2 sequenceId owner sizes held with
      old | ⟨root, waiting⟩
    · exact tight.owned id entry found sequenceId member owner sizes old
    · rcases numbered.apart id entry found sequenceId member with same | high
      · exact root.symm.trans same
      · obtain ⟨request, inside, same⟩ := List.mem_map.mp waiting
        rw [root.trans same.symm] at high
        exact absurd (tight.low request inside) (Nat.not_lt.mpr high)
  roots id low owner sizes held := by
    rcases (Scheduler.opened_scheduleNext tight.snug).2 id owner sizes held with
      old | ⟨root, -⟩
    · exact tight.roots id low owner sizes old
    · exact root.symm

/-- A branch gets the next number. -/
theorem Tight.fork {tokensPerBlock base : ℕ} {written : RequestId → ℕ}
    {scheduler : Scheduler} {progress : Progress} {next : SequenceId} {id : RequestId}
    (tight : Tight tokensPerBlock base written scheduler progress)
    (numbered : Numbered base progress next)
    (root : ¬ Finished progress id → ∃ sizes, scheduler.cache.outline id = some (id, sizes)) :
    Tight tokensPerBlock base written
      (scheduler.step (.cache (.forkSequence id ⟨next, id⟩))) progress := by
  have snug : Scheduler.Snug tokensPerBlock written (Finished progress)
      (scheduler.step (.cache (.forkSequence id ⟨next, id⟩))) :=
    Scheduler.snug_fork tight.snug ⟨next, id⟩ root
  rcases forked : scheduler.cache.forkSequence id ⟨next, id⟩ with ⟨_ | _, cache⟩
  · obtain rfl := KVCacheManager.forkSequence_refused forked
    simpa only [Scheduler.step, KVCacheManager.step, forked] using tight
  · simp only [Scheduler.step, KVCacheManager.step, forked] at snug ⊢
    obtain ⟨owner, sizes, -, -, outline⟩ := KVCacheManager.outline_forkSequence forked
    have old {other : RequestId} {entry : RequestProgress} {sequenceId : SequenceId}
        (found : progress.lookup other = some entry) (member : sequenceId ∈ entry.sequences) :
        cache.outline sequenceId = scheduler.cache.outline sequenceId := by
      rw [outline, if_neg (numbered.issued other entry found sequenceId member).ne]
    refine ⟨snug, tight.low, ?_, ?_, ?_⟩
    · intro other entry found unfinished sequenceId member
      rw [old found member]
      exact tight.mapped other entry found unfinished sequenceId member
    · intro other entry found sequenceId member owner' sizes' held
      rw [old found member] at held
      exact tight.owned other entry found sequenceId member owner' sizes' held
    · intro other low owner' sizes' held
      rw [outline, if_neg (low.trans_le numbered.above).ne] at held
      exact tight.roots other low owner' sizes' held

/-- A sequence may grow as far as the tokens written reach. -/
theorem Tight.grow {tokensPerBlock base : ℕ} {written : RequestId → ℕ} {scheduler : Scheduler}
    {progress : Progress} {sequenceId : SequenceId} {owner : RequestId} {size : ℕ}
    (tight : Tight tokensPerBlock base written scheduler progress)
    (held : scheduler.cache.outline sequenceId = some (owner, [size]))
    (room : ¬ Finished progress owner →
      (size + 1) * tokensPerBlock ≤ written owner + (tokensPerBlock - 1)) :
    Tight tokensPerBlock base written
      (scheduler.step (.cache (.reserveTokens sequenceId 1))) progress := by
  obtain ⟨-, size', -, outline⟩ := KVCacheManager.outline_reserveTokens held 1
  refine ⟨Scheduler.snug_grow tight.snug held room, tight.low, ?_, ?_, ?_⟩
  · intro id entry found unfinished other member
    obtain ⟨sizes, known⟩ := tight.mapped id entry found unfinished other member
    change ∃ sizes, (scheduler.cache.reserveTokens sequenceId 1).2.outline other = some (id, sizes)
    rw [outline]
    split
    · rename_i same
      rw [same, held] at known
      obtain ⟨rfl, -⟩ := Prod.mk.inj (Option.some.inj known)
      exact ⟨[size'], rfl⟩
    · exact ⟨sizes, known⟩
  · intro id entry found other member owner' sizes known
    change (scheduler.cache.reserveTokens sequenceId 1).2.outline other = _ at known
    rw [outline] at known
    split at known
    · rename_i same
      obtain ⟨rfl, -⟩ := Prod.mk.inj (Option.some.inj known)
      exact tight.owned id entry found other member owner [size] (same ▸ held)
    · exact tight.owned id entry found other member owner' sizes known
  · intro other low owner' sizes known
    change (scheduler.cache.reserveTokens sequenceId 1).2.outline other = _ at known
    rw [outline] at known
    split at known
    · rename_i same
      obtain ⟨rfl, -⟩ := Prod.mk.inj (Option.some.inj known)
      exact tight.roots other low owner [size] (same ▸ held)
    · exact tight.roots other low owner' sizes known

/-- New bookkeeping of one request that is as finished as before. -/
theorem Tight.update {tokensPerBlock base : ℕ} {written : RequestId → ℕ}
    {scheduler : Scheduler} {progress : Progress} {id : RequestId} {old entry : RequestProgress}
    (tight : Tight tokensPerBlock base written scheduler progress)
    (found : progress.lookup id = some old) (finished : entry.finished = old.finished)
    (sequences : ∀ sequenceId ∈ entry.sequences, sequenceId ∈ old.sequences ∨
      (old.finished = false → ∃ sizes, scheduler.cache.outline sequenceId = some (id, sizes)) ∧
        ∀ owner sizes, scheduler.cache.outline sequenceId = some (owner, sizes) → owner = id) :
    Tight tokensPerBlock base written scheduler (progress.insert id entry) where
  snug := by
    refine tight.snug.mono (fun _ _ => le_rfl) fun other done => ?_
    by_cases same : other = id
    · rw [same, finished_found found] at done
      rw [same, finished_found (AList.lookup_insert _), finished, done]
    · rwa [finished_insert_ne _ _ same]
  low := tight.low
  mapped other known inside unfinished sequenceId member := by
    obtain ⟨rfl, rfl⟩ | ⟨-, inside⟩ := AList.lookup_insert_cases inside
    · rw [finished] at unfinished
      rcases sequences sequenceId member with early | ⟨held, -⟩
      · exact tight.mapped other old found unfinished sequenceId early
      · exact held unfinished
    · exact tight.mapped other known inside unfinished sequenceId member
  owned other known inside sequenceId member owner sizes held := by
    obtain ⟨rfl, rfl⟩ | ⟨-, inside⟩ := AList.lookup_insert_cases inside
    · rcases sequences sequenceId member with early | ⟨-, own⟩
      · exact tight.owned other old found sequenceId early owner sizes held
      · exact own owner sizes held
    · exact tight.owned other known inside sequenceId member owner sizes held
  roots := tight.roots

/-- A request that has produced its tokens is cancelled and closed. -/
theorem Tight.finish {tokensPerBlock base : ℕ} {written : RequestId → ℕ}
    {scheduler : Scheduler} {progress : Progress} {id : RequestId} {entry : RequestProgress}
    (tight : Tight tokensPerBlock base written scheduler progress)
    (done : entry.finished = true) (empty : entry.sequences = []) :
    Tight tokensPerBlock base written (scheduler.cancel id) (progress.insert id entry) where
  snug := by
    refine Scheduler.snug_cancel tight.snug fun other => ?_
    by_cases same : other = id
    · rw [same, finished_found (AList.lookup_insert _), done]
      simp
    · rw [finished_insert_ne _ _ same]
      simp [same]
  low request member := tight.low request (Scheduler.mem_cancel.1 member)
  mapped other known inside unfinished sequenceId member := by
    obtain ⟨rfl, rfl⟩ | ⟨different, inside⟩ := AList.lookup_insert_cases inside
    · rw [empty] at member
      exact absurd member List.not_mem_nil
    · obtain ⟨sizes, held⟩ := tight.mapped other known inside unfinished sequenceId member
      exact ⟨sizes, Scheduler.outline_cancel_of_ne tight.snug.plain.listed held different⟩
  owned other known inside sequenceId member owner sizes held := by
    obtain ⟨rfl, rfl⟩ | ⟨-, inside⟩ := AList.lookup_insert_cases inside
    · rw [empty] at member
      exact absurd member List.not_mem_nil
    · exact tight.owned other known inside sequenceId member owner sizes
        (Scheduler.held_of_cancel tight.snug.plain.listed held)
  roots other low owner sizes held :=
    tight.roots other low owner sizes (Scheduler.held_of_cancel tight.snug.plain.listed held)

/-! ## Writing positions -/

/-- The invariant at a state of the driver. -/
structure TightAt (tokensPerBlock base : ℕ) (written : RequestId → ℕ) (state : PagedState) :
    Prop where
  tight : Tight tokensPerBlock base written state.scheduler state.progress
  numbered : Numbered base state.progress state.nextForkSequence

theorem TightAt.of_books {tokensPerBlock base : ℕ} {written : RequestId → ℕ}
    {before after : PagedState} (tight : TightAt tokensPerBlock base written before)
    (books : SameBooks before after)
    (moved : Tight tokensPerBlock base written after.scheduler before.progress) :
    TightAt tokensPerBlock base written after :=
  ⟨books.progress ▸ moved, by rw [books.progress, books.next]; exact tight.numbered⟩

theorem tight_touchPosition {blockTokens base : ℕ} {written : RequestId → ℕ}
    {state : PagedState} (tight : TightAt blockTokens base written state) (tokensPerBlock : ℕ)
    (sequenceId : SequenceId) (position : ℕ) :
    TightAt blockTokens base written
      (touchPosition tokensPerBlock sequenceId position state) := by
  refine tight.of_books (books_touchPosition _ _ _ _) ?_
  unfold touchPosition
  split
  · exact tight.tight
  · dsimp only
    split
    · exact tight.tight.touch sequenceId position 0
    · exact tight.tight.touch sequenceId position 0

/-- Fold a property and the unchanged books along a list. -/
theorem tight_foldl {tokensPerBlock base : ℕ} {written : RequestId → ℕ} {α : Type*}
    (each : PagedState → α → PagedState)
    (one : ∀ state item, TightAt tokensPerBlock base written state →
      TightAt tokensPerBlock base written (each state item) ∧ SameBooks state (each state item))
    (items : List α) {state : PagedState} (tight : TightAt tokensPerBlock base written state) :
    TightAt tokensPerBlock base written (items.foldl each state) ∧
      SameBooks state (items.foldl each state) := by
  induction items generalizing state with
  | nil => exact ⟨tight, .refl state⟩
  | cons item items induction =>
      obtain ⟨moved, books⟩ := one state item tight
      obtain ⟨final, later⟩ := induction moved
      exact ⟨final, books.trans later⟩

/-! ## Prefill -/

theorem tight_touchPrompt {blockTokens base : ℕ} {written : RequestId → ℕ}
    {state : PagedState} (tight : TightAt blockTokens base written state) (tokensPerBlock : ℕ)
    (progress : RequestProgress) (offset : ℕ) :
    TightAt blockTokens base written (touchPrompt tokensPerBlock progress state offset) ∧
      SameBooks state (touchPrompt tokensPerBlock progress state offset) := by
  simp only [touchPrompt]
  split
  · exact ⟨tight, .refl state⟩
  · split
    · exact ⟨tight_touchPosition tight _ _ _, books_touchPosition _ _ _ _⟩
    · exact ⟨tight, .refl state⟩

/-- A request that owns cache becomes live: its root is open. -/
theorem tight_greet {tokensPerBlock base : ℕ} {written : RequestId → ℕ} {state : PagedState}
    {config : ReplayConfig} {id : RequestId} {old : RequestProgress}
    (tight : TightAt tokensPerBlock base written state)
    (found : state.progress.lookup id = some old)
    (root : old.finished = false →
      ∃ sizes, state.scheduler.cache.outline id = some (id, sizes)) :
    TightAt tokensPerBlock base written (greet config id old state) := by
  unfold greet
  split
  · exact tight
  · have named := tight.numbered.named id old found
    refine ⟨tight.tight.update found rfl fun sequenceId member => ?_,
      tight.numbered.update found rfl le_rfl fun sequenceId member => ?_⟩
    · rcases List.mem_append.mp member with early | late
      · exact Or.inl early
      · rw [List.mem_singleton.mp late, named]
        exact Or.inr ⟨root, tight.tight.roots id (tight.numbered.below id old found)⟩
    · rcases List.mem_append.mp member with early | late
      · exact Or.inl early
      · exact Or.inr (Or.inl ((List.mem_singleton.mp late).trans named))

/-- The root of a request that owns cache is open. -/
theorem Tight.root {tokensPerBlock base : ℕ} {written : RequestId → ℕ} {scheduler : Scheduler}
    {progress : Progress} {id : RequestId}
    (tight : Tight tokensPerBlock base written scheduler progress)
    (owns : id ∈ scheduler.owners.map (·.requestId)) (unfinished : ¬ Finished progress id) :
    ∃ sizes, scheduler.cache.outline id = some (id, sizes) := by
  obtain ⟨identity, inside, same⟩ := List.mem_map.mp owns
  obtain ⟨request, member, rfl⟩ := List.mem_map.mp inside
  obtain rfl : request.requestId = id := same
  exact tight.snug.rooted request member unfinished

theorem tight_openBranch {tokensPerBlock base : ℕ} {written : RequestId → ℕ}
    {state : PagedState} {id : RequestId} (tight : TightAt tokensPerBlock base written state)
    (owns : id ∈ state.scheduler.owners.map (·.requestId)) :
    TightAt tokensPerBlock base written (openBranch id state) ∧
      id ∈ (openBranch id state).scheduler.owners.map (·.requestId) ∧
      committedOf (openBranch id state).progress = committedOf state.progress := by
  rcases found : state.progress.lookup id with _ | entry
  · simp only [openBranch, found]
    exact ⟨tight, owns, trivial⟩
  · have named := tight.numbered.named id entry found
    have moved := tight.tight.fork tight.numbered (tight.tight.root owns)
    rcases forked : state.scheduler.cache.forkSequence id ⟨state.nextForkSequence, id⟩ with
      ⟨_ | _, cache⟩
    · simp only [openBranch, found, named, forked, Bool.false_eq_true, if_false]
      exact ⟨⟨moved, tight.numbered.skip (Nat.le_succ _)⟩, owns, rfl⟩
    · simp only [openBranch, found, named, forked, if_true]
      obtain ⟨owner, sizes, -, -, outline⟩ := KVCacheManager.outline_forkSequence forked
      have child : (state.scheduler.step
          (.cache (.forkSequence id ⟨state.nextForkSequence, id⟩))).cache.outline
            state.nextForkSequence = some (id, sizes) := by
        simp only [Scheduler.step, KVCacheManager.step, forked]
        rw [outline, if_pos rfl]
      refine ⟨⟨moved.update found rfl fun sequenceId member => ?_,
        tight.numbered.update found rfl (Nat.le_succ _) fun sequenceId member => ?_⟩, owns, ?_⟩
      · rcases List.mem_append.mp member with early | late
        · exact Or.inl early
        · rw [List.mem_singleton.mp late, child]
          refine Or.inr ⟨fun _ => ⟨sizes, rfl⟩, fun owner sizes' held => ?_⟩
          exact (Prod.mk.inj (Option.some.inj held)).1.symm
      · rcases List.mem_append.mp member with early | late
        · exact Or.inl early
        · rw [List.mem_singleton.mp late]
          exact Or.inr (Or.inr ⟨tight.numbered.above, Nat.lt_succ_self _⟩)
      · funext other
        by_cases same : other = id
        · rw [same, committedOf_found found]
          exact committedOf_insert_self _ _ _
        · exact committedOf_insert_ne _ _ same

theorem tight_openBranches {tokensPerBlock base : ℕ} {written : RequestId → ℕ} {id : RequestId}
    (count : ℕ) {state : PagedState} (tight : TightAt tokensPerBlock base written state)
    (owns : id ∈ state.scheduler.owners.map (·.requestId)) :
    TightAt tokensPerBlock base written (openBranches id count state) ∧
      committedOf (openBranches id count state).progress = committedOf state.progress := by
  induction count generalizing state with
  | zero => exact ⟨tight, rfl⟩
  | succ count induction =>
      obtain ⟨moved, still, committed⟩ := tight_openBranch tight owns
      obtain ⟨final, same⟩ := induction moved still
      exact ⟨final, same.trans committed⟩

/-- The committed count of an unfinished request does not wrap around with a chunk. -/
def ChunkCounted (id : RequestId) (chunk : ℕ) (state : PagedState) : Prop :=
  ∀ entry, state.progress.lookup id = some entry → entry.finished = false →
    entry.committed + chunk < 2 ^ 32

theorem committedOf_greet (config : ReplayConfig) {id : RequestId} {old : RequestProgress}
    {state : PagedState} (found : state.progress.lookup id = some old) :
    committedOf (greet config id old state).progress = committedOf state.progress := by
  unfold greet
  split
  · rfl
  · funext other
    by_cases same : other = id
    · rw [same, committedOf_found found]
      exact committedOf_insert_self _ _ _
    · exact committedOf_insert_ne _ _ same

/-- A chunk is committed and then reported. -/
theorem tight_writeChunk {blockTokens base : ℕ} {state : PagedState} {config : ReplayConfig}
    {id : RequestId} {chunk : ℕ} {progress : RequestProgress}
    (tight : TightAt blockTokens base (committedOf state.progress) state)
    (found : state.progress.lookup id = some progress)
    (counted : progress.finished = false → progress.committed + chunk < 2 ^ 32) :
    TightAt blockTokens base (committedOf (writeChunk config id chunk progress state).progress)
      (writeChunk config id chunk progress state) := by
  obtain ⟨touched, books⟩ := tight_foldl
    (touchPrompt config.tokensPerBlock progress)
    (fun state offset tight => tight_touchPrompt tight _ progress offset) (List.range chunk) tight
  unfold writeChunk
  generalize (List.range chunk).foldl (touchPrompt config.tokensPerBlock progress) state =
    wrote at touched books
  have found' : wrote.progress.lookup id = some progress := by rw [books.progress, found]
  have unwrapped : ¬ Finished wrote.progress id →
      wrap32 (progress.committed + chunk) = progress.committed + chunk := by
    intro unfinished
    rw [finished_found found'] at unfinished
    exact wrap32_of_lt (counted (Bool.eq_false_of_not_eq_true unfinished))
  let entry : RequestProgress :=
    { progress with committed := wrap32 (progress.committed + chunk) }
  change TightAt blockTokens base (committedOf (wrote.progress.insert id entry)) _
  have self : committedOf (wrote.progress.insert id entry) id =
      wrap32 (progress.committed + chunk) := committedOf_insert_self _ _ _
  refine ⟨Tight.update (Tight.complete touched.tight ?_ ?_) found' rfl fun _ => Or.inl,
    touched.numbered.update found' rfl le_rfl fun _ => Or.inl⟩
  · intro other unfinished
    by_cases same : other = id
    · rw [same] at unfinished ⊢
      rw [committedOf_found found, self, unwrapped unfinished]
      exact Nat.le_add_right _ chunk
    · rw [← books.progress]
      exact (committedOf_insert_ne _ _ same).ge
  · intro unfinished
    rw [committedOf_found found, self, unwrapped unfinished]
    exact Or.inl le_rfl

/-- Executing a planned chunk keeps the bound. -/
theorem tight_prefillOne {base : ℕ} {state : PagedState} {config : ReplayConfig}
    {id : RequestId} {chunk : ℕ} (unpublished : config.prefixCaching = false)
    (tight : TightAt config.tokensPerBlock base (committedOf state.progress) state)
    (owns : id ∈ state.scheduler.owners.map (·.requestId))
    (counted : ChunkCounted id chunk state) :
    TightAt config.tokensPerBlock base
      (committedOf (prefillOne config id chunk state).progress)
      (prefillOne config id chunk state) := by
  rcases found : state.progress.lookup id with _ | old
  · simp only [prefillOne, found]
    exact tight
  obtain ⟨present, run_eq⟩ := prefillOne_eq config chunk found
  rw [run_eq]
  have welcomed : TightAt config.tokensPerBlock base
      (committedOf (greet config id old state).progress) (greet config id old state) := by
    rw [committedOf_greet config found]
    refine tight_greet tight found fun unfinished => tight.tight.root owns ?_
    rw [finished_found found, unfinished]
    exact Bool.false_ne_true
  have small : (greeted config old state.scheduler.cache).finished = false →
      (greeted config old state.scheduler.cache).committed + chunk < 2 ^ 32 := by
    intro unfinished
    unfold greeted at unfinished ⊢
    split at unfinished
    · rename_i admitted
      rw [if_pos admitted]
      exact counted old found unfinished
    · rename_i admitted
      rw [if_neg admitted]
      exact counted old found unfinished
  have stepped : TightAt config.tokensPerBlock base
      (committedOf (writeChunk config id chunk (greeted config old state.scheduler.cache)
        (greet config id old state)).progress) _ := tight_writeChunk welcomed present small
  have owns' : id ∈ (writeChunk config id chunk (greeted config old state.scheduler.cache)
      (greet config id old state)).scheduler.owners.map (·.requestId) := by
    rw [owners_of_prefill (runs_writeChunk config id chunk _ _),
      owners_of_prefill (runs_greet config id old state)]
    exact owns
  split
  · simp only [completePrompt, unpublished, Bool.false_eq_true, false_and, if_false]
    obtain ⟨final, committed⟩ := tight_openBranches _ stepped owns'
    rwa [committed]
  · exact stepped

/-! ## Growth -/

theorem textTable_size {cache : KVCacheManager} {sequenceId : SequenceId}
    {sequence : SequenceState} {owner : RequestId} {size : ℕ}
    (found : cache.sequences.lookup sequenceId = some sequence)
    (held : cache.outline sequenceId = some (owner, [size])) :
    sequence.textTable.size = size := by
  obtain ⟨state, found', -, sizes⟩ := KVCacheManager.outline_eq_some.mp held
  obtain rfl := Option.some.inj (found.symm.trans found')
  obtain ⟨table, single, rfl⟩ := List.map_eq_singleton_iff.mp sizes
  rw [SequenceState.textTable, single, List.headD_cons]

/-- A sequence is grown by a block only if the position written next falls into it. -/
theorem tight_ensureCapacity {tokensPerBlock base : ℕ} {written : RequestId → ℕ}
    {state : PagedState} (tight : TightAt tokensPerBlock base written state)
    {sequenceId : SequenceId} {position : ℕ}
    (room : ∀ owner sizes, state.scheduler.cache.outline sequenceId = some (owner, sizes) →
      ¬ Finished state.progress owner →
        position / tokensPerBlock * tokensPerBlock < written owner) :
    TightAt tokensPerBlock base written
      (ensureCapacity tokensPerBlock sequenceId position state).2 := by
  unfold ensureCapacity
  split
  · exact tight
  · rename_i sequence found
    split
    · exact tight
    · rename_i full
      obtain ⟨owner, sizes, held⟩ :
          ∃ owner sizes, state.scheduler.cache.outline sequenceId = some (owner, sizes) :=
        ⟨_, _, KVCacheManager.outline_eq_some.mpr ⟨sequence, found, rfl, rfl⟩⟩
      obtain ⟨size, rfl⟩ := tight.tight.snug.flat sequenceId owner sizes held
      rw [textTable_size found held] at full
      refine ⟨tight.tight.grow held fun unfinished => ?_, tight.numbered⟩
      have reach := room owner [size] held unfinished
      have scaled : (size + 1) * tokensPerBlock ≤
          (position / tokensPerBlock + 1) * tokensPerBlock :=
        Nat.mul_le_mul_right _ (by omega)
      rw [Nat.add_mul (position / tokensPerBlock), Nat.one_mul] at scaled
      omega

/-- All sequences of a request may be grown while the next position falls behind the tokens that
count as written. -/
theorem tight_growAll {tokensPerBlock base : ℕ} {written : RequestId → ℕ} {id : RequestId}
    {entry : RequestProgress} {position : ℕ} (sequences : List SequenceId) {state : PagedState}
    (tight : TightAt tokensPerBlock base written state)
    (found : state.progress.lookup id = some entry) (own : sequences ⊆ entry.sequences)
    (room : ¬ Finished state.progress id →
      position / tokensPerBlock * tokensPerBlock < written id) :
    TightAt tokensPerBlock base written (growAll tokensPerBlock position sequences state).2 := by
  induction sequences generalizing state with
  | nil => exact tight
  | cons sequenceId rest induction =>
      have one : TightAt tokensPerBlock base written
          (ensureCapacity tokensPerBlock sequenceId position state).2 := by
        refine tight_ensureCapacity tight fun owner sizes held unfinished => ?_
        obtain rfl := tight.tight.owned id entry found sequenceId (own List.mem_cons_self) owner
          sizes held
        exact room unfinished
      have books := books_ensureCapacity tokensPerBlock sequenceId position state
      rw [growAll]
      split
      · rename_i failed
        rwa [failed] at one
      · rename_i grown
        rw [grown] at one books
        refine induction one (by rw [books.progress, found])
          (fun other member => own (List.mem_cons_of_mem _ member)) ?_
        rw [books.progress]
        exact room

/-- Whether a sequence can be grown. -/
theorem grown_iff {tokensPerBlock base : ℕ} {written : RequestId → ℕ} {state : PagedState}
    (tight : TightAt tokensPerBlock base written state) (small : tokensPerBlock < 2 ^ 32)
    (sized : state.scheduler.cache.tokensPerBlock ≠ 0) {sequenceId : SequenceId}
    {owner : RequestId} {size : ℕ}
    (held : state.scheduler.cache.outline sequenceId = some (owner, [size])) :
    ((state.scheduler.cache.reserveTokens sequenceId 1).1 = true ↔
        0 < state.scheduler.freeBlocks) ∧
      state.scheduler.freeBlocks ≤
        (state.scheduler.step (.cache (.reserveTokens sequenceId 1))).freeBlocks + 1 := by
  have pool := tight.tight.snug.plain.sound.pool
  have after := (KVCacheManager.plain_step (.reserveTokens sequenceId 1)
    tight.tight.snug.plain).sound.pool
  have few : state.scheduler.cache.tokensPerBlock < 2 ^ 32 := by
    rcases tight.tight.snug.plain.tokensPerBlock with zero | same
    · omega
    · rwa [same]
  simp only [Scheduler.freeBlocks, Scheduler.step]
  rw [pool.freeBlocks_eq, after.freeBlocks_eq]
  exact KVCacheManager.reserveTokens_one tight.tight.snug.plain.sound held sized few

/-- The pool has no frame to give, so growing changes nothing. -/
theorem ensureCapacity_idle {tokensPerBlock base : ℕ} {written : RequestId → ℕ}
    {state : PagedState} (tight : TightAt tokensPerBlock base written state)
    (small : tokensPerBlock < 2 ^ 32)
    (exhausted : state.scheduler.freeBlocks = 0 ∨ state.scheduler.cache.tokensPerBlock = 0)
    (sequenceId : SequenceId) (position : ℕ) :
    (ensureCapacity tokensPerBlock sequenceId position state).2.scheduler = state.scheduler := by
  unfold ensureCapacity
  split
  · rfl
  · rename_i sequence found
    split
    · rfl
    · obtain ⟨owner, sizes, held⟩ :
          ∃ owner sizes, state.scheduler.cache.outline sequenceId = some (owner, sizes) :=
        ⟨_, _, KVCacheManager.outline_eq_some.mpr ⟨sequence, found, rfl, rfl⟩⟩
      obtain ⟨size, rfl⟩ := tight.tight.snug.flat sequenceId owner sizes held
      have refused : (state.scheduler.cache.reserveTokens sequenceId 1).2 =
          state.scheduler.cache := by
        by_cases unsized : state.scheduler.cache.tokensPerBlock = 0
        · simp only [KVCacheManager.reserveTokens, found, unsized, if_true]
        · refine (KVCacheManager.outline_reserveTokens held 1).1 ?_
          rw [← Bool.not_eq_true, (grown_iff tight small unsized held).1]
          rcases exhausted with none_free | zero
          · omega
          · exact absurd zero unsized
      simp only [call, Scheduler.step, KVCacheManager.step, refused]

theorem growAll_idle {tokensPerBlock base : ℕ} {written : RequestId → ℕ} (position : ℕ)
    (small : tokensPerBlock < 2 ^ 32) (sequences : List SequenceId) {state : PagedState}
    (tight : TightAt tokensPerBlock base written state)
    (exhausted : state.scheduler.freeBlocks = 0 ∨ state.scheduler.cache.tokensPerBlock = 0) :
    (growAll tokensPerBlock position sequences state).2.scheduler = state.scheduler := by
  induction sequences generalizing state with
  | nil => rfl
  | cons sequenceId rest induction =>
      have same := ensureCapacity_idle tight small exhausted sequenceId position
      have books := books_ensureCapacity tokensPerBlock sequenceId position state
      rw [growAll]
      split
      · rename_i failed
        rwa [failed] at same
      · rename_i grown
        rw [grown] at same books
        refine (induction (tight.of_books books ?_) ?_).trans same
        · rw [same]
          exact tight.tight
        · rwa [same]

/-- With a free frame for each sequence, all of them grow. -/
theorem growAll_full {tokensPerBlock base : ℕ} {written : RequestId → ℕ} {id : RequestId}
    {entry : RequestProgress} {position : ℕ} (small : tokensPerBlock < 2 ^ 32)
    (sequences : List SequenceId) {state : PagedState}
    (tight : TightAt tokensPerBlock base written state)
    (found : state.progress.lookup id = some entry) (own : sequences ⊆ entry.sequences)
    (unfinished : entry.finished = false)
    (room : position / tokensPerBlock * tokensPerBlock < written id)
    (sized : state.scheduler.cache.tokensPerBlock ≠ 0)
    (enough : sequences.length ≤ state.scheduler.freeBlocks) :
    (growAll tokensPerBlock position sequences state).1 = true := by
  induction sequences generalizing state with
  | nil => rfl
  | cons sequenceId rest induction =>
      rw [List.length_cons] at enough
      obtain ⟨sizes, held⟩ :=
        tight.tight.mapped id entry found unfinished sequenceId (own List.mem_cons_self)
      obtain ⟨size, rfl⟩ := tight.tight.snug.flat sequenceId id sizes held
      obtain ⟨grows, taken⟩ := grown_iff tight small sized held
      have moved : TightAt tokensPerBlock base written
          (ensureCapacity tokensPerBlock sequenceId position state).2 := by
        refine tight_ensureCapacity tight fun owner sizes held' _ => ?_
        obtain ⟨rfl, -⟩ := Prod.mk.inj (Option.some.inj (held.symm.trans held'))
        exact room
      have books := books_ensureCapacity tokensPerBlock sequenceId position state
      obtain ⟨success, left, sized'⟩ :
          (ensureCapacity tokensPerBlock sequenceId position state).1 = true ∧
          state.scheduler.freeBlocks ≤
            (ensureCapacity tokensPerBlock sequenceId position state).2.scheduler.freeBlocks + 1 ∧
          (ensureCapacity tokensPerBlock sequenceId position
            state).2.scheduler.cache.tokensPerBlock ≠ 0 := by
        obtain ⟨sequence, present, -⟩ := KVCacheManager.outline_eq_some.mp held
        simp only [ensureCapacity, present]
        split
        · exact ⟨rfl, Nat.le_succ _, sized⟩
        · refine ⟨grows.mpr (by omega), taken, ?_⟩
          have sound := tight.tight.snug.plain.sound
          change (state.scheduler.cache.step (.reserveTokens sequenceId 1)).tokensPerBlock ≠ 0
          rwa [KVCacheManager.tokensPerBlock_eq (KVCacheManager.sound_step sound _).pool,
            KVCacheManager.config_step sound, ← KVCacheManager.tokensPerBlock_eq sound.pool]
      rw [growAll]
      split
      · rename_i failed
        simp [failed] at success
      · rename_i grown
        rw [grown] at moved books left sized'
        refine induction moved (by rw [books.progress, found])
          (fun other member => own (List.mem_cons_of_mem _ member)) sized' ?_
        dsimp only at left
        omega

/-! ## Decode -/

/-- Nothing is left of the prompt of the requests of an id. -/
def Drained (scheduler : Scheduler) (id : RequestId) : Prop :=
  ∀ request ∈ scheduler.owning, request.requestId = id → request.remainingPrefillTokens = 0

theorem drained_relabelled {before after : Scheduler} {id : RequestId}
    (drained : Drained before id) (relabelled : Scheduler.Relabelled before after) :
    Drained after id := by
  intro request member same
  obtain ⟨earlier, inside, _, rfl⟩ := relabelled request member
  exact drained earlier inside same

theorem drained_completeStep {scheduler : Scheduler} {id : RequestId}
    (drained : Drained scheduler id) (other : RequestId) (producedTokens : ℕ) :
    Drained (scheduler.completeStep other producedTokens) id := by
  intro request member same
  rcases Scheduler.mem_owning_completeStep member with old | ⟨earlier, old, -, rfl⟩
  · exact drained request old same
  · rw [(Scheduler.identity_complete earlier producedTokens).1] at same
    have empty := drained earlier old same
    simp only [Request.complete]
    split
    · split
      · rfl
      · simp only
        omega
    · exact empty

theorem drained_cancel {scheduler : Scheduler} {id : RequestId}
    (drained : Drained scheduler id) (other : RequestId) :
    Drained (scheduler.cancel other) id := by
  intro request member same
  refine drained request ?_ same
  rcases List.mem_append.mp member with active | parked
  · exact List.mem_append_left _ (Scheduler.mem_cancel.2.1 active)
  · exact List.mem_append_right _ (Scheduler.mem_cancel.2.2 parked)

theorem drained_of_prefill {answered : RequestId} {before after : PagedState}
    (runs : Runs (OfPrefill answered) before after) {id : RequestId} (drained : Drained before.scheduler id) : Drained after.scheduler id := by
  refine runs.keeps (motive := fun scheduler => Drained scheduler id) ?_ drained
  intro scheduler op fits drained
  cases op with
  | completeStep other produced => exact drained_completeStep drained other produced
  | cache op => exact drained
  | enqueue _ | scheduleNext | preempt _ _ | resume _ | cancel _ => exact fits.elim

theorem drained_of_decode {answered : RequestId} {before after : PagedState}
    (runs : Runs (OfDecode answered) before after) {id : RequestId} (drained : Drained before.scheduler id) : Drained after.scheduler id := by
  refine runs.keeps (motive := fun scheduler => Drained scheduler id) ?_ drained
  intro scheduler op fits drained
  cases op with
  | completeStep other produced => exact drained_completeStep drained other produced
  | preempt other reason =>
      exact drained_relabelled drained (scheduler.relabelled_preempt other reason)
  | cancel other => exact drained_cancel drained other
  | cache op => exact drained
  | enqueue _ | scheduleNext | resume _ => exact fits.elim

/-- The tokens written once the next token of a request is. -/
def withNext (progress : Progress) (id : RequestId) : RequestId → ℕ :=
  Function.update (committedOf progress) id (committedOf progress id + 1)

/-- A token is committed and then reported; a request that has its tokens is cancelled. -/
theorem tight_commitToken {blockTokens base : ℕ} {state : PagedState} {config : ReplayConfig}
    {id : RequestId} {progress : RequestProgress}
    (tight : TightAt blockTokens base (withNext state.progress id) state)
    (found : state.progress.lookup id = some progress)
    (counted : progress.finished = false → progress.committed + 1 < 2 ^ 32)
    (drained : ¬ Finished state.progress id → Drained state.scheduler id) :
    TightAt blockTokens base (committedOf (commitToken config id progress state).progress)
      (commitToken config id progress state) := by
  obtain ⟨touched, books⟩ := tight_foldl
    (fun state sequenceId =>
      touchPosition config.tokensPerBlock sequenceId progress.committed state)
    (fun state sequenceId tight =>
      ⟨tight_touchPosition tight _ _ _, books_touchPosition _ _ _ _⟩) progress.sequences tight
  have runs : Runs (OfDecode id) state (progress.sequences.foldl
      (fun state sequenceId =>
        touchPosition config.tokensPerBlock sequenceId progress.committed state) state) :=
    Runs.foldl (fun state sequenceId =>
      runs_touchPosition (fun _ _ _ => trivial) _ sequenceId _ state) _ _
  unfold commitToken
  generalize progress.sequences.foldl
    (fun state sequenceId =>
      touchPosition config.tokensPerBlock sequenceId progress.committed state) state =
    wrote at touched books runs
  have found' : wrote.progress.lookup id = some progress := by rw [books.progress, found]
  let entry : RequestProgress :=
    { progress with
      committed := wrap32 (progress.committed + 1)
      decoded := wrap32 (progress.decoded + 1) }
  have agree : ∀ other, ¬ Finished wrote.progress other →
      withNext state.progress id other ≤
        committedOf (wrote.progress.insert id entry) other := by
    intro other unfinished
    by_cases same : other = id
    · rw [same, finished_found found'] at unfinished
      rw [same, withNext, Function.update_self, committedOf_found found, committedOf_insert_self,
        show entry.committed = wrap32 (progress.committed + 1) from rfl,
        wrap32_of_lt (counted (Bool.eq_false_of_not_eq_true unfinished))]
    · rw [withNext, Function.update_of_ne same, committedOf_insert_ne _ _ same, books.progress]
  have stepped : Tight blockTokens base (committedOf (wrote.progress.insert id entry))
      (wrote.scheduler.completeStep id 1) (wrote.progress.insert id entry) := by
    refine Tight.update (Tight.complete touched.tight agree fun unfinished => Or.inr ?_) found' rfl
      fun _ => Or.inl
    rw [books.progress] at unfinished
    exact drained_of_decode runs (drained unfinished)
  have numbered : Numbered base (wrote.progress.insert id entry) wrote.nextForkSequence :=
    touched.numbered.update found' rfl le_rfl fun _ => Or.inl
  dsimp only
  split
  · let final : RequestProgress := { entry with finished := true, sequences := [] }
    have closed : Tight blockTokens base (committedOf (wrote.progress.insert id entry))
        ((wrote.scheduler.completeStep id 1).cancel id)
        ((wrote.progress.insert id entry).insert id final) := stepped.finish rfl rfl
    have present : (wrote.progress.insert id entry).lookup id = some entry :=
      AList.lookup_insert _
    refine ⟨closed.mono fun other unfinished => ?_, numbered.update present rfl le_rfl ?_⟩
    · by_cases same : other = id
      · rw [same] at unfinished
        exact absurd ⟨final, AList.lookup_insert _, rfl⟩ unfinished
      · exact (committedOf_insert_ne _ _ same).ge
    · intro sequenceId member
      exact absurd member List.not_mem_nil
  · exact ⟨stepped, numbered⟩

theorem TightAt.mono {tokensPerBlock base : ℕ} {written written' : RequestId → ℕ}
    {state : PagedState} (tight : TightAt tokensPerBlock base written state)
    (more : ∀ id, ¬ Finished state.progress id → written id ≤ written' id) :
    TightAt tokensPerBlock base written' state :=
  ⟨tight.tight.mono more, tight.numbered⟩

theorem le_withNext (progress : Progress) (id other : RequestId) :
    committedOf progress other ≤ withNext progress id other := by
  by_cases same : other = id
  · rw [same, withNext, Function.update_self]
    exact Nat.le_succ _
  · rw [withNext, Function.update_of_ne same]

theorem tight_parkNewest {tokensPerBlock base : ℕ} {written : RequestId → ℕ} (plan : BatchPlan)
    (freeBefore : ℕ) (ids : List RequestId) {state : PagedState}
    (tight : TightAt tokensPerBlock base written state) :
    TightAt tokensPerBlock base written (parkNewest plan freeBefore ids state).2 := by
  induction ids generalizing state with
  | nil => exact tight
  | cons id older induction =>
      have parked : TightAt tokensPerBlock base written
          (call (.preempt id "decode growth failed") state) :=
        ⟨tight.tight.preempt id _, tight.numbered⟩
      simp only [parkNewest]
      split
      · exact induction tight
      · split
        · exact parked
        · exact induction parked

/-- The committed count does not wrap around with one more token. If the token starts a block, the
pool has a frame for each sequence of the request, or none at all. -/
def GrowsWhole (config : ReplayConfig) (id : RequestId) (state : PagedState) : Prop :=
  ∀ entry, state.progress.lookup id = some entry → entry.finished = false →
    state.scheduler.preemptionInfo.lookup id = none →
    entry.committed + 1 < 2 ^ 32 ∧
      (entry.committed % config.tokensPerBlock = 0 → state.scheduler.freeBlocks = 0 ∨
        entry.sequences.length ≤ state.scheduler.freeBlocks)

/-- Growth that succeeds makes room for the next token, and growth that fails leaves no block
behind. -/
theorem tight_growth {base : ℕ} {state : PagedState} {config : ReplayConfig} {id : RequestId}
    {entry : RequestProgress}
    (tight : TightAt config.tokensPerBlock base (committedOf state.progress) state)
    (found : state.progress.lookup id = some entry)
    (whole : entry.finished = false → entry.committed % config.tokensPerBlock = 0 →
      state.scheduler.freeBlocks = 0 ∨ entry.sequences.length ≤ state.scheduler.freeBlocks) :
    let grown := growAll config.tokensPerBlock entry.committed entry.sequences state
    (grown.1 = true →
        TightAt config.tokensPerBlock base (withNext state.progress id) grown.2) ∧
      (grown.1 = false →
        TightAt config.tokensPerBlock base (committedOf state.progress) grown.2) := by
  have small := config.tokensPerBlock_lt
  have books := books_growAll config.tokensPerBlock entry.committed entry.sequences state
  have bumped := tight.mono fun other _ => le_withNext state.progress id other
  -- Growth within what is committed already keeps the bound in both cases.
  have settled (still : TightAt config.tokensPerBlock base (committedOf state.progress)
      (growAll config.tokensPerBlock entry.committed entry.sequences state).2) :
      let grown := growAll config.tokensPerBlock entry.committed entry.sequences state
      (grown.1 = true →
          TightAt config.tokensPerBlock base (withNext state.progress id) grown.2) ∧
        (grown.1 = false →
          TightAt config.tokensPerBlock base (committedOf state.progress) grown.2) :=
    ⟨fun _ => still.mono fun other _ => le_withNext state.progress id other, fun _ => still⟩
  rcases open_or : entry.finished with _ | _
  · by_cases exhausted : state.scheduler.freeBlocks = 0 ∨ state.scheduler.cache.tokensPerBlock = 0
    · refine settled (tight.of_books books ?_)
      rw [growAll_idle entry.committed small entry.sequences tight exhausted]
      exact tight.tight
    · by_cases starts : entry.committed % config.tokensPerBlock = 0
      · have enough := (whole open_or starts).resolve_left fun zero => exhausted (Or.inl zero)
        have below : entry.committed / config.tokensPerBlock * config.tokensPerBlock <
            withNext state.progress id id := by
          rw [withNext, Function.update_self, committedOf_found found]
          exact Nat.lt_succ_of_le (Nat.div_mul_le_self _ _)
        have success := growAll_full small entry.sequences bumped found (List.Subset.refl _)
          open_or below (fun zero => exhausted (Or.inr zero)) enough
        refine ⟨fun _ => tight_growAll entry.sequences bumped found (List.Subset.refl _)
          fun _ => below, fun failed => ?_⟩
        rw [success] at failed
        cases failed
      · refine settled (tight_growAll entry.sequences tight found (List.Subset.refl _) fun _ => ?_)
        rw [committedOf_found found]
        have parts := Nat.div_add_mod' entry.committed config.tokensPerBlock
        omega
  · have done : Finished state.progress id := ⟨entry, found, open_or⟩
    have grown : TightAt config.tokensPerBlock base (withNext state.progress id)
        (growAll config.tokensPerBlock entry.committed entry.sequences state).2 :=
      tight_growAll entry.sequences bumped found (List.Subset.refl _)
        fun unfinished => absurd done unfinished
    refine ⟨fun _ => grown, fun _ => grown.mono fun other unfinished => ?_⟩
    rw [books.progress] at unfinished
    have different : other ≠ id := by
      rintro rfl
      exact unfinished done
    rw [withNext, Function.update_of_ne different]

/-- Executing a planned decode step keeps the bound. -/
theorem tight_decodeOne {base : ℕ} {state : PagedState} {config : ReplayConfig} {id : RequestId}
    {plan : BatchPlan}
    (tight : TightAt config.tokensPerBlock base (committedOf state.progress) state)
    (drained : ¬ Finished state.progress id → Drained state.scheduler id)
    (whole : GrowsWhole config id state) :
    TightAt config.tokensPerBlock base
      (committedOf (decodeOne config plan id state).progress)
      (decodeOne config plan id state) := by
  rcases found : state.progress.lookup id with _ | entry
  · simp only [decodeOne, found]
    exact tight
  by_cases parked : (state.scheduler.preemptionInfo.lookup id).isSome
  · simp only [decodeOne, found, parked, if_true]
    exact tight
  have active : state.scheduler.preemptionInfo.lookup id = none := by simpa using parked
  obtain ⟨success, failure⟩ := tight_growth tight found
    fun unfinished => (whole entry found unfinished active).2
  have books := books_growAll config.tokensPerBlock entry.committed entry.sequences state
  have runs : Runs (OfDecode id) state
      (growAll config.tokensPerBlock entry.committed entry.sequences state).2 :=
    runs_growAll (fun _ _ => trivial) _ _ _ _
  simp only [decodeOne, found, if_neg parked]
  generalize growAll config.tokensPerBlock entry.committed entry.sequences state = result
    at success failure books runs
  obtain ⟨_ | _, grown⟩ := result
  · have flagged : TightAt config.tokensPerBlock base (committedOf state.progress)
        { grown with growthFailed := true } := ⟨(failure rfl).tight, (failure rfl).numbered⟩
    have parked := tight_parkNewest plan grown.scheduler.freeBlocks grown.live.reverse flagged
    have books' := books_parkNewest plan grown.scheduler.freeBlocks grown.live.reverse
      { grown with growthFailed := true }
    rw [← books'.progress.trans books.progress] at parked
    exact ⟨parked.tight, parked.numbered⟩
  · refine tight_commitToken ?_ (by rw [books.progress, found]) ?_ ?_
    · rw [books.progress]
      exact success rfl
    · exact fun unfinished => (whole entry found unfinished active).1
    · intro unfinished
      rw [books.progress] at unfinished
      exact drained_of_decode runs (drained unfinished)

/-! ## One step -/

/-- Nothing is left of the prompt of a request, unless it has produced its tokens. -/
def Settled (id : RequestId) (state : PagedState) : Prop :=
  Finished state.progress id ∨ Drained state.scheduler id

theorem settled_of_books {id changed : RequestId}
    {related : RequestProgress → RequestProgress → Prop} {before after : PagedState}
    (books : BooksOf changed related before after)
    (stays : ∀ old new, related old new → old.finished = true → new.finished = true)
    (drained : Drained before.scheduler id → Drained after.scheduler id)
    (settled : Settled id before) : Settled id after := by
  rcases settled with ⟨entry, found, done⟩ | empty
  · left
    by_cases same : id = changed
    · rw [same] at found ⊢
      obtain ⟨new, found', holds⟩ := books.entry entry found
      exact ⟨new, found', stays entry new holds done⟩
    · exact ⟨entry, by rw [books.others id same, found], done⟩
  · exact Or.inr (drained empty)

theorem settled_prefillOne {config : ReplayConfig} {changed id : RequestId} {chunk : ℕ}
    {state : PagedState} (settled : Settled id state) :
    Settled id (prefillOne config changed chunk state) := by
  rcases found : state.progress.lookup changed with _ | old
  · simp only [prefillOne, found]
    exact settled
  · refine settled_of_books (books_prefillOne config chunk found).1 ?_
      (drained_of_prefill (runs_prefillOne config changed chunk state)) settled
    intro old new written done
    rw [written.finished, done]

theorem settled_decodeOne {config : ReplayConfig} {plan : BatchPlan} {changed id : RequestId}
    {state : PagedState} (settled : Settled id state) :
    Settled id (decodeOne config plan changed state) := by
  refine settled_of_books (books_decodeOne config plan changed state).1 ?_
    (drained_of_decode (runs_decodeOne config plan changed state)) settled
  rintro old new (rfl | written) done
  · exact done
  · rw [written.finished, done, Bool.true_or]

/-- No chunk of the plan wraps a committed count around. -/
def ChunksCounted (config : ReplayConfig) : List (RequestId × ℕ) → PagedState → Prop
  | [], _ => True
  | (id, chunk) :: rest, state =>
      ChunkCounted id chunk state ∧ ChunksCounted config rest (prefillOne config id chunk state)

/-- Every decode step of the plan grows its request as a whole. -/
def DecodesWhole (config : ReplayConfig) (plan : BatchPlan) : List RequestId → PagedState → Prop
  | [], _ => True
  | id :: rest, state =>
      GrowsWhole config id state ∧ DecodesWhole config plan rest (decodeOne config plan id state)

/-- The condition on a step of the run, at the chunks and decode steps of its plan. -/
def StepsWhole (config : ReplayConfig) (state : PagedState) : Prop :=
  let plan := state.scheduler.scheduleNext.1
  let planned := call .scheduleNext (begin state)
  ChunksCounted config plan.chunks planned ∧
    DecodesWhole config plan plan.decodeRequests (prefillLoop config plan.chunks planned)

instance (id : RequestId) (chunk : ℕ) (state : PagedState) :
    Decidable (ChunkCounted id chunk state) :=
  inferInstanceAs (Decidable (∀ entry ∈ state.progress.lookup id, entry.finished = false →
    entry.committed + chunk < 2 ^ 32))

instance (config : ReplayConfig) (id : RequestId) (state : PagedState) :
    Decidable (GrowsWhole config id state) :=
  inferInstanceAs (Decidable (∀ entry ∈ state.progress.lookup id, entry.finished = false →
    state.scheduler.preemptionInfo.lookup id = none →
    entry.committed + 1 < 2 ^ 32 ∧
      (entry.committed % config.tokensPerBlock = 0 → state.scheduler.freeBlocks = 0 ∨
        entry.sequences.length ≤ state.scheduler.freeBlocks)))

instance ChunksCounted.decidable (config : ReplayConfig) :
    ∀ chunks state, Decidable (ChunksCounted config chunks state)
  | [], _ => inferInstanceAs (Decidable True)
  | (id, chunk) :: rest, state =>
      have := ChunksCounted.decidable config rest (prefillOne config id chunk state)
      inferInstanceAs (Decidable (_ ∧ _))

instance DecodesWhole.decidable (config : ReplayConfig) (plan : BatchPlan) :
    ∀ ids state, Decidable (DecodesWhole config plan ids state)
  | [], _ => inferInstanceAs (Decidable True)
  | id :: rest, state =>
      have := DecodesWhole.decidable config plan rest (decodeOne config plan id state)
      inferInstanceAs (Decidable (_ ∧ _))

instance (config : ReplayConfig) (state : PagedState) : Decidable (StepsWhole config state) :=
  inferInstanceAs (Decidable (_ ∧ _))

theorem tight_prefillLoop {base : ℕ} {config : ReplayConfig}
    (unpublished : config.prefixCaching = false) (chunks : List (RequestId × ℕ))
    {state : PagedState}
    (tight : TightAt config.tokensPerBlock base (committedOf state.progress) state)
    (owns : ∀ id chunk, (id, chunk) ∈ chunks → id ∈ state.scheduler.owners.map (·.requestId))
    (counted : ChunksCounted config chunks state) :
    TightAt config.tokensPerBlock base
      (committedOf (prefillLoop config chunks state).progress)
      (prefillLoop config chunks state) := by
  induction chunks generalizing state with
  | nil => exact tight
  | cons planned rest induction =>
      obtain ⟨id, chunk⟩ := planned
      refine induction (tight_prefillOne unpublished tight (owns id chunk List.mem_cons_self)
        counted.1) (fun other chunk' member => ?_) counted.2
      rw [owners_of_prefill (runs_prefillOne config id chunk state)]
      exact owns other chunk' (List.mem_cons_of_mem _ member)

theorem settled_prefillLoop {config : ReplayConfig} {id : RequestId}
    (chunks : List (RequestId × ℕ)) {state : PagedState} (settled : Settled id state) :
    Settled id (prefillLoop config chunks state) := by
  induction chunks generalizing state with
  | nil => exact settled
  | cons planned rest induction => exact induction (settled_prefillOne settled)

theorem tight_decodeLoop {base : ℕ} {config : ReplayConfig} {plan : BatchPlan}
    (ids : List RequestId) {state : PagedState}
    (tight : TightAt config.tokensPerBlock base (committedOf state.progress) state)
    (settled : ∀ id ∈ ids, Settled id state) (whole : DecodesWhole config plan ids state) :
    TightAt config.tokensPerBlock base
      (committedOf (decodeLoop config plan ids state).progress)
      (decodeLoop config plan ids state) := by
  induction ids generalizing state with
  | nil => exact tight
  | cons id rest induction =>
      have drained : ¬ Finished state.progress id → Drained state.scheduler id :=
        (settled id List.mem_cons_self).resolve_left
      exact induction (tight_decodeOne tight drained whole.1)
        (fun other member => settled_decodeOne (settled other (List.mem_cons_of_mem _ member)))
        whole.2

theorem tight_settle {tokensPerBlock base : ℕ} {written : RequestId → ℕ} {state : PagedState}
    (tight : TightAt tokensPerBlock base written state) :
    TightAt tokensPerBlock base written (settle state) := by
  obtain ⟨progress, next, -⟩ := books_settle state
  refine ⟨?_, by rw [progress, next]; exact tight.numbered⟩
  rw [progress]
  refine (runs_settle state).keeps
    (motive := fun scheduler => Tight tokensPerBlock base written scheduler state.progress) ?_
    tight.tight
  intro scheduler op fits kept
  cases op with
  | resume id => exact kept.resume id
  | enqueue _ | scheduleNext | completeStep _ _ | preempt _ _ | cancel _ | cache _ =>
      exact fits.elim

theorem eq_of_count_map_le_one {α β : Type*} [DecidableEq β] {items : List α} {label : α → β}
    {value : β} (single : (items.map label).count value ≤ 1) {first second : α}
    (left : first ∈ items) (right : second ∈ items) (first_eq : label first = value)
    (second_eq : label second = value) : first = second := by
  have short : (items.filter fun item => label item == value).length ≤ 1 := by
    rwa [List.count, List.countP_map, List.countP_eq_length_filter] at single
  have inside (item : α) (member : item ∈ items) (named : label item = value) :
      item ∈ items.filter fun item => label item == value :=
    List.mem_filter.mpr ⟨member, by simp [named]⟩
  have left' := inside first left first_eq
  have right' := inside second right second_eq
  obtain ⟨only, same⟩ := List.length_eq_one_iff.mp (le_antisymm short (List.length_pos_of_mem left'))
  rw [same, List.mem_singleton] at left' right'
  rw [left', right']

/-- A planned decode step is one of a request without prompt left, if the request is unfinished. -/
theorem settled_planned {tokensPerBlock base : ℕ} {written : RequestId → ℕ} {state : PagedState}
    (tight : TightAt tokensPerBlock base written state) {id : RequestId}
    (planned : id ∈ state.scheduler.scheduleNext.1.decodeRequests) :
    Settled id (call .scheduleNext (begin state)) := by
  by_cases done : Finished state.progress id
  · exact Or.inl done
  right
  have snug : Scheduler.Snug tokensPerBlock written (Finished state.progress)
      state.scheduler.scheduleNext.2 := Scheduler.snug_scheduleNext tight.tight.snug
  obtain ⟨decoding, active, rfl, state_eq⟩ := state.scheduler.decoding_planned planned
  have empty := snug.decoded decoding active (by rw [state_eq]; decide)
  intro request member same
  -- The id has one owner, so the request is the one that decodes.
  have single : (state.scheduler.scheduleNext.2.owning.map (·.requestId)).count
      decoding.requestId ≤ 1 := by
    have counted := snug.single decoding.requestId done
    rwa [Scheduler.owners, List.map_map] at counted
  have equal := eq_of_count_map_le_one single member (List.mem_append_left _ active) same rfl
  rw [equal, empty]

/-- A step of the run keeps the bound. -/
theorem tight_oneStep {base : ℕ} {trace : Trace} {config : ReplayConfig} {state : PagedState}
    (unpublished : config.prefixCaching = false)
    (tight : TightAt config.tokensPerBlock base (committedOf state.progress) state)
    (whole : StepsWhole config state) :
    TightAt config.tokensPerBlock base (committedOf (oneStep trace config state).progress)
      (oneStep trace config state) := by
  have planned : TightAt config.tokensPerBlock base (committedOf state.progress)
      (call .scheduleNext (begin state)) :=
    ⟨tight.tight.scheduleNext tight.numbered, tight.numbered⟩
  have filled := tight_prefillLoop unpublished state.scheduler.scheduleNext.1.chunks planned
    (fun id chunk member => (state.scheduler.chunked_scheduleNext member).2) whole.1
  have decoded := tight_decodeLoop state.scheduler.scheduleNext.1.decodeRequests filled
    (fun id member => settled_prefillLoop _ (settled_planned tight member)) whole.2
  have ended := tight_settle decoded
  rw [← (books_settle _).1] at ended
  exact ⟨ended.tight, ended.numbered⟩

/-! ## The start -/

theorem plain_fresh (trace : Trace) (config : ReplayConfig) (slab : ℕ → UInt8) :
    (freshScheduler trace config slab).cache.Plain config.tokensPerBlock := by
  have undivided : (frameShape trace config).perLayerFrames = false := by
    simp only [BlockShape.perLayerFrames, BlockShape.frameLayers, frameShape, if_true]
    by_cases one : trace.header.numLayers = 1
    · simp [one]
    · simp [one]
  refine ⟨KVCacheManager.sound_create (MemoryAllocator.sound_create _ _ _ ?_),
    KVCacheManager.listed_create _, ?_, rfl⟩
  · intro installed equal
    obtain ⟨slots, -, rfl⟩ := Option.map_eq_some_iff.mp equal
    rfl
  · change (poolConfig trace config).tableCount = 1
    simp [AllocatorConfig.tableCount, poolConfig, undivided]

/-- Requests wait, and nothing else happened. -/
structure Enrolled (config : ReplayConfig) (state : PagedState) : Prop where
  snug : state.scheduler.Snug config.tokensPerBlock (fun _ => 0) (fun _ => False)
  empty : ∀ id, state.scheduler.cache.outline id = none
  low : ∀ request ∈ state.scheduler.pending, request.requestId < state.nextForkSequence
  fresh : ∀ id entry, state.progress.lookup id = some entry →
    id < state.nextForkSequence ∧ entry.request.requestId = id ∧ entry.sequences = []
  idle : state.live = []

theorem enrolled_enroll {config : ReplayConfig} {state : PagedState}
    (enrolled : Enrolled config state) (request : TraceRequest) :
    Enrolled config (enroll config state request) where
  snug := Scheduler.snug_enqueue enrolled.snug rfl
  empty := enrolled.empty
  low waiting member := by
    rcases List.mem_append.mp member with old | new
    · exact (enrolled.low waiting old).trans_le (le_max_left _ _)
    · rw [List.mem_singleton.mp new]
      exact (Nat.lt_succ_self request.requestId).trans_le (le_max_right _ _)
  fresh id entry inside := by
    obtain ⟨rfl, rfl⟩ | ⟨-, inside⟩ := AList.lookup_insert_cases inside
    · exact ⟨(Nat.lt_succ_self request.requestId).trans_le (le_max_right _ _), rfl, rfl⟩
    · obtain ⟨below, rest⟩ := enrolled.fresh id entry inside
      exact ⟨below.trans_le (le_max_left _ _), rest⟩
  idle := enrolled.idle

theorem enrolled_initial (trace : Trace) (config : ReplayConfig) (slab : ℕ → UInt8) :
    Enrolled config (initial trace config slab) := by
  unfold initial
  refine List.foldlRecOn (motive := Enrolled config) trace.requests _ ?_
    fun _ enrolled request _ => enrolled_enroll enrolled request
  have empty (id : SequenceId) : (freshScheduler trace config slab).cache.outline id = none :=
    KVCacheManager.outline_eq_none.mpr (AList.lookup_empty id)
  constructor
  case snug =>
    constructor
    case plain => exact plain_fresh trace config slab
    case gauged =>
      intro key records found
      exact absurd found (by simp [freshScheduler, Scheduler.create, KVCacheManager.overPool,
        KVCacheManager.create])
    case named => simp [freshScheduler, Scheduler.create, Scheduler.owning]
    case waiting => simp [freshScheduler, Scheduler.create]
    case decoded => simp [freshScheduler, Scheduler.create]
    case single => simp [freshScheduler, Scheduler.create, Scheduler.owners]
    case rooted => simp [freshScheduler, Scheduler.create, Scheduler.owning]
    case whole =>
      intro id owner sizes held
      rw [empty] at held
      cases held
    case flat =>
      intro id owner sizes held
      rw [empty] at held
      cases held
    case snug =>
      intro id owner size held
      rw [empty] at held
      cases held
  case empty => exact empty
  case low => simp [freshScheduler, Scheduler.create]
  case fresh => simp
  case idle => rfl

/-- Before the first step nothing is mapped. -/
theorem tight_initial (trace : Trace) (config : ReplayConfig) (slab : ℕ → UInt8) :
    TightAt config.tokensPerBlock (initial trace config slab).nextForkSequence
      (committedOf (initial trace config slab).progress) (initial trace config slab) := by
  have enrolled := enrolled_initial trace config slab
  refine ⟨⟨enrolled.snug.mono (fun _ _ => Nat.zero_le _) fun _ closed => closed.elim,
    enrolled.low, ?_, ?_, ?_⟩, ⟨le_rfl, ?_, ?_, ?_, ?_⟩⟩
  · intro id entry found _ sequenceId member
    rw [(enrolled.fresh id entry found).2.2] at member
    exact absurd member List.not_mem_nil
  · intro id entry found sequenceId member
    rw [(enrolled.fresh id entry found).2.2] at member
    exact absurd member List.not_mem_nil
  · intro id _ owner sizes held
    rw [enrolled.empty] at held
    cases held
  · exact fun id entry found => (enrolled.fresh id entry found).1
  · exact fun id entry found => (enrolled.fresh id entry found).2.1
  · intro id entry found sequenceId member
    rw [(enrolled.fresh id entry found).2.2] at member
    exact absurd member List.not_mem_nil
  · intro id entry found sequenceId member
    rw [(enrolled.fresh id entry found).2.2] at member
    exact absurd member List.not_mem_nil

theorem tight_reached {trace : Trace} {config : ReplayConfig} {slab : ℕ → UInt8}
    {state : PagedState} (unpublished : config.prefixCaching = false)
    (reached : Reached trace config slab (StepsWhole config) state) :
    TightAt config.tokensPerBlock (initial trace config slab).nextForkSequence
      (committedOf state.progress) state := by
  induction reached with
  | start => exact tight_initial trace config slab
  | step reached going whole induction => exact tight_oneStep unpublished induction whole

/-! ## Live requests -/

/-- Every live request has committed a token, unless it has produced all of them. -/
def Started (state : PagedState) : Prop :=
  ∀ id ∈ state.live, ∀ entry, state.progress.lookup id = some entry → entry.finished = false →
    0 < entry.committed

theorem started_prefillLoop {config : ReplayConfig} (chunks : List (RequestId × ℕ))
    {state : PagedState} (started : Started state)
    (positive : ∀ id chunk, (id, chunk) ∈ chunks → 0 < chunk)
    (counted : ChunksCounted config chunks state) :
    Started (prefillLoop config chunks state) := by
  induction chunks generalizing state with
  | nil => exact started
  | cons planned rest induction =>
      obtain ⟨id, chunk⟩ := planned
      refine induction ?_ (fun other chunk' member =>
        positive other chunk' (List.mem_cons_of_mem _ member)) counted.2
      rcases found : state.progress.lookup id with _ | old
      · simp only [prefillOne, found]
        exact started
      obtain ⟨books, live⟩ := books_prefillOne config chunk found
      intro other member entry inside unfinished
      by_cases same : other = id
      · obtain ⟨new, found', wrote⟩ := books.entry old found
        obtain rfl := Option.some.inj (found'.symm.trans (same ▸ inside))
        have bounded := counted.1 old found (wrote.finished ▸ unfinished)
        rw [wrote.committed, wrap32_of_lt bounded]
        exact Nat.add_pos_right _ (positive id chunk List.mem_cons_self)
      · rw [books.others other same] at inside
        refine started other ?_ entry inside unfinished
        rw [live] at member
        split at member
        · exact member
        · exact (List.mem_append.mp member).resolve_right fun new =>
            same (List.mem_singleton.mp new)

theorem started_decodeLoop {config : ReplayConfig} {plan : BatchPlan} (ids : List RequestId)
    {state : PagedState} (started : Started state) (whole : DecodesWhole config plan ids state) :
    Started (decodeLoop config plan ids state) := by
  induction ids generalizing state with
  | nil => exact started
  | cons id rest induction =>
      refine induction ?_ whole.2
      by_cases parked : (state.scheduler.preemptionInfo.lookup id).isSome
      · have same : decodeOne config plan id state = state := by
          unfold decodeOne
          split
          · rfl
          · rw [if_pos parked]
        rwa [same]
      obtain ⟨books, live⟩ := books_decodeOne config plan id state
      intro other member entry inside unfinished
      rw [live] at member
      by_cases same : other = id
      · rw [same] at inside
        rcases found : state.progress.lookup id with _ | old
        · have idle : decodeOne config plan id state = state := by
            simp only [decodeOne, found]
          rw [idle, found] at inside
          cases inside
        obtain ⟨new, found', wrote⟩ := books.entry old found
        obtain rfl := Option.some.inj (found'.symm.trans inside)
        rcases wrote with rfl | wrote
        · exact started id (same ▸ member) _ found unfinished
        · have open_before : old.finished = false := by
            rw [wrote.finished] at unfinished
            exact (Bool.or_eq_false_iff.mp unfinished).1
          have bounded := (whole.1 old found open_before (by simpa using parked)).1
          rw [wrote.committed, wrap32_of_lt bounded]
          exact Nat.succ_pos _
      · rw [books.others other same] at inside
        exact started other member entry inside unfinished

/-- Live requests have started and are not finished. -/
theorem live_reached {trace : Trace} {config : ReplayConfig} {slab : ℕ → UInt8}
    {state : PagedState} (reached : Reached trace config slab (StepsWhole config) state) :
    Started state ∧ ∀ id ∈ state.live, ¬ Finished state.progress id := by
  induction reached with
  | start =>
      have idle := (enrolled_initial trace config slab).idle
      constructor
      · intro id member
        rw [idle] at member
        exact absurd member List.not_mem_nil
      · intro id member
        rw [idle] at member
        exact absurd member List.not_mem_nil
  | @step state reached going whole induction =>
      have started : Started (call .scheduleNext (begin state)) := induction.1
      have filled := started_prefillLoop state.scheduler.scheduleNext.1.chunks started
        (fun id chunk member => (state.scheduler.chunked_scheduleNext member).1) whole.1
      have decoded := started_decodeLoop state.scheduler.scheduleNext.1.decodeRequests filled
        whole.2
      obtain ⟨progress, -, live⟩ := books_settle
        (decodeLoop config state.scheduler.scheduleNext.1
          state.scheduler.scheduleNext.1.decodeRequests
          (prefillLoop config state.scheduler.scheduleNext.1.chunks
            (call .scheduleNext (begin state))))
      constructor
      · intro id member entry inside unfinished
        change id ∈ (settle _).live at member
        change (settle _).progress.lookup id = _ at inside
        rw [live] at member
        rw [progress] at inside
        exact decoded id (List.mem_filter.mp member).1 entry inside unfinished
      · intro id member finished
        change id ∈ (settle _).live at member
        obtain ⟨entry, inside, done⟩ := finished
        change (settle _).progress.lookup id = _ at inside
        rw [live] at member
        rw [progress] at inside
        have open_id := (List.mem_filter.mp member).2
        simp [isFinished, inside, done] at open_id

/-- The sequences of every live request that decodes map less than one block beyond its committed
tokens. -/
def WasteBounded (config : ReplayConfig) (state : PagedState) : Prop :=
  ∀ id ∈ state.live, ∀ request ∈ state.scheduler.active, request.requestId = id →
    request.state = .decode → ∀ entry, state.progress.lookup id = some entry →
      ∀ sequenceId ∈ entry.sequences, ∃ sequence,
        state.scheduler.cache.sequences.lookup sequenceId = some sequence ∧
        sequence.textTable.size * config.tokensPerBlock <
          entry.committed + config.tokensPerBlock

instance (config : ReplayConfig) (state : PagedState) : Decidable (WasteBounded config state) :=
  inferInstanceAs (Decidable (∀ id ∈ state.live, ∀ request ∈ state.scheduler.active,
    request.requestId = id → request.state = .decode →
    ∀ entry ∈ state.progress.lookup id, ∀ sequenceId ∈ entry.sequences,
      ∃ sequence ∈ state.scheduler.cache.sequences.lookup sequenceId,
        sequence.textTable.size * config.tokensPerBlock <
          entry.committed + config.tokensPerBlock))

/-- At the end of every step the waste is bounded, if every step so far grew its requests as a
whole. -/
theorem waste_below_one_block (trace : Trace) (config : ReplayConfig) (slab : ℕ → UInt8)
    (unpublished : config.prefixCaching = false) (state : PagedState)
    (reached : Reached trace config slab (StepsWhole config) state) :
    WasteBounded config state := by
  rintro id member request active rfl decoding entry found sequenceId mapped
  have tight := (tight_reached unpublished reached).tight
  obtain ⟨started, unfinished⟩ := live_reached reached
  have open_id := unfinished request.requestId member
  have open_entry : entry.finished = false := by
    rw [finished_found found] at open_id
    exact Bool.eq_false_of_not_eq_true open_id
  obtain ⟨sizes, held⟩ := tight.mapped request.requestId entry found open_entry sequenceId mapped
  obtain ⟨size, rfl⟩ := tight.snug.flat sequenceId request.requestId sizes held
  obtain ⟨sequence, present, -⟩ := KVCacheManager.outline_eq_some.mp held
  refine ⟨sequence, present, ?_⟩
  have positive := started request.requestId member entry found open_entry
  have bound := tight.snug.snug sequenceId request.requestId size held open_id request
    (List.mem_append_left _ active) rfl
  rw [tight.snug.decoded request active (by rw [decoding]; decide),
    committedOf_found found] at bound
  rw [textTable_size present held]
  rcases Nat.eq_zero_or_pos config.tokensPerBlock with zero | sized
  · simpa [zero] using positive
  · omega

/-- One request of two tokens and two samples. -/
def twinTrace : Trace :=
  ⟨⟨1, 1, 1, 1⟩, [⟨1, 2, 2, 2, 2, "", two_lt_word, two_lt_word, two_lt_word, two_lt_word⟩]⟩

/-- Blocks of two tokens, and no swap space. -/
def twinConfig (maxBlocks : ℕ) (small : maxBlocks < 2 ^ 32) : ReplayConfig :=
  ⟨2, maxBlocks, 8, 64, 0, 0, true, 8, false, 16, 3, two_lt_word, small, eight_lt_word⟩

/-- In a pool of eight frames both samples grow, and are left with a half empty block. -/
theorem waste_below_one_block_roomy :
    let config := twinConfig 8 eight_lt_word
    let state := oneStep twinTrace config (oneStep twinTrace config
      (initial twinTrace config fun _ => 0))
    state.live = [1] ∧ committedOf state.progress 1 = 3 ∧
      state.scheduler.cache.outline 1 = some (1, [2]) ∧ WasteBounded config state := by
  refine ⟨by decide +kernel, by decide +kernel, by decide +kernel, ?_⟩
  refine waste_below_one_block twinTrace (twinConfig 8 eight_lt_word) (fun _ => 0) rfl _ ?_
  exact .step (.step .start ⟨by decide +kernel, by decide +kernel⟩ (by decide +kernel))
    ⟨by decide +kernel, by decide +kernel⟩ (by decide +kernel)

/-- In a pool of two frames the root takes the last frame, and its branch gets none. The request is
parked and resumed, and decodes with a root that maps a whole empty block. -/
theorem failed_growth_strands_block :
    let config := twinConfig 2 two_lt_word
    ∃ state, Reached twinTrace config (fun _ => 0) (fun _ => True) state ∧
      ¬ WasteBounded config state :=
  ⟨final twinTrace (twinConfig 2 two_lt_word) fun _ => 0, reached_final _ _ _,
    by decide +kernel⟩

end PagedReplay

end QwenVLPaged
