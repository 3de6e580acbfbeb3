import QwenVLPaged.SchedulerRun

/-!
# Bounded overtaking

Every pending request is given a ticket when it is enqueued: its number in the order of arrival
and how often a later arrival was admitted while it waited. The tickets are carried beside the
scheduler and read nothing of its skip counters. The counters turn out to be exactly these
numbers, they never increase along the queue, and only a head below the limit may be skipped.
-/

namespace QwenVLPaged

/-- What a waiting request has gone through. -/
structure Ticket where
  arrival : ℕ
  overtaken : ℕ
  deriving DecidableEq

/-- The tickets after the request at a position is admitted: everybody who arrived before it and
still waits has been overtaken once more. -/
def overtake (tickets : List Ticket) (position : ℕ) : List Ticket :=
  match tickets[position]? with
  | none => tickets
  | some admitted =>
      (tickets.eraseIdx position).map fun ticket =>
        if ticket.arrival < admitted.arrival then
          { ticket with overtaken := ticket.overtaken + 1 }
        else
          ticket

/-- The scheduler with the tickets of its pending requests, in queue order. -/
structure Ticketed where
  scheduler : Scheduler
  tickets : List Ticket
  arrivals : ℕ

namespace Ticketed

/-- A new scheduler has issued no ticket. -/
def create (config : SchedulerConfig) (cache : KVCacheManager) : Ticketed :=
  ⟨.create config cache, [], 0⟩

/-- Execute one call and update the tickets. -/
def step (state : Ticketed) (op : SchedulerOp) : Ticketed :=
  let scheduler := state.scheduler.step op
  match op with
  | .enqueue _ =>
      { scheduler
        tickets := state.tickets ++ [⟨state.arrivals, 0⟩]
        arrivals := state.arrivals + 1 }
  | .scheduleNext =>
      { state with
        scheduler
        tickets := state.scheduler.admitPending.1.foldl overtake state.tickets }
  | .cancel requestId =>
      { state with
        scheduler
        tickets := state.tickets.eraseIdx
          (state.scheduler.pending.findIdx fun request => request.requestId == requestId) }
  | _ => { state with scheduler }

def run (state : Ticketed) (ops : List SchedulerOp) : Ticketed := Execution.run step state ops

/-- Tickets do not influence the scheduler. -/
theorem scheduler_run (state : Ticketed) (ops : List SchedulerOp) :
    (state.run ops).scheduler = state.scheduler.run ops := by
  refine Execution.project_run (fun state op => ?_) state ops
  cases op <;> rfl

end Ticketed

/-- How often a waiting request may be overtaken. -/
def SchedulerConfig.overtakingLimit (config : SchedulerConfig) : ℕ :=
  if config.sizeAwareAdmission then config.admissionSkipLimit else 0

/-- The tickets of a queue: the skip counters record the overtakings, arrivals increase along the
queue, overtakings do not, and none is past the limit. -/
structure Tickets (limit : ℕ) (pending : List Request) (tickets : List Ticket) : Prop where
  recorded : pending.map (·.admissionSkips) = tickets.map (·.overtaken)
  arrivals : tickets.Pairwise fun earlier later => earlier.arrival < later.arrival
  overtakings : tickets.Pairwise fun earlier later => later.overtaken ≤ earlier.overtaken
  bounded : ∀ ticket ∈ tickets, ticket.overtaken ≤ limit

/-! ## One admission -/

theorem overtake_split {front back : List Ticket} {admitted : Ticket}
    (ordered : (front ++ admitted :: back).Pairwise fun earlier later =>
      earlier.arrival < later.arrival) :
    overtake (front ++ admitted :: back) front.length =
      front.map (fun ticket => { ticket with overtaken := ticket.overtaken + 1 }) ++ back := by
  obtain ⟨-, behind, before⟩ := List.pairwise_append.mp ordered
  have later := (List.pairwise_cons.mp behind).1
  have found : (front ++ admitted :: back)[front.length]? = some admitted := by simp
  simp only [overtake, found, List.eraseIdx_append_of_length_le (le_refl _), Nat.sub_self,
    List.eraseIdx_zero, List.tail_cons, List.map_append]
  congr 1
  · refine List.map_congr_left fun ticket member => ?_
    rw [if_pos (before ticket member admitted List.mem_cons_self)]
  · refine (List.map_congr_left fun ticket member => ?_).trans (List.map_id back)
    rw [if_neg (not_lt.mpr (later ticket member).le), id]

theorem skipBefore_eraseIdx {pending : List Request} {position : ℕ}
    (inside : position < pending.length) :
    (Scheduler.skipBefore pending position).eraseIdx position =
      (pending.take position).map (fun request =>
        { request with admissionSkips := wrap32 (request.admissionSkips + 1) }) ++
        pending.drop (position + 1) := by
  have length : ((pending.take position).map fun request : Request =>
      { request with admissionSkips := wrap32 (request.admissionSkips + 1) }).length =
      position := by
    rw [List.length_map, List.length_take, min_eq_left inside.le]
  rw [Scheduler.skipBefore, List.eraseIdx_append_of_length_le length.le, length, Nat.sub_self,
    List.eraseIdx_zero, List.tail_drop]

/-- The head of the queue has been overtaken most often. -/
theorem Tickets.head {limit : ℕ} {pending : List Request} {tickets : List Ticket}
    (valid : Tickets limit pending tickets) {front : Request}
    (first : pending.head? = some front) :
    ∀ ticket ∈ tickets, ticket.overtaken ≤ front.admissionSkips := by
  obtain ⟨recorded, -, overtakings, -⟩ := valid
  cases tickets with
  | nil => simp
  | cons oldest tickets =>
      have same : front.admissionSkips = oldest.overtaken := by
        have heads := congrArg List.head? recorded
        rw [List.head?_map, first] at heads
        exact Option.some.inj heads
      intro ticket member
      rw [same]
      rcases List.mem_cons.mp member with rfl | behind
      · exact le_rfl
      · exact (List.pairwise_cons.mp overtakings).1 ticket behind

/-- Admitting a request keeps the tickets when everybody in front of it is below the limit. -/
theorem Tickets.admitted {limit : ℕ} {pending : List Request} {tickets : List Ticket}
    (valid : Tickets limit pending tickets) (small : limit < 2 ^ 32) {position : ℕ}
    (inside : position < pending.length)
    (below : ∀ ticket ∈ tickets.take position, ticket.overtaken < limit) :
    Tickets limit ((Scheduler.skipBefore pending position).eraseIdx position)
      (overtake tickets position) := by
  obtain ⟨recorded, arrivals, overtakings, bounded⟩ := valid
  have issued : position < tickets.length := by
    have lengths := congrArg List.length recorded
    rw [List.length_map, List.length_map] at lengths
    rwa [← lengths]
  obtain ⟨front, admitted, back, rfl, rfl⟩ : ∃ front admitted back,
      tickets = front ++ admitted :: back ∧ position = front.length := by
    refine ⟨tickets.take position, tickets[position], tickets.drop (position + 1), ?_, ?_⟩
    · rw [← List.drop_eq_getElem_cons issued, List.take_append_drop]
    · rw [List.length_take, min_eq_left issued.le]
  rw [List.take_left] at below
  obtain ⟨front_falls, rest_falls, across_falls⟩ := List.pairwise_append.mp overtakings
  obtain ⟨front_rises, rest_rises, across_rises⟩ := List.pairwise_append.mp arrivals
  rw [overtake_split arrivals, skipBefore_eraseIdx inside]
  refine ⟨?_, ?_, ?_, ?_⟩
  · have before : (pending.take front.length).map (·.admissionSkips) = front.map (·.overtaken) := by
      rw [List.map_take, recorded, List.map_append, List.take_left' (List.length_map _)]
    have behind : (pending.drop (front.length + 1)).map (·.admissionSkips) =
        back.map (·.overtaken) := by
      rw [List.map_drop, recorded, ← List.map_drop]
      simp
    rw [List.map_append, List.map_append, behind, List.map_map, List.map_map]
    congr 1
    calc
      (pending.take front.length).map (fun request => wrap32 (request.admissionSkips + 1)) =
          ((pending.take front.length).map (·.admissionSkips)).map fun skips =>
            wrap32 (skips + 1) := by rw [List.map_map]; rfl
      _ = front.map fun ticket => wrap32 (ticket.overtaken + 1) := by
        rw [before, List.map_map]; rfl
      _ = front.map fun ticket => ticket.overtaken + 1 :=
        List.map_congr_left fun ticket member =>
          wrap32_of_lt (lt_of_le_of_lt (below ticket member) small)
  · refine List.pairwise_append.mpr ⟨?_, (List.pairwise_cons.mp rest_rises).2, ?_⟩
    · exact List.pairwise_map.mpr front_rises
    · simp only [List.mem_map, forall_exists_index, and_imp, forall_apply_eq_imp_iff₂]
      exact fun earlier member later behind =>
        across_rises earlier member later (List.mem_cons_of_mem _ behind)
  · refine List.pairwise_append.mpr ⟨?_, (List.pairwise_cons.mp rest_falls).2, ?_⟩
    · exact List.pairwise_map.mpr (front_falls.imp Nat.succ_le_succ)
    · simp only [List.mem_map, forall_exists_index, and_imp, forall_apply_eq_imp_iff₂]
      exact fun earlier member later behind =>
        (across_falls earlier member later (List.mem_cons_of_mem _ behind)).trans (Nat.le_succ _)
  · intro ticket member
    rcases List.mem_append.mp member with skipped | behind
    · obtain ⟨earlier, inside_front, rfl⟩ := List.mem_map.mp skipped
      exact below earlier inside_front
    · exact bounded ticket (by simp [behind])

/-! ## One call -/

theorem Tickets.eraseIdx {limit : ℕ} {pending : List Request} {tickets : List Ticket}
    (valid : Tickets limit pending tickets) (position : ℕ) :
    Tickets limit (pending.eraseIdx position) (tickets.eraseIdx position) where
  recorded := by rw [← List.eraseIdx_map, ← List.eraseIdx_map, valid.recorded]
  arrivals := valid.arrivals.sublist (List.eraseIdx_sublist _ _)
  overtakings := valid.overtakings.sublist (List.eraseIdx_sublist _ _)
  bounded := fun ticket member => valid.bounded ticket (List.mem_of_mem_eraseIdx member)

theorem Tickets.enqueue {limit : ℕ} {pending : List Request} {tickets : List Ticket}
    (valid : Tickets limit pending tickets) {arrivals : ℕ}
    (issued : ∀ ticket ∈ tickets, ticket.arrival < arrivals) {request : Request}
    (unskipped : request.admissionSkips = 0) :
    Tickets limit (pending ++ [request]) (tickets ++ [⟨arrivals, 0⟩]) where
  recorded := by simp [valid.recorded, unskipped]
  arrivals := List.pairwise_append.mpr ⟨valid.arrivals, List.pairwise_singleton _ _,
    by simpa using issued⟩
  overtakings := List.pairwise_append.mpr ⟨valid.overtakings, List.pairwise_singleton _ _,
    by simp⟩
  bounded := by
    intro ticket member
    rcases List.mem_append.mp member with waiting | new
    · exact valid.bounded ticket waiting
    · simp [List.mem_singleton.mp new]

theorem SchedulerConfig.overtakingLimit_le (config : SchedulerConfig) :
    config.overtakingLimit ≤ config.admissionSkipLimit := by
  unfold overtakingLimit
  split <;> omega

theorem arrival_of_mem_overtake {tickets : List Ticket} {position : ℕ} {ticket : Ticket}
    (member : ticket ∈ overtake tickets position) :
    ∃ earlier ∈ tickets, earlier.arrival = ticket.arrival := by
  unfold overtake at member
  split at member
  · exact ⟨ticket, member, rfl⟩
  · obtain ⟨earlier, inside, rfl⟩ := List.mem_map.mp member
    refine ⟨earlier, List.mem_of_mem_eraseIdx inside, ?_⟩
    split <;> rfl

namespace Scheduler

/-- One round of the admission loop keeps the tickets. -/
theorem tickets_admitFromPending (fuel : ℕ) {scheduler : Scheduler} (plan : BatchPlan)
    {tickets : List Ticket} {arrivals : ℕ}
    (valid : Tickets scheduler.config.overtakingLimit scheduler.pending tickets)
    (issued : ∀ ticket ∈ tickets, ticket.arrival < arrivals) :
    let result := admitFromPending fuel scheduler plan
    result.2.2.config = scheduler.config ∧
      Tickets scheduler.config.overtakingLimit result.2.2.pending
        (result.1.foldl overtake tickets) ∧
      ∀ ticket ∈ result.1.foldl overtake tickets, ticket.arrival < arrivals := by
  induction fuel generalizing scheduler plan tickets with
  | zero => exact ⟨rfl, valid, issued⟩
  | succ fuel induction =>
      obtain ⟨after, ended, -, pending, config⟩ |
          ⟨after, position, planned, admitted, -, pending, config, inside, skippable⟩ :=
        admitRound_cases scheduler plan
      · simp only [admitFromPending, ended]
        exact ⟨config, pending ▸ valid, issued⟩
      · have below : ∀ ticket ∈ tickets.take position,
            ticket.overtaken < scheduler.config.overtakingLimit := by
          intro ticket member
          rcases skippable with rfl | ⟨front, first, free⟩
          · simp at member
          · simp only [mustTakeHead, Bool.or_eq_false_iff, Bool.not_eq_false',
              decide_eq_false_iff_not, not_le] at free
            have head := valid.head first ticket (List.mem_of_mem_take member)
            rw [SchedulerConfig.overtakingLimit, if_pos free.1]
            omega
        have small := lt_of_le_of_lt scheduler.config.overtakingLimit_le
          scheduler.config.admissionSkipLimit_lt
        have next := valid.admitted small inside below
        rw [← pending, ← config] at next
        have issued' : ∀ ticket ∈ overtake tickets position, ticket.arrival < arrivals := by
          intro ticket member
          obtain ⟨earlier, inside, same⟩ := arrival_of_mem_overtake member
          exact same ▸ issued earlier inside
        simp only [admitFromPending, admitted, List.foldl_cons]
        rw [← config]
        exact induction planned next issued'

end Scheduler

namespace Ticketed

/-- The invariant: valid tickets under the configured limit, all issued so far. -/
structure Valid (config : SchedulerConfig) (state : Ticketed) : Prop where
  configured : state.scheduler.config = config
  tickets : Tickets config.overtakingLimit state.scheduler.pending state.tickets
  issued : ∀ ticket ∈ state.tickets, ticket.arrival < state.arrivals

theorem valid_create (config : SchedulerConfig) (cache : KVCacheManager) :
    (create config cache).Valid config :=
  ⟨rfl, ⟨rfl, .nil, .nil, by simp [create]⟩, by simp [create]⟩

theorem valid_step {config : SchedulerConfig} {state : Ticketed} (valid : state.Valid config)
    (op : SchedulerOp) : (state.step op).Valid config := by
  obtain ⟨rfl, tickets, issued⟩ := valid
  cases op with
  | enqueue request =>
      refine ⟨rfl, tickets.enqueue issued rfl, ?_⟩
      intro ticket member
      rcases List.mem_append.mp member with waiting | new
      · exact (issued ticket waiting).trans (Nat.lt_succ_self _)
      · rw [List.mem_singleton.mp new]
        exact Nat.lt_succ_self _
  | scheduleNext =>
      obtain ⟨config, tickets', issued'⟩ := Scheduler.tickets_admitFromPending
        state.scheduler.pending.length .empty tickets issued
      exact ⟨config, tickets', issued'⟩
  | completeStep requestId producedTokens => exact ⟨rfl, tickets, issued⟩
  | preempt requestId reason =>
      have frame := Scheduler.reclaimed_preempt state.scheduler requestId reason
      exact ⟨frame.config, frame.pending.symm ▸ tickets, issued⟩
  | resume requestId =>
      obtain ⟨pending, config⟩ := state.scheduler.pending_resume requestId
      exact ⟨config, pending.symm ▸ tickets, issued⟩
  | cancel requestId =>
      obtain ⟨pending, config⟩ := state.scheduler.pending_cancel requestId
      have erased := tickets.eraseIdx
        (state.scheduler.pending.findIdx fun request => request.requestId == requestId)
      rw [← eraseRequest_eq_eraseIdx] at erased
      refine ⟨config, ?_, fun ticket member => issued ticket (List.mem_of_mem_eraseIdx member)⟩
      exact pending.symm ▸ erased
  | cache op => exact ⟨rfl, tickets, issued⟩

theorem valid_run (config : SchedulerConfig) (cache : KVCacheManager) (ops : List SchedulerOp) :
    ((create config cache).run ops).Valid config :=
  Execution.run_induction (motive := fun (state : Ticketed) _ => state.Valid config)
    (fun _ op _ valid => valid_step valid op) (valid_create config cache)

/-- No waiting request is overtaken more often than its configuration allows, in any run and
over any pool. -/
theorem overtaken_at_most_limit (config : SchedulerConfig) (cache : KVCacheManager)
    (ops : List SchedulerOp) :
    let state := (create config cache).run ops
    state.scheduler = (Scheduler.create config cache).run ops ∧
      state.tickets.length = state.scheduler.pending.length ∧
      ∀ (position : ℕ) (request : Request) (ticket : Ticket),
        state.scheduler.pending[position]? = some request →
        state.tickets[position]? = some ticket →
        ticket.overtaken ≤ (if config.sizeAwareAdmission then config.admissionSkipLimit else 0) ∧
        request.admissionSkips ≤ config.admissionSkipLimit := by
  intro state
  obtain ⟨-, tickets, -⟩ := valid_run config cache ops
  refine ⟨scheduler_run _ ops, ?_, ?_⟩
  · simpa using (congrArg List.length tickets.recorded).symm
  · intro position request ticket waiting issued
    have same : request.admissionSkips = ticket.overtaken := by
      have both := congrArg (fun counts => counts[position]?) tickets.recorded
      simpa [state, waiting, issued] using both
    have bound := tickets.bounded ticket (List.mem_of_getElem? issued)
    exact ⟨bound, same ▸ bound.trans config.overtakingLimit_le⟩

/-- A head may be skipped once. -/
def patientConfig : SchedulerConfig := ⟨8, 8, 0, true, 1, by decide⟩

/-- The first request is too large for the pool. -/
def oversizedHead : List SchedulerOp :=
  [.enqueue (.ofTokens 1 5 0), .enqueue (.ofTokens 2 1 0), .enqueue (.ofTokens 3 1 0),
    .scheduleNext, .scheduleNext]

/-- It is overtaken once, and then blocks the queue. -/
theorem overtaken_at_most_limit_oversized :
    ((create patientConfig fourFrameCache).run oversizedHead).tickets = [⟨0, 1⟩, ⟨2, 0⟩] ∧
      ((create patientConfig fourFrameCache).run oversizedHead).tickets.length =
        ((create patientConfig fourFrameCache).run oversizedHead).scheduler.pending.length :=
  ⟨by decide +kernel, (overtaken_at_most_limit patientConfig fourFrameCache oversizedHead).2.1⟩

end Ticketed
end QwenVLPaged
