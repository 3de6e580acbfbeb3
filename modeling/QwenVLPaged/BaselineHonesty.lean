import Mathlib.Data.Bool.Count
import QwenVLPaged.ContiguousReplay

/-!
# The baseline is an honest allocator

At every point of a contiguous replay the reservations are disjoint runs of the pool, and the
bitmap and the block counter are what they occupy. A refusal is counted as fragmentation only if
the blocks are there without a run of them, and the run serves the whole trace. All of this rests
on the block count of a request: one that wraps to zero cannot be placed in an empty pool.
-/

namespace QwenVLPaged
namespace ContiguousReplay

/-! ## Points of the run -/

/-- A place in the loops of the run. -/
inductive Place
  | loop
  | admission
  | decoding (position : ℕ)

/-- The next request may be admitted. -/
def Admits (trace : Trace) (config : ReplayConfig) (state : ContiguousState)
    (request : TraceRequest) : Prop :=
  trace.requests[state.nextPending]? = some request ∧
    state.active.length < config.maxActiveRequests

/-- One transition between points of the run. -/
inductive Next (trace : Trace) (config : ReplayConfig) :
    Place × ContiguousState → Place × ContiguousState → Prop
  | enter {state : ContiguousState} (running : state.completed < trace.requests.length ∧
        state.metrics.steps < config.maxSteps) :
      Next trace config (.loop, state) (.admission, begin state)
  | admits {state after : ContiguousState} {request : TraceRequest}
      (head : Admits trace config state request)
      (again : tryPlace config request state = (true, after)) :
      Next trace config (.admission, state) (.admission, after)
  | refused {state after : ContiguousState} {request : TraceRequest}
      (head : Admits trace config state request)
      (stop : tryPlace config request state = (false, after)) :
      Next trace config (.admission, state) (.decoding 0, after)
  | admitted {state : ContiguousState} (stop : ∀ request, ¬ Admits trace config state request) :
      Next trace config (.admission, state) (.decoding 0, state)
  | decode {state : ContiguousState} {position : ℕ} (inside : position < state.active.length) :
      Next trace config (.decoding position, state)
        (.decoding (decodeOne trace position state).1, (decodeOne trace position state).2)
  | next {state : ContiguousState} {position : ℕ} (done : state.active.length ≤ position)
      (progress : state.progressMade = true) :
      Next trace config (.decoding position, state) (.loop, account trace config state)

/-- The points that the run passes through. -/
def Visited (trace : Trace) (config : ReplayConfig) (point : Place × ContiguousState) : Prop :=
  Relation.ReflTransGen (Next trace config) (.loop, initial trace config) point

/-! ## The allocator -/

/-- The blocks of a reservation. -/
def runOf (reservation : Reservation) : ℕ × ℕ :=
  (reservation.startBlock, reservation.blockCount)

/-- The reservations are disjoint runs inside the pool, the bitmap is true exactly on their union
and the counter is its size. -/
structure Allocated (config : ReplayConfig) (state : ContiguousState) : Prop where
  size : state.used.length = config.maxBlocks
  partition : Bitmap.Partition state.used (state.active.map runOf)
  counted : state.blocksInUse = state.used.count true

theorem allocated_initial (trace : Trace) (config : ReplayConfig) :
    Allocated config (initial trace config) := by
  refine ⟨List.length_replicate, Bitmap.partition_free config.maxBlocks, ?_⟩
  simp [initial, List.count_replicate]

/-- The bitmap, the counter and the runs decide. -/
theorem Allocated.of_runs {config : ReplayConfig} {before after : ContiguousState}
    (allocated : Allocated config before) (used : after.used = before.used)
    (blocks : after.blocksInUse = before.blocksInUse)
    (runs : after.active.map runOf = before.active.map runOf) :
    Allocated config after := by
  refine ⟨?_, ?_, ?_⟩
  · rw [used, allocated.size]
  · rw [used, runs]
    exact allocated.partition
  · rw [blocks, used, allocated.counted]

theorem Allocated.count_le {config : ReplayConfig} {state : ContiguousState}
    (allocated : Allocated config state) : state.blocksInUse ≤ config.maxBlocks := by
  rw [allocated.counted, ← allocated.size]
  exact List.count_le_length

theorem Allocated.place {config : ReplayConfig} {state : ContiguousState}
    (allocated : Allocated config state) (request : TraceRequest) {needed start : ℕ}
    (found : Bitmap.search needed state.used = some start) :
    Allocated config (place request needed start state) := by
  obtain ⟨free, fits⟩ := Bitmap.run_of_search found
  have counts := Bitmap.count_mark (show Bitmap.Run (!true) state.used start needed from free)
  refine ⟨by simp [ContiguousReplay.place, allocated.size], ?_, ?_⟩
  · have taken := allocated.partition.take free fits
    simpa [ContiguousReplay.place, runOf] using taken
  · have bound := List.count_le_length (a := true)
      (l := Bitmap.mark true state.used start needed)
    rw [Bitmap.length_mark, allocated.size, counts, ← allocated.counted] at bound
    simp only [ContiguousReplay.place]
    rw [counts, ← allocated.counted, wrap32_of_lt (bound.trans_lt config.maxBlocks_lt)]

theorem swapRemove_perm {α : Type} {items : List α} {position : ℕ}
    (inside : position < items.length) :
    (swapRemove items position).Perm (items.eraseIdx position) := by
  have nonempty : items ≠ [] := List.ne_nil_of_length_pos (by omega)
  obtain ⟨front, last, rfl⟩ := List.eq_nil_or_concat items |>.resolve_left nonempty
  simp only [swapRemove, List.concat_eq_append, List.getLast?_append, List.getLast?_singleton,
    Option.some_or]
  simp only [List.concat_eq_append, List.length_append, List.length_singleton] at inside
  rcases Nat.lt_or_eq_of_le (Nat.le_of_lt_succ inside) with early | here
  · rw [List.set_append_left _ _ early, List.dropLast_concat, List.eraseIdx_append_of_lt_length early]
    refine (List.set_perm_cons_eraseIdx early last).trans ?_
    rw [← List.singleton_append]
    exact List.perm_append_comm
  · subst here
    rw [List.eraseIdx_append_of_length_le (Nat.le_refl _)]
    simp

theorem map_run_set {active : List Reservation} {position : ℕ} {old new : Reservation}
    (found : active[position]? = some old) (same : runOf new = runOf old) :
    (active.set position new).map runOf = active.map runOf := by
  obtain ⟨inside, value⟩ := List.getElem?_eq_some_iff.mp found
  rw [List.map_set, same, ← value]
  apply List.ext_getElem?
  intro other
  rw [List.getElem?_set]
  split
  · rename_i here
    simp [← here, inside]
  · rfl

theorem Allocated.finish {config : ReplayConfig} {state : ContiguousState}
    (allocated : Allocated config state) {position : ℕ} {reservation : Reservation}
    (found : state.active[position]? = some reservation) :
    Allocated config (finish reservation position state) := by
  obtain ⟨inside, value⟩ := List.getElem?_eq_some_iff.mp found
  have whole : (state.active.map runOf).Perm
      (runOf reservation :: (state.active.eraseIdx position).map runOf) := by
    rw [← List.map_cons, ← value]
    exact ((List.getElem_cons_eraseIdx_perm inside).map runOf).symm
  have partition := allocated.partition.perm whole
  have taken : Bitmap.Run (!false) state.used reservation.startBlock reservation.blockCount :=
    partition.run_taken
  have counts := Bitmap.count_mark taken
  have before := List.count_false_add_count_true state.used
  have after := List.count_false_add_count_true
    (Bitmap.mark false state.used reservation.startBlock reservation.blockCount)
  rw [Bitmap.length_mark] at after
  have small := allocated.count_le.trans_lt config.maxBlocks_lt
  have blocks := allocated.counted
  refine ⟨by simp [ContiguousReplay.finish, allocated.size], ?_, ?_⟩
  · exact partition.give.perm ((swapRemove_perm inside).map runOf).symm
  · simp only [ContiguousReplay.finish]
    rw [sub32_of_le small (by omega)]
    omega

theorem Allocated.tryPlace {config : ReplayConfig} {state : ContiguousState}
    (allocated : Allocated config state) (request : TraceRequest) :
    Allocated config (tryPlace config request state).2 := by
  unfold ContiguousReplay.tryPlace
  split
  · exact allocated.of_runs rfl rfl rfl
  · split
    · simp only [refuse]
      split
      · exact allocated.of_runs rfl rfl rfl
      · exact allocated
    · rename_i found
      exact allocated.place request found

theorem Allocated.decodeOne {config : ReplayConfig} {state : ContiguousState}
    (allocated : Allocated config state) (trace : Trace) (position : ℕ) :
    Allocated config (decodeOne trace position state).2 := by
  unfold ContiguousReplay.decodeOne
  split
  · exact allocated
  · rename_i old found
    obtain ⟨inside, -⟩ := List.getElem?_eq_some_iff.mp found
    have same : runOf (advance old) = runOf old := rfl
    have advanced : Allocated config
        { state with
          active := state.active.set position (advance old)
          progressMade := true
          metrics := { state.metrics with tokensDecoded := state.metrics.tokensDecoded + 1 } } :=
      allocated.of_runs rfl rfl (map_run_set found same)
    simp only
    split
    · exact advanced
    · split
      · exact advanced.finish (by simp [inside])
      · exact advanced

theorem Allocated.next {trace : Trace} {config : ReplayConfig}
    {point point' : Place × ContiguousState} (allocated : Allocated config point.2)
    (step : Next trace config point point') : Allocated config point'.2 := by
  cases step with
  | enter => exact allocated.of_runs rfl rfl rfl
  | @admits state after request _ again =>
      have placed := allocated.tryPlace request
      rwa [again] at placed
  | @refused state after request _ stop =>
      have placed := allocated.tryPlace request
      rwa [stop] at placed
  | admitted => exact allocated
  | @decode state position => exact allocated.decodeOne trace position
  | next => exact allocated.of_runs rfl rfl rfl

/-- The reservations are honest at every point of the run. -/
theorem allocated_of_visited {trace : Trace} {config : ReplayConfig}
    {point : Place × ContiguousState} (visited : Visited trace config point) :
    Allocated config point.2 := by
  induction visited with
  | refl => exact allocated_initial trace config
  | tail _ step allocated => exact allocated.next step

/-! ## Sizes and refusals -/

/-- No sum of the request leaves 32 bits. -/
structure Fits (request : TraceRequest) : Prop where
  prompt : 0 < request.promptTokens
  sum : request.promptTokens + request.decodeBudget < 2 ^ 32

theorem reservedTokens_of_servable {config : ReplayConfig} {request : TraceRequest}
    (fits : Fits request) (served : servable config request = true) :
    reservedTokens config request = request.promptTokens + request.decodeBudget ∧
      requestBlocks config request ≤ config.maxBlocks := by
  simp only [servable, wrap32_of_lt fits.sum, Bool.not_eq_true', Bool.or_eq_false_iff,
    decide_eq_false_iff_not, not_lt] at served
  rw [reservedTokens, wrap32_of_lt fits.sum]
  exact ⟨min_eq_right served.1, served.2⟩

/-- The block count of a servable request is zero exactly if its round-up wraps. -/
theorem requestBlocks_eq_zero_iff {config : ReplayConfig} (positive : 0 < config.tokensPerBlock)
    {request : TraceRequest} (fits : Fits request) (served : servable config request = true) :
    requestBlocks config request = 0 ↔
      2 ^ 32 < request.promptTokens + request.decodeBudget + config.tokensPerBlock := by
  have prompt := fits.prompt
  rw [requestBlocks, (reservedTokens_of_servable fits served).1]
  by_cases wraps : 2 ^ 32 < request.promptTokens + request.decodeBudget + config.tokensPerBlock
  · exact iff_of_true (ceilDiv32_of_wraps fits.sum config.tokensPerBlock_lt (by omega)) wraps
  · rw [ceilDiv32_of_lt positive (by omega)]
    exact iff_of_false (ceilDiv_pos (by omega) positive).ne' wraps

/-- The failure counter grows only when the needed blocks are free and no run of them is. -/
def CountsFragmentation (trace : Trace) (config : ReplayConfig)
    (point point' : Place × ContiguousState) : Prop :=
  point.2.metrics.fragmentationFailures < point'.2.metrics.fragmentationFailures →
    ∃ request, point.1 = .admission ∧ Admits trace config point.2 request ∧
      requestBlocks config request ≤ point.2.used.count false ∧
      ∀ start, start + requestBlocks config request ≤ config.maxBlocks →
        ¬ Bitmap.Run false point.2.used start (requestBlocks config request)

/-- The next request is not one whose block count wraps to zero, or some block is taken. -/
def Placeable (trace : Trace) (config : ReplayConfig) (point : Place × ContiguousState) : Prop :=
  ∀ request, point.1 = .admission → Admits trace config point.2 request →
    servable config request = true →
      request.promptTokens + request.decodeBudget + config.tokensPerBlock ≤ 2 ^ 32 ∨
        true ∈ point.2.used


theorem fragmentation_decodeOne (trace : Trace) (position : ℕ) (state : ContiguousState) :
    (decodeOne trace position state).2.metrics.fragmentationFailures =
      state.metrics.fragmentationFailures := by
  unfold decodeOne
  split
  · rfl
  · simp only
    split
    · rfl
    · split <;> rfl

/-- What a refusal says about the next request. -/
theorem refused_cases {config : ReplayConfig} {request : TraceRequest}
    {state after : ContiguousState} (stop : tryPlace config request state = (false, after)) :
    servable config request = true ∧
      Bitmap.search (requestBlocks config request) state.used = none ∧
      after = refuse config (requestBlocks config request) state := by
  unfold tryPlace at stop
  split at stop
  · simp at stop
  · rename_i served
    split at stop
    · rename_i missing
      exact ⟨by simpa using served, missing, (Prod.mk.inj stop).2.symm⟩
    · simp at stop

/-- What one more iteration of the admission loop did. -/
theorem admitted_cases {config : ReplayConfig} {request : TraceRequest}
    {state after : ContiguousState} (again : tryPlace config request state = (true, after)) :
    after = skip state ∨
      ∃ start, after = place request (requestBlocks config request) start state := by
  unfold tryPlace at again
  split at again
  · exact Or.inl (Prod.mk.inj again).2.symm
  · split at again
    · simp at again
    · rename_i start _
      exact Or.inr ⟨start, (Prod.mk.inj again).2.symm⟩

theorem Allocated.free_count {config : ReplayConfig} {state : ContiguousState}
    (allocated : Allocated config state) :
    sub32 config.maxBlocks state.blocksInUse = state.used.count false := by
  have total := List.count_false_add_count_true state.used
  rw [sub32_of_le config.maxBlocks_lt allocated.count_le, allocated.counted, ← allocated.size]
  omega

/-- A refusal of a request with blocks is counted honestly. -/
theorem countsFragmentation_of_placeable {trace : Trace} {config : ReplayConfig}
    (positive : 0 < config.tokensPerBlock) (fits : ∀ request ∈ trace.requests, Fits request)
    {point point' : Place × ContiguousState} (allocated : Allocated config point.2)
    (placeable : Placeable trace config point) (step : Next trace config point point') :
    CountsFragmentation trace config point point' := by
  intro counted
  cases step with
  | enter => exact absurd counted (lt_irrefl _)
  | admits _ again =>
      rcases admitted_cases again with rfl | ⟨_, rfl⟩ <;> exact absurd counted (lt_irrefl _)
  | admitted => exact absurd counted (lt_irrefl _)
  | decode =>
      rw [fragmentation_decodeOne] at counted
      exact absurd counted (lt_irrefl _)
  | next => exact absurd counted (lt_irrefl _)
  | @refused state after request head stop =>
      obtain ⟨served, missing, rfl⟩ := refused_cases stop
      refine ⟨request, rfl, head, ?_, fun start _ => ?_⟩
      · rw [← allocated.free_count]
        by_contra short
        simp only [refuse, if_neg short, lt_irrefl] at counted
      · refine Bitmap.no_run_of_search (Nat.pos_of_ne_zero fun zero => ?_) missing start
        have member := List.mem_of_getElem? head.1
        have wraps := (requestBlocks_eq_zero_iff positive (fits request member) served).mp zero
        rw [zero, Bitmap.search_zero] at missing
        rcases placeable request rfl head served with small | taken
        · omega
        · exact missing taken

/-- A request whose count wraps is refused by the free pool and counted as fragmentation. -/
theorem fragmentation_of_unplaceable {trace : Trace} {config : ReplayConfig}
    (positive : 0 < config.tokensPerBlock) (fits : ∀ request ∈ trace.requests, Fits request)
    {point : Place × ContiguousState} (unplaceable : ¬ Placeable trace config point) :
    ∃ point', Next trace config point point' ∧ ¬ CountsFragmentation trace config point point' := by
  simp only [Placeable, not_forall, not_or, not_le] at unplaceable
  obtain ⟨request, place_eq, head, served, wraps, free⟩ := unplaceable
  obtain ⟨place, state⟩ := point
  simp only at place_eq
  subst place_eq
  have member := List.mem_of_getElem? head.1
  have zero := (requestBlocks_eq_zero_iff positive (fits request member) served).mpr wraps
  have missing : Bitmap.search (requestBlocks config request) state.used = none := by
    rw [zero]
    exact (Bitmap.search_zero state.used).mpr free
  have stop : tryPlace config request state =
      (false, refuse config (requestBlocks config request) state) := by
    simp [tryPlace, served, missing]
  refine ⟨_, .refused head stop, fun honest => ?_⟩
  obtain ⟨other, -, other_head, -, no_run⟩ := honest (by simp [refuse, zero])
  obtain rfl : request = other := Option.some.inj (head.1.symm.trans other_head.1)
  rw [zero] at no_run
  exact no_run 0 (Nat.zero_le _) fun offset inside => absurd inside (Nat.not_lt_zero _)

/-! ## The work that is left -/

/-- Tokens that a request decodes; every admitted one decodes at least one. -/
def decodeTokens (request : TraceRequest) : ℕ := max 1 request.decodeActual

/-- Tokens that a reservation has still to decode. -/
def tokensLeft (trace : Trace) (reservation : Reservation) : ℕ :=
  match trace.requests[reservation.index]? with
  | none => 0
  | some request => decodeTokens request - reservation.decoded

/-- Requests that wait, and tokens that are still to be decoded. -/
def work (trace : Trace) (state : ContiguousState) : ℕ :=
  trace.requests.length - state.nextPending +
    ((trace.requests.drop state.nextPending).map decodeTokens).sum +
    (state.active.map (tokensLeft trace)).sum

/-- Every request is waiting, active or completed, and the active ones have tokens left. -/
structure Tallied (trace : Trace) (state : ContiguousState) : Prop where
  bound : state.nextPending ≤ trace.requests.length
  served : state.completed + state.active.length = state.nextPending
  unfinished : ∀ reservation ∈ state.active, ∃ request,
    trace.requests[reservation.index]? = some request ∧
      reservation.decoded < decodeTokens request

theorem tallied_initial (trace : Trace) (config : ReplayConfig) :
    Tallied trace (initial trace config) :=
  ⟨Nat.zero_le _, rfl, by simp [initial]⟩

theorem drop_of_head {trace : Trace} {position : ℕ} {request : TraceRequest}
    (head : trace.requests[position]? = some request) :
    position < trace.requests.length ∧
      trace.requests.drop position = request :: trace.requests.drop (position + 1) := by
  obtain ⟨inside, value⟩ := List.getElem?_eq_some_iff.mp head
  exact ⟨inside, by rw [List.drop_eq_getElem_cons inside, value]⟩

/-- Admitting or skipping a request takes it off the waiting ones. -/
theorem Tallied.admits {trace : Trace} {config : ReplayConfig} {state after : ContiguousState}
    {request : TraceRequest} (tallied : Tallied trace state)
    (head : trace.requests[state.nextPending]? = some request)
    (again : tryPlace config request state = (true, after)) :
    Tallied trace after ∧ work trace after < work trace state ∧ after.progressMade = true ∧
      after.nextPending = state.nextPending + 1 ∧
      after.metrics.steps = state.metrics.steps := by
  obtain ⟨inside, split⟩ := drop_of_head head
  have served := tallied.served
  rcases admitted_cases again with rfl | ⟨start, rfl⟩
  · refine ⟨⟨inside, ?_, tallied.unfinished⟩, ?_, rfl, rfl, rfl⟩
    · simp only [skip]
      omega
    · simp only [work, skip, split, List.map_cons, List.sum_cons]
      omega
  · refine ⟨⟨inside, ?_, ?_⟩, ?_, rfl, rfl, rfl⟩
    · simp only [place, List.length_append, List.length_singleton]
      omega
    · intro reservation member
      rcases List.mem_append.mp member with old | new
      · exact tallied.unfinished reservation old
      · rw [List.mem_singleton.mp new]
        exact ⟨request, head, by simp [decodeTokens]⟩
    · simp only [work, place, split, List.map_cons, List.sum_cons, List.map_append,
        List.map_nil, List.sum_append, List.sum_nil, tokensLeft, head]
      omega


theorem decodeTokens_lt (request : TraceRequest) : decodeTokens request < 2 ^ 32 := by
  have small := request.decodeActual_lt
  simp only [decodeTokens]
  omega

/-- The two outcomes of decoding a token: the request stops, or it goes on. -/
theorem decodeOne_cases {trace : Trace} {state : ContiguousState} {position : ℕ}
    {reservation : Reservation} {request : TraceRequest}
    (found : state.active[position]? = some reservation)
    (owner : trace.requests[reservation.index]? = some request)
    (left : reservation.decoded < decodeTokens request) :
    let next := (decodeOne trace position state).1
    let after := (decodeOne trace position state).2
    let advanced := { advance reservation with decoded := reservation.decoded + 1 }
    after.progressMade = true ∧ after.metrics.steps = state.metrics.steps ∧
      after.nextPending = state.nextPending ∧
      (next = position ∧ after.completed = state.completed + 1 ∧
          after.active.Perm (state.active.eraseIdx position) ∨
        next = position + 1 ∧ after.completed = state.completed ∧
          reservation.decoded + 1 < decodeTokens request ∧
          after.active = state.active.set position advanced) := by
  obtain ⟨inside, -⟩ := List.getElem?_eq_some_iff.mp found
  have small := decodeTokens_lt request
  have counter : wrap32 (reservation.decoded + 1) = reservation.decoded + 1 :=
    wrap32_of_lt (by omega)
  have owner' : trace.requests[(advance reservation).index]? = some request := owner
  have advanced : (advance reservation).decoded = reservation.decoded + 1 := counter
  simp only [decodeOne, found, owner', advanced]
  split
  · refine ⟨rfl, rfl, rfl, Or.inl ⟨rfl, rfl, ?_⟩⟩
    have inside' : position < (state.active.set position (advance reservation)).length := by
      simpa using inside
    have removed := swapRemove_perm inside'
    rwa [List.eraseIdx_set_eq] at removed
  · rename_i more
    refine ⟨rfl, rfl, rfl, Or.inr ⟨rfl, rfl, ?_, ?_⟩⟩
    · simp only [decodeTokens]
      omega
    · rw [← advanced]

/-- What decoding a token at a position does. -/
theorem Tallied.decode {trace : Trace} {state : ContiguousState} {position : ℕ}
    (tallied : Tallied trace state) (inside : position < state.active.length) :
    let next := (decodeOne trace position state).1
    let after := (decodeOne trace position state).2
    Tallied trace after ∧ work trace after < work trace state ∧ after.progressMade = true ∧
      after.metrics.steps = state.metrics.steps ∧
      after.active.length + position + 1 = state.active.length + next := by
  intro next after
  obtain ⟨reservation, found⟩ : ∃ reservation, state.active[position]? = some reservation :=
    ⟨_, List.getElem?_eq_getElem inside⟩
  have value := (List.getElem?_eq_some_iff.mp found).2
  obtain ⟨request, owner, left⟩ := tallied.unfinished reservation (List.mem_of_getElem? found)
  have whole : state.active.Perm (reservation :: state.active.eraseIdx position) := by
    rw [← value]
    exact (List.getElem_cons_eraseIdx_perm inside).symm
  have length := whole.length_eq
  have sum := (whole.map (tokensLeft trace)).sum_eq
  have served := tallied.served
  have open_tokens : tokensLeft trace reservation = decodeTokens request - reservation.decoded := by
    simp only [tokensLeft, owner]
  rw [List.map_cons, List.sum_cons, open_tokens] at sum
  rw [List.length_cons] at length
  obtain ⟨progress, steps, pending, cases⟩ := decodeOne_cases found owner left
  rcases cases with ⟨next_eq, completed, perm⟩ | ⟨next_eq, completed, more, active⟩
  · have length' := perm.length_eq
    have sum' := (perm.map (tokensLeft trace)).sum_eq
    refine ⟨⟨?_, ?_, ?_⟩, ?_, progress, steps, ?_⟩
    · rw [pending]
      exact tallied.bound
    · simp only [after, pending]
      omega
    · intro other member
      exact tallied.unfinished other (List.mem_of_mem_eraseIdx (perm.mem_iff.mp member))
    · simp only [work, pending, after] at sum' ⊢
      omega
    · simp only [next, after]
      omega
  · have perm := List.set_perm_cons_eraseIdx inside
      { advance reservation with decoded := reservation.decoded + 1 }
    have sum' := (perm.map (tokensLeft trace)).sum_eq
    have advanced : tokensLeft trace
        { advance reservation with decoded := reservation.decoded + 1 } =
        decodeTokens request - (reservation.decoded + 1) := by
      simp only [tokensLeft, advance, owner]
    rw [List.map_cons, List.sum_cons, advanced] at sum'
    refine ⟨⟨?_, ?_, ?_⟩, ?_, progress, steps, ?_⟩
    · rw [pending]
      exact tallied.bound
    · simp only [after, active, List.length_set, pending, completed]
      exact served
    · intro other member
      rw [active] at member
      rcases List.mem_or_eq_of_mem_set member with old | rfl
      · exact tallied.unfinished other old
      · exact ⟨request, owner, more⟩
    · simp only [work, pending, active, after] at sum' ⊢
      omega
    · simp only [next, after, active, List.length_set]
      omega


theorem Tallied.next {trace : Trace} {config : ReplayConfig}
    {point point' : Place × ContiguousState} (tallied : Tallied trace point.2)
    (step : Next trace config point point') : Tallied trace point'.2 := by
  cases step with
  | enter => exact ⟨tallied.bound, tallied.served, tallied.unfinished⟩
  | admits head again => exact (tallied.admits head.1 again).1
  | refused _ stop =>
      obtain ⟨-, -, rfl⟩ := refused_cases stop
      simp only [refuse]
      split
      · exact ⟨tallied.bound, tallied.served, tallied.unfinished⟩
      · exact tallied
  | admitted => exact tallied
  | decode inside => exact (tallied.decode inside).1
  | next => exact ⟨tallied.bound, tallied.served, tallied.unfinished⟩

theorem tallied_of_visited {trace : Trace} {config : ReplayConfig}
    {point : Place × ContiguousState} (visited : Visited trace config point) :
    Tallied trace point.2 := by
  induction visited with
  | refl => exact tallied_initial trace config
  | tail _ step tallied => exact tallied.next step

/-! ## The loops -/

/-- The admission loop made progress, or it stopped at once. -/
theorem admitLoop_spec {trace : Trace} {config : ReplayConfig} {rest : List TraceRequest}
    {state : ContiguousState} (waiting : rest = trace.requests.drop state.nextPending)
    (visited : Visited trace config (.admission, state)) :
    let after := admitLoop config rest state
    Visited trace config (.decoding 0, after) ∧ after.metrics.steps = state.metrics.steps ∧
      (after.progressMade = true ∧ work trace after < work trace state ∨
        after.active = state.active ∧ work trace after = work trace state ∧
          after.progressMade = state.progressMade ∧
          ∀ request, Admits trace config state request →
            servable config request = true ∧
              Bitmap.search (requestBlocks config request) state.used = none) := by
  induction rest generalizing state with
  | nil =>
      have stop (request : TraceRequest) : ¬ Admits trace config state request := by
        intro head
        have inside := (List.getElem?_eq_some_iff.mp head.1).1
        have empty := List.drop_eq_nil_iff.mp waiting.symm
        omega
      exact ⟨visited.tail (.admitted stop), rfl, Or.inr ⟨rfl, rfl, rfl, fun request head =>
        absurd head (stop request)⟩⟩
  | cons request rest induction =>
      have head : trace.requests[state.nextPending]? = some request := by
        have first := congrArg (fun list => list[0]?) waiting
        simpa using first.symm
      by_cases room : state.active.length < config.maxActiveRequests
      · have admits : Admits trace config state request := ⟨head, room⟩
        rcases placed : tryPlace config request state with ⟨_ | _, after⟩
        · obtain ⟨served, missing, rfl⟩ := refused_cases placed
          simp only [admitLoop, room, if_true, placed]
          refine ⟨visited.tail (.refused admits placed), ?_, Or.inr ⟨?_, ?_, ?_, ?_⟩⟩
          iterate 4
            simp only [refuse]
            split <;> rfl
          intro other other_head
          obtain rfl : request = other := Option.some.inj (head.symm.trans other_head.1)
          exact ⟨served, missing⟩
        · obtain ⟨-, less, progress, pending, steps⟩ :=
            (tallied_of_visited visited).admits head placed
          have tail : rest = trace.requests.drop after.nextPending := by
            rw [pending, ← List.tail_drop, ← waiting, List.tail_cons]
          simp only [admitLoop, room, if_true, placed]
          obtain ⟨reached, later, outcome⟩ := induction tail (visited.tail (.admits admits placed))
          refine ⟨reached, later.trans steps, Or.inl ?_⟩
          rcases outcome with ⟨made, work_lt⟩ | ⟨-, work_eq, made, -⟩
          · exact ⟨made, work_lt.trans less⟩
          · exact ⟨made.trans progress, work_eq ▸ less⟩
      · have stop (other : TraceRequest) : ¬ Admits trace config state other := fun head =>
          room head.2
        have same : admitLoop config (request :: rest) state = state := by
          rw [admitLoop, if_neg room]
        rw [same]
        exact ⟨visited.tail (.admitted stop), rfl, Or.inr ⟨rfl, rfl, rfl, fun other head =>
          absurd head (stop other)⟩⟩

/-- The decode loop decodes one token for each active request. -/
theorem decodeLoop_spec {trace : Trace} {config : ReplayConfig} {remaining position : ℕ}
    {state : ContiguousState} (whole : position + remaining = state.active.length)
    (visited : Visited trace config (.decoding position, state)) :
    let after := decodeLoop trace remaining position state
    (∃ last, Visited trace config (.decoding last, after) ∧ after.active.length ≤ last) ∧
      after.metrics.steps = state.metrics.steps ∧
      (0 < remaining → after.progressMade = true ∧ work trace after < work trace state) := by
  induction remaining generalizing position state with
  | zero => exact ⟨⟨position, visited, whole.symm.le⟩, rfl, by simp⟩
  | succ remaining induction =>
      have inside : position < state.active.length := by omega
      have tallied : Tallied trace state := tallied_of_visited visited
      obtain ⟨-, less, progress, steps, length⟩ := tallied.decode inside
      have step := visited.tail (.decode inside)
      obtain ⟨reached, later, more⟩ := induction (by omega) step
      refine ⟨reached, later.trans steps, fun _ => ?_⟩
      rcases Nat.eq_zero_or_pos remaining with rfl | again
      · exact ⟨progress, less⟩
      · exact ⟨(more again).1, (more again).2.trans less⟩


/-- An idle pool has room for the next request. -/
theorem idle_admits {trace : Trace} {config : ReplayConfig}
    (positive : 0 < config.tokensPerBlock) (fits : ∀ request ∈ trace.requests, Fits request)
    (placeable : ∀ point, Visited trace config point → Placeable trace config point)
    {state : ContiguousState} (visited : Visited trace config (.admission, state))
    (idle : state.active = []) {request : TraceRequest} (head : Admits trace config state request)
    (served : servable config request = true) :
    Bitmap.search (requestBlocks config request) state.used ≠ none := by
  intro missing
  have allocated : Allocated config state := allocated_of_visited visited
  have partition := allocated.partition
  rw [idle, List.map_nil] at partition
  have free := partition.all_free
  have fit := fits request (List.mem_of_getElem? head.1)
  have small := (placeable _ visited request rfl head served).resolve_right free
  have blocks : 0 < requestBlocks config request := by
    refine Nat.pos_of_ne_zero fun zero => ?_
    have wraps := (requestBlocks_eq_zero_iff positive fit served).mp zero
    omega
  have room := (reservedTokens_of_servable fit served).2
  refine Bitmap.no_run_of_search blocks missing 0 fun offset inside => ?_
  have within : 0 + offset < state.used.length := by
    rw [allocated.size]
    omega
  rw [List.getElem?_eq_getElem within, Option.some.injEq]
  by_contra taken
  rw [Bool.not_eq_false] at taken
  exact free (taken ▸ List.getElem_mem within)

/-- Every step makes progress. -/
theorem oneStep_progress {trace : Trace} {config : ReplayConfig}
    (positive : 0 < config.tokensPerBlock) (slots : 0 < config.maxActiveRequests)
    (fits : ∀ request ∈ trace.requests, Fits request)
    (placeable : ∀ point, Visited trace config point → Placeable trace config point)
    {state : ContiguousState} (visited : Visited trace config (.loop, state))
    (running : state.completed < trace.requests.length ∧ state.metrics.steps < config.maxSteps) :
    let after := oneStep trace config state
    Visited trace config (.loop, after) ∧ after.progressMade = true ∧
      work trace after < work trace state ∧
      after.metrics.steps = state.metrics.steps + 1 := by
  intro after
  have entered := visited.tail (.enter running)
  have tallied : Tallied trace state := tallied_of_visited visited
  obtain ⟨reached, steps, outcome⟩ := admitLoop_spec rfl entered
  have waiting : (begin state).nextPending = state.nextPending := rfl
  have same_work : work trace (begin state) = work trace state := rfl
  rw [waiting] at reached steps outcome
  generalize admitted_eq : admitLoop config (trace.requests.drop state.nextPending)
    (begin state) = admitted at reached steps outcome
  have after_eq : after = account trace config
      (decodeLoop trace admitted.active.length 0 admitted) := by
    rw [← admitted_eq]
    rfl
  obtain ⟨⟨last, decoded, done⟩, later, more⟩ :=
    decodeLoop_spec (Nat.zero_add admitted.active.length) reached
  have progress : (decodeLoop trace admitted.active.length 0 admitted).progressMade = true ∧
      work trace (decodeLoop trace admitted.active.length 0 admitted) < work trace state := by
    rcases Nat.eq_zero_or_pos admitted.active.length with empty | busy
    · rw [empty]
      rcases outcome with ⟨made, less⟩ | ⟨active, -, -, stopped⟩
      · exact ⟨made, same_work ▸ less⟩
      · -- Nothing is active and nothing was admitted, although a request waits.
        exfalso
        have idle : state.active = [] := by
          rw [active] at empty
          exact List.length_eq_zero_iff.mp empty
        have served := tallied.served
        rw [idle, List.length_nil, Nat.add_zero] at served
        have inside : state.nextPending < trace.requests.length := served ▸ running.1
        have head : Admits trace config (begin state) trace.requests[state.nextPending] := by
          refine ⟨List.getElem?_eq_getElem inside, ?_⟩
          change state.active.length < _
          rw [idle]
          exact slots
        obtain ⟨serves, missing⟩ := stopped _ head
        exact idle_admits positive fits placeable entered idle head serves missing
    · obtain ⟨made, less⟩ := more busy
      refine ⟨made, less.trans_le ?_⟩
      rcases outcome with ⟨-, admitted_less⟩ | ⟨-, equal, -, -⟩
      · exact (same_work ▸ admitted_less).le
      · exact (same_work ▸ equal).le
  rw [after_eq]
  refine ⟨decoded.tail (.next done progress.1), progress.1, progress.2, ?_⟩
  change (decodeLoop trace admitted.active.length 0 admitted).metrics.steps = _
  rw [later, steps]
  rfl

/-- A finished run has nothing active, and every block is free. -/
theorem idle_of_completed {trace : Trace} {config : ReplayConfig} {state : ContiguousState}
    (visited : Visited trace config (.loop, state))
    (all : trace.requests.length ≤ state.completed) :
    state.completed = trace.requests.length ∧ state.blocksInUse = 0 := by
  have allocated : Allocated config state := allocated_of_visited visited
  have tallied : Tallied trace state := tallied_of_visited visited
  have bound := tallied.bound
  have served := tallied.served
  have idle : state.active = [] := List.length_eq_zero_iff.mp (by omega)
  have partition := allocated.partition
  rw [idle, List.map_nil] at partition
  rw [allocated.counted, List.count_eq_zero]
  exact ⟨by omega, partition.all_free⟩

theorem completed_of_no_work {trace : Trace} {config : ReplayConfig} {state : ContiguousState}
    (visited : Visited trace config (.loop, state)) (nothing : work trace state = 0) :
    trace.requests.length ≤ state.completed := by
  have tallied : Tallied trace state := tallied_of_visited visited
  have served := tallied.served
  simp only [work] at nothing
  have sum : (state.active.map (tokensLeft trace)).sum = 0 := by omega
  have idle : state.active = [] := by
    apply List.eq_nil_iff_forall_not_mem.mpr
    intro reservation member
    obtain ⟨request, owner, left⟩ := tallied.unfinished reservation member
    have zero := List.sum_eq_zero_iff.mp sum _ (List.mem_map_of_mem member)
    simp only [tokensLeft, owner] at zero
    omega
  rw [idle, List.length_nil] at served
  omega

theorem stepLoop_completes {trace : Trace} {config : ReplayConfig}
    (positive : 0 < config.tokensPerBlock) (slots : 0 < config.maxActiveRequests)
    (fits : ∀ request ∈ trace.requests, Fits request)
    (placeable : ∀ point, Visited trace config point → Placeable trace config point)
    {fuel : ℕ} {state : ContiguousState} (visited : Visited trace config (.loop, state))
    (steps : state.metrics.steps + fuel = config.maxSteps) (enough : work trace state ≤ fuel) :
    (stepLoop trace config fuel state).completed = trace.requests.length ∧
      (stepLoop trace config fuel state).blocksInUse = 0 := by
  induction fuel generalizing state with
  | zero =>
      exact idle_of_completed visited (completed_of_no_work visited (Nat.le_zero.mp enough))
  | succ fuel induction =>
      rw [stepLoop]
      by_cases running : state.completed < trace.requests.length
      · obtain ⟨reached, progress, less, counted⟩ :=
          oneStep_progress positive slots fits placeable visited ⟨running, by omega⟩
        rw [if_pos running]
        simp only [progress, if_true]
        exact induction reached (by omega) (by omega)
      · rw [if_neg running]
        exact idle_of_completed visited (Nat.le_of_not_lt running)

theorem work_initial (trace : Trace) (config : ReplayConfig) :
    work trace (initial trace config) =
      trace.requests.length + (trace.requests.map decodeTokens).sum := by
  simp [work, initial]

/-- What the baseline promises: honest reservations at every point, honest fragmentation failures
at every transition, and a complete run. -/
structure HonestRun (trace : Trace) (config : ReplayConfig) : Prop where
  allocated : ∀ point, Visited trace config point → Allocated config point.2
  fragmentation : ∀ point point', Visited trace config point →
    Next trace config point point' → CountsFragmentation trace config point point'
  complete : trace.requests.length + (trace.requests.map decodeTokens).sum ≤ config.maxSteps →
    (runContiguous trace config).completed = true ∧ (runContiguous trace config).leakFree = true

/-- The baseline is honest exactly if it never tries to place a servable request whose block count
wraps to zero while the whole pool is free. -/
theorem baseline_honest_iff (trace : Trace) (config : ReplayConfig)
    (positive : 0 < config.tokensPerBlock) (slots : 0 < config.maxActiveRequests)
    (fits : ∀ request ∈ trace.requests, Fits request) :
    HonestRun trace config ↔
      ∀ point, Visited trace config point → Placeable trace config point := by
  constructor
  · intro honest point visited
    by_contra unplaceable
    obtain ⟨point', step, dishonest⟩ := fragmentation_of_unplaceable positive fits unplaceable
    exact dishonest (honest.fragmentation point point' visited step)
  · intro placeable
    refine ⟨fun point visited => allocated_of_visited visited, fun point point' visited step =>
      countsFragmentation_of_placeable positive fits (allocated_of_visited visited)
        (placeable point visited) step, fun enough => ?_⟩
    rw [← work_initial trace config] at enough
    have start : Visited trace config (.loop, initial trace config) := .refl
    obtain ⟨completed, free⟩ := stepLoop_completes positive slots fits placeable start
      (Nat.zero_add config.maxSteps) enough
    simp [runContiguous, completed, free]


/-- Requests of three and four blocks that share a pool of five. -/
def smallTrace : Trace :=
  ⟨⟨1, 1, 1, 1⟩,
    [⟨1, 3, 2, 2, 1, "", three_lt_word, two_lt_word, two_lt_word, one_lt_word⟩,
      ⟨2, 4, 4, 3, 1, "", four_lt_word, four_lt_word, three_lt_word, one_lt_word⟩]⟩

/-- A baseline with the given block size and number of blocks. -/
def baselineConfig (tokensPerBlock maxBlocks : ℕ) (small : tokensPerBlock < 2 ^ 32)
    (few : maxBlocks < 2 ^ 32) : ReplayConfig :=
  ⟨tokensPerBlock, maxBlocks, 2, 8, 0, 0, false, 8, false, 8192, 20, small, few, eight_lt_word⟩

theorem baseline_honest_small :
    HonestRun smallTrace (baselineConfig 2 5 (by decide) (by decide)) ∧
      (runContiguous smallTrace (baselineConfig 2 5 (by decide) (by decide))).completed =
        true := by
  have fits : ∀ request ∈ smallTrace.requests, 0 < request.promptTokens ∧
      request.promptTokens + request.decodeBudget < 2 ^ 32 := by decide
  have small : ∀ request ∈ smallTrace.requests,
      request.promptTokens + request.decodeBudget + 2 ≤ 2 ^ 32 := by decide
  have honest := (baseline_honest_iff smallTrace
    (baselineConfig 2 5 (by decide) (by decide)) (by decide) (by decide)
    fun request member => ⟨(fits request member).1, (fits request member).2⟩).mpr
      fun point _ request _ head _ => Or.inl (small request (List.mem_of_getElem? head.1))
  exact ⟨honest, (honest.complete (by decide)).1⟩

/-- One request of two tokens. -/
def pairTrace : Trace :=
  ⟨⟨1, 1, 1, 1⟩, [⟨1, 1, 1, 1, 1, "", one_lt_word, one_lt_word, one_lt_word, one_lt_word⟩]⟩

/-- In blocks of `2 ^ 32 - 1` tokens the two tokens are rounded up to no block, no run of which is
found in the free pool: a fragmentation failure is counted and the request is never served. -/
theorem baseline_stalls_on_wrapped_count :
    let config := baselineConfig (2 ^ 32 - 1) 1 (by decide) (by decide)
    (0 < config.tokensPerBlock ∧ 0 < config.maxActiveRequests ∧
        ∀ request ∈ pairTrace.requests, Fits request) ∧
      (runContiguous pairTrace config).fragmentationFailures = 1 ∧
      ¬ HonestRun pairTrace config := by
  refine ⟨⟨by decide, by decide, fun request member => ?_⟩, by decide +kernel, fun honest => ?_⟩
  · rw [List.mem_singleton.mp member]
    exact ⟨by norm_num, by norm_num⟩
  · have completed := (honest.complete (by decide)).1
    have stalled : (runContiguous pairTrace (baselineConfig (2 ^ 32 - 1) 1 (by decide)
      (by decide))).completed = false := by decide +kernel
    exact absurd (completed.symm.trans stalled) (by decide)

end ContiguousReplay
end QwenVLPaged
