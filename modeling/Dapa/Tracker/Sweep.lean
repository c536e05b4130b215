import Dapa.Tracker.Invariant

/-!
# The timeout sweep

A `handler_loop` tick scans the queue from the head. While the head is sent and expired it
calls `clean_queue` with the head's peer and group; it stops at the first head that is unsent
or not yet expired. With the requester channel drained, every queued request has been sent,
so a tick at a time past every send instant empties the queue, and a cache clean `TIME_OUT`
later forgets what the tick evicted.
-/

namespace Dapa.Tracker
open ObjectTracker

variable {s : ObjectTracker}

theorem sweep_of_queue_nil (empty : s.queue = []) (fuel : Nat) : sweep fuel s = s := by
  cases fuel <;> simp [sweep, Queue.peek, empty]

theorem sweep_clock (fuel : Nat) : (sweep fuel s).clock = s.clock := by
  obtain ⟨_, _, _, eq⟩ := sweep_eq fuel s
  rw [eq]

theorem sweep_closedPeers (fuel : Nat) : (sweep fuel s).closedPeers = s.closedPeers := by
  obtain ⟨_, _, _, eq⟩ := sweep_eq fuel s
  rw [eq]

theorem evicts_of_expired {closedPeers : List Nat} {now : Nat} {peerId groupId : Option Nat}
    {request : Request} (expired : request.expired now = true) :
    evicts closedPeers now peerId groupId request = true := by
  simp [evicts, expired]

/-! ### The eviction routine -/

/-- `evicts` as a proposition: the failed group matches, the peer is `peer_id` or closed, or the
request is sent and `TIME_OUT` has elapsed. -/
def EvictionCondition (closedPeers : List Nat) (now : Nat) (peerId groupId : Option Nat)
    (request : Request) : Prop :=
  (∃ group, groupId = some group ∧ request.groupId = some group) ∨ some request.peer = peerId ∨
    request.peer ∈ closedPeers ∨ ∃ sentAt, request.requested = some sentAt ∧ timeOut < now - sentAt

theorem evicts_iff {closedPeers : List Nat} {now : Nat} {peerId groupId : Option Nat}
    {request : Request} :
    evicts closedPeers now peerId groupId request = true ↔
      EvictionCondition closedPeers now peerId groupId request := by
  obtain ⟨peer, group, requested, slot⟩ := request
  unfold evicts EvictionCondition Request.expired
  cases groupId <;> cases group <;> cases requested <;>
    simp [or_assoc, @eq_comm _ _ (some peer), @eq_comm ℕ]

theorem mem_keys_extracted {peerId groupId : Option Nat} {hash : Hash} :
    hash ∈ Queue.keys (s.queue.extractIf fun _ request =>
        evicts s.closedPeers s.clock peerId groupId request).2 ↔
      ∃ request, (hash, request) ∈ s.queue ∧
        EvictionCondition s.closedPeers s.clock peerId groupId request := by
  simp only [Queue.mem_keys, Queue.extractIf, List.mem_filter, evicts_iff]

/-- `clean_queue` keeps, unchanged and in order, exactly the requests `evicts` does not select, and
its inserts cache exactly the hashes it removed, at the current instant. -/
theorem clean_queue_evicts_exactly (peerId groupId : Option Nat) (free : s.pendingInserts = []) :
    List.Sublist (s.cleanQueue peerId groupId).queue s.queue ∧
    (∀ entry ∈ s.queue, entry ∈ (s.cleanQueue peerId groupId).queue ↔
      ¬ EvictionCondition s.closedPeers s.clock peerId groupId entry.2) ∧
    (∀ hash time, (hash, time) ∈ (s.cleanQueue peerId groupId).flushInserts.cache ↔
      ((∃ request, (hash, request) ∈ s.queue ∧
          EvictionCondition s.closedPeers s.clock peerId groupId request) ∧ time = s.clock) ∨
        ((hash, time) ∈ s.cache ∧ ¬ ∃ request, (hash, request) ∈ s.queue ∧
          EvictionCondition s.closedPeers s.clock peerId groupId request)) ∧
    ∀ group, ∀ entry ∈ s.queue, entry.2.groupId ≠ some group → entry.2.peer ∉ s.closedPeers →
      entry.2.expired s.clock = false → entry ∈ (s.markGroupAsFail group).queue := by
  have kept : ∀ (peerId groupId : Option Nat), ∀ entry ∈ s.queue,
      entry ∈ (s.cleanQueue peerId groupId).queue ↔
        ¬ EvictionCondition s.closedPeers s.clock peerId groupId entry.2 := by
    intro peerId groupId entry member
    simp [cleanQueue, Queue.extractIf, member, ← evicts_iff]
  refine ⟨List.filter_sublist _, kept peerId groupId, fun hash time => ?_,
    fun group entry member other peerOpen fresh => (kept _ _ entry member).mpr ?_⟩
  · simp only [ObjectTracker.flushInserts, cleanQueue, free, List.nil_append,
      ExpirableCache.mem_foldl_insert, mem_keys_extracted]
    exact or_comm
  · unfold EvictionCondition
    rintro (⟨_, failed, grouped⟩ | absent | closed | ⟨sentAt, sent, late⟩)
    · cases failed
      exact other grouped
    · cases absent
    · exact peerOpen closed
    · simp [Request.expired, sent, late] at fresh

theorem clean_queue_evicts_exactly_timed_out :
    let s : ObjectTracker :=
      { queue := [(1, ⟨7, none, some 0, 0⟩)], clock := 15001, nextSlot := 1, transmitted := [0] }
    Reachable s ∧ s.pendingInserts = [] ∧ (s.cleanQueue none none).queue = [] ∧
      ((1, 15001) ∈ (s.cleanQueue none none).flushInserts.cache ↔
        ((∃ request, (1, request) ∈ s.queue ∧
            EvictionCondition s.closedPeers s.clock none none request) ∧ 15001 = s.clock) ∨
          ((1, 15001) ∈ s.cache ∧ ¬ ∃ request, (1, request) ∈ s.queue ∧
            EvictionCondition s.closedPeers s.clock none none request)) := by
  intro s
  have reach : Reachable s :=
    Reachable.new.exec [.request 1 7 none, .send 1, .requester true, .elapse 15001] rfl
  exact ⟨reach, rfl, by decide, (clean_queue_evicts_exactly none none rfl).2.2.1 1 15001⟩

theorem cleanQueue_of_all_expired (expired : ∀ entry ∈ s.queue, entry.2.expired s.clock = true)
    (peerId groupId : Option Nat) :
    (s.cleanQueue peerId groupId).queue = [] ∧
    (s.cleanQueue peerId groupId).pendingInserts = s.pendingInserts ++ s.queue.keys := by
  have taken : ∀ entry ∈ s.queue, evicts s.closedPeers s.clock peerId groupId entry.2 = true :=
    fun entry member => evicts_of_expired (expired entry member)
  refine ⟨List.filter_eq_nil_iff.mpr fun entry member => by simp [taken entry member], ?_⟩
  simp only [cleanQueue, Queue.extractIf]
  rw [List.filter_eq_self.mpr taken]

theorem handlerLoopTick_of_all_expired (expired : ∀ entry ∈ s.queue, entry.2.expired s.clock = true) :
    s.handlerLoopTick.queue = [] ∧
    s.handlerLoopTick.pendingInserts = s.pendingInserts ++ s.queue.keys := by
  unfold handlerLoopTick
  cases queue : s.queue with
  | nil => simp [queue, sweep_of_queue_nil queue]
  | cons head rest =>
    have first := expired head (by simp [queue])
    obtain ⟨empty, inserts⟩ := cleanQueue_of_all_expired expired (some head.2.peer) head.2.groupId
    simp only [List.length_cons, sweep, Queue.peek, queue, List.head?_cons, first, ↓reduceIte,
      sweep_of_queue_nil empty]
    exact ⟨empty, by rw [inserts, queue]⟩

/-- No request leaks: with no caller mid-call and the channel drained, a tick past `TIME_OUT`
empties the queue into the cache, and a later clean drops what was not evicted again. -/
theorem requests_never_leak (reach : Reachable s) :
    (s.pendingSends = [] → ∀ entry ∈ s.queue, entry.2.requested = none →
      entry.1 ∈ s.requestChannel) ∧
    (s.pendingSends = [] → s.requestChannel = [] → s.pendingInserts = [] →
      (∀ entry ∈ s.queue, ∀ sentAt, entry.2.requested = some sentAt → timeOut < s.clock - sentAt) →
      step s .handlerTick = some s.handlerLoopTick ∧ s.handlerLoopTick.queue = [] ∧
      exec s.handlerLoopTick (List.replicate s.queue.length .cacheInsert) =
        some s.handlerLoopTick.flushInserts ∧
      ∀ hash ∈ s.queue.keys, hash ∈ s.handlerLoopTick.flushInserts.cache.keys ∧
        ∀ later, Relation.ReflTransGen (StepWithoutInsert hash) s.handlerLoopTick.flushInserts later →
          s.clock + timeOut ≤ later.clock → hash ∉ later.cleanCache.cache.keys) := by
  have inv := reach.inv
  have scheduled : s.pendingSends = [] → ∀ entry ∈ s.queue, entry.2.requested = none →
      entry.1 ∈ s.requestChannel := fun none entry member unsent =>
    (inv.scheduled entry member unsent).resolve_right (by simp [none])
  refine ⟨scheduled, fun noSends drained free timedOut => ?_⟩
  have expired : ∀ entry ∈ s.queue, entry.2.expired s.clock = true := by
    intro entry member
    cases sent : entry.2.requested with
    | none => simpa [drained] using scheduled noSends entry member sent
    | some sentAt => simpa [Request.expired, sent] using timedOut entry member sentAt sent
  obtain ⟨empty, owed⟩ := handlerLoopTick_of_all_expired expired
  rw [free, List.nil_append] at owed
  have clock : s.handlerLoopTick.clock = s.clock := sweep_clock _
  have flushed : ∀ hash ∈ s.queue.keys, ∀ time,
      (hash, time) ∈ s.handlerLoopTick.flushInserts.cache ↔ time = s.clock := by
    intro hash queued time
    simp [flushInserts, ExpirableCache.mem_foldl_insert, owed, queued, clock]
  refine ⟨by simp [Dapa.Tracker.step, free], empty, by rw [← exec_flushInserts, owed]; simp [Queue.keys],
    fun hash queued => ⟨Queue.mem_keys.mpr ⟨s.clock, (flushed hash queued _).mpr rfl⟩,
      fun later run late => cleanCache_drops (entries_le_of_run run ?_) late⟩⟩
  rintro ⟨_, time⟩ member rfl
  exact ((flushed _ queued time).mp member).le

theorem requests_never_leak_after_timeout :
    let s : ObjectTracker :=
      { queue := [(2, ⟨7, none, some 0, 0⟩)], clock := 16000, nextSlot := 1, transmitted := [0] }
    Reachable s ∧ s.handlerLoopTick.queue = [] ∧ 2 ∈ s.handlerLoopTick.flushInserts.cache.keys := by
  intro s
  have reach : Reachable s :=
    Reachable.new.exec [.request 2 7 none, .send 2, .requester true, .elapse 16000] rfl
  have timedOut : ∀ entry ∈ s.queue, ∀ sentAt, entry.2.requested = some sentAt →
      timeOut < s.clock - sentAt := by
    intro entry member sentAt sent
    rw [List.mem_singleton.mp member] at sent
    cases sent
    decide
  obtain ⟨-, empty, -, cached⟩ := (requests_never_leak reach).2 rfl rfl rfl timedOut
  exact ⟨reach, empty, (cached 2 (List.mem_singleton_self 2)).1⟩

/-! ### Closed peers -/

theorem cleanQueue_open_peers (s : ObjectTracker) (peerId groupId : Option Nat) :
    ∀ entry ∈ (s.cleanQueue peerId groupId).queue, entry.2.peer ∉ s.closedPeers := by
  intro entry member closed
  simp only [cleanQueue, Queue.extractIf, List.mem_filter] at member
  simp [evicts, closed] at member

/-- A tick whose head is sent and expired leaves no request of a closed peer; any other tick
changes nothing. -/
theorem handlerLoopTick_closed_peers (s : ObjectTracker) :
    (s.queue = [] → s.handlerLoopTick = s) ∧
    ∀ head, s.queue.peek = some head →
      (head.2.expired s.clock = false → s.handlerLoopTick = s) ∧
      (head.2.expired s.clock = true →
        ∀ entry ∈ s.handlerLoopTick.queue, entry.2.peer ∉ s.closedPeers) := by
  refine ⟨fun empty => sweep_of_queue_nil empty _, fun head first => ?_⟩
  unfold handlerLoopTick
  cases queue : s.queue with
  | nil => simp [queue, Queue.peek] at first
  | cons older rest =>
    simp only [queue, Queue.peek, List.head?_cons, Option.some.injEq] at first
    subst first
    simp only [List.length_cons, sweep, Queue.peek, queue, List.head?_cons]
    refine ⟨fun fresh => by simp [fresh], fun expired => ?_⟩
    simp only [expired, ↓reduceIte]
    obtain ⟨kept, inserts, sub, eq⟩ := sweep_eq rest.length (s.cleanQueue (some older.2.peer) older.2.groupId)
    rw [eq]
    exact fun entry member => cleanQueue_open_peers s _ _ entry (sub.subset member)

/-- A request whose peer closed before it was sent stays queued through the tick. -/
theorem tick_keeps_closed_peer_request :
    ∃ s, Reachable s ∧ step s .handlerTick = some s.handlerLoopTick ∧
      ∃ entry ∈ s.handlerLoopTick.queue, entry.2.peer ∈ s.handlerLoopTick.closedPeers :=
  Reachable.of_exec [.request 1 7 none, .disconnect 7] (by decide)

/-! ### The head-only scan -/

def sentNoLater (older newer : Request) : Bool :=
  match newer.requested, older.requested with
  | none, _ => true
  | some _, none => false
  | some newerAt, some olderAt => decide (olderAt ≤ newerAt)

/-- The sent requests form a prefix of the queue, with non-decreasing send instants. -/
def SentPrefix (queue : Queue Hash Request) : Prop :=
  queue.Pairwise fun older newer => sentNoLater older.2 newer.2 = true

instance (queue : Queue Hash Request) : Decidable (SentPrefix queue) :=
  inferInstanceAs (Decidable (queue.Pairwise _))

theorem not_expired_of_sentNoLater {now : Nat} {older newer : Request}
    (fresh : older.expired now = false) (order : sentNoLater older newer = true) :
    newer.expired now = false := by
  unfold sentNoLater at order
  unfold Request.expired at fresh ⊢
  split at order <;> simp_all
  omega

theorem cleanQueue_length_lt {head : Hash × Request} (first : s.queue.peek = some head)
    (groupId : Option Nat) :
    (s.cleanQueue (some head.2.peer) groupId).queue.length < s.queue.length := by
  cases queue : s.queue with
  | nil => simp [queue, Queue.peek] at first
  | cons older rest =>
    simp only [queue, Queue.peek, List.head?_cons, Option.some.injEq] at first
    subst first
    simp only [cleanQueue, Queue.extractIf, queue, List.filter_cons, evicts, beq_self_eq_true,
      Bool.true_or, Bool.or_true, Bool.not_true, Bool.false_eq_true, ↓reduceIte, List.length_cons]
    exact Nat.lt_succ_of_le (List.length_filter_le _ _)

/-! ### Termination of the scan -/

def sweepPass (s : ObjectTracker) : Option ObjectTracker :=
  match s.queue.peek with
  | some (_, request) =>
    if request.expired s.clock then some (s.cleanQueue (some request.peer) request.groupId) else none
  | none => none

def sweepPasses : Nat → ObjectTracker → Option ObjectTracker
  | 0, s => some s
  | n + 1, s => (sweepPass s).bind (sweepPasses n)

theorem sweep_succ (fuel : Nat) (s : ObjectTracker) :
    sweep (fuel + 1) s = match sweepPass s with
      | some next => sweep fuel next
      | none => s := by
  cases first : s.queue.peek with
  | none => simp [sweep, sweepPass, first]
  | some head =>
    by_cases expired : head.2.expired s.clock <;> simp [sweep, sweepPass, first, expired]

theorem sweepPass_eq_some {next : ObjectTracker} (pass : sweepPass s = some next) :
    ∃ head, s.queue.peek = some head ∧ next = s.cleanQueue (some head.2.peer) head.2.groupId ∧
      head ∉ next.queue ∧ next.queue.length < s.queue.length := by
  unfold sweepPass at pass
  split at pass
  · next hash request first =>
    split at pass
    · cases pass
      refine ⟨(hash, request), first, rfl, fun member => ?_, cleanQueue_length_lt first _⟩
      simp [cleanQueue, Queue.extractIf, evicts] at member
    · cases pass
  · cases pass

theorem sweep_exits (fuel : Nat) (enough : s.queue.length ≤ fuel) :
    ∃ n ≤ s.queue.length, ∃ last, sweepPasses n s = some last ∧ sweepPass last = none ∧
      sweep fuel s = last := by
  induction fuel generalizing s with
  | zero =>
    have empty : s.queue = [] := List.eq_nil_of_length_eq_zero (Nat.le_zero.mp enough)
    exact ⟨0, Nat.zero_le _, s, rfl, by simp [sweepPass, Queue.peek, empty], rfl⟩
  | succ fuel ih =>
    rw [sweep_succ]
    cases pass : sweepPass s with
    | none => exact ⟨0, Nat.zero_le _, s, rfl, pass, rfl⟩
    | some next =>
      obtain ⟨-, -, -, -, shorter⟩ := sweepPass_eq_some pass
      obtain ⟨n, bound, last, passes, exits, swept⟩ := ih (s := next) (by omega)
      exact ⟨n + 1, by omega, last, by simp [sweepPasses, pass, passes], exits, swept⟩

/-- The sweep loop of a tick ends: each pass that goes on removes the head, so at most
`queue.length` passes go on. -/
theorem handler_loop_sweep_terminates (s : ObjectTracker) :
    (∀ next, sweepPass s = some next →
      ∃ head, s.queue.peek = some head ∧ next = s.cleanQueue (some head.2.peer) head.2.groupId ∧
        head ∉ next.queue ∧ next.queue.length < s.queue.length) ∧
    ∃ n ≤ s.queue.length, ∃ last, sweepPasses n s = some last ∧ sweepPass last = none ∧
      s.handlerLoopTick = last :=
  ⟨fun _ pass => sweepPass_eq_some pass, sweep_exits _ le_rfl⟩

theorem sweep_leaves_none_expired (fuel : Nat) (enough : s.queue.length ≤ fuel)
    (sorted : SentPrefix s.queue) : ∀ entry ∈ (sweep fuel s).queue, entry.2.expired s.clock = false := by
  induction fuel generalizing s with
  | zero => simp_all [sweep]
  | succ fuel ih =>
    cases queue : s.queue with
    | nil => simp [sweep_of_queue_nil queue, queue]
    | cons head rest =>
      have first : s.queue.peek = some head := by simp [queue, Queue.peek]
      unfold ObjectTracker.sweep
      simp only [first]
      split
      · have shorter := cleanQueue_length_lt first head.2.groupId
        exact ih (by omega) (sorted.sublist (List.filter_sublist _))
      · next fresh =>
        simp only [Bool.not_eq_true] at fresh
        rw [queue] at sorted ⊢
        intro entry member
        rcases List.mem_cons.mp member with rfl | later
        · exact fresh
        · exact not_expired_of_sentNoLater fresh (List.rel_of_pairwise_cons sorted later)

/-- On a sent prefix, the head-only scan of a tick evicts every expired request. -/
theorem handlerLoopTick_evicts_all_expired (sorted : SentPrefix s.queue) :
    ∀ entry ∈ s.handlerLoopTick.queue, entry.2.expired s.clock = false :=
  sweep_leaves_none_expired _ le_rfl sorted

theorem handlerLoopTick_evicts_all_expired_sent_head :
    let s : ObjectTracker :=
      { queue := [(2, ⟨7, none, some 0, 0⟩), (1, ⟨8, none, none, 1⟩)], clock := 16000 }
    SentPrefix s.queue ∧ s.handlerLoopTick.queue = [(1, ⟨8, none, none, 1⟩)] ∧
      ∀ entry ∈ s.handlerLoopTick.queue, entry.2.expired s.clock = false :=
  ⟨by decide, by decide, handlerLoopTick_evicts_all_expired (by decide)⟩

/-- A stale channel item of a cancelled request for `2` outlives new requests for `1` and `2`. -/
def staleDispatch : List Event :=
  [.request 2 7 (some 3), .send 2, .markGroupAsFail 3, .cacheInsert,
   .request 1 7 none, .send 1, .request 2 7 none, .send 2, .requester true]

/-- After `staleDispatch` the sent request of `2` sits behind the unsent request of `1`; once it
expires, a tick stops at the unsent head and keeps it. -/
theorem tick_keeps_expired_request :
    ∃ s, Reachable s ∧ ¬ SentPrefix s.queue ∧ step s .handlerTick = some s.handlerLoopTick ∧
      ∃ entry ∈ s.handlerLoopTick.queue, entry.2.expired s.clock = true :=
  Reachable.of_exec (staleDispatch ++ [.elapse 16000]) (by decide)

end Dapa.Tracker
