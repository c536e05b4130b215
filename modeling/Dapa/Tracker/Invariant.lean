import Dapa.Tracker.Model
import Mathlib.Logic.Relation

/-!
# What every reachable tracker keeps

`Inv` is the invariant of the running tracker: the queue's keys are unique, every unsent
request has its hash in the requester channel or with the caller about to send it, the hashes
`clean_queue` still owes the cache are out of the queue, and the channel is open. One lemma per
operation shows that it keeps `Inv`; `Inv.step` puts them together and `Reachable.inv` follows.
-/

namespace Dapa.Tracker
open ObjectTracker

variable {s s' : ObjectTracker}

structure Inv (s : ObjectTracker) : Prop where
  unique : s.queue.keys.Nodup
  scheduled : ∀ entry ∈ s.queue, entry.2.requested = none →
    entry.1 ∈ s.requestChannel ∨ entry.1 ∈ s.pendingSends
  evicted : ∀ hash ∈ s.pendingInserts, hash ∉ s.queue.keys
  channelOpen : s.channelOpen = true

theorem Inv.new : Inv ObjectTracker.new :=
  ⟨List.nodup_nil, by simp [ObjectTracker.new], by simp [ObjectTracker.new], rfl⟩

theorem Inv.shrink (inv : Inv s) (queue : List.Sublist s'.queue s.queue)
    (channel : s'.requestChannel = s.requestChannel) (sends : s'.pendingSends = s.pendingSends)
    (inserts : s'.pendingInserts ⊆ s.pendingInserts) (isOpen : s'.channelOpen = s.channelOpen) :
    Inv s' where
  unique := List.Nodup.sublist (Queue.keys_sublist_of_sublist queue) inv.unique
  scheduled entry member unsent := channel ▸ sends ▸ inv.scheduled entry (queue.subset member) unsent
  evicted hash pending present :=
    inv.evicted hash (inserts pending) ((Queue.keys_sublist_of_sublist queue).subset present)
  channelOpen := isOpen.trans inv.channelOpen

theorem Inv.frame (inv : Inv s) (queue : s'.queue = s.queue)
    (channel : s'.requestChannel = s.requestChannel) (sends : s'.pendingSends = s.pendingSends)
    (inserts : s'.pendingInserts = s.pendingInserts) (isOpen : s'.channelOpen = s.channelOpen) :
    Inv s' :=
  inv.shrink (queue ▸ List.Sublist.refl _) channel sends (inserts ▸ fun _ pending => pending) isOpen

theorem Inv.cleanQueue (inv : Inv s) (peerId groupId : Option Nat) :
    Inv (s.cleanQueue peerId groupId) where
  unique := List.Nodup.sublist (Queue.keys_filter_sublist _ _) inv.unique
  scheduled entry member unsent := inv.scheduled entry (List.mem_of_mem_filter member) unsent
  evicted hash pending present := by
    rcases List.mem_append.mp pending with old | taken
    · exact inv.evicted hash old ((Queue.keys_filter_sublist _ _).subset present)
    · exact Queue.extractIf_keys_disjoint inv.unique _ taken present
  channelOpen := inv.channelOpen

theorem Inv.sweep (inv : Inv s) (fuel : Nat) : Inv (sweep fuel s) := by
  induction fuel generalizing s with
  | zero => exact inv
  | succ fuel ih =>
    unfold ObjectTracker.sweep
    split
    · split
      · exact ih (inv.cleanQueue _ _)
      · exact inv
    · exact inv

theorem Inv.getOrPush (inv : Inv s) (free : s.pendingInserts = []) (hash : Hash) (peer : Nat)
    (groupId : Option Nat) : Inv (s.getOrPush hash peer groupId).1 := by
  unfold ObjectTracker.getOrPush
  split
  · exact inv
  · next absent =>
    refine ⟨?_, ?_, by simp [free], inv.channelOpen⟩
    · simpa [List.nodup_append] using And.intro inv.unique (Queue.get_eq_none.mp absent)
    · intro entry member unsent
      rcases List.mem_append.mp member with old | fresh
      · exact (inv.scheduled entry old unsent).imp_right (List.mem_append_left _)
      · simp only [List.mem_singleton] at fresh
        simp [fresh]

theorem requestSenderSend_eq {hash : Hash} {result : Except P2pError Unit}
    (sent : s.requestSenderSend hash = some (s', result)) :
    ∃ channel, s' = { s with pendingSends := s.pendingSends.erase hash, requestChannel := channel } ∧
      (s.channelOpen = true → channel = s.requestChannel ++ [hash]) := by
  unfold ObjectTracker.requestSenderSend at sent
  split at sent
  · split at sent
    · next closed =>
      cases sent
      exact ⟨_, rfl, fun opened => by simp [opened] at closed⟩
    · split at sent
      · cases sent
        exact ⟨_, rfl, fun _ => rfl⟩
      · cases sent
  · cases sent

theorem Inv.requestSenderSend {hash : Hash} {result : Except P2pError Unit} (inv : Inv s)
    (sent : s.requestSenderSend hash = some (s', result)) : Inv s' := by
  obtain ⟨channel, rfl, appended⟩ := requestSenderSend_eq sent
  obtain rfl := appended inv.channelOpen
  refine ⟨inv.unique, fun entry member unsent => ?_, inv.evicted, inv.channelOpen⟩
  rcases inv.scheduled entry member unsent with queued | waiting
  · exact .inl (List.mem_append_left _ queued)
  · by_cases same : entry.1 = hash
    · exact .inl (by simp [same])
    · exact .inr (List.mem_erase_of_ne same |>.mpr waiting)

theorem Inv.received (inv : Inv s) {hash : Hash} {rest : List Hash}
    (channel : s.requestChannel = hash :: rest) {entry : Hash × Request}
    (member : entry ∈ s.queue) (unsent : entry.2.requested = none) (other : entry.1 ≠ hash) :
    entry.1 ∈ rest ∨ entry.1 ∈ s.pendingSends :=
  (inv.scheduled entry member unsent).imp_left fun queued =>
    (List.mem_cons.mp (channel ▸ queued)).resolve_left other

theorem Inv.stamp (inv : Inv s) {hash : Hash} {rest : List Hash}
    (channel : s.requestChannel = hash :: rest) (now : Nat) :
    Inv { s with
      requestChannel := rest
      queue := s.queue.modify hash fun r => { r with requested := some now } } := by
  refine ⟨by simpa using inv.unique, fun entry member unsent => ?_,
    by simpa using inv.evicted, inv.channelOpen⟩
  obtain ⟨old, oldMember, value⟩ :=
    Queue.mem_modify.mp
      (show entry ∈ s.queue.modify hash (fun r => { r with requested := some now }) from member)
  by_cases same : entry.1 = hash
  · simp [same, value] at unsent
  · simp only [same, ↓reduceIte] at value
    have received := inv.received channel oldMember (value ▸ unsent) same
    exact received

theorem Inv.transmit (inv : Inv s) (transmitted : List Nat) :
    Inv { s with transmitted := transmitted } :=
  inv.frame rfl rfl rfl rfl rfl

theorem requesterLoop_eq {delivered : Bool} (loop : s.requesterLoop delivered = some s') :
    ∃ hash rest, s.requestChannel = hash :: rest ∧
      s' = { s with requestChannel := rest }.requestObjectFromPeerInternal hash delivered := by
  unfold ObjectTracker.requesterLoop at loop
  split at loop
  · cases loop
  · next hash rest channel =>
    cases loop
    exact ⟨hash, rest, channel, rfl⟩

theorem Inv.requesterLoop {delivered : Bool} (inv : Inv s)
    (loop : s.requesterLoop delivered = some s') : Inv s' := by
  obtain ⟨hash, rest, channel, rfl⟩ := requesterLoop_eq loop
  unfold ObjectTracker.requestObjectFromPeerInternal
  split
  · next absent =>
    refine ⟨inv.unique, fun entry member unsent => inv.received channel member unsent ?_,
      inv.evicted, inv.channelOpen⟩
    rintro same
    exact Queue.get_eq_none.mp absent (same ▸ Queue.mem_keys_of_mem member)
  · have stamped := inv.stamp channel s.clock
    dsimp only
    split
    · exact stamped.cleanQueue _ _
    · split
      · exact stamped.transmit _
      · exact (stamped.transmit _).cleanQueue _ _

theorem Inv.handleObjectResponseQueue (inv : Inv s) (hash : Hash) :
    Inv (s.handleObjectResponseQueue hash).1 := by
  unfold ObjectTracker.handleObjectResponseQueue
  dsimp only
  split
  · exact inv.shrink (List.filter_sublist _) rfl rfl (fun _ pending => pending) rfl
  · exact inv.frame rfl rfl rfl rfl rfl

theorem Inv.cacheInsert (inv : Inv s) (inserted : s.cacheInsert = some s') : Inv s' := by
  unfold ObjectTracker.cacheInsert at inserted
  split at inserted
  · cases inserted
  · next hash rest pending =>
    cases inserted
    exact inv.shrink (List.Sublist.refl _) rfl rfl
      (fun other later => by simp [pending, later]) rfl

theorem Inv.step {event : Event} (inv : Inv s) (stepped : step s event = some s') : Inv s' := by
  have effect := step_eq_some stepped
  cases event with
  | request hash peer groupId =>
    obtain ⟨free, rfl⟩ := effect
    exact inv.getOrPush free hash peer groupId
  | send hash =>
    obtain ⟨_, sent⟩ := effect
    exact inv.requestSenderSend sent
  | requester delivered => exact inv.requesterLoop effect.2
  | response hash => exact effect.2 ▸ inv.handleObjectResponseQueue hash
  | responseCache hash => exact effect.2 ▸ inv.frame rfl rfl rfl rfl rfl
  | markGroupAsFail groupId => exact effect.2 ▸ inv.cleanQueue _ _
  | handlerTick => exact effect.2 ▸ inv.sweep _
  | cacheInsert => exact inv.cacheInsert stepped
  | cleanCache | nextGroupId | elapse | disconnect => exact effect ▸ inv.frame rfl rfl rfl rfl rfl

theorem Reachable.inv (reach : Reachable s) : Inv s := by
  induction reach with
  | new => exact Inv.new
  | step _ _ stepped ih => exact ih.step stepped

/-! ### Deduplication -/

theorem getOrPush_of_get {hash : Hash} {peer : Nat} {groupId : Option Nat} {request : Request}
    (found : s.queue.get hash = some request) : s.getOrPush hash peer groupId = (s, request.slot) := by
  simp [getOrPush, found]

theorem getOrPush_of_not_mem {hash : Hash} {peer : Nat} {groupId : Option Nat}
    (absent : hash ∉ s.queue.keys) :
    s.getOrPush hash peer groupId =
      ({ s with
        queue := s.queue.push hash { peer, groupId, requested := none, slot := s.nextSlot }
        pendingSends := s.pendingSends ++ [hash]
        nextSlot := s.nextSlot + 1 }, s.nextSlot) := by
  simp [getOrPush, Queue.get_eq_none.mpr absent]

/-- In every reachable state the queue holds at most one request per hash; a call for a queued
hash changes nothing and listens to the queued request. -/
theorem request_object_deduplicates (reach : Reachable s) (hash : Hash) (peer : Nat)
    (groupId : Option Nat) :
    s.queue.keys.Nodup ∧
    (hash ∈ s.queue.keys → ∃ request, (hash, request) ∈ s.queue ∧
      s.getOrPush hash peer groupId = (s, request.slot)) ∧
    (hash ∉ s.queue.keys → (s.getOrPush hash peer groupId).1 = { s with
      queue := s.queue.push hash { peer, groupId, requested := none, slot := s.nextSlot }
      pendingSends := s.pendingSends ++ [hash]
      nextSlot := s.nextSlot + 1 }) := by
  have unique := reach.inv.unique
  refine ⟨unique, fun present => ?_, fun absent => by rw [getOrPush_of_not_mem absent]⟩
  obtain ⟨request, member⟩ := Queue.mem_keys.mp present
  exact ⟨request, member, getOrPush_of_get (Queue.get_of_mem unique member)⟩

theorem request_object_deduplicates_requested :
    let s : ObjectTracker := { queue := [(2, ⟨7, none, none, 0⟩)], pendingSends := [2], nextSlot := 1 }
    Reachable s ∧ ∃ request, (2, request) ∈ s.queue ∧ s.getOrPush 2 7 none = (s, request.slot) :=
  have reach := Reachable.new.exec [.request 2 7 none] rfl
  ⟨reach, (request_object_deduplicates reach 2 7 none).2.1 (by decide)⟩

/-! ### Effects on the cache and on the queue's keys -/

theorem sweep_eq (fuel : Nat) (s : ObjectTracker) : ∃ queue inserts, List.Sublist queue s.queue ∧
    sweep fuel s = { s with queue := queue, pendingInserts := inserts } := by
  induction fuel generalizing s with
  | zero => exact ⟨s.queue, s.pendingInserts, .refl _, rfl⟩
  | succ fuel ih =>
    unfold ObjectTracker.sweep
    split
    · split
      · obtain ⟨queue, inserts, sub, eq⟩ := ih (s.cleanQueue _ _)
        exact ⟨queue, inserts, sub.trans (List.filter_sublist _), eq⟩
      · exact ⟨s.queue, s.pendingInserts, .refl _, rfl⟩
    · exact ⟨s.queue, s.pendingInserts, .refl _, rfl⟩

theorem sweep_cache (fuel : Nat) : (sweep fuel s).cache = s.cache := by
  obtain ⟨_, _, _, eq⟩ := sweep_eq fuel s
  rw [eq]

theorem requestObjectFromPeerInternal_eq (s : ObjectTracker) (hash : Hash) (delivered : Bool) :
    ∃ queue inserts transmitted, List.Sublist (Queue.keys queue) s.queue.keys ∧
      s.requestObjectFromPeerInternal hash delivered =
        { s with queue := queue, pendingInserts := inserts, transmitted := transmitted } := by
  unfold ObjectTracker.requestObjectFromPeerInternal
  have stamped := Queue.keys_modify s.queue hash fun r => { r with requested := some s.clock }
  split
  · exact ⟨s.queue, _, _, .refl _, rfl⟩
  · dsimp only
    split
    · exact ⟨_, _, _, stamped ▸ Queue.keys_filter_sublist _ _, rfl⟩
    · split
      · exact ⟨_, _, _, stamped ▸ .refl _, rfl⟩
      · exact ⟨_, _, _, stamped ▸ Queue.keys_filter_sublist _ _, rfl⟩

theorem requesterLoop_cache {delivered : Bool} (loop : s.requesterLoop delivered = some s') :
    s'.cache = s.cache := by
  obtain ⟨hash, rest, -, rfl⟩ := requesterLoop_eq loop
  obtain ⟨_, _, _, -, eq⟩ := requestObjectFromPeerInternal_eq { s with requestChannel := rest } hash delivered
  rw [eq]

theorem step_cache {event : Event} (stepped : step s event = some s') :
    s'.cache = s.cache ∨
    (event = .cacheInsert ∧ ∃ hash rest, s.pendingInserts = hash :: rest ∧
      s'.cache = s.cache.insert hash s.clock) ∨
    (∃ hash, event = .responseCache hash ∧ s'.cache = (s.cache.remove hash).2) ∨
    (event = .cleanCache ∧ s'.cache = s.cache.clean timeOut s.clock) := by
  have effect := step_eq_some stepped
  cases event with
  | request hash peer groupId => exact .inl (effect.2 ▸ getOrPush_cache ..)
  | send hash =>
    obtain ⟨_, sent⟩ := effect
    obtain ⟨channel, rfl, -⟩ := requestSenderSend_eq sent
    exact .inl rfl
  | requester delivered => exact .inl (requesterLoop_cache effect.2)
  | response hash => exact .inl (effect.2 ▸ handleObjectResponseQueue_cache ..)
  | responseCache hash => exact .inr (.inr (.inl ⟨hash, rfl, effect.2 ▸ rfl⟩))
  | markGroupAsFail groupId => exact .inl (effect.2 ▸ rfl)
  | handlerTick => exact .inl (effect.2 ▸ sweep_cache _)
  | cacheInsert =>
    obtain ⟨hash, rest, pending, rfl⟩ := effect
    exact .inr (.inl ⟨rfl, hash, rest, pending, rfl⟩)
  | cleanCache => exact .inr (.inr (.inr ⟨rfl, effect ▸ rfl⟩))
  | nextGroupId | elapse | disconnect => exact .inl (effect ▸ rfl)

theorem requesterLoop_keys {delivered : Bool} (loop : s.requesterLoop delivered = some s') :
    s'.queue.keys ⊆ s.queue.keys := by
  obtain ⟨hash, rest, -, rfl⟩ := requesterLoop_eq loop
  obtain ⟨_, _, _, sub, eq⟩ := requestObjectFromPeerInternal_eq { s with requestChannel := rest } hash delivered
  rw [eq]
  exact sub.subset

theorem step_not_queued {event : Event} {hash : Hash} (stepped : step s event = some s')
    (absent : hash ∉ s.queue.keys) (notRequested : ∀ peer groupId, event ≠ .request hash peer groupId) :
    hash ∉ s'.queue.keys := by
  have effect := step_eq_some stepped
  cases event with
  | request other peer groupId =>
    obtain ⟨-, rfl⟩ := effect
    have different : hash ≠ other := fun same => notRequested peer groupId (same ▸ rfl)
    unfold ObjectTracker.getOrPush
    split
    · exact absent
    · simpa [different] using absent
  | send other =>
    obtain ⟨_, sent⟩ := effect
    obtain ⟨channel, rfl, -⟩ := requestSenderSend_eq sent
    exact absent
  | requester delivered => exact fun present => absent (requesterLoop_keys effect.2 present)
  | response other => exact fun present => absent (handleObjectResponseQueue_keys _ _ (effect.2 ▸ present))
  | responseCache | markGroupAsFail =>
    obtain ⟨-, rfl⟩ := effect
    first
      | exact absent
      | exact fun present => absent ((Queue.keys_filter_sublist _ _).subset present)
  | handlerTick =>
    obtain ⟨-, rfl⟩ := effect
    obtain ⟨queue, inserts, sub, eq⟩ := sweep_eq s.queue.length s
    rw [handlerLoopTick, eq]
    exact fun present => absent ((Queue.keys_sublist_of_sublist sub).subset present)
  | cacheInsert =>
    obtain ⟨_, _, _, rfl⟩ := effect
    exact absent
  | cleanCache | nextGroupId | elapse | disconnect => exact effect ▸ absent

theorem cleanQueue_pendingInserts {peerId groupId : Option Nat} {hash : Hash}
    (pending : hash ∈ (s.cleanQueue peerId groupId).pendingInserts) :
    hash ∈ s.pendingInserts ∨ hash ∈ s.queue.keys :=
  (List.mem_append.mp pending).imp_right fun taken => (Queue.keys_filter_sublist _ _).subset taken

theorem sweep_pendingInserts {hash : Hash} (fuel : Nat) (pending : hash ∈ (sweep fuel s).pendingInserts) :
    hash ∈ s.pendingInserts ∨ hash ∈ s.queue.keys := by
  induction fuel generalizing s with
  | zero => exact .inl pending
  | succ fuel ih =>
    unfold ObjectTracker.sweep at pending
    split at pending
    · split at pending
      · exact (ih pending).elim cleanQueue_pendingInserts
          fun queued => .inr ((Queue.keys_filter_sublist _ _).subset queued)
      · exact .inl pending
    · exact .inl pending

theorem requestObjectFromPeerInternal_pendingInserts {requestHash hash : Hash} {delivered : Bool}
    (pending : hash ∈ (s.requestObjectFromPeerInternal requestHash delivered).pendingInserts) :
    hash ∈ s.pendingInserts ∨ hash ∈ s.queue.keys := by
  unfold ObjectTracker.requestObjectFromPeerInternal at pending
  split at pending
  · exact .inl pending
  · dsimp only at pending
    split at pending
    · simpa using cleanQueue_pendingInserts pending
    · split at pending
      · exact .inl pending
      · simpa using cleanQueue_pendingInserts pending

theorem step_pendingInserts {event : Event} {hash : Hash} (stepped : step s event = some s')
    (pending : hash ∈ s'.pendingInserts) : hash ∈ s.pendingInserts ∨ hash ∈ s.queue.keys := by
  have effect := step_eq_some stepped
  cases event with
  | request | response =>
    obtain ⟨-, rfl⟩ := effect
    exact .inl (by simpa using pending)
  | send hash =>
    obtain ⟨_, sent⟩ := effect
    obtain ⟨channel, rfl, -⟩ := requestSenderSend_eq sent
    exact .inl pending
  | requester delivered =>
    obtain ⟨_, rest, -, rfl⟩ := requesterLoop_eq effect.2
    exact (requestObjectFromPeerInternal_pendingInserts pending :)
  | responseCache =>
    obtain ⟨-, rfl⟩ := effect
    exact .inl pending
  | markGroupAsFail => exact cleanQueue_pendingInserts (effect.2 ▸ pending)
  | handlerTick => exact sweep_pendingInserts _ (effect.2 ▸ pending)
  | cacheInsert =>
    obtain ⟨_, _, inserts, rfl⟩ := effect
    exact .inl (inserts ▸ List.mem_cons_of_mem _ pending)
  | cleanCache | nextGroupId | elapse | disconnect =>
    rw [effect] at pending
    exact .inl pending

theorem step_cache_keys {event : Event} {hash : Hash} (stepped : step s event = some s')
    (cached : hash ∈ s'.cache.keys) : hash ∈ s.cache.keys ∨ hash ∈ s.pendingInserts := by
  obtain ⟨time, member⟩ := Queue.mem_keys.mp cached
  rcases step_cache stepped with kept | ⟨-, other, rest, pending, inserted⟩ |
      ⟨other, -, removed⟩ | ⟨-, cleaned⟩
  · exact .inl (kept ▸ cached)
  · rw [inserted, ExpirableCache.mem_insert, Prod.mk.injEq] at member
    rcases member with ⟨member, -⟩ | ⟨rfl, -⟩
    · exact .inl (Queue.mem_keys_of_mem member)
    · exact .inr (by simp [pending])
  · rw [removed, ExpirableCache.mem_remove] at member
    exact .inl (Queue.mem_keys_of_mem member.1)
  · rw [cleaned, ExpirableCache.mem_clean] at member
    exact .inl (Queue.mem_keys_of_mem member.1)

/-- The cache inserts `clean_queue` still owes, made one after another at the current instant. -/
def ObjectTracker.flushInserts (s : ObjectTracker) : ObjectTracker :=
  { s with
    pendingInserts := []
    cache := s.pendingInserts.foldl (fun cache hash => cache.insert hash s.clock) s.cache }

theorem exec_flushInserts (s : ObjectTracker) :
    exec s (List.replicate s.pendingInserts.length .cacheInsert) = some s.flushInserts := by
  obtain ⟨queue, requestChannel, channelOpen, cache, groupId, pendingSends, pendingResponses,
    pending, clock, closedPeers, nextSlot, transmitted⟩ := s
  induction pending generalizing cache with
  | nil => rfl
  | cons hash rest ih =>
    simp only [List.length_cons, List.replicate_succ, exec, Dapa.Tracker.step,
      ObjectTracker.cacheInsert, Option.bind_some]
    exact ih _

/-- One event that does not insert `hash` into the cache: `hash` is not evicted again. -/
def StepWithoutInsert (hash : Hash) (s s' : ObjectTracker) : Prop :=
  ∃ event, step s event = some s' ∧ ¬ (event = .cacheInsert ∧ s.pendingInserts.head? = some hash)

theorem StepWithoutInsert.entries_le {hash : Hash} {t : Nat} (stepped : StepWithoutInsert hash s s')
    (old : ∀ entry ∈ s.cache, entry.1 = hash → entry.2 ≤ t) :
    ∀ entry ∈ s'.cache, entry.1 = hash → entry.2 ≤ t := by
  obtain ⟨event, stepped, notInsert⟩ := stepped
  intro entry member same
  rcases step_cache stepped with kept | ⟨rfl, other, rest, pending, inserted⟩ |
      ⟨removed, -, cleared⟩ | ⟨-, cleaned⟩
  · exact old entry (kept ▸ member) same
  · rw [inserted, ExpirableCache.mem_insert] at member
    rcases member with ⟨member, -⟩ | rfl
    · exact old entry member same
    · exact absurd same (by simpa [pending] using notInsert)
  · rw [cleared, ExpirableCache.mem_remove] at member
    exact old entry member.1 same
  · rw [cleaned, ExpirableCache.mem_clean] at member
    exact old entry member.1 same

theorem StepWithoutInsert.absent {hash : Hash} (stepped : StepWithoutInsert hash s s')
    (absent : hash ∉ s.cache.keys) : hash ∉ s'.cache.keys := by
  intro present
  obtain ⟨time, member⟩ := Queue.mem_keys.mp present
  have old : ∀ entry ∈ s.cache, entry.1 = hash → entry.2 ≤ time - 1 := fun entry member same =>
    absent (same ▸ Queue.mem_keys_of_mem member) |>.elim
  have := stepped.entries_le old _ member rfl
  obtain ⟨event, stepped, notInsert⟩ := stepped
  rcases step_cache stepped with kept | ⟨rfl, other, rest, pending, inserted⟩ |
      ⟨removed, -, cleared⟩ | ⟨-, cleaned⟩
  · exact absent (kept ▸ present)
  · rw [inserted, ExpirableCache.mem_insert] at member
    rcases member with ⟨member, -⟩ | same
    · exact absent (Queue.mem_keys_of_mem member)
    · simp only [Prod.mk.injEq] at same
      exact notInsert ⟨rfl, by simp [pending, same.1]⟩
  · rw [cleared, ExpirableCache.mem_remove] at member
    exact absent (Queue.mem_keys_of_mem member.1)
  · rw [cleaned, ExpirableCache.mem_clean] at member
    exact absent (Queue.mem_keys_of_mem member.1)

theorem entries_le_of_run {hash : Hash} {t : Nat}
    (run : Relation.ReflTransGen (StepWithoutInsert hash) s s')
    (old : ∀ entry ∈ s.cache, entry.1 = hash → entry.2 ≤ t) :
    ∀ entry ∈ s'.cache, entry.1 = hash → entry.2 ≤ t := by
  induction run with
  | refl => exact old
  | tail _ stepped ih => exact stepped.entries_le ih

theorem cleanCache_drops {hash : Hash} {t : Nat}
    (old : ∀ entry ∈ s.cache, entry.1 = hash → entry.2 ≤ t) (late : t + timeOut ≤ s.clock) :
    hash ∉ s.cleanCache.cache.keys := by
  intro present
  obtain ⟨time, member⟩ := Queue.mem_keys.mp present
  rw [ObjectTracker.cleanCache, ExpirableCache.mem_clean] at member
  have young := old _ member.1 rfl
  have fresh := member.2
  simp only at young fresh
  omega

end Dapa.Tracker
