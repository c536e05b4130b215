import Dapa.Tracker.Sweep

/-!
# Dispatch

Only a requester iteration calls `send_bytes`, and it sends the request queued under the
oldest hash of the channel. The channel carries hashes, not requests: an item whose request
left the queue before its turn is still there when the hash is requested again, and it then
dispatches the newer request, ahead of its own item and of the requests queued before it.
The caller side pushes its request before the fallible channel send and keeps it on failure.
-/

namespace Dapa.Tracker
open ObjectTracker

variable {s s' : ObjectTracker}

theorem sweep_transmitted (fuel : Nat) : (sweep fuel s).transmitted = s.transmitted := by
  obtain ⟨_, _, _, eq⟩ := sweep_eq fuel s
  rw [eq]

theorem step_transmitted {event : Event} (stepped : step s event = some s') :
    s'.transmitted = s.transmitted ∨
    ∃ delivered hash rest request, event = .requester delivered ∧
      s.requestChannel = hash :: rest ∧ s.queue.get hash = some request ∧
      request.peer ∉ s.closedPeers ∧ s'.transmitted = s.transmitted ++ [request.slot] := by
  have effect := step_eq_some stepped
  cases event with
  | request hash peer groupId => exact .inl (effect.2 ▸ getOrPush_transmitted ..)
  | send hash =>
    obtain ⟨_, sent⟩ := effect
    obtain ⟨channel, rfl, -⟩ := requestSenderSend_eq sent
    exact .inl rfl
  | requester delivered =>
    obtain ⟨hash, rest, channel, rfl⟩ := requesterLoop_eq effect.2
    unfold ObjectTracker.requestObjectFromPeerInternal
    split
    · exact .inl rfl
    · next request found =>
      dsimp only
      split
      · exact .inl rfl
      · next peerOpen =>
        refine .inr ⟨delivered, hash, rest, request, rfl, channel, found, peerOpen, ?_⟩
        split <;> rfl
  | response hash => exact .inl (effect.2 ▸ handleObjectResponseQueue_transmitted ..)
  | responseCache | markGroupAsFail => exact .inl (effect.2 ▸ rfl)
  | handlerTick => exact .inl (effect.2 ▸ sweep_transmitted _)
  | cacheInsert =>
    obtain ⟨_, _, _, rfl⟩ := effect
    exact .inl rfl
  | cleanCache | nextGroupId | elapse | disconnect => exact .inl (effect ▸ rfl)

/-- The request of `2` pushed last in `staleDispatch` is sent by the stale item and again by its
own item while still queued. -/
theorem request_transmitted_twice :
    ∃ s s', Reachable s ∧ exec s [.requester true, .elapse 20000, .requester true] = some s' ∧
      (2, ⟨7, none, some 0, 2⟩) ∈ s.queue ∧ s.transmitted = [2] ∧
      (2, ⟨7, none, some 20000, 2⟩) ∈ s'.queue ∧ s'.transmitted = [2, 1, 2] :=
  ⟨_, _, Reachable.new.exec staleDispatch rfl, rfl, by decide, by decide, by decide,
    by decide⟩

/-- The request of `1` is pushed before the second request of `2`, yet slot `2` is sent first. -/
theorem later_request_transmitted_first :
    ∃ s s', Reachable s ∧ exec s [.requester true] = some s' ∧
      (1, ⟨7, none, none, 1⟩) ∈ s.queue ∧ (2, ⟨7, none, some 0, 2⟩) ∈ s.queue ∧
      s.transmitted = [2] ∧ s'.transmitted = [2, 1] :=
  ⟨_, _, Reachable.new.exec staleDispatch rfl, rfl, by decide, by decide, by decide,
    by decide⟩

/-! ### A failed channel send -/

theorem requestObjectFromPeerWithOrGetNotified_error {peer : Nat} {hash : Hash}
    {groupId : Option Nat} :
    (hash ∉ s.queue.keys → s.channelOpen = false →
      ∃ s', s.requestObjectFromPeerWithOrGetNotified peer hash groupId =
        some (s', .error .channelClosed)) ∧
    ∀ s' error, s.requestObjectFromPeerWithOrGetNotified peer hash groupId = some (s', .error error) →
      hash ∉ s.queue.keys ∧ s.channelOpen = false ∧
      s'.queue = s.queue.push hash { peer, groupId, requested := none, slot := s.nextSlot } := by
  unfold ObjectTracker.requestObjectFromPeerWithOrGetNotified
  split
  · next request found =>
    have present := Queue.mem_keys_of_mem (Queue.mem_of_get found)
    simp [present]
  · next absent =>
    have free := Queue.get_eq_none.mp absent
    simp only [getOrPush, absent, requestSenderSend, List.mem_append, List.mem_singleton, or_true,
      ↓reduceIte, free, true_and, true_implies]
    cases channel : s.channelOpen
    · simp [Except.map]
    · simp only [Bool.not_true, Bool.false_eq_true, ↓reduceIte, reduceCtorEq, false_implies,
        Bool.true_eq_false, false_and, imp_false, true_and]
      split <;> simp [Except.map]

/-- After server exit a call for an unqueued hash fails and leaves its request queued, unsent and
with no channel item. -/
theorem closed_channel_call_keeps_request :
    ({ channelOpen := false } : ObjectTracker).requestObjectFromPeerWithOrGetNotified 7 170 none =
      some ({ channelOpen := false, queue := [(170, ⟨7, none, none, 0⟩)], nextSlot := 1 },
        .error .channelClosed) :=
  rfl

end Dapa.Tracker
