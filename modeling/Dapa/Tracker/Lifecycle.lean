import Dapa.Tracker.Dispatch
import Mathlib.Data.List.Sort

/-!
# The life of a request

A request takes the next slot when it is pushed, and the next slot only grows. Every event
either takes requests out of the queue, keeping the others in order, or pushes one request with
the next slot at the tail. So the queue lists its requests in the order they were accepted, and
a request that has left the queue, by a response, a timeout or an eviction, never comes back:
no later event queues it again, and no later `send_bytes` call is for it.
-/

namespace Dapa.Tracker
open ObjectTracker

variable {s s' : ObjectTracker}

def ObjectTracker.slots (s : ObjectTracker) : List Nat := s.queue.map (·.2.slot)

theorem slots_modify_requested (queue : Queue Hash Request) (hash : Hash) (now : Nat) :
    (queue.modify hash fun r => { r with requested := some now }).map (·.2.slot) =
      queue.map (·.2.slot) := by
  simp only [Queue.modify, List.map_map]
  apply List.map_congr_left
  intro entry _
  by_cases same : entry.1 = hash <;> simp [same]

theorem cleanQueue_slots (s : ObjectTracker) (peerId groupId : Option Nat) :
    List.Sublist (s.cleanQueue peerId groupId).slots s.slots :=
  (List.filter_sublist _).map _

theorem handleObjectResponseQueue_slots (s : ObjectTracker) (hash : Hash) :
    List.Sublist (s.handleObjectResponseQueue hash).1.slots s.slots ∧
      (s.handleObjectResponseQueue hash).1.nextSlot = s.nextSlot := by
  unfold ObjectTracker.handleObjectResponseQueue
  dsimp only
  split
  · exact ⟨(List.filter_sublist _).map _, rfl⟩
  · exact ⟨.refl _, rfl⟩

theorem requestObjectFromPeerInternal_slots (s : ObjectTracker) (hash : Hash) (delivered : Bool) :
    List.Sublist (s.requestObjectFromPeerInternal hash delivered).slots s.slots ∧
      (s.requestObjectFromPeerInternal hash delivered).nextSlot = s.nextSlot := by
  unfold ObjectTracker.requestObjectFromPeerInternal
  have stamped : List.Sublist
      ((s.queue.modify hash fun r => { r with requested := some s.clock }).map (·.2.slot)) s.slots := by
    rw [slots_modify_requested]
    exact .refl _
  split
  · exact ⟨.refl _, rfl⟩
  · dsimp only
    split
    · exact ⟨(cleanQueue_slots _ _ _).trans stamped, rfl⟩
    · split
      · exact ⟨stamped, rfl⟩
      · exact ⟨(cleanQueue_slots _ _ _).trans stamped, rfl⟩

theorem step_slots {event : Event} (stepped : step s event = some s') :
    (List.Sublist s'.slots s.slots ∧ s.nextSlot ≤ s'.nextSlot) ∨
    (s'.slots = s.slots ++ [s.nextSlot] ∧ s'.nextSlot = s.nextSlot + 1) := by
  have effect := step_eq_some stepped
  cases event with
  | request hash peer groupId =>
    obtain ⟨-, rfl⟩ := effect
    unfold ObjectTracker.getOrPush
    split
    · exact .inl ⟨.refl _, le_rfl⟩
    · exact .inr ⟨by simp [ObjectTracker.slots, Queue.push], rfl⟩
  | send hash =>
    obtain ⟨_, sent⟩ := effect
    obtain ⟨channel, rfl, -⟩ := requestSenderSend_eq sent
    exact .inl ⟨.refl _, le_rfl⟩
  | requester delivered =>
    obtain ⟨hash, rest, -, rfl⟩ := requesterLoop_eq effect.2
    obtain ⟨sub, next⟩ := requestObjectFromPeerInternal_slots { s with requestChannel := rest } hash delivered
    exact .inl ⟨sub, next.ge⟩
  | response hash =>
    obtain ⟨-, rfl⟩ := effect
    obtain ⟨sub, next⟩ := handleObjectResponseQueue_slots s hash
    exact .inl ⟨sub, next.ge⟩
  | responseCache hash =>
    obtain ⟨-, rfl⟩ := effect
    exact .inl ⟨.refl _, le_rfl⟩
  | markGroupAsFail groupId =>
    obtain ⟨-, rfl⟩ := effect
    exact .inl ⟨cleanQueue_slots _ _ _, le_rfl⟩
  | handlerTick =>
    obtain ⟨-, rfl⟩ := effect
    obtain ⟨queue, inserts, sub, eq⟩ := sweep_eq s.queue.length s
    rw [handlerLoopTick, eq]
    exact .inl ⟨sub.map _, le_rfl⟩
  | cacheInsert =>
    obtain ⟨_, _, _, rfl⟩ := effect
    exact .inl ⟨.refl _, le_rfl⟩
  | cleanCache | nextGroupId | elapse | disconnect =>
    rw [effect]
    exact .inl ⟨.refl _, le_rfl⟩

/-- Every reachable tracker keeps its requests in acceptance order: slots increase from head to
tail, below the next slot. -/
theorem queue_in_acceptance_order (reach : Reachable s) :
    s.slots.Sorted (· < ·) ∧ ∀ slot ∈ s.slots, slot < s.nextSlot := by
  induction reach with
  | new => exact ⟨List.sorted_nil, fun _ member => absurd member (List.not_mem_nil _)⟩
  | step event _ stepped ih =>
    obtain ⟨sorted, below⟩ := ih
    rcases step_slots stepped with ⟨sub, grows⟩ | ⟨pushed, next⟩
    · exact ⟨sorted.sublist sub, fun slot member => (below slot (sub.subset member)).trans_le grows⟩
    · rw [pushed, next]
      refine ⟨List.pairwise_append.mpr ⟨sorted, List.pairwise_singleton _ _, fun older member newer last => ?_⟩,
        fun slot member => ?_⟩
      · rw [List.mem_singleton.mp last]
        exact below older member
      · rcases List.mem_append.mp member with queued | last
        · exact (below slot queued).trans (Nat.lt_succ_self _)
        · rw [List.mem_singleton.mp last]
          exact Nat.lt_succ_self _

theorem queue_in_acceptance_order_stale_dispatch :
    let s : ObjectTracker :=
      { queue := [(1, ⟨7, none, none, 1⟩), (2, ⟨7, none, some 0, 2⟩)], requestChannel := [1, 2],
        cache := [(2, 0)], nextSlot := 3, transmitted := [2] }
    Reachable s ∧ s.slots = [1, 2] ∧ (s.slots.Sorted (· < ·) ∧ ∀ slot ∈ s.slots, slot < s.nextSlot) := by
  intro s
  have reach : Reachable s := Reachable.new.exec staleDispatch rfl
  exact ⟨reach, rfl, queue_in_acceptance_order reach⟩

theorem step_keeps_removed {event : Event} (stepped : step s event = some s') {slot : Nat}
    (old : slot < s.nextSlot) (gone : slot ∉ s.slots) :
    slot < s'.nextSlot ∧ slot ∉ s'.slots ∧
      ∃ sent, s'.transmitted = s.transmitted ++ sent ∧ slot ∉ sent := by
  have out : slot < s'.nextSlot ∧ slot ∉ s'.slots := by
    rcases step_slots stepped with ⟨sub, grows⟩ | ⟨pushed, next⟩
    · exact ⟨old.trans_le grows, fun member => gone (sub.subset member)⟩
    · rw [pushed, next]
      exact ⟨old.trans (Nat.lt_succ_self _), by simp [gone, old.ne]⟩
  refine ⟨out.1, out.2, ?_⟩
  rcases step_transmitted stepped with same | ⟨-, hash, -, request, -, -, found, -, sent⟩
  · exact ⟨[], by simp [same], List.not_mem_nil _⟩
  · have queued : request.slot ∈ s.slots := List.mem_map_of_mem _ (Queue.mem_of_get found)
    exact ⟨[request.slot], sent, fun member => gone (List.mem_singleton.mp member ▸ queued)⟩

/-- A request that left the queue never returns to it and is never sent again. -/
theorem removed_request_never_returns (events : List Event) :
    ∀ {s s' : ObjectTracker}, exec s events = some s' → ∀ {slot : Nat}, slot < s.nextSlot →
      slot ∉ s.slots → slot ∉ s'.slots ∧ ∃ sent, s'.transmitted = s.transmitted ++ sent ∧ slot ∉ sent := by
  induction events with
  | nil =>
    intro s s' run slot _ gone
    cases run
    exact ⟨gone, [], by simp, List.not_mem_nil _⟩
  | cons event rest ih =>
    intro s s' run slot old gone
    simp only [exec, Option.bind_eq_some] at run
    obtain ⟨next, stepped, run⟩ := run
    obtain ⟨below, out, first, logged, fresh⟩ := step_keeps_removed stepped old gone
    obtain ⟨stays, later, logged', fresh'⟩ := ih run below out
    exact ⟨stays, first ++ later, by rw [logged', logged, List.append_assoc],
      fun member => (List.mem_append.mp member).elim fresh fresh'⟩

theorem removed_request_never_returns_cancelled :
    let s : ObjectTracker := { requestChannel := [2], cache := [(2, 0)], nextSlot := 1 }
    ∃ s', exec s [.request 2 7 none, .send 2, .requester true] = some s' ∧ 0 < s.nextSlot ∧
      0 ∉ s.slots ∧ s'.slots = [1] ∧ s'.transmitted = [1] ∧
      (0 ∉ s'.slots ∧ ∃ sent, s'.transmitted = s.transmitted ++ sent ∧ 0 ∉ sent) := by
  intro s
  exact ⟨_, rfl, by decide, by decide, rfl, rfl,
    @removed_request_never_returns [.request 2 7 none, .send 2, .requester true] s _ rfl 0 (by decide)
      (by decide)⟩

end Dapa.Tracker
