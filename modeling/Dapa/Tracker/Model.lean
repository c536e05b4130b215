import Dapa.Tracker.Containers

/-!
# The object tracker

`ObjectTracker` (`p2p/tracker/mod.rs`) as a labelled transition system. A state holds what
the tracker owns (the request queue, the requester channel, the expirable cache and the group
counter), the tasks that sit between two critical sections (callers before their channel
send, responses before their cache check, and the cache inserts that `clean_queue` still owes
while it holds the queue lock), and what the tracker only observes: the clock and the peers
whose connection is closed.

`step` performs one event. The events are the steps of the three loops and of the public
calls, each split at the points where the source releases one lock and takes another. Every
event that takes the queue lock waits until `clean_queue` has made all its cache inserts,
since `clean_queue` runs with the lock held. The step relation covers the tracker while its
loops run; server exit ends a run.
-/

namespace Dapa.Tracker

abbrev Hash := Nat

def peerTimeoutRequestObject : Nat := 15000

def timeOut : Nat := peerTimeoutRequestObject

theorem timeOut_pos : 0 < timeOut := by decide

def requesterChannelBuffer : Nat := 8

/-- Modelled from the spec: `Request` (`p2p/tracker/request.rs`, not in this repository), with
the notification slot its listeners share. -/
structure Request where
  peer : Nat
  groupId : Option Nat
  requested : Option Nat
  slot : Nat
  deriving DecidableEq, Repr

def Request.expired (now : Nat) (request : Request) : Bool :=
  match request.requested with
  | some requestedAt => decide (timeOut < now - requestedAt)
  | none => false

/-- Modelled from the spec: `P2pError` (`p2p/error.rs`, not in this repository). -/
inductive P2pError where
  | channelClosed
  deriving DecidableEq, Repr

structure ObjectTracker where
  queue : Queue Hash Request := []
  requestChannel : List Hash := []
  channelOpen : Bool := true
  cache : ExpirableCache Hash := []
  groupId : Nat := 0
  pendingSends : List Hash := []
  pendingResponses : List Hash := []
  pendingInserts : List Hash := []
  clock : Nat := 0
  closedPeers : List Nat := []
  nextSlot : Nat := 0
  /-- The slots `send_bytes` was called for, in call order. -/
  transmitted : List Nat := []
  deriving DecidableEq, Repr

namespace ObjectTracker

def new : ObjectTracker := {}

def nextGroupId (s : ObjectTracker) : ObjectTracker × Nat :=
  ({ s with groupId := s.groupId + 1 }, s.groupId)

/-- The predicate `clean_queue` hands to `extract_if`. -/
def evicts (closedPeers : List Nat) (now : Nat) (peerId groupId : Option Nat)
    (request : Request) : Bool :=
  (match groupId, request.groupId with
    | some failedGroup, some requestGroup => failedGroup == requestGroup
    | _, _ => false) ||
  (some request.peer == peerId || decide (request.peer ∈ closedPeers)) ||
  request.expired now

/-- `clean_queue`; the hashes taken out are owed to the cache, in queue order. -/
def cleanQueue (s : ObjectTracker) (peerId groupId : Option Nat) : ObjectTracker :=
  let extracted := s.queue.extractIf fun _ request => evicts s.closedPeers s.clock peerId groupId request
  { s with queue := extracted.1, pendingInserts := s.pendingInserts ++ Queue.keys extracted.2 }

def markGroupAsFail (s : ObjectTracker) (groupId : Nat) : ObjectTracker :=
  s.cleanQueue none (some groupId)

/-- The `while let Some(request) = queue.peek_mut()` loop of a `handler_loop` tick. -/
def sweep : Nat → ObjectTracker → ObjectTracker
  | 0, s => s
  | fuel + 1, s =>
    match s.queue.peek with
    | some (_, request) =>
      if request.expired s.clock then sweep fuel (s.cleanQueue (some request.peer) request.groupId)
      else s
    | none => s

/-- One `interval.tick()` of `handler_loop`; `queue.length` passes are enough. -/
def handlerLoopTick (s : ObjectTracker) : ObjectTracker := sweep s.queue.length s

/-- `request_object_from_peer_internal`; `delivered` is whether `send_bytes` returned `Ok`
before the peer's exit signal fired. -/
def requestObjectFromPeerInternal (s : ObjectTracker) (requestHash : Hash) (delivered : Bool) :
    ObjectTracker :=
  match s.queue.get requestHash with
  | none => s
  | some request =>
    let stamped := { s with
      queue := s.queue.modify requestHash fun r => { r with requested := some s.clock } }
    if request.peer ∈ s.closedPeers then stamped.cleanQueue (some request.peer) request.groupId
    else
      let sent := { stamped with transmitted := s.transmitted ++ [request.slot] }
      if delivered then sent else sent.cleanQueue (some request.peer) request.groupId

def requesterLoop (s : ObjectTracker) (delivered : Bool) : Option ObjectTracker :=
  match s.requestChannel with
  | [] => none
  | hash :: rest => some ({ s with requestChannel := rest }.requestObjectFromPeerInternal hash delivered)

/-- The critical section of `request_object_from_peer_with_or_get_notified`, and the slot listened to. -/
def getOrPush (s : ObjectTracker) (hash : Hash) (peer : Nat) (groupId : Option Nat) :
    ObjectTracker × Nat :=
  match s.queue.get hash with
  | some request => (s, request.slot)
  | none =>
    ({ s with
      queue := s.queue.push hash { peer, groupId, requested := none, slot := s.nextSlot }
      pendingSends := s.pendingSends ++ [hash]
      nextSlot := s.nextSlot + 1 }, s.nextSlot)

@[simp] theorem getOrPush_cache (s : ObjectTracker) (hash : Hash) (peer : Nat) (groupId : Option Nat) :
    (s.getOrPush hash peer groupId).1.cache = s.cache := by
  unfold getOrPush
  split <;> rfl

@[simp] theorem getOrPush_transmitted (s : ObjectTracker) (hash : Hash) (peer : Nat) (groupId : Option Nat) :
    (s.getOrPush hash peer groupId).1.transmitted = s.transmitted := by
  unfold getOrPush
  split <;> rfl

@[simp] theorem getOrPush_pendingInserts (s : ObjectTracker) (hash : Hash) (peer : Nat) (groupId : Option Nat) :
    (s.getOrPush hash peer groupId).1.pendingInserts = s.pendingInserts := by
  unfold getOrPush
  split <;> rfl

/-- `request_sender.send(hash).await` of a pending sender; `none` while the channel is full. -/
def requestSenderSend (s : ObjectTracker) (hash : Hash) : Option (ObjectTracker × Except P2pError Unit) :=
  if hash ∈ s.pendingSends then
    let done := { s with pendingSends := s.pendingSends.erase hash }
    if !s.channelOpen then some (done, .error .channelClosed)
    else if s.requestChannel.length < requesterChannelBuffer then
      some ({ done with requestChannel := s.requestChannel ++ [hash] }, .ok ())
    else none
  else none

/-- `request_object_from_peer_with_or_get_notified` with nothing run between its two parts. -/
def requestObjectFromPeerWithOrGetNotified (s : ObjectTracker) (peer : Nat) (hash : Hash)
    (groupId : Option Nat) : Option (ObjectTracker × Except P2pError Nat) :=
  match s.queue.get hash with
  | some request => some (s, .ok request.slot)
  | none =>
    let locked := s.getOrPush hash peer groupId
    (locked.1.requestSenderSend hash).map fun sent => (sent.1, sent.2.map fun _ => locked.2)

def handleObjectResponseQueue (s : ObjectTracker) (hash : Hash) : ObjectTracker × Bool :=
  let removed := s.queue.remove hash
  match removed.1 with
  | some _ => ({ s with queue := removed.2 }, true)
  | none => ({ s with pendingResponses := s.pendingResponses ++ [hash] }, false)

@[simp] theorem handleObjectResponseQueue_cache (s : ObjectTracker) (hash : Hash) :
    (s.handleObjectResponseQueue hash).1.cache = s.cache := by
  unfold handleObjectResponseQueue
  dsimp only
  split <;> rfl

@[simp] theorem handleObjectResponseQueue_transmitted (s : ObjectTracker) (hash : Hash) :
    (s.handleObjectResponseQueue hash).1.transmitted = s.transmitted := by
  unfold handleObjectResponseQueue
  dsimp only
  split <;> rfl

@[simp] theorem handleObjectResponseQueue_pendingInserts (s : ObjectTracker) (hash : Hash) :
    (s.handleObjectResponseQueue hash).1.pendingInserts = s.pendingInserts := by
  unfold handleObjectResponseQueue
  dsimp only
  split <;> rfl

theorem handleObjectResponseQueue_keys (s : ObjectTracker) (hash : Hash) :
    (s.handleObjectResponseQueue hash).1.queue.keys ⊆ s.queue.keys := by
  unfold handleObjectResponseQueue
  dsimp only
  split
  · exact (Queue.keys_filter_sublist _ _).subset
  · exact List.Subset.refl _

def handleObjectResponseCache (s : ObjectTracker) (hash : Hash) : ObjectTracker × Bool :=
  let removed := s.cache.remove hash
  ({ s with cache := removed.2, pendingResponses := s.pendingResponses.erase hash }, removed.1)

/-- `handle_object_response` with nothing run between its two parts. -/
def handleObjectResponse (s : ObjectTracker) (hash : Hash) : ObjectTracker × Bool :=
  let queued := s.handleObjectResponseQueue hash
  if queued.2 then queued else queued.1.handleObjectResponseCache hash

/-- The next `self.cache.insert(hash).await` of the `clean_queue` in progress. -/
def cacheInsert (s : ObjectTracker) : Option ObjectTracker :=
  match s.pendingInserts with
  | [] => none
  | hash :: rest => some { s with pendingInserts := rest, cache := s.cache.insert hash s.clock }

/-- One tick of `task_clean_cache`. -/
def cleanCache (s : ObjectTracker) : ObjectTracker :=
  { s with cache := s.cache.clean timeOut s.clock }

end ObjectTracker

/-- The tracker's calls and loop steps, split where the source releases one lock for another. -/
inductive Event where
  | request (hash : Hash) (peer : Nat) (groupId : Option Nat)
  | send (hash : Hash)
  | requester (delivered : Bool)
  | response (hash : Hash)
  | responseCache (hash : Hash)
  | markGroupAsFail (groupId : Nat)
  | handlerTick
  | cacheInsert
  | cleanCache
  | nextGroupId
  | elapse (duration : Nat)
  | disconnect (peer : Nat)
  deriving DecidableEq, Repr

open ObjectTracker in
def step (s : ObjectTracker) : Event → Option ObjectTracker
  | .request hash peer groupId =>
    if s.pendingInserts = [] then some (s.getOrPush hash peer groupId).1 else none
  | .send hash => (s.requestSenderSend hash).map Prod.fst
  | .requester delivered => if s.pendingInserts = [] then s.requesterLoop delivered else none
  | .response hash =>
    if s.pendingInserts = [] then some (s.handleObjectResponseQueue hash).1 else none
  | .responseCache hash =>
    if hash ∈ s.pendingResponses then some (s.handleObjectResponseCache hash).1 else none
  | .markGroupAsFail groupId =>
    if s.pendingInserts = [] then some (s.markGroupAsFail groupId) else none
  | .handlerTick => if s.pendingInserts = [] then some s.handlerLoopTick else none
  | .cacheInsert => s.cacheInsert
  | .cleanCache => some s.cleanCache
  | .nextGroupId => some s.nextGroupId.1
  | .elapse duration => some { s with clock := s.clock + duration }
  | .disconnect peer => some { s with closedPeers := peer :: s.closedPeers }

theorem step_eq_some {s s' : ObjectTracker} {event : Event} (stepped : step s event = some s') :
    match event with
    | .request hash peer groupId => s.pendingInserts = [] ∧ s' = (s.getOrPush hash peer groupId).1
    | .send hash => ∃ result, s.requestSenderSend hash = some (s', result)
    | .requester delivered => s.pendingInserts = [] ∧ s.requesterLoop delivered = some s'
    | .response hash => s.pendingInserts = [] ∧ s' = (s.handleObjectResponseQueue hash).1
    | .responseCache hash => hash ∈ s.pendingResponses ∧ s' = (s.handleObjectResponseCache hash).1
    | .markGroupAsFail groupId => s.pendingInserts = [] ∧ s' = s.markGroupAsFail groupId
    | .handlerTick => s.pendingInserts = [] ∧ s' = s.handlerLoopTick
    | .cacheInsert => ∃ hash rest, s.pendingInserts = hash :: rest ∧
        s' = { s with pendingInserts := rest, cache := s.cache.insert hash s.clock }
    | .cleanCache => s' = s.cleanCache
    | .nextGroupId => s' = s.nextGroupId.1
    | .elapse duration => s' = { s with clock := s.clock + duration }
    | .disconnect peer => s' = { s with closedPeers := peer :: s.closedPeers } := by
  cases event with
  | send hash =>
    obtain ⟨⟨next, result⟩, sent, rfl⟩ := Option.map_eq_some'.mp stepped
    exact ⟨result, sent⟩
  | requester delivered =>
    simp only [step] at stepped
    split at stepped
    · exact ⟨‹_›, stepped⟩
    · cases stepped
  | cacheInsert =>
    simp only [step, ObjectTracker.cacheInsert] at stepped
    split at stepped
    · cases stepped
    · next hash rest pending => exact ⟨hash, rest, pending, (Option.some.inj stepped).symm⟩
  | cleanCache | nextGroupId | elapse | disconnect => exact (Option.some.inj stepped).symm
  | request | response | responseCache | markGroupAsFail | handlerTick =>
    simp only [step, Option.ite_none_right_eq_some, Option.some.injEq] at stepped
    exact ⟨stepped.1, stepped.2.symm⟩

def exec : ObjectTracker → List Event → Option ObjectTracker
  | s, [] => some s
  | s, event :: rest => (step s event).bind (exec · rest)

inductive Reachable : ObjectTracker → Prop where
  | new : Reachable ObjectTracker.new
  | step {s s' : ObjectTracker} (event : Event) : Reachable s → step s event = some s' → Reachable s'

theorem Reachable.exec {s s' : ObjectTracker} (reach : Reachable s) (events : List Event)
    (run : exec s events = some s') : Reachable s' := by
  induction events generalizing s with
  | nil =>
    cases run
    exact reach
  | cons event rest ih =>
    simp only [Dapa.Tracker.exec, Option.bind_eq_some] at run
    obtain ⟨next, stepped, run⟩ := run
    exact ih (reach.step event stepped) run

theorem Reachable.of_exec (events : List Event) {p : ObjectTracker → Prop} [DecidablePred p]
    (holds : (Dapa.Tracker.exec ObjectTracker.new events).map (fun s => decide (p s)) = some true) :
    ∃ s, Reachable s ∧ p s := by
  cases run : Dapa.Tracker.exec ObjectTracker.new events with
  | none => simp [run] at holds
  | some s => exact ⟨s, Reachable.new.exec events run, by simpa [run] using holds⟩

end Dapa.Tracker
