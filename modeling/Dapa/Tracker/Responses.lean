import Dapa.Tracker.Dispatch

/-!
# Late responses

Every hash the expirable cache holds, or that `clean_queue` still owes it, was taken out of the
queue by an event of the run, and `clean_queue` caches every request it takes out, whether
`send_bytes` ran for it or not; a response arriving after the eviction is absorbed.
`handle_object_response` reads the queue under the queue lock and then the cache under the
cache lock. Its queue part cannot run while `clean_queue` holds the queue lock, so a response
that starts after an eviction finds the hash in the cache until a clean `TIME_OUT` later. Its
cache part can run between `clean_queue`'s removal of a hash and the insert of that hash.
-/

namespace Dapa.Tracker
open ObjectTracker

variable {s s' s₀ s₁ s₂ s₃ : ObjectTracker}

/-! ### What the cache holds -/

theorem cleanQueue_owes_evicted {peerId groupId : Option Nat} {entry : Hash × Request}
    (member : entry ∈ s.queue) (evicted : evicts s.closedPeers s.clock peerId groupId entry.2 = true) :
    entry.1 ∈ (s.cleanQueue peerId groupId).pendingInserts :=
  List.mem_append_right _ (Queue.mem_keys_of_mem (List.mem_filter.mpr ⟨member, evicted⟩))

theorem handleObjectResponseQueue_of_not_mem {hash : Hash} (unqueued : hash ∉ s.queue.keys) :
    s.handleObjectResponseQueue hash = ({ s with pendingResponses := s.pendingResponses ++ [hash] }, false) := by
  simp [handleObjectResponseQueue, Queue.remove, Queue.get_eq_none.mpr unqueued]

theorem handleObjectResponse_of_cached {hash : Hash} (unqueued : hash ∉ s.queue.keys)
    (cached : hash ∈ s.cache.keys) : (s.handleObjectResponse hash).2 = true := by
  simp [handleObjectResponse, handleObjectResponseQueue_of_not_mem unqueued, handleObjectResponseCache,
    ExpirableCache.remove_found, cached]

/-- Some event of the run found `hash` queued, took it out of the queue and owed it to the cache. -/
def EvictedDuring (s : ObjectTracker) (events : List Event) (hash : Hash) : Prop :=
  ∃ before event after s₁ s₂, events = before ++ event :: after ∧ exec s before = some s₁ ∧
    step s₁ event = some s₂ ∧ hash ∈ s₁.queue.keys ∧ hash ∉ s₂.queue.keys ∧ hash ∈ s₂.pendingInserts

theorem step_owed {event : Event} {hash : Hash} (stepped : step s event = some s')
    (owed : hash ∈ s'.cache.keys ∨ hash ∈ s'.pendingInserts) :
    (hash ∈ s.cache.keys ∨ hash ∈ s.pendingInserts) ∨ (hash ∈ s.queue.keys ∧ hash ∈ s'.pendingInserts) := by
  rcases owed with cached | pending
  · exact .inl (step_cache_keys stepped cached)
  · exact (step_pendingInserts stepped pending).imp .inr (⟨·, pending⟩)

theorem owed_of_exec {events : List Event} {hash : Hash} (reach : Reachable s)
    (run : exec s events = some s') (owed : hash ∈ s'.cache.keys ∨ hash ∈ s'.pendingInserts) :
    (hash ∈ s.cache.keys ∨ hash ∈ s.pendingInserts) ∨ EvictedDuring s events hash := by
  induction events generalizing s with
  | nil =>
    cases run
    exact .inl owed
  | cons event rest ih =>
    simp only [exec, Option.bind_eq_some] at run
    obtain ⟨s₁, stepped, run⟩ := run
    rcases ih (reach.step event stepped) run with
      earlier | ⟨before, later, after, s₂, s₃, rfl, ran, evicted⟩
    · rcases step_owed stepped earlier with kept | ⟨queued, pending⟩
      · exact .inl kept
      · exact .inr ⟨[], event, rest, s, s₁, rfl, rfl, stepped, queued,
          (reach.step event stepped).inv.evicted hash pending, pending⟩
    · exact .inr ⟨event :: before, later, after, s₂, s₃, rfl, by simp [exec, stepped, ran], evicted⟩

/-- Every identity the cache holds or is owed was evicted by an event of the run; `clean_queue`
caches every request it evicts, sent or not, and a response then finds it. -/
theorem evictions_cached_sent_or_not :
    (∀ events s hash, exec ObjectTracker.new events = some s →
      hash ∈ s.cache.keys ∨ hash ∈ s.pendingInserts → EvictedDuring ObjectTracker.new events hash) ∧
    (∀ s, Reachable s → ∀ peerId groupId, ∀ entry ∈ s.queue,
      evicts s.closedPeers s.clock peerId groupId entry.2 = true →
      (entry.1, s.clock) ∈ (s.cleanQueue peerId groupId).flushInserts.cache ∧
      entry.1 ∉ (s.cleanQueue peerId groupId).flushInserts.queue.keys ∧
      ((s.cleanQueue peerId groupId).flushInserts.handleObjectResponse entry.1).2 = true) := by
  refine ⟨fun events s hash run owed => ?_, fun s reach peerId groupId entry member evicted => ?_⟩
  · exact (owed_of_exec .new run owed).resolve_left (by simp [ObjectTracker.new])
  · have owed := cleanQueue_owes_evicted member evicted
    have unqueued : entry.1 ∉ (s.cleanQueue peerId groupId).flushInserts.queue.keys :=
      (reach.inv.cleanQueue peerId groupId).evicted _ owed
    have cached : (entry.1, s.clock) ∈ (s.cleanQueue peerId groupId).flushInserts.cache :=
      (ExpirableCache.mem_foldl_insert _ _ _).mpr (.inr ⟨owed, rfl⟩)
    exact ⟨cached, unqueued, handleObjectResponse_of_cached unqueued (Queue.mem_keys_of_mem cached)⟩

theorem evictions_cached_unsent_group_member :
    let s : ObjectTracker := { queue := [(2, ⟨7, some 3, none, 0⟩)], requestChannel := [2], nextSlot := 1 }
    EvictedDuring ObjectTracker.new [.request 2 7 (some 3), .send 2, .markGroupAsFail 3, .cacheInsert] 2 ∧
      Reachable s ∧ s.transmitted = [] ∧
      (2, s.clock) ∈ (s.cleanQueue none (some 3)).flushInserts.cache ∧
      2 ∉ (s.cleanQueue none (some 3)).flushInserts.queue.keys ∧
      ((s.cleanQueue none (some 3)).flushInserts.handleObjectResponse 2).2 = true :=
  have reach := Reachable.new.exec [.request 2 7 (some 3), .send 2] rfl
  ⟨evictions_cached_sent_or_not.1 _ { requestChannel := [2], cache := [(2, 0)], nextSlot := 1 } 2 rfl
      (by decide),
    reach, rfl, evictions_cached_sent_or_not.2 _ reach none (some 3) (2, ⟨7, some 3, none, 0⟩) (by decide) rfl⟩

/-- A request cancelled with its group before it is sent is cached, and its response answers `true`. -/
theorem unsent_request_cached :
    ∃ s, Reachable s ∧ s.transmitted = [] ∧ 2 ∈ s.cache.keys ∧ 2 ∉ s.queue.keys ∧
      (s.handleObjectResponse 2).2 = true :=
  Reachable.of_exec [.request 2 7 (some 3), .send 2, .markGroupAsFail 3, .cacheInsert]
    (by decide)

/-! ### Responses after an eviction -/

/-- One event that keeps the entry `hash` got at `t` in the cache. -/
def KeepsCached (hash : Hash) (t : Nat) (s s' : ObjectTracker) : Prop :=
  ∃ event, step s event = some s' ∧ event ≠ .responseCache hash ∧
    (event = .cleanCache → s.clock < t + timeOut) ∧
    (event = .cacheInsert → s.pendingInserts.head? ≠ some hash)

theorem KeepsCached.cached {hash : Hash} {t : Nat} (keeps : KeepsCached hash t s s')
    (cached : (hash, t) ∈ s.cache) : (hash, t) ∈ s'.cache := by
  obtain ⟨event, stepped, notCache, early, notInsert⟩ := keeps
  rcases step_cache stepped with kept | ⟨rfl, other, rest, pending, inserted⟩ |
      ⟨other, rfl, removed⟩ | ⟨rfl, cleaned⟩
  · exact kept ▸ cached
  · have different : hash ≠ other := fun same => notInsert rfl (by simp [pending, same])
    rw [inserted, ExpirableCache.mem_insert]
    exact .inl ⟨cached, different⟩
  · have different : hash ≠ other := fun same => notCache (same ▸ rfl)
    rw [removed, ExpirableCache.mem_remove]
    exact ⟨cached, different⟩
  · have fresh := early rfl
    have positive := timeOut_pos
    rw [cleaned, ExpirableCache.mem_clean]
    exact ⟨cached, by simp only; omega⟩

theorem cached_of_run {hash : Hash} {t : Nat}
    (run : Relation.ReflTransGen (KeepsCached hash t) s s') (cached : (hash, t) ∈ s.cache) :
    (hash, t) ∈ s'.cache := by
  induction run with
  | refl => exact cached
  | tail _ keeps ih => exact keeps.cached ih

theorem cacheInsert_cached {hash : Hash} (removal : step s .cacheInsert = some s₀)
    (head : s.pendingInserts.head? = some hash) :
    s₀ = { s with pendingInserts := s.pendingInserts.tail, cache := s.cache.insert hash s.clock } := by
  obtain ⟨first, rest, pending, rfl⟩ := step_eq_some removal
  simp only [pending, List.head?_cons, Option.some.injEq] at head
  subst head
  simp [pending]

theorem response_after_eviction_absorbed {hash : Hash} (removal : step s .cacheInsert = some s₀)
    (head : s.pendingInserts.head? = some hash)
    (before : Relation.ReflTransGen (KeepsCached hash s.clock) s₀ s₁) :
    (s₁.handleObjectResponseQueue hash).2 = true ∨
      ∀ s₂, Relation.ReflTransGen (KeepsCached hash s.clock) (s₁.handleObjectResponseQueue hash).1 s₂ →
        (s₂.handleObjectResponseCache hash).2 = true := by
  have cached := cached_of_run before (by simp [cacheInsert_cached removal head])
  refine .inr fun s₂ after => ?_
  have held : (hash, s.clock) ∈ s₂.cache := cached_of_run after (by
    unfold ObjectTracker.handleObjectResponseQueue
    dsimp only
    split <;> exact cached)
  simp only [handleObjectResponseCache, ExpirableCache.remove_found, decide_eq_true_eq]
  exact Queue.mem_keys_of_mem held

/-- One event that neither requests `hash` nor inserts it into the cache. -/
def Unrequested (hash : Hash) (s s' : ObjectTracker) : Prop :=
  ∃ event, step s event = some s' ∧ (∀ peer groupId, event ≠ .request hash peer groupId) ∧
    ¬ (event = .cacheInsert ∧ s.pendingInserts.head? = some hash)

theorem Unrequested.withoutInsert {hash : Hash} (step : Unrequested hash s s') :
    StepWithoutInsert hash s s' :=
  let ⟨event, stepped, _, notInsert⟩ := step
  ⟨event, stepped, notInsert⟩

theorem uncached_of_run {hash : Hash} (run : Relation.ReflTransGen (StepWithoutInsert hash) s s')
    (uncached : hash ∉ s.cache.keys) : hash ∉ s'.cache.keys := by
  induction run with
  | refl => exact uncached
  | tail _ stepped ih => exact stepped.absent ih

theorem unqueued_of_run {hash : Hash} (run : Relation.ReflTransGen (Unrequested hash) s s')
    (unqueued : hash ∉ s.queue.keys) : hash ∉ s'.queue.keys := by
  induction run with
  | refl => exact unqueued
  | tail _ step ih =>
    obtain ⟨event, stepped, notRequested, -⟩ := step
    exact step_not_queued stepped ih notRequested

theorem response_after_retention_unsolicited {hash : Hash} (reach : Reachable s)
    (removal : step s .cacheInsert = some s₀) (head : s.pendingInserts.head? = some hash)
    (before : Relation.ReflTransGen (Unrequested hash) s₀ s₁) (late : s.clock + timeOut ≤ s₁.clock)
    (after : Relation.ReflTransGen (Unrequested hash) s₁.cleanCache s₂) :
    (s₂.handleObjectResponseQueue hash).2 = false ∧
      ∀ s₃, Relation.ReflTransGen (Unrequested hash) (s₂.handleObjectResponseQueue hash).1 s₃ →
        (s₃.handleObjectResponseCache hash).2 = false := by
  have inserted := cacheInsert_cached removal head
  have pending : hash ∈ s.pendingInserts := List.mem_of_mem_head? head
  have unqueued₀ : hash ∉ s₀.queue.keys := by
    rw [inserted]
    exact reach.inv.evicted hash pending
  have stamped : ∀ entry ∈ s₀.cache, entry.1 = hash → entry.2 ≤ s.clock := by
    rw [inserted]
    intro entry member same
    rcases ExpirableCache.mem_insert.mp member with ⟨-, other⟩ | rfl
    · exact absurd same other
    · exact le_rfl
  have withoutInsert := fun s s' (step : Unrequested hash s s') => step.withoutInsert
  have dropped := cleanCache_drops (entries_le_of_run (before.mono withoutInsert) stamped) late
  have cleaned : hash ∉ s₁.cleanCache.queue.keys :=
    show hash ∉ s₁.queue.keys from unqueued_of_run before unqueued₀
  have unqueued := unqueued_of_run after cleaned
  have uncached := uncached_of_run (after.mono withoutInsert) dropped
  have first := handleObjectResponseQueue_of_not_mem unqueued
  refine ⟨by rw [first], fun s₃ run => ?_⟩
  rw [first] at run
  simp only [handleObjectResponseCache, ExpirableCache.remove_found, decide_eq_false_iff_not]
  exact uncached_of_run (run.mono withoutInsert) uncached

/-- A response whose queue part runs after an eviction answers `true` until a clean `TIME_OUT`
later, and `false` after one when the hash was neither requested nor evicted again. -/
theorem late_responses :
    (∀ {hash : Hash} {s s₀ s₁ : ObjectTracker}, step s .cacheInsert = some s₀ →
      s.pendingInserts.head? = some hash →
      Relation.ReflTransGen (KeepsCached hash s.clock) s₀ s₁ →
      (s₁.handleObjectResponseQueue hash).2 = true ∨
        ∀ s₂, Relation.ReflTransGen (KeepsCached hash s.clock) (s₁.handleObjectResponseQueue hash).1 s₂ →
          (s₂.handleObjectResponseCache hash).2 = true) ∧
    (∀ {hash : Hash} {s s₀ s₁ s₂ : ObjectTracker}, Reachable s → step s .cacheInsert = some s₀ →
      s.pendingInserts.head? = some hash → Relation.ReflTransGen (Unrequested hash) s₀ s₁ →
      s.clock + timeOut ≤ s₁.clock → Relation.ReflTransGen (Unrequested hash) s₁.cleanCache s₂ →
      (s₂.handleObjectResponseQueue hash).2 = false ∧
        ∀ s₃, Relation.ReflTransGen (Unrequested hash) (s₂.handleObjectResponseQueue hash).1 s₃ →
          (s₃.handleObjectResponseCache hash).2 = false) :=
  ⟨response_after_eviction_absorbed, response_after_retention_unsolicited⟩

theorem late_responses_after_group_fail :
    let s : ObjectTracker := { requestChannel := [5], pendingInserts := [5], nextSlot := 1 }
    let s₀ : ObjectTracker := { requestChannel := [5], cache := [(5, 0)], nextSlot := 1 }
    let s₁ : ObjectTracker := { s₀ with clock := 15000 }
    Reachable s ∧ step s .cacheInsert = some s₀ ∧ step s₀ (.elapse 15000) = some s₁ ∧
      (∀ s₂, Relation.ReflTransGen (KeepsCached 5 0) (s₀.handleObjectResponseQueue 5).1 s₂ →
        (s₂.handleObjectResponseCache 5).2 = true) ∧
      (s₁.cleanCache.handleObjectResponseQueue 5).2 = false ∧
      ∀ s₃, Relation.ReflTransGen (Unrequested 5) (s₁.cleanCache.handleObjectResponseQueue 5).1 s₃ →
        (s₃.handleObjectResponseCache 5).2 = false :=
  have reach := Reachable.new.exec [.request 5 7 (some 3), .send 5, .markGroupAsFail 3]
    rfl
  have elapsed : Unrequested 5 { requestChannel := [5], cache := [(5, 0)], nextSlot := 1 }
      { requestChannel := [5], cache := [(5, 0)], nextSlot := 1, clock := 15000 } :=
    ⟨.elapse 15000, rfl, fun _ _ => Event.noConfusion, fun ⟨insert, _⟩ => Event.noConfusion insert⟩
  ⟨reach, rfl, rfl, (late_responses.1 (s := { requestChannel := [5], pendingInserts := [5], nextSlot := 1 }) rfl rfl
    .refl).resolve_left (by decide),
    late_responses.2 reach rfl rfl (.single elapsed) le_rfl .refl⟩

/-- A response whose cache part runs between `clean_queue`'s removal and its insert finds neither. -/
theorem response_between_removal_and_insert :
    ∃ s, Reachable s ∧ 5 ∈ s.pendingResponses ∧ s.pendingInserts = [5] ∧
      5 ∉ s.queue.keys ∧ 5 ∉ s.cache.keys ∧ (s.handleObjectResponseCache 5).2 = false :=
  Reachable.of_exec [.response 5, .request 5 7 (some 3), .send 5, .markGroupAsFail 3]
    (by decide)

end Dapa.Tracker
