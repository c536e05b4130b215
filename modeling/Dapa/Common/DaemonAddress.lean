import Mathlib.Data.List.Basic

/-!
# Daemon addresses

`sanitize_daemon_address` turns what a user gives as the daemon's address into a WebSocket
address: it lowercases the text, rewrites `https://` to `wss://` and `http://` to `ws://`, adds
`ws://` to a socket address and `wss://` to anything else without a scheme, and drops one
trailing `/`. The result begins with `ws://` or `wss://` exactly when something is left after
the scheme. When nothing is, the final `pop` takes the last `/` of the scheme itself.
-/

namespace Dapa.Common

/-- The scheme steps of `sanitize_daemon_address`, on the lowercase text, before its final `pop`. -/
def withWebSocketScheme (isSocketAddr : String → Bool) (target : List Char) : List Char :=
  if "https://".toList.isPrefixOf target then "wss://".toList ++ target.drop 8
  else if "http://".toList.isPrefixOf target then "ws://".toList ++ target.drop 7
  else if !"ws://".toList.isPrefixOf target && !"wss://".toList.isPrefixOf target then
    (if isSocketAddr (String.mk target) then "ws://" else "wss://").toList ++ target
  else target

/-- `sanitize_daemon_address`, with `str::to_lowercase` and the `SocketAddr` parse as parameters. -/
def sanitizeDaemonAddress (toLowercase : String → String) (isSocketAddr : String → Bool)
    (target : String) : String :=
  let target := withWebSocketScheme isSocketAddr (toLowercase target).toList
  String.mk (if target.getLast? = some '/' then target.dropLast else target)

example : sanitizeDaemonAddress id (fun _ => false) "https://node.dapa/" = "wss://node.dapa" := by
  decide

def bareSchemes : List String := ["", "http://", "https://", "ws://", "wss://"]

theorem withWebSocketScheme_eq (isSocketAddr : String → Bool) (target : List Char) :
    ∃ scheme host, (scheme = "ws://".toList ∨ scheme = "wss://".toList) ∧
      withWebSocketScheme isSocketAddr target = scheme ++ host ∧
      (host = [] → String.mk target ∈ bareSchemes) := by
  unfold withWebSocketScheme
  split
  · next https =>
    obtain ⟨rest, rfl⟩ := List.isPrefixOf_iff_prefix.mp https
    exact ⟨_, rest, .inr rfl, by rw [List.drop_left' (show "https://".toList.length = 8 from rfl)],
      fun empty => by subst empty; decide⟩
  split
  · next http =>
    obtain ⟨rest, rfl⟩ := List.isPrefixOf_iff_prefix.mp http
    exact ⟨_, rest, .inl rfl, by rw [List.drop_left' (show "http://".toList.length = 7 from rfl)],
      fun empty => by subst empty; decide⟩
  split
  · exact ⟨_, target, by cases isSocketAddr (String.mk target) <;> simp, rfl,
      fun empty => by subst empty; decide⟩
  · next kept =>
    have either : "ws://".toList.isPrefixOf target = true ∨ "wss://".toList.isPrefixOf target = true := by
      revert kept
      cases "ws://".toList.isPrefixOf target <;> cases "wss://".toList.isPrefixOf target <;> simp
    rcases either with ws | wss
    · obtain ⟨rest, rfl⟩ := List.isPrefixOf_iff_prefix.mp ws
      exact ⟨_, rest, .inl rfl, rfl, fun empty => by subst empty; decide⟩
    · obtain ⟨rest, rfl⟩ := List.isPrefixOf_iff_prefix.mp wss
      exact ⟨_, rest, .inr rfl, rfl, fun empty => by subst empty; decide⟩

theorem sanitizeDaemonAddress_bare (toLowercase : String → String) (isSocketAddr : String → Bool)
    {target : String} (bare : toLowercase target ∈ bareSchemes) :
    sanitizeDaemonAddress toLowercase isSocketAddr target ∈ ["ws:/", "wss:/"] := by
  simp only [bareSchemes, List.mem_cons, List.mem_singleton, List.not_mem_nil, or_false] at bare
  rcases bare with lower | lower | lower | lower | lower <;> simp only [sanitizeDaemonAddress, lower]
  · rw [show withWebSocketScheme isSocketAddr "".toList =
      (if isSocketAddr "" then "ws://" else "wss://").toList ++ [] from rfl]
    cases isSocketAddr "" <;> decide
  all_goals first
    | exact List.mem_cons_self _ _
    | exact List.mem_cons_of_mem _ (List.mem_cons_self _ _)

theorem sanitizeDaemonAddress_prefixed (toLowercase : String → String) (isSocketAddr : String → Bool)
    {target : String} (notBare : toLowercase target ∉ bareSchemes) :
    "ws://".toList <+: (sanitizeDaemonAddress toLowercase isSocketAddr target).toList ∨
      "wss://".toList <+: (sanitizeDaemonAddress toLowercase isSocketAddr target).toList := by
  obtain ⟨scheme, host, schemes, normalized, bareOfEmpty⟩ :=
    withWebSocketScheme_eq isSocketAddr (toLowercase target).toList
  have nonempty : host ≠ [] := fun empty => notBare (bareOfEmpty empty)
  have kept : scheme <+: (sanitizeDaemonAddress toLowercase isSocketAddr target).toList := by
    simp only [sanitizeDaemonAddress, normalized]
    split
    · rw [List.dropLast_append_of_ne_nil _ nonempty]
      exact List.prefix_append _ _
    · exact List.prefix_append _ _
  rcases schemes with rfl | rfl
  · exact .inl kept
  · exact .inr kept

/-- For every lowercasing and socket-address test, the address begins with `ws://` or `wss://`
exactly when the lowercase target is neither empty nor a bare scheme. -/
theorem sanitize_daemon_address_websocket (toLowercase : String → String) (isSocketAddr : String → Bool)
    (target : String) :
    (("ws://".toList <+: (sanitizeDaemonAddress toLowercase isSocketAddr target).toList ∨
        "wss://".toList <+: (sanitizeDaemonAddress toLowercase isSocketAddr target).toList) ↔
      toLowercase target ∉ bareSchemes) ∧
    (toLowercase target ∈ bareSchemes →
      sanitizeDaemonAddress toLowercase isSocketAddr target ∈ ["ws:/", "wss:/"]) := by
  refine ⟨⟨fun prefixed bare => ?_, sanitizeDaemonAddress_prefixed toLowercase isSocketAddr⟩,
    sanitizeDaemonAddress_bare toLowercase isSocketAddr⟩
  have short := sanitizeDaemonAddress_bare toLowercase isSocketAddr bare
  simp only [List.mem_cons, List.mem_singleton, List.not_mem_nil, or_false] at short
  rcases short with result | result <;> rw [result] at prefixed <;> revert prefixed <;> decide

end Dapa.Common
