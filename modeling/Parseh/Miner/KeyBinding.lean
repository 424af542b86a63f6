import Parseh.Miner.Finalise

/-!
# Who can install a key

Every inner signature is checked against the peer-key directory.  Gossipsub
authenticates the source of a message, but a CBOR advertisement is filed under
the peer it names, whoever sent it.

* `verifyingKey_step`: only an advertisement that names a peer and carries a key
  changes the key of that peer, to the key it carries;
* `keyBound_iff`: a run keeps every key bound to its peer in every state reached
  exactly when each key an advertisement installs for a peer had been carried by
  a message of that peer.
-/

namespace Parseh.Miner

open Parseh.Lib Parseh.Wire Parseh.Core Parseh.Shared Parseh.Verify

variable {W : Type} [WeightArith W]

omit [WeightArith W] in
/-- The key a message of `parseh.caps.v1` carries; the legacy payload has none. -/
def carriedKey (c : Ctx W) (m : Message) : Option VerifyingKey :=
  (c.x.advertisementCbor.decode m.data).bind (·.verifyingKey c.x)

/-- The step handles a capability message from `p` that carries `key`. -/
def Carries (c : Ctx W) (p : PeerId) (key : VerifyingKey) (s : Step W) : Prop :=
  ∃ m, s.action = .gossip .caps m ∧ m.source = some p ∧ carriedKey c m = some key

/-- The step handles an advertisement that names `p` and carries `key`, whoever
sent it. -/
def Installs (c : Ctx W) (p : PeerId) (key : VerifyingKey) (s : Step W) : Prop :=
  ∃ m ad, s.action = .gossip .caps m ∧ c.x.advertisementCbor.decode m.data = some ad ∧
    ad.peerId = p ∧ ad.verifyingKey c.x = some key

/-! ## What a step does to the directory -/

omit [WeightArith W] in
theorem legacyAdvertisement_verifyingKey (x : Externals W) (source : PeerId)
    (caps : NodeCapabilities) (now : UInt64) :
    (legacyAdvertisement source caps now).verifyingKey x = none := by
  simp [CapabilityAdvertisement.verifyingKey, legacyAdvertisement]

omit [WeightArith W] in
theorem verifyingKey_handleCapsMessage (x : Externals W) (clock : Clock) (reg : PeerRegistry)
    (m : Message) (p : PeerId) :
    (handleCapsMessage x clock reg m).verifyingKey p =
      match x.advertisementCbor.decode m.data with
      | some ad => if ad.peerId = p then (ad.verifyingKey x).or (reg.verifyingKey p)
                   else reg.verifyingKey p
      | none => reg.verifyingKey p := by
  unfold handleCapsMessage
  cases hd : x.advertisementCbor.decode m.data with
  | some ad => exact PeerRegistry.verifyingKey_upsert reg ad p
  | none =>
    dsimp only
    split
    · rw [PeerRegistry.verifyingKey_upsert, legacyAdvertisement_verifyingKey, Option.none_or,
        ite_self]
    · rfl

/-- **One step.**  The key of a peer changes only when an advertisement that names
the peer and carries a key is handled, and then to that key. -/
theorem verifyingKey_step (c : Ctx W) (n : Node W) (s : Step W) (p : PeerId) :
    (step c n s).peerRegistry.verifyingKey p = n.peerRegistry.verifyingKey p ∨
      ∃ key, Installs c p key s ∧ (step c n s).peerRegistry.verifyingKey p = some key := by
  obtain ⟨clock, action⟩ := s
  by_cases hcaps : ∃ m, action = .gossip .caps m
  · obtain ⟨m, rfl⟩ := hcaps
    have hkey := verifyingKey_handleCapsMessage c.x clock n.peerRegistry m p
    simp only [step]
    cases hd : c.x.advertisementCbor.decode m.data with
    | none =>
      rw [hd] at hkey
      exact Or.inl hkey
    | some ad =>
      simp only [hd] at hkey
      by_cases hp : ad.peerId = p
      · cases hk : ad.verifyingKey c.x with
        | none =>
          rw [if_pos hp, hk, Option.none_or] at hkey
          exact Or.inl hkey
        | some key =>
          rw [if_pos hp, hk, Option.some_or] at hkey
          exact Or.inr ⟨key, ⟨m, ad, rfl, hd, hp, hk⟩, hkey⟩
      · rw [if_neg hp] at hkey
        exact Or.inl hkey
  · by_cases hprune : action = .prune
    · subst hprune
      exact Or.inl (PeerRegistry.verifyingKey_pruneExpired _ _ p)
    · refine Or.inl ?_
      rw [peerRegistry_step c n ⟨clock, action⟩ (fun m hm => hcaps ⟨m, hm⟩) hprune]

/-- An advertisement that names a peer and carries a key always installs it. -/
theorem verifyingKey_of_installs {c : Ctx W} {p : PeerId} {key : VerifyingKey} {s : Step W}
    (h : Installs c p key s) (n : Node W) :
    (step c n s).peerRegistry.verifyingKey p = some key := by
  obtain ⟨m, ad, hact, hd, hp, hk⟩ := h
  simp only [step, hact, verifyingKey_handleCapsMessage, hd, hp, hk, if_true, Option.some_or]

/-! ## Binding over whole runs -/

/-- Every key the directory holds for another peer was carried by a message of
that peer among `as`. -/
def KeyBound (c : Ctx W) (as : List (Step W)) (n : Node W) : Prop :=
  ∀ p key, p ≠ c.localPeerId → n.peerRegistry.verifyingKey p = some key →
    ∃ s ∈ as, Carries c p key s

omit [WeightArith W] in
theorem verifyingKey_start (c : Ctx W) (clock : Clock) (listeners : List Multiaddr)
    (shared : SharedState) {p : PeerId} (hp : p ≠ c.localPeerId) :
    (Node.start c clock listeners shared).peerRegistry.verifyingKey p = none := by
  simp only [Node.start, PeerRegistry.verifyingKey_recordIdentity, if_neg hp.symm]
  rfl

/-- Every key an advertisement installs for another peer has been carried by a
message of that peer by then. -/
def InstallsCarried (c : Ctx W) (as : List (Step W)) : Prop :=
  ∀ pre s, pre ++ [s] <+: as → ∀ p key, p ≠ c.localPeerId → Installs c p key s →
    ∃ t ∈ pre ++ [s], Carries c p key t

/-- The condition is enough: by induction on the run, last step first. -/
theorem keyBound_of_installsCarried (c : Ctx W) (clock : Clock) (listeners : List Multiaddr)
    (shared : SharedState) (as : List (Step W)) (h : InstallsCarried c as) :
    KeyBound c as (run (step c) (Node.start c clock listeners shared) as) := by
  induction as using List.reverseRecOn with
  | nil =>
    intro p key hp hkey
    rw [run_nil, verifyingKey_start c clock listeners shared hp] at hkey
    cases hkey
  | append_singleton as s ih =>
    have hbound := ih fun pre t hpre => h pre t (hpre.trans (List.prefix_append as [s]))
    intro p key hp hkey
    rw [run_append, run_cons, run_nil] at hkey
    rcases verifyingKey_step c (run (step c) (Node.start c clock listeners shared) as) s p with
      hsame | ⟨key', hinst, hnew⟩
    · rw [hsame] at hkey
      obtain ⟨t, ht, hc⟩ := hbound p key hp hkey
      exact ⟨t, List.mem_append_left [s] ht, hc⟩
    · rw [hnew] at hkey
      cases hkey
      exact h as s (List.prefix_refl _) p key hp hinst

/-- **Peer-key binding.**  In every state a run reaches, the key of every other
peer was carried by a message from that peer, exactly when every advertisement
that names another peer and carries a key comes from that peer, or repeats a key
that a message of that peer has carried before. -/
theorem keyBound_iff (c : Ctx W) (clock : Clock) (listeners : List Multiaddr)
    (shared : SharedState) (as : List (Step W)) :
    (∀ pre, pre <+: as →
      KeyBound c pre (run (step c) (Node.start c clock listeners shared) pre)) ↔
    InstallsCarried c as := by
  constructor
  · intro h pre s hpre p key hp hinst
    refine h (pre ++ [s]) hpre p key hp ?_
    rw [run_append, run_cons, run_nil]
    exact verifyingKey_of_installs hinst _
  · intro h pre hpre
    exact keyBound_of_installsCarried c clock listeners shared pre
      fun pre' s hpre' => h pre' s (hpre'.trans hpre)

section Forged

/-- An advertisement that names peer 1 and carries the key of peer 3. -/
def forgedAd : CapabilityAdvertisement := { adOf 3 with peerId := peerOf 1 }

def forgedExternals : Externals ℚ :=
  Externals.ofTables [] [] [] [(adBytes 1, adOf 1), (adBytes 3, forgedAd)]

/-- Peer 1 advertises its own key, then peer 3 sends the forged advertisement. -/
def forgedRun : List (Step ℚ) := [atSecs 0 (hearAd 1), atSecs 1 (hearAd 3)]

/-- The node now checks the signatures of peer 1 under a key that only peer 3
has sent. -/
theorem forged_key_installed :
    (run (step (smallCtx forgedExternals)) (smallStart forgedExternals)
      forgedRun).peerRegistry.verifyingKey (peerOf 1) = some (keyOf 3).verifyingKey ∧
    ¬ KeyBound (smallCtx forgedExternals) forgedRun
      (run (step (smallCtx forgedExternals)) (smallStart forgedExternals) forgedRun) := by
  have hkey : (run (step (smallCtx forgedExternals)) (smallStart forgedExternals)
      forgedRun).peerRegistry.verifyingKey (peerOf 1) = some (keyOf 3).verifyingKey := by
    decide +kernel
  refine ⟨hkey, fun h => ?_⟩
  obtain ⟨s, hs, m, hact, hsource, hcarried⟩ :=
    h (peerOf 1) (keyOf 3).verifyingKey (by decide) hkey
  -- the only message of peer 1 carries its own key
  simp only [forgedRun, List.mem_cons, List.not_mem_nil, or_false] at hs
  rcases hs with rfl | rfl
  · cases hact
    revert hcarried
    decide +kernel
  · cases hact
    exact absurd hsource (by decide)

end Forged

end Parseh.Miner
