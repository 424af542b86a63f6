import Parseh.Lib.Spread
import Parseh.Miner.CatchUp

/-!
# Anti-entropy between nodes

Any number of nodes run the backstop tick against each other.  A pull is one whole
round: the requester builds its request, the responder answers and counts it, the
requester applies the answer.  While the outcomes in play are at most ten minutes
old, at most five hundred, and signed by observers every node knows, each pull hands
the requester exactly what the responder holds (`held_pull`), so that outcomes
spread along the pulls in their order and in no other way (`antiEntropy_exact`).
-/

namespace Parseh.Miner

open Parseh.Lib Parseh.Wire Parseh.Core Parseh.Shared

variable {W : Type} {I : Type} [DecidableEq I]

/-! ## The network -/

/-- The nodes' own keys; all run the same program. -/
structure SyncCtx (I W : Type) where
  x : Externals W
  localPeerId : I → PeerId
  signingKey : I → SigningKey
  verifyingKey : I → VerifyingKey

def SyncCtx.ctx (c : SyncCtx I W) (i : I) : Ctx W :=
  ⟨c.x, c.localPeerId i, c.signingKey i, c.verifyingKey i⟩

structure SyncNet (I W : Type) where
  node : I → Node W
  stateSyncRateLimit : I → PeerId → RateBucket

/-- The node as a responder. -/
def SyncNet.responder (net : SyncNet I W) (i : I) : Responder :=
  ⟨(net.node i).peerRegistry, (net.node i).shared, net.stateSyncRateLimit i⟩

/-- A round of the requester's backstop with the peers it is connected to, answered by
the responder. -/
structure Pull (I : Type) where
  requester : I
  responder : I
  connected : List PeerId
  asked : Clock
  answered : Clock
  applied : Clock

/-- The way the outcomes of a pull go. -/
def Pull.transfer (a : Pull I) : Transfer I := ⟨a.responder, a.requester⟩

/-- The network after a round. -/
def pull (c : SyncCtx I W) (net : SyncNet I W) (a : Pull I) : SyncNet I W :=
  match backstop (c.ctx a.requester) a.asked a.connected (net.node a.requester).shared with
  | none => net
  | some (_, request) =>
    let answer := buildStateSyncResponse (c.ctx a.responder) a.answered
      (net.responder a.responder) request
    { node := Function.update net.node a.requester
        (applyStateSyncResponse (c.ctx a.requester) a.applied (net.node a.requester) answer.1)
      stateSyncRateLimit := Function.update net.stateSyncRateLimit a.responder
        answer.2.stateSyncRateLimit }

/-- The answer of the round. -/
def Pull.answer (a : Pull I) (c : SyncCtx I W) (net : SyncNet I W) (request : StateSyncRequest) :
    StateSyncResponse W :=
  (buildStateSyncResponse (c.ctx a.responder) a.answered (net.responder a.responder) request).1

/-- The request goes to the responder, which admits it, and the requester takes the
answer's envelope. -/
structure Served (c : SyncCtx I W) (net : SyncNet I W) (a : Pull I) (request : StateSyncRequest) :
    Prop where
  sent : backstop (c.ctx a.requester) a.asked a.connected (net.node a.requester).shared =
    some (c.localPeerId a.responder, request)
  admitted : Admitted (c.ctx a.responder) a.answered (net.responder a.responder) request
  envelope : syncEnvelopeOk (c.ctx a.requester) (net.node a.requester).peerRegistry
    (a.answer c net request) = true

/-- The hashes of the outcomes each node holds. -/
def SyncNet.held (net : SyncNet I W) (i : I) : Set ContentHash :=
  { hash | (net.node i).shared.outcomes.contains hash = true }

/-! ## What is in play -/

theorem SoundStore.round {x : Externals W} {s : SharedState} (hs : SoundStore x s)
    {o : JobOutcome W} (ho : SharedState.HoldsOutcome x s o) :
    x.outcomeCbor.decode (x.outcomeCbor.encode o) = some o := by
  obtain ⟨calls, rfl, hround⟩ := hs.written
  obtain ⟨row, hrow, hdec⟩ := ho
  obtain ⟨now, rfl⟩ := SharedState.eq_outcomeRow_of_decode hround hrow hdec
  exact hdec

/-- A row of a sound store is that of an outcome it holds. -/
theorem SoundStore.exists_outcome {x : Externals W} {s : SharedState} (hs : SoundStore x s)
    {row : OutcomeRow} (hrow : row ∈ s.outcomes.rows) :
    ∃ o, x.outcomeCbor.decode row.outcomeCbor = some o ∧ o.contentHash x = row.outcomeHash := by
  obtain ⟨calls, rfl, hround⟩ := hs.written
  obtain ⟨o, now, rfl, hdec⟩ := SharedState.decode_outcomeRow hround hrow
  exact ⟨o, hdec, rfl⟩

/-- Syncing outcomes of one store into another leaves a store with the outcomes of
the two. -/
theorem holdsOutcome_syncCalls {x : Externals W} {s s' : SharedState} (hs' : SoundStore x s')
    {os : List (JobOutcome W)} (hos : ∀ o ∈ os, SharedState.HoldsOutcome x s' o) (clock : Clock)
    {o : JobOutcome W}
    (ho : SharedState.HoldsOutcome x (run (SharedState.write x) s (syncCalls clock os)) o) :
    SharedState.HoldsOutcome x s o ∨ SharedState.HoldsOutcome x s' o := by
  obtain ⟨row, hrow, hdec⟩ := ho
  rw [(grown_syncCalls x clock os s).outcomes] at hrow
  rcases Keyed.mem_of_mem_insertAll hrow with hrow | hrow
  · exact Or.inl ⟨row, hrow, hdec⟩
  · obtain ⟨o', ho', rfl⟩ := List.mem_map.mp hrow
    have hback := hs'.round (hos o' ho')
    have heq : o' = o := Option.some.inj (hback.symm.trans hdec)
    exact Or.inr (heq ▸ hos o' ho')

theorem soundStore_syncCalls {x : Externals W} {s s' : SharedState} (hs : SoundStore x s)
    (hs' : SoundStore x s') {os : List (JobOutcome W)}
    (hos : ∀ o ∈ os, SharedState.HoldsOutcome x s' o) (clock : Clock) :
    SoundStore x (run (SharedState.write x) s (syncCalls clock os)) where
  written := by
    obtain ⟨calls, rfl, hround⟩ := hs.written
    refine ⟨calls ++ syncCalls clock os, (run_append ..).symm, fun call hcall o hcar => ?_⟩
    rcases List.mem_append.mp hcall with hcall | hcall
    · exact hround call hcall o hcar
    · obtain ⟨o', ho', rfl⟩ := List.mem_map.mp hcall
      rw [← show o' = o from hcar]
      exact hs'.round (hos o' ho')
  timely o ho := by
    rcases holdsOutcome_syncCalls hs' hos clock ho with ho | ho
    · exact hs.timely o ho
    · exact hs'.timely o ho

/-- What the network starts from and keeps: sound stores whose outcomes are in play,
with hashes among `hashes`, and registries under which every node takes them. -/
structure InPlay (c : SyncCtx I W) (since : UInt64) (hashes : List ContentHash)
    (net : SyncNet I W) : Prop where
  sound : ∀ i, SoundStore c.x (net.node i).shared
  listed : ∀ i, ∀ hash ∈ net.held i, hash ∈ hashes
  recent : ∀ i o, SharedState.HoldsOutcome c.x (net.node i).shared o → since ≤ o.finalisedAt
  taken : ∀ i j o, SharedState.HoldsOutcome c.x (net.node j).shared o →
    syncAccepted (c.ctx i) (net.node i).peerRegistry o = true

/-! ## One pull -/

section Pull

variable {c : SyncCtx I W} {net : SyncNet I W} {a : Pull I} {request : StateSyncRequest}
  {since : UInt64} {hashes : List ContentHash}

theorem node_pull (hserved : Served c net a request) (i : I) :
    (pull c net a).node i = if i = a.requester then
      applyStateSyncResponse (c.ctx a.requester) a.applied (net.node a.requester)
        (a.answer c net request) else net.node i := by
  unfold pull
  rw [hserved.sent]
  show Function.update net.node a.requester _ i = _
  rw [Function.update_apply]
  rfl

omit [DecidableEq I] in
/-- Fewer than five hundred rows of a store come before one of its own. -/
theorem newerOutcomes_lt (hplay : InPlay c since hashes net) (hfew : hashes.length ≤ 500) {i : I}
    {row : OutcomeRow} (hrow : row ∈ (net.node i).shared.outcomes.rows) :
    newerOutcomes (net.node i).shared row < 500 := by
  let t := (net.node i).shared.outcomes
  have hsub : t.rows.map OutcomeRow.outcomeHash ⊆ hashes := by
    intro hash hmem
    obtain ⟨r, hr, rfl⟩ := List.mem_map.mp hmem
    exact hplay.listed i r.outcomeHash (Keyed.contains_of_mem hr)
  have hlen := (List.subperm_of_subset t.nodup hsub).length_le
  rw [List.length_map] at hlen
  have hlt : newerOutcomes (net.node i).shared row < t.rows.length := by
    apply List.countP_lt_length_iff.mpr
    refine ⟨row, hrow, ?_⟩
    simp
  omega

omit [DecidableEq I] in
/-- Within ten minutes of every outcome in play, an answer is the responder's store. -/
theorem mem_pull_answer (hserved : Served c net a request) (hplay : InPlay c since hashes net)
    (hfew : hashes.length ≤ 500)
    (hfresh : (unixNow a.asked.wall).toNat ≤ since.toNat + 600) (o : JobOutcome W) :
    o ∈ (a.answer c net request).outcomes ↔
      SharedState.HoldsOutcome c.x (net.node a.responder).shared o := by
  have hsound := hplay.sound a.requester
  obtain ⟨-, hrequest⟩ := issueStateSyncRequest_eq_some hserved.sent
  have hmax : request.maxOutcomes = stateSyncHardCeiling := by rw [hrequest]; rfl
  have hsince : request.sinceUnix.toNat < 2 ^ 63 := by
    rw [hrequest]
    exact effectiveSince_lt hsound _
  have hmem := mem_answer hserved.admitted hmax hsince (hplay.sound a.responder) o
  rw [Pull.answer, hmem]
  constructor
  · rintro ⟨-, row, hrow, hdec, -⟩
    exact ⟨row, hrow, hdec⟩
  · rintro ⟨row, hrow, hdec⟩
    have hrecent := hplay.recent a.responder o ⟨row, hrow, hdec⟩
    rw [UInt64.le_iff_toNat_le] at hrecent
    refine ⟨(sinceUnix_le_iff hsound hserved.sent _).mpr (Or.inl ?_), row, hrow, hdec,
      newerOutcomes_lt hplay hfew hrow⟩
    show _ ≤ _ + 600
    omega

/-- The store after a pull is the old one with the responder's outcomes synced in. -/
theorem shared_pull (hserved : Served c net a request) (hplay : InPlay c since hashes net)
    (hfew : hashes.length ≤ 500)
    (hfresh : (unixNow a.asked.wall).toNat ≤ since.toNat + 600) :
    ∃ os, (∀ o, o ∈ os ↔ SharedState.HoldsOutcome c.x (net.node a.responder).shared o) ∧
      ((pull c net a).node a.requester).shared =
        run (SharedState.write c.x) (net.node a.requester).shared (syncCalls a.applied os) := by
  have hmem := mem_pull_answer hserved hplay hfew hfresh
  refine ⟨(a.answer c net request).outcomes, hmem, ?_⟩
  rw [node_pull hserved, if_pos rfl, applyStateSyncResponse_shared]
  rw [if_pos hserved.envelope]
  show run (SharedState.write c.x) _ _ = _
  rw [acceptedOutcomes, List.filter_eq_self.mpr fun o ho => ?_]
  exact hplay.taken a.requester a.responder o ((hmem o).mp ho)

theorem peerRegistry_pull (hserved : Served c net a request) (i : I) :
    ((pull c net a).node i).peerRegistry = (net.node i).peerRegistry := by
  rw [node_pull hserved]
  split
  · next hi => rw [applyStateSyncResponse_peerRegistry, hi]
  · rfl

/-- **A pull is a transfer.** -/
theorem held_pull (hserved : Served c net a request) (hplay : InPlay c since hashes net)
    (hfew : hashes.length ≤ 500)
    (hfresh : (unixNow a.asked.wall).toNat ≤ since.toNat + 600) :
    (pull c net a).held = transfer net.held a.transfer := by
  obtain ⟨os, hos, hshared⟩ := shared_pull hserved hplay hfew hfresh
  funext i
  ext hash
  rw [mem_transfer]
  by_cases hi : i = a.requester
  · subst hi
    show ((pull c net a).node a.requester).shared.outcomes.contains hash = true ↔ _
    rw [hshared, (grown_syncCalls ..).outcomes, Keyed.contains_insertAll]
    refine or_congr Iff.rfl ?_
    constructor
    · rintro ⟨row, hrow, rfl⟩
      obtain ⟨o, ho, rfl⟩ := List.mem_map.mp hrow
      obtain ⟨row', hrow', hdec⟩ := (hos o).mp ho
      obtain ⟨o', hdec', hhash⟩ := (hplay.sound a.responder).exists_outcome hrow'
      have heq : o' = o := Option.some.inj (hdec'.symm.trans hdec)
      subst heq
      refine ⟨rfl, ?_⟩
      show (net.node a.responder).shared.outcomes.contains (o'.contentHash c.x) = true
      rw [hhash]
      exact Keyed.contains_of_mem hrow'
    · rintro ⟨-, hheld⟩
      obtain ⟨row, hrow, rfl⟩ := Keyed.contains_iff.mp hheld
      obtain ⟨o, hdec, hhash⟩ := (hplay.sound a.responder).exists_outcome hrow
      refine ⟨SharedState.outcomeRow c.x o (Clock.unixI64 a.applied), List.mem_map_of_mem ?_, hhash⟩
      exact (hos o).mpr ⟨row, hrow, hdec⟩
  · have hsame : (pull c net a).node i = net.node i := by rw [node_pull hserved, if_neg hi]
    show ((pull c net a).node i).shared.outcomes.contains hash = true ↔ _
    rw [hsame]
    constructor
    · exact Or.inl
    · rintro (hheld | ⟨rfl, -⟩)
      · exact hheld
      · exact absurd rfl hi

/-- An outcome of the network after a pull was in it before. -/
theorem holdsOutcome_pull (hserved : Served c net a request) (hplay : InPlay c since hashes net)
    (hfew : hashes.length ≤ 500)
    (hfresh : (unixNow a.asked.wall).toNat ≤ since.toNat + 600) {i : I} {o : JobOutcome W}
    (ho : SharedState.HoldsOutcome c.x ((pull c net a).node i).shared o) :
    ∃ j, SharedState.HoldsOutcome c.x (net.node j).shared o := by
  by_cases hi : i = a.requester
  · subst hi
    obtain ⟨os, hos, hshared⟩ := shared_pull hserved hplay hfew hfresh
    rw [hshared] at ho
    rcases holdsOutcome_syncCalls (hplay.sound a.responder) (fun o h => (hos o).mp h) a.applied ho
      with ho | ho
    · exact ⟨a.requester, ho⟩
    · exact ⟨a.responder, ho⟩
  · rw [node_pull hserved, if_neg hi] at ho
    exact ⟨i, ho⟩

theorem InPlay.pull (hserved : Served c net a request) (hplay : InPlay c since hashes net)
    (hfew : hashes.length ≤ 500)
    (hfresh : (unixNow a.asked.wall).toNat ≤ since.toNat + 600) :
    InPlay c since hashes (pull c net a) where
  sound i := by
    by_cases hi : i = a.requester
    · subst hi
      obtain ⟨os, hos, hshared⟩ := shared_pull hserved hplay hfew hfresh
      rw [hshared]
      exact soundStore_syncCalls (hplay.sound a.requester) (hplay.sound a.responder)
        (fun o h => (hos o).mp h) a.applied
    · rw [node_pull hserved, if_neg hi]
      exact hplay.sound i
  listed i hash hheld := by
    rw [held_pull hserved hplay hfew hfresh] at hheld
    rcases mem_transfer.mp hheld with hheld | ⟨-, hheld⟩
    · exact hplay.listed i hash hheld
    · exact hplay.listed a.responder hash hheld
  recent i o ho := by
    obtain ⟨j, hj⟩ := holdsOutcome_pull hserved hplay hfew hfresh ho
    exact hplay.recent j o hj
  taken i j o ho := by
    obtain ⟨k, hk⟩ := holdsOutcome_pull hserved hplay hfew hfresh ho
    rw [peerRegistry_pull hserved]
    exact hplay.taken i k o hk

end Pull

/-! ## Any run of pulls -/

/-- A pull that is served while everything in play is at most ten minutes old. -/
def Timely (c : SyncCtx I W) (since : UInt64) (net : SyncNet I W) (a : Pull I) : Prop :=
  (∃ request, Served c net a request) ∧ (unixNow a.asked.wall).toNat ≤ since.toNat + 600

/-- **Anti-entropy.**  However served pulls follow one another within ten minutes of the
oldest outcome, a node ends up with an outcome exactly when the pulls, taken in order,
lead to it from a node that held it at the start. -/
theorem antiEntropy_exact {c : SyncCtx I W} {since : UInt64} {hashes : List ContentHash}
    (hfew : hashes.length ≤ 500) {net : SyncNet I W} (hplay : InPlay c since hashes net)
    {as : List (Pull I)} (hserved : Guarded (pull c) (Timely c since) net as) (q : I)
    (hash : ContentHash) :
    hash ∈ (run (pull c) net as).held q ↔
      ∃ p, hash ∈ net.held p ∧ Reaches (as.map Pull.transfer) p q := by
  refine spread_exact SyncNet.held Pull.transfer ?_ ?_ hserved hplay q hash
  · rintro m a ⟨⟨request, hreq⟩, hfresh⟩ hm
    exact InPlay.pull hreq hm hfew hfresh
  · rintro m a ⟨⟨request, hreq⟩, hfresh⟩ hm
    exact held_pull hreq hm hfew hfresh

/-! ### Three nodes in a row -/

def relayCtx : SyncCtx (Fin 3) ℚ where
  x := pagedCtx.x
  localPeerId i := peerOf (UInt8.ofNat i)
  signingKey i := keyOf (UInt8.ofNat i)
  verifyingKey i := (keyOf (UInt8.ofNat i)).verifyingKey

/-- The registry that knows the three nodes and the observer of the outcomes. -/
def relayRegistry : PeerRegistry :=
  [0, 1, 2, 9].foldl (fun reg n => reg.recordIdentity
    { peerId := peerOf n, verifyingKey := (keyOf n).verifyingKey, reachableAddrs := [],
      firstSeen := 0, lastSeen := 0, readiness := .ready }) PeerRegistry.new

/-- The first node holds the outcomes of two seconds, the others none. -/
def relayStore (i : Fin 3) : SharedState :=
  run (SharedState.write relayCtx.x) .empty (pagedCalls (if i.val = 0 then 2 else 0))

def relayNet : SyncNet (Fin 3) ℚ where
  node i := { Node.start (relayCtx.ctx i) ⟨0, 0⟩ [] (relayStore i) with
    peerRegistry := relayRegistry }
  stateSyncRateLimit _ _ := {}

/-- Node `i + 1` pulls from node `i`. -/
def relayPull (i j : Fin 3) : Pull (Fin 3) :=
  ⟨j, i, [relayCtx.localPeerId i], ⟨0, 0⟩, ⟨0, 0⟩, ⟨0, 0⟩⟩

def relayHash (t : Nat) : ContentHash := (outcomeAt t).contentHash relayCtx.x

theorem relayNet_rows : ∀ i, ∀ row ∈ (relayNet.node i).shared.outcomes.rows,
    row.outcomeHash ∈ [relayHash 0, relayHash 1] ∧
    ∀ o ∈ relayCtx.x.outcomeCbor.decode row.outcomeCbor, o.finalisedAt.toNat < 2 ^ 63 ∧
      ∀ j, syncAccepted (relayCtx.ctx j) (relayNet.node j).peerRegistry o = true := by
  decide +kernel

theorem relayNet_inPlay : InPlay relayCtx 0 [relayHash 0, relayHash 1] relayNet where
  sound i := by
    refine ⟨⟨_, rfl, pagedCalls_round _⟩, ?_⟩
    rintro o ⟨row, hrow, hdec⟩
    exact ((relayNet_rows i row hrow).2 o hdec).1
  listed i hash hheld := by
    obtain ⟨row, hrow, rfl⟩ := Keyed.contains_iff.mp hheld
    exact (relayNet_rows i row hrow).1
  recent i o _ := UInt64.le_iff_toNat_le.mpr (Nat.zero_le _)
  taken i j o := by
    rintro ⟨row, hrow, hdec⟩
    exact ((relayNet_rows j row hrow).2 o hdec).2 i

/-- A pull of the row is served in a state if these checks pass. -/
theorem served_relay {net : SyncNet (Fin 3) ℚ} {i j : Fin 3} {request : StateSyncRequest}
    (hsent : backstop (relayCtx.ctx j) ⟨0, 0⟩ [relayCtx.localPeerId i] (net.node j).shared =
      some (relayCtx.localPeerId i, request))
    (hkey : (net.node i).peerRegistry.verifyingKey request.requester =
      some (relayCtx.verifyingKey j))
    (hsig : request.verifySignature relayCtx.x (relayCtx.verifyingKey j) = .ok ())
    (hquota : ¬ OverQuota (net.stateSyncRateLimit i request.requester) (unixNow 0))
    (henv : syncEnvelopeOk (relayCtx.ctx j) (net.node j).peerRegistry
      ((relayPull i j).answer relayCtx net request) = true) :
    Timely relayCtx 0 net (relayPull i j) := by
  refine ⟨⟨request, ⟨hsent, ⟨⟨_, hkey, hsig⟩, hquota⟩, henv⟩⟩, ?_⟩
  show (unixNow 0).toNat ≤ (0 : UInt64).toNat + 600
  decide

/-- Pulled along the row, the outcomes of the first node reach the last. -/
theorem relay_reaches_last :
    relayHash 1 ∈ (run (pull relayCtx) relayNet [relayPull 0 1, relayPull 1 2]).held 2 := by
  have hserved : Guarded (pull relayCtx) (Timely relayCtx 0) relayNet
      [relayPull 0 1, relayPull 1 2] := by
    refine ⟨?_, ?_, trivial⟩
    · exact served_relay rfl (by decide +kernel) (by decide +kernel) (by decide +kernel)
        (by decide +kernel)
    · exact served_relay rfl (by decide +kernel) (by decide +kernel) (by decide +kernel)
        (by decide +kernel)
  have hfirst : (relayNet.node 0).shared.outcomes.contains (relayHash 1) = true := by
    decide +kernel
  exact (antiEntropy_exact (by decide) relayNet_inPlay hserved 2 (relayHash 1)).mpr
    ⟨0, hfirst, Or.inr ⟨rfl, Or.inr ⟨rfl, rfl⟩⟩⟩

end Parseh.Miner
