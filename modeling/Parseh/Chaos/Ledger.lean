import Parseh.Chaos.Moves
import Parseh.Lib.Once

/-!
# The reputation ledger of a harness node

A reputation is kept three times: as the durable log, as the running balance and
as the set of keys already applied.  `ledger_run` shows that they agree after
every turn of every run, and `reputation_order_free_iff` when the order and repetition
in which deltas are gossiped leave no trace in the balances.
-/

namespace Parseh.Chaos

open Parseh.Lib Parseh.Wire Parseh.Core Parseh.Shared Parseh.Verify Parseh.Miner

variable {W : Type}

/-- The key an entry of the log was applied under. -/
def repKey (r : ReputationEntry) : RepKey := (r.peer, r.relatedHash, r.reason)

namespace NodeLoop

/-- The three records of reputation agree, and no key was applied twice. -/
structure Ledger (n : NodeLoop W) : Prop where
  keys : n.appliedRepKeys = n.shared.reputationLog.map repKey
  once : n.appliedRepKeys.Nodup
  balance : ∀ p, n.reputationLocal p = n.shared.reputationOf p

/-- Nothing the ledger reads differs. -/
structure SameLedger (n n' : NodeLoop W) : Prop where
  log : n'.shared.reputationLog = n.shared.reputationLog
  keys : n'.appliedRepKeys = n.appliedRepKeys
  balance : n'.reputationLocal = n.reputationLocal

theorem SameLedger.refl (n : NodeLoop W) : SameLedger n n := ⟨rfl, rfl, rfl⟩

/-! ## One move -/

theorem reputationLog_orKeep_recordOutcome (x : Externals W) (s : SharedState) (o : JobOutcome W)
    (now : Int64) : (s.orKeep (s.recordOutcome x o now)).reputationLog = s.reputationLog := by
  cases h : s.recordOutcome x o now with
  | error _ => rfl
  | ok s' => exact (SharedState.recordOutcome_ok h).2.2.2.2

/-- A move leaves the ledger alone or applies one delta. -/
theorem Move.ledger_cases [WeightArith W] {c : Ctx W} {e : Event W} {n n' : NodeLoop W}
    (h : Move c e n n') :
    SameLedger n n' ∨ ∃ clock peer delta reason relatedHash,
      n' = n.applyReputation clock peer delta reason relatedHash := by
  cases h with
  | reputation clock peer delta reason relatedHash =>
    exact Or.inr ⟨clock, peer, delta, reason, relatedHash, rfl⟩
  | result clock result _ =>
    refine Or.inl ?_
    unfold recordResult
    split
    · exact SameLedger.refl n
    · next hok => exact ⟨(SharedState.recordResult_ok hok).2.2.2.2, rfl, rfl⟩
  | storeVote clock v shared count hok =>
    exact Or.inl ⟨(SharedState.recordVerification_ok hok).2.2.2.2, rfl, rfl⟩
  | close clock t q f =>
    rw [recordOutcome_frame]
    exact Or.inl ⟨reputationLog_orKeep_recordOutcome .., rfl, rfl⟩
  | outcome clock o =>
    rw [recordOutcome_frame]
    exact Or.inl ⟨reputationLog_orKeep_recordOutcome .., rfl, rfl⟩
  | synced clock o =>
    refine Or.inl ?_
    unfold applySynced
    split <;> exact ⟨rfl, rfl, rfl⟩
  | spec | addVote | markExecuted | sign | publishVote | publishOther | advertisement
  | readiness => exact Or.inl ⟨rfl, rfl, rfl⟩

theorem Ledger.congr {n n' : NodeLoop W} (h : n.Ledger) (hsame : SameLedger n n') : n'.Ledger := by
  refine ⟨?_, ?_, fun p => ?_⟩
  · rw [hsame.keys, hsame.log, h.keys]
  · rw [hsame.keys]
    exact h.once
  · rw [hsame.balance, h.balance, SharedState.reputationOf, SharedState.reputationOf, hsame.log]

theorem reputationOf_applyReputationDelta (s : SharedState) (peer : PeerId) (delta : Int32)
    (reason : String) (relatedHash : Option ContentHash) (now : Int64) (p : PeerId) :
    (s.applyReputationDelta peer delta reason relatedHash now).reputationOf p =
      if p = peer then s.reputationOf p + delta.toInt else s.reputationOf p := by
  unfold SharedState.reputationOf SharedState.applyReputationDelta
  rw [List.filter_append]
  by_cases hp : p = peer
  · subst hp
    simp
  · simp [hp, Ne.symm hp]

theorem Ledger.applyReputation {n : NodeLoop W} (h : n.Ledger) (clock : Clock) (peer : PeerId)
    (delta : Int32) (reason : String) (relatedHash : Option ContentHash) :
    (n.applyReputation clock peer delta reason relatedHash).Ledger := by
  unfold NodeLoop.applyReputation
  split
  · exact h
  · next hnew =>
    refine ⟨?_, ?_, fun p => ?_⟩
    · change n.appliedRepKeys ++ [_] = (n.shared.reputationLog ++ [_]).map repKey
      rw [List.map_append, h.keys]
      rfl
    · exact List.nodup_append.mpr ⟨h.once, List.nodup_singleton _, fun a ha b hb hab =>
        hnew (List.mem_singleton.mp hb ▸ hab ▸ ha)⟩
    · rw [reputationOf_applyReputationDelta, ← h.balance p]

theorem Ledger.step [WeightArith W] {c : Ctx W} {groupOf : PeerId → UInt8} {n : NodeLoop W}
    (h : n.Ledger) (a : Turn W) : (n.step c groupOf a).Ledger := by
  refine (step_moves groupOf n a).invariant (fun n n' hm hn => ?_) h
  rcases hm.ledger_cases with hsame | ⟨clock, peer, delta, reason, relatedHash, rfl⟩
  · exact hn.congr hsame
  · exact hn.applyReputation clock peer delta reason relatedHash

theorem ledger_start (c : Ctx W) (clock : Clock) : (start c clock).Ledger :=
  ⟨rfl, List.nodup_nil, fun _ => rfl⟩

/-- **The ledger never splits and never counts twice.**  After every turn of every
run, whatever was delivered, forged or replayed: a balance is the sum of the durable
log, the log holds each peer, related hash and reason at most once, and these are
exactly the keys the node refuses to apply again. -/
theorem ledger_run [WeightArith W] (c : Ctx W) (clock : Clock) (groupOf : PeerId → UInt8)
    (as : List (Turn W)) :
    let n := run (step c groupOf) (start c clock) as
    (∀ p, n.reputationLocal p = n.shared.reputationOf p) ∧
    (n.shared.reputationLog.map repKey).Nodup ∧
    ∀ key, key ∈ n.appliedRepKeys ↔ ∃ entry ∈ n.shared.reputationLog, repKey entry = key := by
  have h : (run (step c groupOf) (start c clock) as).Ledger :=
    run_invariant (I := Ledger) (fun n a hn => hn.step a) (ledger_start c clock) as
  refine ⟨h.balance, ?_, fun key => ?_⟩
  · rw [← h.keys]
    exact h.once
  · rw [h.keys, List.mem_map]

/-! ## Gossip in any order -/

/-- What one peer's balance and the applied keys make together. -/
def book (n : NodeLoop W) (p : PeerId) : List RepKey × Int := (n.appliedRepKeys, n.reputationLocal p)

/-- The reputation delta a payload is accepted as, with its key. -/
def acceptedRep (x : Externals W) (registry : PeerRegistry) (data : Bytes) :
    Option (RepKey × Int32) := do
  let delta ← x.deltaCbor.decode data
  let key ← registry.verifyingKey delta.observer
  match verifyDelta x delta key, delta.kind with
  | .ok (), .reputation peer d reason relatedHash => some ((peer, relatedHash, reason), d)
  | _, _ => none

/-- What an applied delta is to the balance of `p`. -/
def share (p : PeerId) (item : RepKey × Int32) : RepKey × Int :=
  (item.1, if p = item.1.1 then item.2.toInt else 0)

theorem book_applyReputation (clock : Clock) (n : NodeLoop W) (peer : PeerId) (delta : Int32)
    (reason : String) (relatedHash : Option ContentHash) (p : PeerId) :
    (n.applyReputation clock peer delta reason relatedHash).book p =
      once (n.book p) (share p ((peer, relatedHash, reason), delta)) := by
  unfold applyReputation
  split
  · next h => exact (once_of_mem h).symm
  · next h =>
    have hnew : (share p ((peer, relatedHash, reason), delta)).1 ∉ (n.book p).1 := h
    rw [once_of_not_mem hnew]
    refine Prod.ext rfl ?_
    change (if p = peer then _ else _) = n.reputationLocal p + if p = peer then _ else _
    split
    · rfl
    · exact (add_zero _).symm

/-- One delivered delta: the registry stays, and the book takes what was accepted. -/
theorem handleDelta_book (c : Ctx W) (clock : Clock) (n : NodeLoop W) (data : Bytes) (p : PeerId) :
    (n.handleDelta c clock data).registry = n.registry ∧
    (n.handleDelta c clock data).book p =
      run once (n.book p) ((acceptedRep c.x n.registry data).toList.map (share p)) := by
  unfold handleDelta acceptedRep
  cases hdec : c.x.deltaCbor.decode data with
  | none => exact ⟨rfl, rfl⟩
  | some delta =>
    cases hkey : n.registry.verifyingKey delta.observer with
    | none => simp [hkey]
    | some key =>
      cases hok : verifyDelta c.x delta key with
      | error e => simp [hkey, hok]
      | ok u =>
        cases hkind : delta.kind with
        | outcome o => simp [hkey, hok, hkind, book]
        | governanceRule => simp [hkey, hok, hkind]
        | reputation peer d reason relatedHash =>
          simp only [Option.bind_eq_bind, Option.bind_some, hkey, hok, hkind]
          refine ⟨?_, book_applyReputation ..⟩
          unfold applyReputation
          split <;> rfl

/-- The payload of a state delta that reaches the node through the partition gate. -/
def heardDelta (c : Ctx W) (groupOf : PeerId → UInt8) (a : Turn W) : Option Bytes :=
  match a.event with
  | .gossip source .stateDeltas data _ =>
    if groupOf c.localPeerId = groupOf source then some data else none
  | _ => none

/-- The turn delivers a state delta, to this side of the partition or another. -/
def IsDelta (a : Turn W) : Prop :=
  ∃ source data coin, a.event = .gossip source .stateDeltas data coin

/-- A run of delta deliveries is a run of the book. -/
theorem run_book [WeightArith W] (c : Ctx W) (groupOf : PeerId → UInt8) (p : PeerId)
    {as : List (Turn W)} (has : ∀ a ∈ as, IsDelta a) (n : NodeLoop W) :
    (run (step c groupOf) n as).book p =
      run once (n.book p)
        (((as.filterMap (heardDelta c groupOf)).filterMap (acceptedRep c.x n.registry)).map
          (share p)) := by
  induction as generalizing n with
  | nil => rfl
  | cons a as ih =>
    have htail := ih fun b hb => has b (List.mem_cons_of_mem _ hb)
    obtain ⟨source, data, coin, he⟩ := has a List.mem_cons_self
    rw [run_cons, htail]
    by_cases hgate : groupOf c.localPeerId = groupOf source
    · have hstep : n.step c groupOf a = n.handleDelta c a.clock data := by
        simp only [step, he, if_pos hgate, dispatch]
      have hheard : heardDelta c groupOf a = some data := by
        simp only [heardDelta, he, if_pos hgate]
      obtain ⟨hreg, hbook⟩ := handleDelta_book c a.clock n data p
      rw [hstep, hreg, hbook, List.filterMap_cons_some hheard]
      cases hacc : acceptedRep c.x n.registry data with
      | none => rw [List.filterMap_cons_none hacc]; rfl
      | some item => rw [List.filterMap_cons_some hacc]; rfl
    · have hstep : n.step c groupOf a = n := by simp only [step, he, if_neg hgate]
      have hheard : heardDelta c groupOf a = none := by simp only [heardDelta, he, if_neg hgate]
      rw [hstep, List.filterMap_cons_none hheard]

/-- No two deltas of the run give a new key two amounts. -/
def OneAmount (x : Externals W) (n : NodeLoop W) (heard : List Bytes) : Prop :=
  Consistent n.appliedRepKeys (heard.filterMap (acceptedRep x n.registry))

theorem consistent_share {seen : List RepKey} {items : List (RepKey × Int32)}
    (h : Consistent seen items) (p : PeerId) : Consistent seen (items.map (share p)) := by
  intro i hi j hj hnew hij
  obtain ⟨i', hi', rfl⟩ := List.mem_map.mp hi
  obtain ⟨j', hj', rfl⟩ := List.mem_map.mp hj
  have hkey : i'.1 = j'.1 := hij
  have hamount : i'.2 = j'.2 := h i' hi' j' hj' hnew hkey
  simp only [share, hkey, hamount]

section Order

variable [WeightArith W] {c : Ctx W} {groupOf : PeerId → UInt8} {n : NodeLoop W}
  {as : List (Turn W)}

omit [WeightArith W] in
/-- Two turns of the run, heard once more at its start. -/
theorem isDelta_cons_cons (has : ∀ a ∈ as, IsDelta a) {u v : Turn W} (hu : u ∈ as) (hv : v ∈ as) :
    ∀ w ∈ u :: v :: as, IsDelta w := by
  intro w hw
  rcases List.mem_cons.mp hw with rfl | hw
  · exact has w hu
  · rcases List.mem_cons.mp hw with rfl | hw
    · exact has w hv
    · exact has w hw

omit [WeightArith W] in
theorem heard_cons_cons {u v : Turn W} (hu : u ∈ as) (hv : v ∈ as) (data : Bytes) :
    data ∈ (u :: v :: as).filterMap (heardDelta c groupOf) ↔
      data ∈ as.filterMap (heardDelta c groupOf) := by
  simp only [List.mem_filterMap, List.mem_cons]
  constructor
  · rintro ⟨w, rfl | rfl | hw, hd⟩
    · exact ⟨w, hu, hd⟩
    · exact ⟨w, hv, hd⟩
    · exact ⟨w, hw, hd⟩
  · rintro ⟨w, hw, hd⟩
    exact ⟨w, Or.inr (Or.inr hw), hd⟩

theorem run_book_cons_cons (has : ∀ a ∈ as, IsDelta a) {u v : Turn W} (hu : u ∈ as) (hv : v ∈ as)
    {data data' : Bytes} {k : RepKey} {d d' : Int32} (hd : heardDelta c groupOf u = some data)
    (hd' : heardDelta c groupOf v = some data')
    (hacc : acceptedRep c.x n.registry data = some (k, d))
    (hacc' : acceptedRep c.x n.registry data' = some (k, d')) :
    (run (step c groupOf) n (u :: v :: as)).book k.1 =
      run once (n.book k.1) ((k, d.toInt) :: (k, d'.toInt) ::
        ((as.filterMap (heardDelta c groupOf)).filterMap (acceptedRep c.x n.registry)).map
          (share k.1)) := by
  rw [run_book c groupOf k.1 (isDelta_cons_cons has hu hv) n, List.filterMap_cons_some hd,
    List.filterMap_cons_some hd', List.filterMap_cons_some hacc, List.filterMap_cons_some hacc',
    List.map_cons, List.map_cons, share, share, if_pos rfl, if_pos rfl]

/-- Where a new key has two amounts, hearing them in either order first differs. -/
theorem run_swap_ne (has : ∀ a ∈ as, IsDelta a) {u v : Turn W} (hu : u ∈ as) (hv : v ∈ as)
    {data data' : Bytes} {k : RepKey} {d d' : Int32} (hd : heardDelta c groupOf u = some data)
    (hd' : heardDelta c groupOf v = some data')
    (hacc : acceptedRep c.x n.registry data = some (k, d))
    (hacc' : acceptedRep c.x n.registry data' = some (k, d')) (hnew : k ∉ n.appliedRepKeys)
    (hne : d ≠ d') :
    (run (step c groupOf) n (u :: v :: as)).reputationLocal k.1 ≠
      (run (step c groupOf) n (v :: u :: as)).reputationLocal k.1 := by
  have hl := run_book_cons_cons has hu hv hd hd' hacc hacc'
  have hr := run_book_cons_cons has hv hu hd' hd hacc' hacc
  have hint : d.toInt ≠ d'.toInt := fun h => hne (Int32.toInt_inj.mp h)
  have hswap := run_once_swap_ne (n.book k.1) (k := k) hnew hint
    (((as.filterMap (heardDelta c groupOf)).filterMap (acceptedRep c.x n.registry)).map
      (share k.1))
  rw [← hl, ← hr] at hswap
  exact hswap

/-- **Gossip order leaves no trace, exactly when amounts are fixed.**  From any
state of the node, every other order and repetition of the state deltas it hears
leads to the same balances if and only if no two accepted deltas give one new
key two amounts. -/
theorem reputation_order_free_iff (c : Ctx W) (groupOf : PeerId → UInt8) (n : NodeLoop W)
    {as : List (Turn W)} (has : ∀ a ∈ as, IsDelta a) :
    (∀ bs : List (Turn W), (∀ b ∈ bs, IsDelta b) →
      (∀ data, data ∈ bs.filterMap (heardDelta c groupOf) ↔
        data ∈ as.filterMap (heardDelta c groupOf)) →
      (run (step c groupOf) n bs).reputationLocal = (run (step c groupOf) n as).reputationLocal) ↔
    OneAmount c.x n (as.filterMap (heardDelta c groupOf)) := by
  constructor
  · intro hfree i hi j hj hnew hij
    obtain ⟨data, hdata, hacc⟩ := List.mem_filterMap.mp hi
    obtain ⟨data', hdata', hacc'⟩ := List.mem_filterMap.mp hj
    obtain ⟨u, hu, hd⟩ := List.mem_filterMap.mp hdata
    obtain ⟨v, hv, hd'⟩ := List.mem_filterMap.mp hdata'
    obtain ⟨k, d⟩ := i
    obtain ⟨k', d'⟩ := j
    obtain rfl : k = k' := hij
    by_contra hne
    refine run_swap_ne has hu hv hd hd' hacc hacc' hnew hne ?_
    rw [hfree _ (isDelta_cons_cons has hu hv) (heard_cons_cons hu hv),
      hfree _ (isDelta_cons_cons has hv hu) (heard_cons_cons hv hu)]
  · intro hone bs hbs hheard
    funext p
    have hset : ∀ item, item ∈ ((as.filterMap (heardDelta c groupOf)).filterMap
        (acceptedRep c.x n.registry)).map (share p) ↔
        item ∈ ((bs.filterMap (heardDelta c groupOf)).filterMap
          (acceptedRep c.x n.registry)).map (share p) := by
      intro item
      simp only [List.mem_map, List.mem_filterMap (f := acceptedRep c.x n.registry), hheard]
    have hbook := run_once_congr (n.book p) (consistent_share hone p) hset
    rw [← run_book c groupOf p has, ← run_book c groupOf p hbs] at hbook
    exact hbook.symm

end Order

/-! ### One reward, gossiped by two observers -/

/-- The reward of peer 1, signed by peer `n`. -/
def rewardDelta (n : UInt8) : StateDelta ℚ where
  wireVersion := deltaWireVersion
  kind := .reputation (peerOf 1) reputationAwardExecutor "executor_consensus_reward"
    (some (hashOf 7))
  observer := peerOf n
  observedAt := 0
  signature := List.replicate 64 n

def rewardCtx : Ctx ℚ where
  x := { Externals.bare with
    deltaCbor := Codec.ofTable [([11], rewardDelta 11), ([12], rewardDelta 12)] }
  localPeerId := peerOf 9
  signingKey := keyOf 9
  verifyingKey := (keyOf 9).verifyingKey
  quorumConfig := .standard
  malicious := none

/-- A node that knows both observers. -/
def rewardNode : NodeLoop ℚ :=
  { start rewardCtx ⟨0, 0⟩ with
    registry := [11, 12].foldl (fun r n => r.recordIdentity
      { peerId := peerOf n, verifyingKey := (keyOf n).verifyingKey, reachableAddrs := [],
        firstSeen := 0, lastSeen := 0, readiness := .ready }) PeerRegistry.new }

def rewardTurn (n : UInt8) : Turn ℚ := ⟨⟨0, 0⟩, .gossip (peerOf n) .stateDeltas [n] false⟩

theorem reward_order_free :
    (run (step rewardCtx fun _ => 0) rewardNode
      [rewardTurn 12, rewardTurn 11, rewardTurn 11, rewardTurn 12]).reputationLocal =
    (run (step rewardCtx fun _ => 0) rewardNode
      [rewardTurn 11, rewardTurn 12]).reputationLocal ∧
    (run (step rewardCtx fun _ => 0) rewardNode
      [rewardTurn 11, rewardTurn 12]).reputationLocal (peerOf 1) = 10 := by
  have hdelta : ∀ n, IsDelta (rewardTurn n) := fun n => ⟨_, _, _, rfl⟩
  have has : ∀ a ∈ [rewardTurn 11, rewardTurn 12], IsDelta a := by
    intro a ha
    rcases List.mem_cons.mp ha with rfl | ha
    · exact hdelta 11
    · rw [List.mem_singleton.mp ha]
      exact hdelta 12
  refine ⟨?_, by decide +kernel⟩
  refine (reputation_order_free_iff rewardCtx (fun _ => 0) rewardNode has).mpr ?_ _ ?_ ?_
  · unfold OneAmount Consistent
    decide +kernel
  · exact isDelta_cons_cons has (List.mem_cons_of_mem _ List.mem_cons_self) List.mem_cons_self
  · exact heard_cons_cons (List.mem_cons_of_mem _ List.mem_cons_self) List.mem_cons_self

end NodeLoop

end Parseh.Chaos
