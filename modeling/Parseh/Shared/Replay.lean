import Parseh.Shared.Writers

/-!
# Deltas delivered again and in other orders

Deltas are gossiped, so a node may receive one twice and two nodes may receive
them in different orders.  A delivery does one of three things, by the kind of
its delta: it offers an outcome row, earns a peer some reputation, or rules a
name (`reputationOf_receive`, `governanceRule_receive`); tasks and results stay.

* `replay_harmless_iff`: repeating a delta is harmless unless it is a nonzero
  reputation delta, which the log counts every time;
* `governance_converges_iff`: a set of governance deltas leaves the same rules in
  every order exactly when no two of them give one name two values, because the
  last arrival wins and the signed time is never read.
-/

namespace Parseh.Shared

open Parseh.Lib Parseh.Wire

variable {W : Type}

/-- A delta as a node receives it: with the key it is checked under, at a time. -/
structure Delivery (W : Type) where
  now : Int64
  delta : StateDelta W
  signerPubkey : VerifyingKey

namespace Delivery

variable (x : Externals W)

/-- The delta and its key, without the time of arrival. -/
def signed (d : Delivery W) : StateDelta W × VerifyingKey := (d.delta, d.signerPubkey)

def call (d : Delivery W) : Call W := ⟨d.now, .applyDelta d.delta d.signerPubkey⟩

/-- What the delivery adds to the reputation of `peer`. -/
def earned (d : Delivery W) (peer : PeerId) : Int :=
  match verifyDelta x d.delta d.signerPubkey, d.delta.kind with
  | .ok (), .reputation p delta _ _ => if p = peer then delta.toInt else 0
  | _, _ => 0

end Delivery

/-- The value a signed delta gives to the rule `name`, if it verifies. -/
def ruled (x : Externals W) (e : StateDelta W × VerifyingKey) (name : String) : Option String :=
  match verifyDelta x e.1 e.2, e.1.kind with
  | .ok (), .governanceRule ruleName ruleValue _ _ =>
    if ruleName = name then some ruleValue else none
  | _, _ => none

namespace SharedState

/-- The store after a delivery; a rejected one leaves it. -/
def receive (x : Externals W) (s : SharedState) (d : Delivery W) : SharedState := s.write x d.call

/-! ## What a delivery changes -/

theorem receive_tasks (x : Externals W) (s : SharedState) (d : Delivery W) :
    (s.receive x d).tasks = s.tasks := (write_grown x s d.call).tasks

theorem receive_results (x : Externals W) (s : SharedState) (d : Delivery W) :
    (s.receive x d).results = s.results := (write_grown x s d.call).results

theorem receive_outcomes (x : Externals W) (s : SharedState) (d : Delivery W) :
    (s.receive x d).outcomes = s.outcomes.insertAll (d.call.acceptedOutcomes x s) :=
  (write_grown x s d.call).outcomes

private theorem orKeep_recordOutcome (x : Externals W) (s : SharedState) (o : JobOutcome W)
    (now : Int64) :
    (s.orKeep (s.recordOutcome x o now)).reputationLog = s.reputationLog ∧
      (s.orKeep (s.recordOutcome x o now)).governanceRules = s.governanceRules := by
  unfold recordOutcome
  dsimp only
  split
  · exact ⟨rfl, rfl⟩
  · split <;> exact ⟨rfl, rfl⟩

theorem reputationOf_applyReputationDelta (s : SharedState) (p : PeerId) (delta : Int32)
    (reason : String) (h : Option ContentHash) (now : Int64) (peer : PeerId) :
    (s.applyReputationDelta p delta reason h now).reputationOf peer =
      s.reputationOf peer + if p = peer then delta.toInt else 0 := by
  unfold reputationOf applyReputationDelta
  by_cases hp : p = peer <;> simp [hp]

theorem governanceRule_upsert (x : Externals W) (s : SharedState) (ruleName ruleValue : String)
    (p : PeerId) (ps : List PeerId) (now : Int64) (name : String) :
    (s.upsertGovernanceRule x ruleName ruleValue p ps now).governanceRule name =
      if ruleName = name then some ruleValue else s.governanceRule name := by
  unfold upsertGovernanceRule governanceRule
  dsimp only
  cases hc : s.governanceRules.contains ruleName with
  | true =>
    rw [if_pos rfl, Keyed.find?_mapRows, Option.map_map]
    by_cases hn : ruleName = name
    · subst hn
      obtain ⟨r, hr, hk⟩ := Keyed.contains_iff.mp hc
      rw [Keyed.find?_eq_some_iff.mpr ⟨hr, hk⟩, if_pos rfl]
      simp [GovernanceRow.update, hk]
    · rw [if_neg hn]
      cases hf : s.governanceRules.find? name with
      | none => rfl
      | some r =>
        have hk : r.ruleName ≠ ruleName := by
          rw [(Keyed.find?_eq_some_iff.mp hf).2]
          exact fun h => hn h.symm
        simp [GovernanceRow.update, hk]
  | false =>
    rw [if_neg Bool.false_ne_true]
    have hins := Keyed.find?_insertAll s.governanceRules
      [{ ruleName, ruleValue, proposedAt := now, activatedAt := now, proposer := p,
         approvers := x.approversCbor (ps.map PeerId.toBytes) }] name
    rw [Keyed.insertAll_cons, Keyed.insertAll_nil] at hins
    rw [hins]
    by_cases hn : ruleName = name
    · subst hn
      rw [Keyed.find?_eq_none_iff.mpr hc]
      simp
    · simp [hn]

/-- A delivery changes a reputation by what it earns. -/
theorem reputationOf_receive (x : Externals W) (s : SharedState) (d : Delivery W)
    (peer : PeerId) : (s.receive x d).reputationOf peer = s.reputationOf peer + d.earned x peer := by
  unfold receive write Delivery.call Call.exec applyDelta Delivery.earned
  dsimp only
  cases hv : verifyDelta x d.delta d.signerPubkey with
  | error e => simp [orKeep]
  | ok u =>
    cases hk : d.delta.kind with
    | outcome o =>
      have hlog := (orKeep_recordOutcome x s o d.now).1
      simp [reputationOf, hlog]
    | reputation p delta reason h => exact reputationOf_applyReputationDelta s p delta reason h _ peer
    | governanceRule ruleName ruleValue p ps =>
      simp only [orKeep, upsertGovernanceRule, reputationOf]
      split <;> simp

/-- A delivery that rules a name sets its value and leaves the others. -/
theorem governanceRule_receive (x : Externals W) (s : SharedState) (d : Delivery W)
    (name : String) :
    (s.receive x d).governanceRule name = (ruled x d.signed name).or (s.governanceRule name) := by
  unfold receive write Delivery.call Call.exec applyDelta ruled Delivery.signed
  dsimp only
  cases hv : verifyDelta x d.delta d.signerPubkey with
  | error e => simp [orKeep]
  | ok u =>
    cases hk : d.delta.kind with
    | outcome o =>
      have hgov := (orKeep_recordOutcome x s o d.now).2
      simp [governanceRule, hgov]
    | reputation p delta reason h => rfl
    | governanceRule ruleName ruleValue p ps =>
      simp only [orKeep, governanceRule_upsert]
      split <;> rfl

/-! ## Replay -/

/-- What a node exposes of its state: the outcomes, the reputations and the
governance values. -/
structure SameView (s s' : SharedState) : Prop where
  outcomes : s.outcomes = s'.outcomes
  reputation : ∀ peer, s.reputationOf peer = s'.reputationOf peer
  governance : ∀ name, s.governanceRule name = s'.governanceRule name

/-- `a` has received `d` like `b`, and `k` times more. -/
structure Ahead (x : Externals W) (d : Delivery W) (k : Nat) (a b : SharedState) : Prop where
  tasks : a.tasks = b.tasks
  results : a.results = b.results
  outcomes : a.outcomes = b.outcomes
  governance : ∀ name, a.governanceRule name = b.governanceRule name
  reputation : ∀ peer, a.reputationOf peer = b.reputationOf peer + k * d.earned x peer
  -- what `d` would write has been written
  outcomeSettled : ∀ h ∈ (d.call.acceptedOutcomes x a).map (·.outcomeHash),
    a.outcomes.contains h = true
  ruleSettled : ∀ name value, ruled x d.signed name = some value →
    a.governanceRule name = some value

theorem acceptedOutcomes_congr {s s' : SharedState} (ht : s.tasks = s'.tasks)
    (hr : s.results = s'.results) (x : Externals W) (c : Call W) :
    c.acceptedOutcomes x s = c.acceptedOutcomes x s' := by
  unfold Call.acceptedOutcomes
  rw [ht, hr]

/-- The hash of the row a delta offers does not depend on the time. -/
theorem acceptedOutcomes_hashes (x : Externals W) (s : SharedState) (delta : StateDelta W)
    (key : VerifyingKey) (now now' : Int64) :
    ((⟨now', .applyDelta delta key⟩ : Call W).acceptedOutcomes x s).map (·.outcomeHash) =
      ((⟨now, .applyDelta delta key⟩ : Call W).acceptedOutcomes x s).map (·.outcomeHash) := by
  have hoff : (⟨now', .applyDelta delta key⟩ : Call W).offeredOutcome x =
      (⟨now, .applyDelta delta key⟩ : Call W).offeredOutcome x := rfl
  simp only [Call.acceptedOutcomes, hoff]
  split
  · split <;> rfl
  · rfl

/-- Rows whose keys are taken change nothing. -/
theorem insertAll_of_contains {s : SharedState} {l : List OutcomeRow}
    (h : ∀ k ∈ l.map (·.outcomeHash), s.outcomes.contains k = true) :
    s.outcomes.insertAll l = s.outcomes := by
  induction l with
  | nil => rfl
  | cons o l ih =>
    rw [Keyed.insertAll_cons, Keyed.insertOrIgnore_of_contains (h _ (by simp))]
    exact ih fun k hk => h k (by simp only [List.map_cons, List.mem_cons, hk, or_true])

theorem ahead_first (x : Externals W) (s : SharedState) (d : Delivery W) :
    Ahead x d 0 (s.receive x d) (s.receive x d) where
  tasks := rfl
  results := rfl
  outcomes := rfl
  governance _ := rfl
  reputation peer := by simp
  outcomeSettled h hh := by
    rw [acceptedOutcomes_congr (receive_tasks x s d) (receive_results x s d)] at hh
    obtain ⟨o, ho, rfl⟩ := List.mem_map.mp hh
    rw [receive_outcomes, Keyed.contains_insertAll]
    exact Or.inr ⟨o, ho, rfl⟩
  ruleSettled name value h := by
    rw [governanceRule_receive, h]
    rfl

/-- A delivery that both nodes receive keeps them as far apart. -/
theorem Ahead.both {x : Externals W} {d e : Delivery W} {k : Nat} {a b : SharedState}
    (h : Ahead x d k a b)
    (hconf : ∀ name value value', ruled x d.signed name = some value →
      ruled x e.signed name = some value' → value' = value) :
    Ahead x d k (a.receive x e) (b.receive x e) where
  tasks := by rw [receive_tasks, receive_tasks, h.tasks]
  results := by rw [receive_results, receive_results, h.results]
  outcomes := by
    rw [receive_outcomes, receive_outcomes, h.outcomes, acceptedOutcomes_congr h.tasks h.results]
  governance name := by rw [governanceRule_receive, governanceRule_receive, h.governance]
  reputation peer := by
    rw [reputationOf_receive, reputationOf_receive, h.reputation]
    omega
  outcomeSettled r hr := by
    rw [acceptedOutcomes_congr (receive_tasks x a e) (receive_results x a e)] at hr
    rw [receive_outcomes, Keyed.contains_insertAll]
    exact Or.inl (h.outcomeSettled r hr)
  ruleSettled name value hv := by
    rw [governanceRule_receive, h.ruleSettled name value hv]
    cases he : ruled x e.signed name with
    | none => rfl
    | some value' => rw [hconf name value value' hv he]; rfl

/-- Another copy of `d` changes nothing but the reputation it earns. -/
theorem Ahead.again {x : Externals W} {d e : Delivery W} {k : Nat} {a b : SharedState}
    (h : Ahead x d k a b) (he : e.signed = d.signed) : Ahead x d (k + 1) (a.receive x e) b := by
  obtain ⟨now, delta, key⟩ := e
  obtain ⟨now', delta', key'⟩ := d
  cases he
  have hout : (a.receive x ⟨now, delta, key⟩).outcomes = a.outcomes := by
    rw [receive_outcomes]
    apply insertAll_of_contains
    intro r hr
    rw [Delivery.call, acceptedOutcomes_hashes x a delta key now' now] at hr
    exact h.outcomeSettled r hr
  exact {
    tasks := (receive_tasks ..).trans h.tasks
    results := (receive_results ..).trans h.results
    outcomes := hout.trans h.outcomes
    governance := by
      intro name
      rw [governanceRule_receive, ← h.governance]
      cases hr : ruled x (Delivery.signed ⟨now, delta, key⟩) name with
      | none => rfl
      | some value => exact (h.ruleSettled name value hr).symm
    reputation := by
      intro peer
      rw [reputationOf_receive, h.reputation]
      have hearn : Delivery.earned x ⟨now, delta, key⟩ peer =
          Delivery.earned x ⟨now', delta, key⟩ peer := rfl
      rw [hearn]
      rw [Int.natCast_succ, Int.add_mul, Int.one_mul, Int.add_assoc]
    outcomeSettled := by
      intro r hr
      rw [acceptedOutcomes_congr (receive_tasks x a _) (receive_results x a _)] at hr
      rw [hout]
      exact h.outcomeSettled r hr
    ruleSettled := by
      intro name value hv
      have hv' : ruled x (Delivery.signed ⟨now, delta, key⟩) name = some value := hv
      rw [governanceRule_receive, hv']
      rfl }

/-- **Replay in a run.**  After its first delivery, every copy of `d` puts the
full run one further ahead of the one without copies. -/
theorem ahead_run [DecidableEq W] {x : Externals W} {d : Delivery W} {k : Nat}
    {a b : SharedState} (h : Ahead x d k a b) (post : List (Delivery W))
    (hconf : ∀ e ∈ post, ∀ name value value', ruled x d.signed name = some value →
      ruled x e.signed name = some value' → value' = value) :
    Ahead x d (k + post.countP fun e => e.signed = d.signed) (run (receive x) a post)
      (run (receive x) b (post.filter fun e => e.signed ≠ d.signed)) := by
  induction post generalizing k a b with
  | nil => exact h
  | cons e post ih =>
    have htail := fun e' he' => hconf e' (List.mem_cons_of_mem e he')
    by_cases he : e.signed = d.signed
    · have hstep := ih (h.again he) htail
      simp only [List.countP_cons, List.filter_cons, he, decide_true, ne_eq, not_true_eq_false,
        decide_false, Bool.false_eq_true, if_false, if_true] at hstep ⊢
      rw [run_cons, Nat.add_comm (post.countP _) 1, ← Nat.add_assoc]
      exact hstep
    · have hstep := ih (h.both (hconf e (by simp))) htail
      simp only [List.countP_cons, List.filter_cons, he, decide_false, ne_eq, not_false_eq_true,
        decide_true, Bool.false_eq_true, if_false, if_true, Nat.add_zero, run_cons] at hstep ⊢
      exact hstep

/-- **Replay.**  Take any run of deliveries with a valid one `d` in it, after
which nothing gives its rule another value.  Dropping the later copies of `d`
leaves the same outcomes, reputations and rules if and only if `d` is no
reputation delta of a nonzero amount, or has no later copy. -/
theorem replay_harmless_iff [DecidableEq W] (x : Externals W) (s : SharedState)
    (pre post : List (Delivery W)) (d : Delivery W)
    (hsig : verifyDelta x d.delta d.signerPubkey = .ok ())
    (hconf : ∀ e ∈ post, ∀ name value value', ruled x d.signed name = some value →
      ruled x e.signed name = some value' → value' = value) :
    SameView (run (receive x) s (pre ++ d :: post))
        (run (receive x) s (pre ++ d :: post.filter fun e => e.signed ≠ d.signed)) ↔
      ∀ peer delta reason related, d.delta.kind = .reputation peer delta reason related →
        delta = 0 ∨ ∀ e ∈ post, e.signed ≠ d.signed := by
  have hahead := ahead_run (ahead_first x (run (receive x) s pre) d) post hconf
  simp only [Nat.zero_add] at hahead
  simp only [run_append, run_cons]
  constructor
  · intro hview peer delta reason related hkind
    have hrep := hahead.reputation peer
    have hearned : d.earned x peer = delta.toInt := by
      simp [Delivery.earned, hsig, hkind]
    rw [hview.reputation, hearned] at hrep
    have hzero : ((post.countP fun e => e.signed = d.signed : Nat) : Int) * delta.toInt = 0 := by
      omega
    rcases Int.mul_eq_zero.mp hzero with hcount | hdelta
    · refine Or.inr fun e he heq => ?_
      have hnone := List.countP_eq_zero.mp (Int.natCast_eq_zero.mp hcount) e he
      simp [heq] at hnone
    · exact Or.inl (Int32.toInt.inj (by simpa using hdelta))
  · intro hharm
    refine ⟨hahead.outcomes, fun peer => ?_, hahead.governance⟩
    rw [hahead.reputation peer]
    have hzero : ((post.countP fun e => e.signed = d.signed : Nat) : Int) * d.earned x peer = 0 := by
      cases hkind : d.delta.kind with
      | reputation p delta reason related =>
        rcases hharm p delta reason related hkind with rfl | hnone
        · simp [Delivery.earned, hsig, hkind]
        · rw [List.countP_eq_zero.mpr fun e he => by simpa using hnone e he]
          simp
      | _ => simp [Delivery.earned, hsig, hkind]
    omega

/-- A reputation delta of +5 for peer 3, received at `now`. -/
def rewardDelivery (now : Int64) : Delivery ℚ where
  now := now
  delta := { wireVersion := deltaWireVersion,
             kind := .reputation (peerOf 3) 5 "verifier_agreed" none,
             observer := peerOf 9, observedAt := 1, signature := List.replicate 64 9 }
  signerPubkey := (keyOf 9).verifyingKey

/-- Received twice, it is counted twice. -/
theorem reward_counted_twice :
    verifyDelta Externals.bare (rewardDelivery 1).delta (rewardDelivery 1).signerPubkey = .ok () ∧
    ¬ SameView (run (receive .bare) .empty [rewardDelivery 1, rewardDelivery 2])
      (run (receive .bare) .empty [rewardDelivery 1]) := by
  refine ⟨by decide +kernel, fun h => ?_⟩
  exact absurd (h.reputation (peerOf 3)) (by decide +kernel)

/-- A rule with the given value, signed at `observedAt` by peer 9. -/
def ruleDelivery (now : Int64) (value : String) (observedAt : UInt64) : Delivery ℚ where
  now := now
  delta := { wireVersion := deltaWireVersion,
             kind := .governanceRule "quorum_standard" value (peerOf 9) [],
             observer := peerOf 9, observedAt := observedAt, signature := List.replicate 64 9 }
  signerPubkey := (keyOf 9).verifyingKey

/-- A rule received twice is harmless. -/
theorem rule_replayed_harmless :
    SameView (run (receive .bare) .empty [ruleDelivery 1 "5" 1, ruleDelivery 2 "5" 1])
      (run (receive .bare) .empty [ruleDelivery 1 "5" 1]) := by
  refine (replay_harmless_iff .bare .empty [] [ruleDelivery 2 "5" 1] (ruleDelivery 1 "5" 1)
    (by decide +kernel) ?_).mpr (fun _ _ _ _ hkind => nomatch hkind)
  intro e he name value value' hv hv'
  rw [List.mem_singleton.mp he] at hv'
  exact Option.some.inj (hv'.symm.trans hv)

/-! ## Orders of governance deltas -/

/-- The last arrival that rules a name decides it. -/
theorem governanceRule_run (x : Externals W) (s : SharedState) (l : List (Delivery W))
    (name : String) :
    (run (receive x) s l).governanceRule name =
      ((l.map Delivery.signed).reverse.findSome? fun e => ruled x e name).or
        (s.governanceRule name) := by
  induction l generalizing s with
  | nil => rfl
  | cons d l ih =>
    rw [run_cons, ih, governanceRule_receive, List.map_cons, List.reverse_cons,
      List.findSome?_append, Option.or_assoc]
    cases h : ruled x d.signed name <;> simp [h]

/-- The deltas end in the same rules in whatever order and at whatever times
they arrive, and a name that a delta of the greatest `observed_at` rules has the
value of that delta. -/
structure GovernanceConverges (x : Externals W) (s : SharedState)
    (ds : List (StateDelta W × VerifyingKey)) : Prop where
  anyOrder : ∀ l₁ l₂ : List (Delivery W), (l₁.map Delivery.signed).Perm ds →
    (l₂.map Delivery.signed).Perm ds → ∀ name,
      (run (receive x) s l₁).governanceRule name = (run (receive x) s l₂).governanceRule name
  latestWins : ∀ l : List (Delivery W), (l.map Delivery.signed).Perm ds →
    ∀ e ∈ ds, ∀ name value, ruled x e name = some value →
      (∀ e' ∈ ds, ruled x e' name ≠ none → e'.1.observedAt ≤ e.1.observedAt) →
        (run (receive x) s l).governanceRule name = some value

/-- No two of the deltas give one name two values. -/
def OneValue (x : Externals W) (ds : List (StateDelta W × VerifyingKey)) : Prop :=
  ∀ e ∈ ds, ∀ e' ∈ ds, ∀ name value value', ruled x e name = some value →
    ruled x e' name = some value' → value = value'

/-- With one value for each name, every order ends in it. -/
theorem governanceRule_of_oneValue {x : Externals W} {s : SharedState}
    {ds : List (StateDelta W × VerifyingKey)} (h : OneValue x ds) {l : List (Delivery W)}
    (hl : (l.map Delivery.signed).Perm ds) {e : StateDelta W × VerifyingKey} (he : e ∈ ds)
    {name value : String} (hv : ruled x e name = some value) :
    (run (receive x) s l).governanceRule name = some value := by
  rw [governanceRule_run]
  cases hf : (l.map Delivery.signed).reverse.findSome? fun e => ruled x e name with
  | none =>
    have hnone := List.findSome?_eq_none_iff.mp hf e (List.mem_reverse.mpr (hl.mem_iff.mpr he))
    rw [hv] at hnone
    cases hnone
  | some value' =>
    obtain ⟨e', he', hv'⟩ := List.exists_of_findSome?_eq_some hf
    have hmem : e' ∈ ds := hl.mem_iff.mp (List.mem_reverse.mp he')
    rw [h e' hmem e he name value' value hv' hv]
    rfl

/-- The order in which one of the deltas arrives last. -/
theorem governanceRule_of_last {x : Externals W} {s : SharedState}
    {ds : List (StateDelta W × VerifyingKey)} {e : StateDelta W × VerifyingKey} (he : e ∈ ds)
    {name value : String} (hv : ruled x e name = some value) :
    ∃ l : List (Delivery W), (l.map Delivery.signed).Perm ds ∧
      (run (receive x) s l).governanceRule name = some value := by
  obtain ⟨as, bs, rfl⟩ := List.append_of_mem he
  refine ⟨((as ++ bs) ++ [e]).map fun e => ⟨0, e.1, e.2⟩, ?_, ?_⟩
  · have hsigned : (((as ++ bs) ++ [e]).map fun e => (⟨0, e.1, e.2⟩ : Delivery W)).map
        Delivery.signed = (as ++ bs) ++ [e] := by
      rw [List.map_map]
      exact List.map_id _
    rw [hsigned, List.append_assoc]
    exact List.perm_append_comm.append_left as
  · rw [governanceRule_run]
    simp [Delivery.signed, hv]

/-- **Governance.**  Signed governance deltas converge over every order, to the
latest by their own time, if and only if no two of them give one name two
values. -/
theorem governance_converges_iff (x : Externals W) (s : SharedState)
    (ds : List (StateDelta W × VerifyingKey)) :
    GovernanceConverges x s ds ↔ OneValue x ds := by
  constructor
  · intro h e he e' he' name value value' hv hv'
    obtain ⟨l₁, hl₁, hend₁⟩ := governanceRule_of_last (s := s) he hv
    obtain ⟨l₂, hl₂, hend₂⟩ := governanceRule_of_last (s := s) he' hv'
    have heq := h.anyOrder l₁ l₂ hl₁ hl₂ name
    rw [hend₁, hend₂] at heq
    exact Option.some.inj heq
  · intro h
    refine ⟨fun l₁ l₂ hl₁ hl₂ name => ?_, fun l hl e he name value hv _ =>
      governanceRule_of_oneValue h hl he hv⟩
    by_cases hex : ∃ e ∈ ds, ∃ value, ruled x e name = some value
    · obtain ⟨e, he, value, hv⟩ := hex
      rw [governanceRule_of_oneValue h hl₁ he hv, governanceRule_of_oneValue h hl₂ he hv]
    · -- no delta rules the name, so every order leaves it
      have hnone : ∀ l : List (Delivery W), (l.map Delivery.signed).Perm ds →
          ((l.map Delivery.signed).reverse.findSome? fun e => ruled x e name) = none := by
        intro l hl
        rw [List.findSome?_eq_none_iff]
        intro e he
        cases hv : ruled x e name with
        | none => rfl
        | some value =>
          exact absurd ⟨e, hl.mem_iff.mp (List.mem_reverse.mp he), value, hv⟩ hex
      rw [governanceRule_run, governanceRule_run, hnone l₁ hl₁, hnone l₂ hl₂]

/-- Two values signed one after the other: the node that hears the older one last
keeps it. -/
theorem older_rule_wins :
    ¬ GovernanceConverges Externals.bare .empty
      [(ruleDelivery 0 "5" 1).signed, (ruleDelivery 0 "7" 2).signed] := by
  intro h
  have heq := h.anyOrder [ruleDelivery 10 "5" 1, ruleDelivery 11 "7" 2]
    [ruleDelivery 10 "7" 2, ruleDelivery 11 "5" 1] (List.Perm.refl _) (List.Perm.swap ..)
    "quorum_standard"
  exact absurd heq (by decide +kernel)

end SharedState

end Parseh.Shared
