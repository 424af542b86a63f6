import Parseh.Miner.Node
import Parseh.Shared.Queries

/-!
# State sync (`/parseh/state-sync/1.0.0`)

The requester's half applies the outcomes of a response, each judged by its own
signature; it is a run of the writer `record_synced_outcome` over the accepted
ones (`applyStateSyncResponse_shared`).  The responder's half answers a request
with the newest outcomes from a given second on, at most five hundred.

* `stateSync_safe`: whatever responses arrive, nothing but individually
  authenticated outcomes gets in, and no row is displaced;
* `outcome_retrievable_iff`: an outcome can be had by some sequence of requests
  exactly when fewer than five hundred of the store come before it, newest first.
-/

namespace Parseh.Miner

open Parseh.Lib Parseh.Wire Parseh.Core Parseh.Shared

variable {W : Type}

/-! ## The requester -/

/-- The outcome verifies under the key registered for its observer. -/
def syncAccepted (c : Ctx W) (reg : PeerRegistry) (outcome : JobOutcome W) : Bool :=
  match reg.verifyingKey outcome.observedBy with
  | some key => (outcome.verifySignature c.x key).isOk
  | none => false

/-- The outcomes of the response that are persisted. -/
def acceptedOutcomes (c : Ctx W) (reg : PeerRegistry) (r : StateSyncResponse W) :
    List (JobOutcome W) := r.outcomes.filter (syncAccepted c reg)

/-- The writer calls a list of outcomes leads to. -/
def syncCalls (clock : Clock) (os : List (JobOutcome W)) : List (Call W) :=
  os.map fun o => ⟨Clock.unixI64 clock, .recordSyncedOutcome o⟩

theorem applySyncedOutcome_eq (c : Ctx W) (clock : Clock) (reg : PeerRegistry) (s : SharedState)
    (o : JobOutcome W) :
    applySyncedOutcome c clock reg s o =
      if syncAccepted c reg o then s.recordSyncedOutcome c.x o (Clock.unixI64 clock) else s := by
  unfold applySyncedOutcome syncAccepted
  cases hk : reg.verifyingKey o.observedBy with
  | none => rfl
  | some key =>
    dsimp only
    split <;> next hs => simp [hs, Except.isOk, Except.toBool]

theorem foldl_applySyncedOutcome (c : Ctx W) (clock : Clock) (reg : PeerRegistry)
    (os : List (JobOutcome W)) (s : SharedState) :
    os.foldl (applySyncedOutcome c clock reg) s =
      run (SharedState.write c.x) s (syncCalls clock (os.filter (syncAccepted c reg))) := by
  induction os generalizing s with
  | nil => rfl
  | cons o os ih =>
    rw [List.foldl_cons, applySyncedOutcome_eq, List.filter_cons]
    split
    · exact ih _
    · exact ih s

/-- Applying a response is a run of the sync writer over its accepted outcomes. -/
theorem applyStateSyncResponse_shared (c : Ctx W) (clock : Clock) (n : Node W)
    (r : StateSyncResponse W) :
    (applyStateSyncResponse c clock n r).shared =
      if syncEnvelopeOk c n.peerRegistry r then
        run (SharedState.write c.x) n.shared
          (syncCalls clock (acceptedOutcomes c n.peerRegistry r))
      else n.shared := by
  unfold applyStateSyncResponse
  split
  · exact foldl_applySyncedOutcome ..
  · rfl

theorem applyStateSyncResponse_peerRegistry (c : Ctx W) (clock : Clock) (n : Node W)
    (r : StateSyncResponse W) :
    (applyStateSyncResponse c clock n r).peerRegistry = n.peerRegistry := by
  unfold applyStateSyncResponse
  split <;> rfl

/-- The tables after a run of the sync writer. -/
theorem grown_syncCalls (x : Externals W) (clock : Clock) (os : List (JobOutcome W))
    (s : SharedState) :
    SharedState.Grown s (run (SharedState.write x) s (syncCalls clock os))
      (os.map SharedState.stubTask) (os.map SharedState.stubResult) []
      (os.map fun o => SharedState.outcomeRow x o (Clock.unixI64 clock)) := by
  induction os generalizing s with
  | nil => exact ⟨rfl, rfl, rfl, rfl⟩
  | cons o os ih =>
    obtain ⟨ht, hr, hv, ho⟩ :=
      ih (s.write x ⟨Clock.unixI64 clock, .recordSyncedOutcome o⟩)
    exact ⟨ht, hr, hv, ho⟩

/-- Outcomes whose rows are all there are ignored. -/
theorem run_syncCalls_of_contains {x : Externals W} {s : SharedState} {os : List (JobOutcome W)}
    (h : ∀ o ∈ os, s.tasks.contains o.specHash = true ∧ s.results.contains o.resultHash = true ∧
      s.outcomes.contains (o.contentHash x) = true) (clock : Clock) :
    run (SharedState.write x) s (syncCalls clock os) = s := by
  induction os with
  | nil => rfl
  | cons o os ih =>
    obtain ⟨ht, hr, ho⟩ := h o (by simp)
    have hone : s.write x ⟨Clock.unixI64 clock, .recordSyncedOutcome o⟩ = s :=
      SharedState.recordSyncedOutcome_of_contains ht hr ho _
    rw [syncCalls, List.map_cons, run_cons, hone]
    exact ih fun o' ho' => h o' (by simp [ho'])

/-- What applying the response `r` to the node does to its store. -/
structure SyncSafe (c : Ctx W) (clock : Clock) (n : Node W) (r : StateSyncResponse W) : Prop where
  badEnvelope : (∃ key, n.peerRegistry.verifyingKey r.responder = some key ∧
    r.verifySignature c.x key ≠ .ok ()) → (applyStateSyncResponse c clock n r).shared = n.shared
  outcomes : (∀ key, n.peerRegistry.verifyingKey r.responder = some key →
    r.verifySignature c.x key = .ok ()) → ∀ row,
      row ∈ (applyStateSyncResponse c clock n r).shared.outcomes.rows ↔
        row ∈ n.shared.outcomes.rows ∨
        (n.shared.outcomes.contains row.outcomeHash = false ∧
          ∃ o, (acceptedOutcomes c n.peerRegistry r).find?
            (fun o => o.contentHash c.x = row.outcomeHash) = some o ∧
            row = SharedState.outcomeRow c.x o (Clock.unixI64 clock))
  newTasks : ∀ t ∈ (applyStateSyncResponse c clock n r).shared.tasks.rows,
    t ∈ n.shared.tasks.rows ∨
      ∃ o ∈ acceptedOutcomes c n.peerRegistry r, t = SharedState.stubTask o
  newResults : ∀ t ∈ (applyStateSyncResponse c clock n r).shared.results.rows,
    t ∈ n.shared.results.rows ∨
      ∃ o ∈ acceptedOutcomes c n.peerRegistry r, t = SharedState.stubResult o
  verifications : (applyStateSyncResponse c clock n r).shared.verifications =
    n.shared.verifications
  kept : SharedState.Keeps n.shared (applyStateSyncResponse c clock n r).shared
  twice : ∀ later, (applyStateSyncResponse c later (applyStateSyncResponse c clock n r) r).shared =
    (applyStateSyncResponse c clock n r).shared

theorem syncEnvelopeOk_iff {c : Ctx W} {reg : PeerRegistry} {r : StateSyncResponse W} :
    syncEnvelopeOk c reg r = true ↔
      ∀ key, reg.verifyingKey r.responder = some key → r.verifySignature c.x key = .ok () := by
  unfold syncEnvelopeOk
  cases hk : reg.verifyingKey r.responder with
  | none => simp
  | some key =>
    cases hs : r.verifySignature c.x key with
    | ok u => simp [hs, Except.isOk, Except.toBool]
    | error e => simp [hs, Except.isOk, Except.toBool]

/-- The store is as before, or grown by the accepted outcomes. -/
theorem grown_applyStateSyncResponse (c : Ctx W) (clock : Clock) (n : Node W)
    (r : StateSyncResponse W) :
    ∃ os : List (JobOutcome W), (∀ o ∈ os, o ∈ acceptedOutcomes c n.peerRegistry r) ∧
      SharedState.Grown n.shared (applyStateSyncResponse c clock n r).shared
        (os.map SharedState.stubTask) (os.map SharedState.stubResult) []
        (os.map fun o => SharedState.outcomeRow c.x o (Clock.unixI64 clock)) := by
  rw [applyStateSyncResponse_shared]
  split
  · exact ⟨_, fun _ h => h, grown_syncCalls ..⟩
  · exact ⟨[], by simp, ⟨rfl, rfl, rfl, rfl⟩⟩

/-- A second application finds every row of the first. -/
theorem applyStateSyncResponse_twice (c : Ctx W) (clock later : Clock) (n : Node W)
    (r : StateSyncResponse W) :
    (applyStateSyncResponse c later (applyStateSyncResponse c clock n r) r).shared =
      (applyStateSyncResponse c clock n r).shared := by
  rw [applyStateSyncResponse_shared, applyStateSyncResponse_peerRegistry]
  split
  · next henv =>
    apply run_syncCalls_of_contains
    rw [applyStateSyncResponse_shared, if_pos henv]
    obtain ⟨ht, hr, -, ho⟩ := grown_syncCalls c.x clock (acceptedOutcomes c n.peerRegistry r) n.shared
    intro o hmem
    rw [ht, hr, ho, Keyed.contains_insertAll, Keyed.contains_insertAll, Keyed.contains_insertAll]
    exact ⟨Or.inr ⟨_, List.mem_map_of_mem hmem, rfl⟩, Or.inr ⟨_, List.mem_map_of_mem hmem, rfl⟩,
      Or.inr ⟨_, List.mem_map_of_mem hmem, rfl⟩⟩
  · rfl

theorem syncSafe (c : Ctx W) (clock : Clock) (n : Node W) (r : StateSyncResponse W) :
    SyncSafe c clock n r where
  badEnvelope := by
    rintro ⟨key, hkey, hbad⟩
    rw [applyStateSyncResponse_shared, if_neg]
    exact fun henv => hbad (syncEnvelopeOk_iff.mp henv key hkey)
  outcomes := by
    intro henv row
    rw [applyStateSyncResponse_shared, if_pos (syncEnvelopeOk_iff.mpr henv),
      (grown_syncCalls ..).outcomes, Keyed.mem_insertAll, List.find?_map, Option.map_eq_some_iff]
    refine or_congr_right (and_congr_right fun _ => exists_congr fun o => ?_)
    exact and_congr_right fun _ => eq_comm
  newTasks := by
    intro t ht
    obtain ⟨os, hos, hg⟩ := grown_applyStateSyncResponse c clock n r
    rw [hg.tasks] at ht
    rcases Keyed.mem_of_mem_insertAll ht with ht | ht
    · exact Or.inl ht
    · obtain ⟨o, ho, rfl⟩ := List.mem_map.mp ht
      exact Or.inr ⟨o, hos o ho, rfl⟩
  newResults := by
    intro t ht
    obtain ⟨os, hos, hg⟩ := grown_applyStateSyncResponse c clock n r
    rw [hg.results] at ht
    rcases Keyed.mem_of_mem_insertAll ht with ht | ht
    · exact Or.inl ht
    · obtain ⟨o, ho, rfl⟩ := List.mem_map.mp ht
      exact Or.inr ⟨o, hos o ho, rfl⟩
  verifications := by
    obtain ⟨os, -, hg⟩ := grown_applyStateSyncResponse c clock n r
    exact hg.verifications
  kept := by
    obtain ⟨os, -, hg⟩ := grown_applyStateSyncResponse c clock n r
    exact hg.keeps
  twice later := applyStateSyncResponse_twice c clock later n r

/-- **State-sync safety.**  In every sequence of responses, from any store and any
key directory, each response leaves the store alone or adds exactly the rows of
its individually authenticated outcomes. -/
theorem stateSync_safe (c : Ctx W) (n : Node W) (rs : List (Clock × StateSyncResponse W)) :
    Guarded (fun n a => applyStateSyncResponse c a.1 n a.2) (fun n a => SyncSafe c a.1 n a.2)
      n rs := by
  induction rs generalizing n with
  | nil => exact trivial
  | cons a rs ih => exact ⟨syncSafe c a.1 n a.2, ih _⟩

/-! ## The responder -/

def stateSyncHardCeiling : UInt32 := 500
def stateSyncMaxRequestsPerWindow : UInt32 := 6

/-- The parts of the node a request reads, and the buckets it counts in. -/
structure Responder where
  peerRegistry : PeerRegistry
  shared : SharedState
  stateSyncRateLimit : PeerId → RateBucket

/-- `build_state_sync_response`: authenticate, rate-limit, clamp, then query one
row more than asked for to set `truncated`. -/
def buildStateSyncResponse (c : Ctx W) (clock : Clock) (r : Responder) (request : StateSyncRequest) :
    StateSyncResponse W × Responder :=
  let now := unixNow clock.wall
  let answer := fun outcomes truncated =>
    StateSyncResponse.newSigned c.x outcomes truncated c.localPeerId now c.signingKey
  match r.peerRegistry.verifyingKey request.requester with
  | none => (answer [] false, r)
  | some key =>
    match request.verifySignature c.x key with
    | .error _ => (answer [] false, r)
    | .ok () =>
      let (exceeded, bucket) := (r.stateSyncRateLimit request.requester).recordWithCap now
        stateSyncMaxRequestsPerWindow
      let r₁ := { r with stateSyncRateLimit := fun p =>
        if p = request.requester then bucket else r.stateSyncRateLimit p }
      let limit := min request.maxOutcomes.toNat stateSyncHardCeiling.toNat
      if exceeded then (answer [] false, r₁)
      else if limit = 0 then (answer [] false, r₁)
      else
        match r.shared.outcomesSince c.x request.sinceUnix (UInt64.ofNat (limit + 1)) with
        | .error _ => (answer [] false, r₁)
        | .ok outcomes => (answer (outcomes.take limit) (limit < outcomes.length), r₁)

/-- The answers to a list of requests, in order. -/
def answers (c : Ctx W) : Responder → List (Clock × StateSyncRequest) → List (StateSyncResponse W)
  | _, [] => []
  | r, q :: qs =>
    (buildStateSyncResponse c q.1 r q.2).1 :: answers c (buildStateSyncResponse c q.1 r q.2).2 qs

/-! ## What one answer holds -/

theorem outcomes_newSigned (x : Externals W) (os : List (JobOutcome W)) (b : Bool) (p : PeerId)
    (t : UInt64) (key : SigningKey) : (StateSyncResponse.newSigned x os b p t key).outcomes = os :=
  rfl

theorem buildStateSyncResponse_shared (c : Ctx W) (clock : Clock) (r : Responder)
    (q : StateSyncRequest) : (buildStateSyncResponse c clock r q).2.shared = r.shared := by
  unfold buildStateSyncResponse
  dsimp only
  repeat' split
  all_goals rfl

/-- Every outcome of an answer is the decoded body of one of the newest five
hundred rows of the asked window. -/
theorem mem_buildStateSyncResponse {c : Ctx W} {clock : Clock} {r : Responder}
    {q : StateSyncRequest} {o : JobOutcome W}
    (h : o ∈ (buildStateSyncResponse c clock r q).1.outcomes) :
    ∃ row ∈ (r.shared.outcomeRowsSince q.sinceUnix).take 500,
      c.x.outcomeCbor.decode row.outcomeCbor = some o := by
  unfold buildStateSyncResponse at h
  dsimp only at h
  split at h
  · cases h
  · split at h
    · cases h
    · split at h
      · cases h
      · split at h
        · cases h
        · split at h
          · cases h
          · next outcomes hok =>
            have hceil : stateSyncHardCeiling.toNat = 500 := rfl
            have hmap := SharedState.take_outcomesSince (by omega) hok
            have hin := List.mem_map_of_mem (f := some) h
            rw [outcomes_newSigned, ← hmap] at hin
            obtain ⟨row, hrow, hdec⟩ := List.mem_map.mp hin
            refine ⟨row, ?_, hdec⟩
            exact (List.take_subset_take_left _ (by omega)) hrow

/-! ## Paging -/

/-- One request of a requester: when it is answered and what it asks for. -/
structure Page where
  clock : Clock
  sinceUnix : UInt64
  maxOutcomes : UInt32

/-- The pages as signed requests. -/
def pageRequests (x : Externals W) (requester : PeerId) (key : SigningKey) (pages : List Page) :
    List (Clock × StateSyncRequest) :=
  pages.map fun p => (p.clock, StateSyncRequest.newSigned x p.sinceUnix p.maxOutcomes requester
    (unixNow p.clock.wall) key)

/-- Some sequence of requests gets the outcome out of the responder. -/
def Retrievable (c : Ctx W) (r : Responder) (requester : PeerId) (key : SigningKey)
    (o : JobOutcome W) : Prop :=
  ∃ pages, ∃ a ∈ answers c r (pageRequests c.x requester key pages), o ∈ a.outcomes

/-- The number of outcomes an answer puts before this row. -/
def newerOutcomes (s : SharedState) (row : OutcomeRow) : Nat :=
  s.outcomes.rows.countP fun r =>
    SharedState.outcomeOrder r < SharedState.outcomeOrder row

/-- What any answers hold is among the newest five hundred rows of the store. -/
theorem mem_answers {c : Ctx W} {r : Responder} {qs : List (Clock × StateSyncRequest)}
    {a : StateSyncResponse W} (ha : a ∈ answers c r qs) {o : JobOutcome W} (ho : o ∈ a.outcomes) :
    ∃ row ∈ r.shared.outcomes.rows, newerOutcomes r.shared row < 500 ∧
      c.x.outcomeCbor.decode row.outcomeCbor = some o := by
  induction qs generalizing r with
  | nil => cases ha
  | cons q qs ih =>
    rcases List.mem_cons.mp ha with rfl | ha
    · obtain ⟨row, hrow, hdec⟩ := mem_buildStateSyncResponse ho
      obtain ⟨⟨hmem, -⟩, hcount⟩ := SharedState.mem_take_outcomeRowsSince.mp hrow
      exact ⟨row, hmem, hcount, hdec⟩
    · have hshared := buildStateSyncResponse_shared c q.1 r q.2
      have htail := ih ha
      rw [hshared] at htail
      exact htail

/-- An expired window lets a request through. -/
theorem recordWithCap_expired {b : RateBucket} {now : UInt64}
    (h : b.windowStartedAt.toNat + 60 ≤ now.toNat) :
    (b.recordWithCap now stateSyncMaxRequestsPerWindow).1 = false := by
  have hwin : now.toNat - b.windowStartedAt.toNat ≥ rateLimitWindowMs / 1000 := by
    have : rateLimitWindowMs / 1000 = 60 := rfl
    omega
  simp only [RateBucket.recordWithCap, if_pos hwin]
  decide

theorem unixNow_fromSecs {n : Nat} (h : n < 2 ^ 64) : (unixNow (fromSecs n : Nat)).toNat = n := by
  have hel : elapsed (fromSecs n : Nat) 0 = fromSecs n := by
    rw [elapsed, durationSince, if_pos (Int.natCast_nonneg _), Int.sub_zero, Int.toNat_natCast]
    rfl
  rw [unixNow, hel, fromSecs, Nat.mul_div_cancel n (by decide)]
  exact UInt64.toNat_ofNat_of_lt h

/-- A signed request of a known requester within its quota is answered with the
first rows of its window. -/
theorem buildStateSyncResponse_ok {c : Ctx W} {clock : Clock} {r : Responder}
    {requester : PeerId} {key : VerifyingKey} {sk : SigningKey} {sinceUnix : UInt64}
    (hkey : r.peerRegistry.verifyingKey requester = some key)
    (hsign : ∀ bytes, verifyBytes c.x key bytes (c.x.sign sk bytes) = .ok ())
    (hquota : ((r.stateSyncRateLimit requester).recordWithCap (unixNow clock.wall)
      stateSyncMaxRequestsPerWindow).1 = false)
    {os : List (JobOutcome W)}
    (hok : r.shared.outcomesSince c.x sinceUnix (UInt64.ofNat 501) = .ok os) :
    (buildStateSyncResponse c clock r (StateSyncRequest.newSigned c.x sinceUnix
      stateSyncHardCeiling requester (unixNow clock.wall) sk)).1.outcomes = os.take 500 := by
  have hver : (StateSyncRequest.newSigned c.x sinceUnix stateSyncHardCeiling requester
      (unixNow clock.wall) sk).verifySignature c.x key = .ok () := hsign _
  -- the request carries the fields it was built from
  generalize hq : StateSyncRequest.newSigned c.x sinceUnix stateSyncHardCeiling requester
    (unixNow clock.wall) sk = q at hver
  have hreq : q.requester = requester := by rw [← hq]; rfl
  have hsince : q.sinceUnix = sinceUnix := by rw [← hq]; rfl
  have hmax : min q.maxOutcomes.toNat stateSyncHardCeiling.toNat = 500 := by rw [← hq]; rfl
  unfold buildStateSyncResponse
  simp only [hreq, hkey, hver, hquota, hmax, hsince, hok, Bool.false_eq_true, if_false]
  rfl

section Paging

variable {c : Ctx W} {calls : List (Call W)}
  (hround : ∀ call ∈ calls, ∀ o, call.Carries o →
    c.x.outcomeCbor.decode (c.x.outcomeCbor.encode o) = some o)
include hround

/-- An outcome with five hundred newer ones is in no answer, whatever is asked. -/
theorem newer_lt_of_answered {r : Responder}
    (hr : r.shared = run (SharedState.write c.x) .empty calls) {row : OutcomeRow}
    (hrow : row ∈ r.shared.outcomes.rows) {o : JobOutcome W}
    (hdec : c.x.outcomeCbor.decode row.outcomeCbor = some o)
    {qs : List (Clock × StateSyncRequest)} {a : StateSyncResponse W} (ha : a ∈ answers c r qs)
    (hoa : o ∈ a.outcomes) : newerOutcomes r.shared row < 500 := by
  obtain ⟨row', hrow', hcount, hdec'⟩ := mem_answers ha hoa
  obtain ⟨now, heq⟩ := SharedState.eq_outcomeRow_of_decode hround (hr ▸ hrow) hdec
  obtain ⟨now', heq'⟩ := SharedState.eq_outcomeRow_of_decode hround (hr ▸ hrow') hdec'
  have hsame : row' = row := r.shared.outcomes.eq_of_key_eq hrow' hrow (by rw [heq, heq']; rfl)
  rw [← hsame]
  exact hcount

/-- One request from its own second on gets an outcome with fewer than five
hundred newer ones. -/
theorem retrievable_of_newer_lt {r : Responder}
    (hr : r.shared = run (SharedState.write c.x) .empty calls) {requester : PeerId}
    {key : VerifyingKey} {sk : SigningKey}
    (hkey : r.peerRegistry.verifyingKey requester = some key)
    (hsign : ∀ bytes, verifyBytes c.x key bytes (c.x.sign sk bytes) = .ok ())
    (hwindow : (r.stateSyncRateLimit requester).windowStartedAt.toNat + 60 < 2 ^ 64)
    {row : OutcomeRow} (hrow : row ∈ r.shared.outcomes.rows) {o : JobOutcome W}
    (hdec : c.x.outcomeCbor.decode row.outcomeCbor = some o)
    (hcount : newerOutcomes r.shared row < 500) : Retrievable c r requester sk o := by
  obtain ⟨now, heq⟩ := SharedState.eq_outcomeRow_of_decode hround (hr ▸ hrow) hdec
  -- ask when the rate window has expired, from the second of the outcome on
  let secs := (r.stateSyncRateLimit requester).windowStartedAt.toNat + 60
  let clock : Clock := ⟨(fromSecs secs : Nat), 0⟩
  have hquota : ((r.stateSyncRateLimit requester).recordWithCap (unixNow clock.wall)
      stateSyncMaxRequestsPerWindow).1 = false :=
    recordWithCap_expired (by rw [unixNow_fromSecs hwindow])
  have hok := SharedState.outcomesSince_ok hround o.finalisedAt (UInt64.ofNat 501)
  rw [← hr] at hok
  have hfin : o.finalisedAt.toInt64.toInt ≤ row.finalisedAt.toInt := by
    rw [heq]
    exact le_refl _
  have htake : row ∈ (r.shared.outcomeRowsSince o.finalisedAt).take 500 :=
    SharedState.mem_take_outcomeRowsSince.mpr ⟨⟨hrow, hfin⟩, hcount⟩
  have hin := List.mem_map_of_mem (f := fun r : OutcomeRow => c.x.outcomeCbor.decode r.outcomeCbor)
    htake
  rw [SharedState.take_outcomesSince (by omega) hok, hdec] at hin
  obtain ⟨o', ho', hoo⟩ := List.mem_map.mp hin
  refine ⟨[⟨clock, o.finalisedAt, stateSyncHardCeiling⟩], _, List.mem_singleton.mpr rfl, ?_⟩
  rw [buildStateSyncResponse_ok hkey hsign hquota hok]
  exact Option.some.inj hoo ▸ ho'

/-- **Paging.**  Over a store filled by any writer calls, a known requester can
get an outcome by some sequence of requests exactly when fewer than five hundred
outcomes of the store come before it, newest first. -/
theorem outcome_retrievable_iff {r : Responder}
    (hr : r.shared = run (SharedState.write c.x) .empty calls) {requester : PeerId}
    {key : VerifyingKey} {sk : SigningKey}
    (hkey : r.peerRegistry.verifyingKey requester = some key)
    (hsign : ∀ bytes, verifyBytes c.x key bytes (c.x.sign sk bytes) = .ok ())
    (hwindow : (r.stateSyncRateLimit requester).windowStartedAt.toNat + 60 < 2 ^ 64)
    {row : OutcomeRow} (hrow : row ∈ r.shared.outcomes.rows) {o : JobOutcome W}
    (hdec : c.x.outcomeCbor.decode row.outcomeCbor = some o) :
    Retrievable c r requester sk o ↔ newerOutcomes r.shared row < 500 := by
  constructor
  · rintro ⟨pages, a, ha, hoa⟩
    exact newer_lt_of_answered hround hr hrow hdec ha hoa
  · intro hcount
    exact retrievable_of_newer_lt hround hr hkey hsign hwindow hrow hdec hcount

end Paging

/-! ### A store of one outcome more than an answer holds -/

/-- An outcome finalised at second `t`. -/
def outcomeAt (t : Nat) : JobOutcome ℚ :=
  outcomeOf (smallSpecHash false) (smallResultHash false) .indeterminate (UInt64.ofNat t) 9

/-- The codec that writes such an outcome as its second. -/
def secondCodec : Codec (JobOutcome ℚ) where
  encode o := u64LeBytes o.finalisedAt
  decode b := some (outcomeAt (b.foldr (fun d n => d.toNat + 256 * n) 0))

def pagedCtx : Ctx ℚ where
  x := { Externals.bare with outcomeCbor := secondCodec }
  localPeerId := peerOf 9
  signingKey := keyOf 9
  verifyingKey := (keyOf 9).verifyingKey

/-- The calls that store the outcomes of the first `n` seconds. -/
def pagedCalls (n : Nat) : List (Call ℚ) := syncCalls ⟨0, 0⟩ ((List.range n).map outcomeAt)

/-- A responder that knows peer 2 and holds these outcomes. -/
def pagedResponder (n : Nat) : Responder where
  peerRegistry := PeerRegistry.new.recordIdentity
    { peerId := peerOf 2, verifyingKey := (keyOf 2).verifyingKey, reachableAddrs := [],
      firstSeen := 0, lastSeen := 0, readiness := .ready }
  shared := run (SharedState.write pagedCtx.x) .empty (pagedCalls n)
  stateSyncRateLimit := fun _ => {}

def rowAt (t : Nat) : OutcomeRow := SharedState.outcomeRow pagedCtx.x (outcomeAt t) 0

theorem verifyBytes_keyOf (n : UInt8) (bytes : Bytes) :
    verifyBytes pagedCtx.x (keyOf n).verifyingKey bytes (pagedCtx.x.sign (keyOf n) bytes) =
      .ok () := by
  have hlen : (pagedCtx.x.sign (keyOf n) bytes).length = 64 := by
    simp [pagedCtx, Externals.bare, Externals.ofTables, (keyOf n).secret.size]
  have hver : pagedCtx.x.verify (keyOf n).verifyingKey bytes (pagedCtx.x.sign (keyOf n) bytes) =
      .ok () := if_pos rfl
  simp only [verifyBytes, hlen, hver, ne_eq, not_true_eq_false, if_false]

theorem secondCodec_round (t : Nat) :
    secondCodec.decode (secondCodec.encode (outcomeAt t)) = some (outcomeAt t) := by
  have hspelled := foldr_u64LeBytes (outcomeAt t).finalisedAt
  have hback : outcomeAt (outcomeAt t).finalisedAt.toNat = outcomeAt t := by
    rw [outcomeAt, outcomeOf, UInt64.ofNat_toNat]
    rfl
  simp only [secondCodec, hspelled, hback]

theorem pagedCalls_round (n : Nat) : ∀ call ∈ pagedCalls n, ∀ o, call.Carries o →
    pagedCtx.x.outcomeCbor.decode (pagedCtx.x.outcomeCbor.encode o) = some o := by
  intro call hcall o hcar
  simp only [pagedCalls, syncCalls, List.mem_map, List.mem_range] at hcall
  obtain ⟨o', ⟨t, -, rfl⟩, rfl⟩ := hcall
  rw [← show outcomeAt t = o from hcar]
  exact secondCodec_round t

theorem pagedResponder_shared (n : Nat) : (pagedResponder n).shared =
    run (SharedState.write pagedCtx.x) .empty (pagedCalls n) := rfl

/-- The number a hash spells, lowest byte first. -/
def spelledNat (h : ContentHash) : Nat := h.asBytes.bytes.foldr (fun d n => d.toNat + 256 * n) 0

/-- The hash of a row spells its second. -/
theorem spelledNat_rowAt {t : Nat} (ht : t < 2 ^ 64) : spelledNat (rowAt t).outcomeHash = t := by
  have hbytes : (rowAt t).outcomeHash.asBytes.bytes =
      u64LeBytes (UInt64.ofNat t) ++ List.replicate 24 0 := rfl
  have hzeros : (List.replicate 24 (0 : UInt8)).foldr (fun d n => d.toNat + 256 * n) 0 = 0 := rfl
  rw [spelledNat, hbytes, List.foldr_append, hzeros, foldr_u64LeBytes, UInt64.toNat_ofNat']
  omega

/-- Different seconds have different hashes, so that all of them are stored. -/
theorem pagedResponder_rows {n : Nat} (hn : n < 2 ^ 64) :
    (pagedResponder n).shared.outcomes.rows = (List.range n).map rowAt := by
  have hgrown := (grown_syncCalls pagedCtx.x ⟨0, 0⟩ ((List.range n).map outcomeAt) .empty).outcomes
  have houtcomes : (pagedResponder n).shared.outcomes =
      Keyed.empty.insertAll ((List.range n).map rowAt) := by
    rw [List.map_map] at hgrown
    exact hgrown
  have hnodup : (((List.range n).map rowAt).map OutcomeRow.outcomeHash).Nodup := by
    rw [List.map_map]
    refine List.Nodup.map_on (fun t ht u hu heq => ?_) List.nodup_range
    have ht := List.mem_range.mp ht
    have hu := List.mem_range.mp hu
    have hspelled : spelledNat (rowAt t).outcomeHash = spelledNat (rowAt u).outcomeHash :=
      congrArg spelledNat heq
    rwa [spelledNat_rowAt (by omega), spelledNat_rowAt (by omega)] at hspelled
  rw [houtcomes]
  exact Keyed.rows_insertAll_of_nodup hnodup

/-- The oldest of 501 outcomes is in no answer to a known requester. -/
theorem oldest_outcome_unreachable :
    (pagedResponder 501).peerRegistry.verifyingKey (peerOf 2) = some (keyOf 2).verifyingKey ∧
    rowAt 0 ∈ (pagedResponder 501).shared.outcomes.rows ∧
    pagedCtx.x.outcomeCbor.decode (rowAt 0).outcomeCbor = some (outcomeAt 0) ∧
    ¬ Retrievable pagedCtx (pagedResponder 501) (peerOf 2) (keyOf 2) (outcomeAt 0) := by
  have hrows := pagedResponder_rows (n := 501) (by decide)
  have hrow : rowAt 0 ∈ (pagedResponder 501).shared.outcomes.rows := by
    rw [hrows]
    exact List.mem_map_of_mem (List.mem_range.mpr (by decide))
  have hdec : pagedCtx.x.outcomeCbor.decode (rowAt 0).outcomeCbor = some (outcomeAt 0) := by
    decide +kernel
  refine ⟨by decide +kernel, hrow, hdec, ?_⟩
  rintro ⟨pages, a, ha, hoa⟩
  have hlt := newer_lt_of_answered (pagedCalls_round 501) (pagedResponder_shared 501)
    hrow hdec ha hoa
  have hcount : ((List.range 501).map rowAt).countP (fun r =>
      SharedState.outcomeOrder r < SharedState.outcomeOrder (rowAt 0)) = 500 := by
    decide +kernel
  rw [newerOutcomes, hrows, hcount] at hlt
  exact absurd hlt (by decide)

/-- The second oldest of them has 499 newer ones, and is the last row of a full answer. -/
theorem second_oldest_retrievable :
    Retrievable pagedCtx (pagedResponder 501) (peerOf 2) (keyOf 2) (outcomeAt 1) := by
  have hrows := pagedResponder_rows (n := 501) (by decide)
  have hrow : rowAt 1 ∈ (pagedResponder 501).shared.outcomes.rows := by
    rw [hrows]
    exact List.mem_map_of_mem (List.mem_range.mpr (by decide))
  have hcount : newerOutcomes (pagedResponder 501).shared (rowAt 1) = 499 := by
    rw [newerOutcomes, hrows]
    decide +kernel
  have hknown : (pagedResponder 501).peerRegistry.verifyingKey (peerOf 2) =
      some (keyOf 2).verifyingKey := by
    decide +kernel
  refine (outcome_retrievable_iff (pagedCalls_round 501) (pagedResponder_shared 501) hknown
    (verifyBytes_keyOf 2) (by decide) hrow (by decide +kernel)).mpr ?_
  rw [hcount]
  decide

end Parseh.Miner
