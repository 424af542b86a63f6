import Mathlib.Data.List.Induction
import Mathlib.Data.List.Infix
import Parseh.Miner.WireVersion

/-!
# The quota of a state-sync requester

A node answers at most six requests of one requester in a window of sixty
seconds.  It counts a request under the peer that signed it, whatever connection
brought it, and never looks at `signed_at`; so a copy that another peer sends
counts like the original.

* `limits_run`: the bucket of a requester counts the requests it signed in the
  current window (`windowOf`), whoever delivered them;
* `overCap_iff`: the seventh of them is refused;
* `quota_kept_iff`: a requester that stays within its quota is never refused
  exactly when the copies others deliver fit into what it leaves of it.
-/

namespace Parseh.Miner

open Parseh.Lib Parseh.Wire Parseh.Core Parseh.Shared

variable {W : Type}

/-- A request as it arrives: over the connection of `peer`, with the directory and
the store of that moment. -/
structure SyncArrival where
  clock : Clock
  peer : PeerId
  peerRegistry : PeerRegistry
  shared : SharedState
  request : StateSyncRequest

namespace SyncArrival

def responder (a : SyncArrival) (limits : PeerId → RateBucket) : Responder :=
  ⟨a.peerRegistry, a.shared, limits⟩

/-- The second of arrival. -/
def secs (a : SyncArrival) : UInt64 := unixNow a.clock.wall

/-- A validly signed request of `requester`. -/
def signedBy (c : Ctx W) (requester : PeerId) (a : SyncArrival) : Bool :=
  a.request.requester = requester &&
    (SignedMessage.syncRequest a.request : SignedMessage W).authentic c.x a.peerRegistry

/-- The buckets after the arrival was handled. -/
def count (c : Ctx W) (limits : PeerId → RateBucket) (a : SyncArrival) : PeerId → RateBucket :=
  (buildStateSyncResponse c a.clock (a.responder limits) a.request).2.stateSyncRateLimit

/-- Is the request refused as rate-limited? -/
def overCap (c : Ctx W) (limits : PeerId → RateBucket) (a : SyncArrival) : Bool :=
  a.signedBy c a.request.requester &&
    ((limits a.request.requester).recordWithCap a.secs stateSyncMaxRequestsPerWindow).1

end SyncArrival

/-! ## Windows -/

/-- The validly signed requests of one requester since its window started. -/
structure SyncWindow where
  startedAt : UInt64 := 0
  arrivals : List SyncArrival := []

namespace SyncWindow

/-- A request after sixty seconds or more starts the next window. -/
def add (w : SyncWindow) (a : SyncArrival) : SyncWindow :=
  if a.secs.toNat - w.startedAt.toNat ≥ rateLimitWindowMs / 1000 then ⟨a.secs, [a]⟩
  else ⟨w.startedAt, w.arrivals ++ [a]⟩

/-- How many of them came over the connection of `p`. -/
def deliveredBy (w : SyncWindow) (p : PeerId) : Nat := w.arrivals.countP fun a => a.peer = p

/-- How many of them came over other connections. -/
def deliveredByOthers (w : SyncWindow) (p : PeerId) : Nat := w.arrivals.countP fun a => a.peer ≠ p

/-- The bucket that has counted the window. -/
def bucket (w : SyncWindow) : RateBucket where
  windowStartedAt := w.startedAt
  count := UInt32.ofNat (min w.arrivals.length (2 ^ 32 - 1))

theorem delivered_add (w : SyncWindow) (p : PeerId) :
    w.deliveredBy p + w.deliveredByOthers p = w.arrivals.length := by
  unfold deliveredBy deliveredByOthers
  have h := List.length_eq_countP_add_countP (fun a : SyncArrival => decide (a.peer = p))
    (l := w.arrivals)
  simpa using h.symm

theorem toNat_count (w : SyncWindow) :
    w.bucket.count.toNat = min w.arrivals.length (2 ^ 32 - 1) := by
  have hsize : UInt32.size = 2 ^ 32 := rfl
  exact UInt32.toNat_ofNat_of_lt (by omega)

/-- Counting one more request. -/
theorem recordWithCap_bucket (w : SyncWindow) (a : SyncArrival) (cap : UInt32) :
    w.bucket.recordWithCap a.secs cap =
      (decide ((w.add a).bucket.count > cap), (w.add a).bucket) := by
  unfold RateBucket.recordWithCap add
  have hstart : w.bucket.windowStartedAt = w.startedAt := rfl
  rw [hstart]
  split
  · rfl
  · have hcount : UInt32.ofNat (min (w.bucket.count.toNat + 1) (2 ^ 32 - 1)) =
        UInt32.ofNat (min (w.arrivals ++ [a]).length (2 ^ 32 - 1)) := by
      rw [toNat_count, List.length_append, List.length_singleton]
      congr 1
      omega
    simp only [hcount]
    rfl

end SyncWindow

/-- The current window of a requester after the arrivals `as`. -/
def windowOf (c : Ctx W) (requester : PeerId) (as : List SyncArrival) : SyncWindow :=
  run (fun w a => if a.signedBy c requester then w.add a else w) {} as

theorem windowOf_append (c : Ctx W) (requester : PeerId) (as : List SyncArrival)
    (a : SyncArrival) :
    windowOf c requester (as ++ [a]) =
      if a.signedBy c requester then (windowOf c requester as).add a
      else windowOf c requester as := by
  rw [windowOf, run_append]
  rfl

/-! ## The buckets count the windows -/

theorem signedBy_iff {c : Ctx W} {p : PeerId} {a : SyncArrival} :
    a.signedBy c p = true ↔ a.request.requester = p ∧
      ∃ key, a.peerRegistry.verifyingKey p = some key ∧
        a.request.verifySignature c.x key = .ok () := by
  unfold SyncArrival.signedBy SignedMessage.authentic
  have hsigner : (SignedMessage.syncRequest a.request : SignedMessage W).signer =
      a.request.requester := rfl
  rw [Bool.and_eq_true, decide_eq_true_iff, hsigner]
  refine and_congr_right fun hp => ?_
  rw [hp]
  cases hk : a.peerRegistry.verifyingKey p with
  | none => simp
  | some key =>
    have hver : (SignedMessage.syncRequest a.request : SignedMessage W).verifySignature c.x key =
        a.request.verifySignature c.x key := rfl
    simp [hver, SignedMessage.isOk_iff]

/-- Behind the limiter no branch touches the buckets again. -/
theorem limits_of_valid {c : Ctx W} {r : Responder} {q : StateSyncRequest}
    {key : VerifyingKey} (hk : r.peerRegistry.verifyingKey q.requester = some key)
    (hs : q.verifySignature c.x key = .ok ()) (clock : Clock) :
    (buildStateSyncResponse c clock r q).2.stateSyncRateLimit = fun p =>
      if p = q.requester then
        ((r.stateSyncRateLimit q.requester).recordWithCap (unixNow clock.wall)
          stateSyncMaxRequestsPerWindow).2
      else r.stateSyncRateLimit p := by
  simp only [buildStateSyncResponse, hk, hs]
  split
  · rfl
  · split
    · rfl
    · split <;> rfl

theorem limits_of_invalid {c : Ctx W} {clock : Clock} {r : Responder} {q : StateSyncRequest}
    (h : ∀ key, r.peerRegistry.verifyingKey q.requester = some key →
      q.verifySignature c.x key ≠ .ok ()) :
    (buildStateSyncResponse c clock r q).2.stateSyncRateLimit = r.stateSyncRateLimit := by
  unfold buildStateSyncResponse
  split
  · rfl
  · next key hk =>
    split
    · rfl
    · next hs => exact absurd hs (h key hk)

/-- An arrival is counted for the peer that signed it, and for nobody else. -/
theorem count_apply (c : Ctx W) (limits : PeerId → RateBucket) (a : SyncArrival) (p : PeerId) :
    a.count c limits p =
      if a.signedBy c p then
        ((limits p).recordWithCap a.secs stateSyncMaxRequestsPerWindow).2
      else limits p := by
  by_cases hval : a.signedBy c a.request.requester = true
  · obtain ⟨-, key, hk, hs⟩ := signedBy_iff.mp hval
    have hlimits := congrFun (limits_of_valid (r := a.responder limits) hk hs a.clock) p
    refine hlimits.trans ?_
    by_cases hp : p = a.request.requester
    · subst hp
      rw [if_pos rfl, if_pos hval]
      rfl
    · rw [if_neg hp, if_neg fun h => hp (signedBy_iff.mp h).1.symm]
      rfl
  · have hinv : ∀ key, a.peerRegistry.verifyingKey a.request.requester = some key →
        a.request.verifySignature c.x key ≠ .ok () :=
      fun key hk hs => hval (signedBy_iff.mpr ⟨rfl, key, hk, hs⟩)
    rw [SyncArrival.count, limits_of_invalid hinv, if_neg]
    · rfl
    · intro h
      have hp := (signedBy_iff.mp h).1
      exact hval (hp ▸ h)

/-- The buckets a node starts with. -/
def noLimits : PeerId → RateBucket := fun _ => {}

/-- **The bucket of a requester** counts its window. -/
theorem limits_run (c : Ctx W) (requester : PeerId) (as : List SyncArrival) :
    run (SyncArrival.count c) noLimits as requester = (windowOf c requester as).bucket := by
  induction as using List.reverseRecOn with
  | nil => rfl
  | append_singleton as a ih =>
    rw [run_append, run_cons, run_nil, count_apply, ih, windowOf_append]
    split
    · rw [SyncWindow.recordWithCap_bucket]
    · rfl

/-- A validly signed request is refused when it is the seventh or a later one of
its window. -/
theorem overCap_iff {c : Ctx W} {requester : PeerId} {a : SyncArrival}
    (h : a.signedBy c requester = true) (as : List SyncArrival) :
    a.overCap c (run (SyncArrival.count c) noLimits as) = true ↔
      6 < (windowOf c requester (as ++ [a])).arrivals.length := by
  have hp := (signedBy_iff.mp h).1
  subst hp
  rw [SyncArrival.overCap, h, Bool.true_and, limits_run, SyncWindow.recordWithCap_bucket,
    windowOf_append, if_pos h, decide_eq_true_iff, gt_iff_lt, UInt32.lt_iff_toNat_lt,
    SyncWindow.toNat_count]
  have hcap : stateSyncMaxRequestsPerWindow.toNat = 6 := rfl
  omega

/-- A refused request is answered with nothing. -/
theorem outcomes_of_overCap {c : Ctx W} {limits : PeerId → RateBucket} {a : SyncArrival}
    (h : a.overCap c limits = true) :
    (buildStateSyncResponse c a.clock (a.responder limits) a.request).1.outcomes = [] := by
  obtain ⟨hval, hcap⟩ := Bool.and_eq_true_iff.mp h
  obtain ⟨-, key, hk, hs⟩ := signedBy_iff.mp hval
  have hk : (a.responder limits).peerRegistry.verifyingKey a.request.requester = some key := hk
  have hcap : (((a.responder limits).stateSyncRateLimit a.request.requester).recordWithCap
      (unixNow a.clock.wall) stateSyncMaxRequestsPerWindow).1 = true := hcap
  simp only [buildStateSyncResponse, hk, hs, hcap, if_true]
  rfl

/-! ## Whose quota is it? -/

/-- A valid request of `requester` over its own connection. -/
def OwnRequest (c : Ctx W) (requester : PeerId) (a : SyncArrival) : Prop :=
  a.peer = requester ∧ a.signedBy c requester = true

instance (c : Ctx W) (requester : PeerId) (a : SyncArrival) : Decidable (OwnRequest c requester a) :=
  inferInstanceAs (Decidable (_ ∧ _))

/-- The requester's own connection delivers at most six of its valid requests in
each window. -/
def WithinQuota (c : Ctx W) (requester : PeerId) (as : List SyncArrival) : Prop :=
  ∀ pre, pre <+: as → (windowOf c requester pre).deliveredBy requester ≤ 6

/-- At every request of its own, what others have delivered of the requester's
valid requests in the window fits into what its own leave of the quota. -/
def OthersFit (c : Ctx W) (requester : PeerId) (as : List SyncArrival) : Prop :=
  ∀ pre a, pre ++ [a] <+: as → OwnRequest c requester a →
    (windowOf c requester (pre ++ [a])).deliveredByOthers requester ≤
      6 - (windowOf c requester (pre ++ [a])).deliveredBy requester

/-- **Quota of a requester.**  Take any arrivals, over any connections, in which
the requester's own connection stays within the quota.  None of its own valid
requests is refused as rate-limited if and only if the valid requests that others
deliver in its name fit into the rest of the quota. -/
theorem quota_kept_iff (c : Ctx W) (requester : PeerId) (as : List SyncArrival)
    (hquota : WithinQuota c requester as) :
    Guarded (SyncArrival.count c)
        (fun limits a => OwnRequest c requester a → a.overCap c limits = false) noLimits as ↔
      OthersFit c requester as := by
  rw [guarded_iff_forall]
  refine forall_congr' fun pre => forall_congr' fun a => forall_congr' fun hpre =>
    forall_congr' fun hown => ?_
  have hq := hquota (pre ++ [a]) hpre
  have hsum := (windowOf c requester (pre ++ [a])).delivered_add requester
  rw [← Bool.not_eq_true, overCap_iff hown.2]
  omega

/-- A request that peer 5 has signed, brought by `peer` at second `t`. -/
def smallArrival (peer : UInt8) (t : Nat) : SyncArrival where
  clock := ⟨fromSecs t, fromSecs t⟩
  peer := peerOf peer
  peerRegistry := (PeerRegistry.new.upsert Externals.bare (adOf 5)).2
  shared := .empty
  request := { wireVersion := wireVersion, sinceUnix := 0, maxOutcomes := 10,
               requester := peerOf 5, signedAt := 100, signature := List.replicate 64 5 }

/-- Peer 5 asks at second 100, peer 6 sends six copies of that request, and peer 5
asks again at second 120. -/
def copiedArrivals : List SyncArrival :=
  smallArrival 5 100 :: (List.replicate 6 (smallArrival 6 101) ++ [smallArrival 5 120])

theorem copies_spend_quota :
    WithinQuota (smallCtx .bare) (peerOf 5) copiedArrivals ∧
    ¬ Guarded (SyncArrival.count (smallCtx .bare))
      (fun limits a => OwnRequest (smallCtx .bare) (peerOf 5) a →
        a.overCap (smallCtx .bare) limits = false) noLimits copiedArrivals := by
  have hquota : ∀ pre ∈ copiedArrivals.inits,
      (windowOf (smallCtx .bare) (peerOf 5) pre).deliveredBy (peerOf 5) ≤ 6 := by decide +kernel
  exact ⟨fun pre hpre => hquota pre ((List.mem_inits _ _).mpr hpre), by decide +kernel⟩

/-- Two requests and a copy of the first are all answered. -/
theorem one_copy_fits :
    Guarded (SyncArrival.count (smallCtx .bare))
      (fun limits a => OwnRequest (smallCtx .bare) (peerOf 5) a →
        a.overCap (smallCtx .bare) limits = false) noLimits
      [smallArrival 5 100, smallArrival 6 101, smallArrival 5 120] := by
  have hquota : ∀ pre ∈ [smallArrival 5 100, smallArrival 6 101, smallArrival 5 120].inits,
      (windowOf (smallCtx .bare) (peerOf 5) pre).deliveredBy (peerOf 5) ≤ 6 := by decide +kernel
  have hfit : ∀ pre ∈ [smallArrival 5 100, smallArrival 6 101, smallArrival 5 120].inits,
      (windowOf (smallCtx .bare) (peerOf 5) pre).deliveredByOthers (peerOf 5) ≤
        6 - (windowOf (smallCtx .bare) (peerOf 5) pre).deliveredBy (peerOf 5) := by decide +kernel
  exact (quota_kept_iff (smallCtx .bare) (peerOf 5) _
    fun pre hpre => hquota pre ((List.mem_inits _ _).mpr hpre)).mpr
      fun pre a hpre _ => hfit _ ((List.mem_inits _ _).mpr hpre)

end Parseh.Miner
