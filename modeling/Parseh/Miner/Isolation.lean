import Mathlib.Algebra.Group.Int.Defs
import Mathlib.Algebra.Group.Nat.Defs
import Mathlib.Data.List.Perm.Subperm
import Parseh.Lib.Run

/-!
# Isolation windows (`parseh-miner`, `main.rs`)

`IsolationTracker` counts the live connections and remembers since when there has
been none.  A `History` is what the swarm reports from start-up on: connections
open and close, several to a peer, at times that do not decrease.

* `tracker_follows`: after any number of events the tracker counts the live
  connections, and it has a time exactly when there are none, that of the event
  after which there were none;
* `IdleInterval.left_unique` and `IdleInterval.right_unique`: no two maximal
  intervals without connections share an end;
* `isolation_exact`: a connection is reported exactly when it ends such an
  interval of at least thirty seconds, with its length.
-/

namespace Parseh.Miner

open Parseh.Lib

def stateSyncIsolationThresholdSecs : UInt64 := 30

structure IsolationTracker where
  /-- The number of live connections, over all peers. -/
  connected : UInt32
  zeroSince : Option UInt64

namespace IsolationTracker

/-- `new` at the second `now`. -/
def new (now : UInt64) : IsolationTracker := ⟨0, some now⟩

/-- `on_connection_established`: the gap that calls for a catch-up, if any. -/
def onConnectionEstablished (t : IsolationTracker) (now : UInt64) :
    Option UInt64 × IsolationTracker :=
  let wasIsolatedFor := t.zeroSince.map fun since => UInt64.ofNat (now.toNat - since.toNat)
  let t' : IsolationTracker :=
    ⟨UInt32.ofNat (min (t.connected.toNat + 1) (2 ^ 32 - 1)), none⟩
  match wasIsolatedFor with
  | some gap => (if stateSyncIsolationThresholdSecs ≤ gap then some gap else none, t')
  | none => (none, t')

/-- `on_connection_closed`. -/
def onConnectionClosed (t : IsolationTracker) (now : UInt64) : IsolationTracker :=
  let connected := UInt32.ofNat (t.connected.toNat - 1)
  if connected = 0 ∧ t.zeroSince.isNone then ⟨connected, some now⟩
  else ⟨connected, t.zeroSince⟩

end IsolationTracker

/-! ## Histories -/

inductive ConnectionChange
  | established | closed
  deriving DecidableEq

/-- `SwarmEvent::ConnectionEstablished` or `ConnectionClosed`, with the second it is
handled at. -/
structure ConnectionEvent (C : Type) where
  change : ConnectionChange
  connection : C
  now : UInt64

variable {C : Type}

/-- What the tracker returns for an event, and its next state. -/
def IsolationTracker.handle (t : IsolationTracker) (e : ConnectionEvent C) :
    Option UInt64 × IsolationTracker :=
  match e.change with
  | .established => t.onConnectionEstablished e.now
  | .closed => (none, t.onConnectionClosed e.now)

variable [DecidableEq C]

/-- The live connections after an event. -/
def liveStep (live : List C) (e : ConnectionEvent C) : List C :=
  match e.change with
  | .established => e.connection :: live
  | .closed => live.erase e.connection

/-- The live connections after the first `k` events. -/
def liveAt (events : List (ConnectionEvent C)) (k : Nat) : List C :=
  run liveStep [] (events.take k)

/-- A run of the node from start-up: times do not decrease, a connection is closed
only while it is live, and fewer than `2^32` are live at once. -/
structure History (C : Type) [DecidableEq C] where
  start : UInt64
  events : List (ConnectionEvent C)
  timed : (start :: events.map ConnectionEvent.now).Pairwise (· ≤ ·)
  matched : ∀ k e, events[k]? = some e → e.change = .closed → e.connection ∈ liveAt events k
  bounded : ∀ k, (liveAt events k).length < 2 ^ 32

namespace History

variable (h : History C)

/-- The tracker after the first `k` events. -/
def trackerAt (k : Nat) : IsolationTracker :=
  run (fun t e => (t.handle e).2) (IsolationTracker.new h.start) (h.events.take k)

/-- What the tracker returns for the event `j`. -/
def reportAt (j : Nat) : Option UInt64 :=
  match h.events[j]? with
  | some e => ((h.trackerAt j).handle e).1
  | none => none

/-- When the first `i` events were handled: start-up, or the last of them. -/
def timeOf (i : Nat) : UInt64 :=
  match i with
  | 0 => h.start
  | i + 1 => ((h.events[i]?).map ConnectionEvent.now).getD h.start

/-- No connection is live after the first `i` events and until the event `j`, the
event `i - 1` closed the last one unless `i` is start-up, and the event `j` opens
one. -/
structure IdleInterval (i j : Nat) : Prop where
  le : i ≤ j
  lt : j < h.events.length
  idle : ∀ k, i ≤ k → k ≤ j → liveAt h.events k = []
  left : i = 0 ∨ liveAt h.events (i - 1) ≠ []
  right : liveAt h.events (j + 1) ≠ []

variable {h}

/-- An interval has one beginning. -/
theorem IdleInterval.left_unique {i i' j : Nat} (hi : h.IdleInterval i j)
    (hi' : h.IdleInterval i' j) : i = i' := by
  have hle : ∀ a b : Nat, h.IdleInterval a j → h.IdleInterval b j → b ≤ a := by
    intro a b ha hb
    by_contra hlt
    rcases hb.left with hzero | hlive
    · omega
    · exact hlive (ha.idle (b - 1) (by omega) (by have := hb.le; omega))
  exact Nat.le_antisymm (hle i' i hi' hi) (hle i i' hi hi')

/-- An interval has one end. -/
theorem IdleInterval.right_unique {i j j' : Nat} (hj : h.IdleInterval i j)
    (hj' : h.IdleInterval i j') : j = j' := by
  have hle : ∀ a b : Nat, h.IdleInterval i a → h.IdleInterval i b → b ≤ a := by
    intro a b ha hb
    by_contra hlt
    exact ha.right (hb.idle (a + 1) (by have := ha.le; omega) (by omega))
  exact Nat.le_antisymm (hle j' j hj' hj) (hle j j' hj hj')

/-! ## The tracker follows the history -/

theorem liveAt_succ {events : List (ConnectionEvent C)} {k : Nat} {e : ConnectionEvent C}
    (he : events[k]? = some e) : liveAt events (k + 1) = liveStep (liveAt events k) e := by
  rw [liveAt, List.take_add_one, he, Option.toList_some, run_append]
  rfl

theorem trackerAt_succ {k : Nat} {e : ConnectionEvent C} (he : h.events[k]? = some e) :
    h.trackerAt (k + 1) = ((h.trackerAt k).handle e).2 := by
  rw [trackerAt, List.take_add_one, he, Option.toList_some, run_append]
  rfl

variable (h) in
/-- What the tracker knows after the first `k` events. -/
structure Follows (k : Nat) : Prop where
  count : (h.trackerAt k).connected.toNat = (liveAt h.events k).length
  live : liveAt h.events k ≠ [] → (h.trackerAt k).zeroSince = none
  idle : liveAt h.events k = [] → ∃ i ≤ k, (∀ k', i ≤ k' → k' ≤ k → liveAt h.events k' = []) ∧
    (i = 0 ∨ liveAt h.events (i - 1) ≠ []) ∧ (h.trackerAt k).zeroSince = some (h.timeOf i)

theorem follows_established {k : Nat} {e : ConnectionEvent C} (hk : h.Follows k)
    (he : h.events[k]? = some e) (hopen : e.change = .established) : h.Follows (k + 1) := by
  have hlive : liveAt h.events (k + 1) = e.connection :: liveAt h.events k := by
    simp only [liveAt_succ he, liveStep, hopen]
  have hzero : (h.trackerAt (k + 1)).zeroSince = none := by
    simp only [trackerAt_succ he, IsolationTracker.handle, hopen,
      IsolationTracker.onConnectionEstablished]
    split <;> rfl
  have hcount : (h.trackerAt (k + 1)).connected =
      UInt32.ofNat (min ((h.trackerAt k).connected.toNat + 1) (2 ^ 32 - 1)) := by
    simp only [trackerAt_succ he, IsolationTracker.handle, hopen,
      IsolationTracker.onConnectionEstablished]
    split <;> rfl
  refine ⟨?_, fun _ => hzero, fun hnil => ?_⟩
  · have hbound := h.bounded (k + 1)
    rw [hlive, List.length_cons] at hbound
    rw [hcount, hk.count, hlive, List.length_cons, UInt32.toNat_ofNat']
    omega
  · rw [hlive] at hnil
    cases hnil

/-- The counter after a close. -/
theorem toNat_connected_closed {k : Nat} {e : ConnectionEvent C} (hk : h.Follows k)
    (he : h.events[k]? = some e) (hclose : e.change = .closed) :
    (UInt32.ofNat ((h.trackerAt k).connected.toNat - 1)).toNat =
      (liveAt h.events (k + 1)).length := by
  have hlive : liveAt h.events (k + 1) = (liveAt h.events k).erase e.connection := by
    simp only [liveAt_succ he, liveStep, hclose]
  have hlen : (liveAt h.events (k + 1)).length = (liveAt h.events k).length - 1 := by
    rw [hlive, List.length_erase_of_mem (h.matched k e he hclose)]
  have hbound := h.bounded k
  rw [hk.count, UInt32.toNat_ofNat', hlen]
  omega

theorem follows_closed {k : Nat} {e : ConnectionEvent C} (hk : h.Follows k)
    (he : h.events[k]? = some e) (hclose : e.change = .closed) : h.Follows (k + 1) := by
  have hne : liveAt h.events k ≠ [] := List.ne_nil_of_mem (h.matched k e he hclose)
  have hzero := hk.live hne
  have hcast := toNat_connected_closed hk he hclose
  have hstep : h.trackerAt (k + 1) = (h.trackerAt k).onConnectionClosed e.now := by
    simp only [trackerAt_succ he, IsolationTracker.handle, hclose]
  by_cases hnil : liveAt h.events (k + 1) = []
  · -- the last connection is gone, and the clock starts
    have hconn : UInt32.ofNat ((h.trackerAt k).connected.toNat - 1) = 0 := by
      refine UInt32.toNat.inj ?_
      rw [hcast, hnil]
      rfl
    rw [IsolationTracker.onConnectionClosed, if_pos ⟨hconn, by rw [hzero]; rfl⟩] at hstep
    refine ⟨?_, fun hlive => absurd hnil hlive, fun _ => ⟨k + 1, Nat.le_refl _, ?_, Or.inr hne, ?_⟩⟩
    · rw [hstep]
      exact hcast
    · intro k' hge hle
      rwa [show k' = k + 1 by omega]
    · rw [hstep, timeOf, he]
      rfl
  · have hconn : UInt32.ofNat ((h.trackerAt k).connected.toNat - 1) ≠ 0 := by
      intro heq
      rw [heq] at hcast
      exact hnil (List.eq_nil_of_length_eq_zero hcast.symm)
    rw [IsolationTracker.onConnectionClosed, if_neg fun hc => hconn hc.1] at hstep
    refine ⟨?_, fun _ => ?_, fun hlive => absurd hlive hnil⟩
    · rw [hstep]
      exact hcast
    · rw [hstep]
      exact hzero

/-- **The tracker follows every history.** -/
theorem tracker_follows (h : History C) {k : Nat} (hk : k ≤ h.events.length) : h.Follows k := by
  induction k with
  | zero =>
    refine ⟨rfl, fun hlive => absurd rfl hlive, fun _ => ⟨0, Nat.le_refl 0, ?_, Or.inl rfl, rfl⟩⟩
    intro k' _ hle
    rw [Nat.le_zero.mp hle]
    rfl
  | succ k ih =>
    obtain ⟨e, he⟩ : ∃ e, h.events[k]? = some e := ⟨_, List.getElem?_eq_getElem hk⟩
    cases hchange : e.change with
    | established => exact follows_established (ih (by omega)) he hchange
    | closed => exact follows_closed (ih (by omega)) he hchange

/-- Where nothing is live, the next event opens a connection. -/
theorem established_of_idle {j : Nat} {e : ConnectionEvent C} (he : h.events[j]? = some e)
    (hidle : liveAt h.events j = []) : e.change = .established := by
  cases hchange : e.change with
  | established => rfl
  | closed =>
    have hmem := h.matched j e he hchange
    rw [hidle] at hmem
    cases hmem

theorem timeOf_le {i j : Nat} (hij : i ≤ j) {e : ConnectionEvent C}
    (he : h.events[j]? = some e) : (h.timeOf i).toNat ≤ e.now.toNat := by
  have htimed := h.timed
  rw [List.pairwise_cons, List.pairwise_map] at htimed
  obtain ⟨hstart, hpair⟩ := htimed
  obtain ⟨hj, rfl⟩ := List.getElem?_eq_some_iff.mp he
  refine UInt64.le_iff_toNat_le.mp ?_
  cases i with
  | zero => exact hstart _ (List.mem_map_of_mem (List.getElem_mem hj))
  | succ i =>
    have hi : i < h.events.length := by omega
    have htime : h.timeOf (i + 1) = (h.events[i]).now := by
      simp [timeOf, List.getElem?_eq_getElem hi]
    rw [htime]
    exact List.pairwise_iff_getElem.mp hpair i j hi hj (by omega)

/-- What a connection is reported with: the time since nothing was live. -/
theorem reportAt_established {j : Nat} {e : ConnectionEvent C} (he : h.events[j]? = some e)
    (hopen : e.change = .established) (gap : UInt64) :
    h.reportAt j = some gap ↔ ∃ since, (h.trackerAt j).zeroSince = some since ∧
      gap = UInt64.ofNat (e.now.toNat - since.toNat) ∧ stateSyncIsolationThresholdSecs ≤ gap := by
  simp only [reportAt, he, IsolationTracker.handle, hopen,
    IsolationTracker.onConnectionEstablished]
  cases (h.trackerAt j).zeroSince with
  | none => simp
  | some since =>
    simp only [Option.map_some, Option.some.injEq, exists_eq_left']
    split
    · next hge =>
      constructor
      · intro heq
        obtain rfl := Option.some.inj heq
        exact ⟨rfl, hge⟩
      · rintro ⟨rfl, -⟩
        rfl
    · next hlt =>
      constructor
      · intro heq
        cases heq
      · rintro ⟨rfl, hge⟩
        exact absurd hge hlt

/-- Only a connection is reported. -/
theorem established_of_report {j : Nat} {gap : UInt64} (hr : h.reportAt j = some gap) :
    ∃ e, h.events[j]? = some e ∧ e.change = .established := by
  unfold reportAt at hr
  split at hr
  · next e he =>
    refine ⟨e, he, ?_⟩
    cases hchange : e.change with
    | established => rfl
    | closed => simp [IsolationTracker.handle, hchange] at hr
  · cases hr

/-- The interval that ends with a connection, and the time the tracker has for it. -/
theorem idleInterval_of_zeroSince {j : Nat} {e : ConnectionEvent C} (he : h.events[j]? = some e)
    (hopen : e.change = .established) {since : UInt64}
    (hsince : (h.trackerAt j).zeroSince = some since) :
    ∃ i, h.IdleInterval i j ∧ since = h.timeOf i := by
  have hj : j < h.events.length := (List.getElem?_eq_some_iff.mp he).1
  have hfollows := tracker_follows h (by omega : j ≤ h.events.length)
  by_cases hlive : liveAt h.events j = []
  · obtain ⟨i, hi, hidle, hleft, hzero⟩ := hfollows.idle hlive
    rw [hsince, Option.some.injEq] at hzero
    refine ⟨i, ⟨hi, hj, hidle, hleft, ?_⟩, hzero⟩
    simp [liveAt_succ he, liveStep, hopen]
  · rw [hfollows.live hlive] at hsince
    cases hsince

/-- What holds of the tracker in a history. -/
structure IsolationExact (h : History C) : Prop where
  zeroSince : ∀ k ≤ h.events.length,
    (h.trackerAt k).zeroSince.isSome = true ↔ liveAt h.events k = []
  reported : ∀ j gap, h.reportAt j = some gap ↔
    ∃ i e, h.IdleInterval i j ∧ h.events[j]? = some e ∧
      gap.toNat + (h.timeOf i).toNat = e.now.toNat ∧ 30 ≤ gap.toNat
  oneBeginning : ∀ i i' j, h.IdleInterval i j → h.IdleInterval i' j → i = i'
  oneEnd : ∀ i j j', h.IdleInterval i j → h.IdleInterval i j' → j = j'

theorem isSome_zeroSince {k : Nat} (hk : k ≤ h.events.length) :
    (h.trackerAt k).zeroSince.isSome = true ↔ liveAt h.events k = [] := by
  have hfollows := tracker_follows h hk
  by_cases hlive : liveAt h.events k = []
  · obtain ⟨i, -, -, -, hzero⟩ := hfollows.idle hlive
    simp [hzero, hlive]
  · simp [hfollows.live hlive, hlive]

theorem reportAt_iff (j : Nat) (gap : UInt64) : h.reportAt j = some gap ↔
    ∃ i e, h.IdleInterval i j ∧ h.events[j]? = some e ∧
      gap.toNat + (h.timeOf i).toNat = e.now.toNat ∧ 30 ≤ gap.toNat := by
  have hthreshold : stateSyncIsolationThresholdSecs ≤ gap ↔ 30 ≤ gap.toNat :=
    UInt64.le_iff_toNat_le
  constructor
  · intro hr
    obtain ⟨e, he, hopen⟩ := established_of_report hr
    obtain ⟨since, hsince, hgap, hge⟩ := (reportAt_established he hopen gap).mp hr
    obtain ⟨i, hi, rfl⟩ := idleInterval_of_zeroSince he hopen hsince
    have htime := timeOf_le hi.le he
    have hnow : e.now.toNat < 2 ^ 64 := e.now.toNat_lt
    have hnat : gap.toNat = e.now.toNat - (h.timeOf i).toNat := by
      rw [hgap, UInt64.toNat_ofNat']
      omega
    exact ⟨i, e, hi, he, by omega, hthreshold.mp hge⟩
  · rintro ⟨i, e, hi, he, hgap, hge⟩
    have hidle : liveAt h.events j = [] := hi.idle j hi.le (Nat.le_refl j)
    have hopen := established_of_idle he hidle
    obtain ⟨since, hsince⟩ := Option.isSome_iff_exists.mp
      ((isSome_zeroSince (Nat.le_of_lt hi.lt)).mpr hidle)
    -- the tracker's own interval ends here too, so it is this one
    obtain ⟨i', hi', rfl⟩ := idleInterval_of_zeroSince he hopen hsince
    obtain rfl := hi.left_unique hi'
    refine (reportAt_established he hopen gap).mpr ⟨_, hsince, ?_, hthreshold.mpr hge⟩
    refine UInt64.toNat.inj ?_
    have hnow : e.now.toNat < 2 ^ 64 := e.now.toNat_lt
    rw [UInt64.toNat_ofNat']
    omega

/-- **Isolation detection.**  In every history the tracker has a time exactly while
nothing is live, and a connection is reported exactly when it ends a maximal interval
without connections of at least thirty seconds, with its length. -/
theorem isolation_exact (h : History C) : IsolationExact h where
  zeroSince _ hk := isSome_zeroSince hk
  reported := reportAt_iff
  oneBeginning _ _ _ hi hi' := hi.left_unique hi'
  oneEnd _ _ _ hj hj' := hj.right_unique hj'

/-- A connection opens five seconds after start-up and closes at second 10; the next
one opens at second 41. -/
def briefEvents : List (ConnectionEvent Nat) :=
  [⟨.established, 1, 5⟩, ⟨.closed, 1, 10⟩, ⟨.established, 2, 41⟩]

def briefHistory : History Nat where
  start := 0
  events := briefEvents
  timed := by decide
  matched := by
    intro k e he
    have hlt : k < 3 := (List.getElem?_eq_some_iff.mp he).1
    have hall : ∀ k < 3, ∀ e ∈ briefEvents[k]?, e.change = .closed →
        e.connection ∈ liveAt briefEvents k := by
      decide
    exact hall k hlt e he
  bounded := by
    intro k
    match k with
    | 0 | 1 | 2 => decide
    | k + 3 => simp [liveAt, liveStep, briefEvents]

example : (List.range 3).map briefHistory.reportAt = [none, none, some 31] := by decide

end History

end Parseh.Miner
