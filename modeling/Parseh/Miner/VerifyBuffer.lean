import Parseh.Lib.Lru
import Parseh.Wire.Messages

/-!
# The buffer of unauthenticated messages and the readiness tracker
(`miner`, `verify_buffer.rs`, `readiness_state.rs`)

Messages whose publisher has no key in the directory yet wait in `VerifyBuffer`
for at most ten seconds.  `drainReady_ready` says what a drain hands back: the
messages that have not expired and whose publisher is known, in queue order.

The tracker counts the tasks in flight and derives the advertised state.
-/

namespace Parseh.Miner

open Parseh.Lib Parseh.Wire

def bufferTtlMs : Nat := 10000
def bufferCap : Nat := 100

structure PendingMessage where
  publisher : PeerId
  payload : Bytes
  tag : Option UInt8
  receivedAt : Instant

def PendingMessage.isExpired (m : PendingMessage) (now : Instant) : Bool :=
  now - m.receivedAt ≥ fromMillis bufferTtlMs

/-- Per-publisher counts and the time-ordered queue. -/
structure VerifyBuffer where
  counts : LruCache PeerId Nat
  queue : List PendingMessage

namespace VerifyBuffer

def new : VerifyBuffer := ⟨LruCache.new bufferCap, []⟩

/-- One message of the publisher leaves the queue. -/
def uncount (counts : LruCache PeerId Nat) (publisher : PeerId) : LruCache PeerId Nat :=
  counts.getMut publisher fun c => c - 1

/-- `enqueue`: a full queue drops its oldest message first; a publisher at its
cap is rejected. -/
def enqueue (b : VerifyBuffer) (msg : PendingMessage) : Bool × VerifyBuffer :=
  let b₁ :=
    if b.queue.length ≥ bufferCap then
      match b.queue with
      | dropped :: rest => ⟨uncount b.counts dropped.publisher, rest⟩
      | [] => b
    else b
  let (found, counts) := b₁.counts.get msg.publisher
  let existing := found.getD 0
  if existing ≥ bufferCap then (false, { b₁ with counts })
  else (true, ⟨counts.put msg.publisher (existing + 1), b₁.queue ++ [msg]⟩)

/-- The accumulators of the loop of `drain_ready`. -/
structure Drain where
  counts : LruCache PeerId Nat
  ready : List PendingMessage
  expired : Nat
  remaining : List PendingMessage

/-- One iteration of the loop. -/
def Drain.take (now : Instant) (isKnown : PeerId → Bool) (d : Drain) (msg : PendingMessage) :
    Drain :=
  if msg.isExpired now then
    { d with counts := uncount d.counts msg.publisher, expired := d.expired + 1 }
  else if isKnown msg.publisher then
    { d with counts := uncount d.counts msg.publisher, ready := d.ready ++ [msg] }
  else { d with remaining := d.remaining ++ [msg] }

/-- `drain_ready`: the messages to dispatch, the number dropped, and what is left. -/
def drainReady (b : VerifyBuffer) (now : Instant) (isKnown : PeerId → Bool) :
    List PendingMessage × Nat × VerifyBuffer :=
  let d := b.queue.foldl (Drain.take now isKnown) ⟨b.counts, [], 0, []⟩
  (d.ready, d.expired, ⟨d.counts, d.remaining⟩)

private theorem foldl_take_ready (now : Instant) (isKnown : PeerId → Bool)
    (l : List PendingMessage) (d : Drain) :
    (l.foldl (Drain.take now isKnown) d).ready =
      d.ready ++ l.filter fun m => !m.isExpired now && isKnown m.publisher := by
  induction l generalizing d with
  | nil => simp
  | cons m l ih =>
    rw [List.foldl_cons, ih, List.filter_cons]
    unfold Drain.take
    cases he : m.isExpired now with
    | true => simp
    | false => cases hk : isKnown m.publisher <;> simp

theorem drainReady_ready (b : VerifyBuffer) (now : Instant) (isKnown : PeerId → Bool) :
    (b.drainReady now isKnown).1 =
      b.queue.filter fun m => !m.isExpired now && isKnown m.publisher :=
  foldl_take_ready now isKnown b.queue _

end VerifyBuffer

/-! ## Readiness -/

/-- The state and the number of tasks in flight. -/
structure ReadinessTracker where
  state : ReadinessState
  inFlight : Nat

namespace ReadinessTracker

def new : ReadinessTracker := ⟨.initialised, 0⟩

def markConnected (t : ReadinessTracker) : ReadinessTracker := { t with state := .connected }

/-- `mark_ready`: a step up only. -/
def markReady (t : ReadinessTracker) : ReadinessTracker :=
  { t with state :=
      match t.state with
      | .initialised | .connected | .listening => .ready
      | s => s }

/-- `task_started`. -/
def taskStarted (t : ReadinessTracker) : ReadinessTracker :=
  { inFlight := t.inFlight + 1
    state :=
      match t.state with
      | .ready | .listening | .connected => .active
      | s => s }

/-- `task_finished`: the count stops at zero, where `Active` steps back. -/
def taskFinished (t : ReadinessTracker) : ReadinessTracker :=
  { inFlight := t.inFlight - 1
    state :=
      if t.inFlight - 1 = 0 then
        match t.state with
        | .active => .ready
        | s => s
      else t.state }

end ReadinessTracker

end Parseh.Miner
