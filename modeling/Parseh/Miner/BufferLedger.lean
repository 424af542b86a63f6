import Mathlib.Data.List.Induction
import Mathlib.Data.List.Perm.Basic
import Parseh.Lib.Run
import Parseh.Miner.VerifyBuffer
import Parseh.Wire.Table

/-!
# The buffer of unauthenticated messages over whole runs

A run is a list of `enqueue` and `drain_ready` calls, with any publishers, any
directory and any clock.  A `Ledger` numbers the messages in the order they are
accepted and says where each one is: queued, handed back by a drain, dropped by a
drain as expired, or evicted.

* `Bounded`: the queue fits its capacity and no counter is above the number of
  messages it stands for; every call keeps it, so that `enqueue` never refuses;
* `conservation`: the buffer does what the ledger says, and in the ledger every
  message is in exactly one place;
* `flood_isolated_iff`: the cap of a publisher and the share of the others hold in
  a run exactly when no call finds the queue full at their expense.
-/

namespace Parseh.Miner

open Parseh.Lib Parseh.Wire

namespace VerifyBuffer

/-! ## What one call does -/

/-- The number of messages of a publisher in a list. -/
def countOf (p : PeerId) (l : List PendingMessage) : Nat := l.countP fun m => m.publisher = p

@[simp] theorem countOf_nil (p : PeerId) : countOf p [] = 0 := rfl

@[simp] theorem countOf_append (p : PeerId) (l l' : List PendingMessage) :
    countOf p (l ++ l') = countOf p l + countOf p l' := List.countP_append

theorem countOf_cons (p : PeerId) (m : PendingMessage) (l : List PendingMessage) :
    countOf p (m :: l) = countOf p l + if m.publisher = p then 1 else 0 := by
  simp [countOf, List.countP_cons]

theorem countOf_le_length (p : PeerId) (l : List PendingMessage) : countOf p l ≤ l.length :=
  List.countP_le_length

/-- Every counter is at most the number of messages it stands for. -/
def CountsAtMost (counts : LruCache PeerId Nat) (l : List PendingMessage) : Prop :=
  ∀ p c, counts.peek p = some c → c ≤ countOf p l

structure Bounded (b : VerifyBuffer) : Prop where
  length : b.queue.length ≤ bufferCap
  counts : CountsAtMost b.counts b.queue

theorem bounded_new : Bounded new := by
  refine ⟨Nat.zero_le _, fun p c h => ?_⟩
  cases h

/-- A message leaves and takes one from its counter, if there is one. -/
theorem CountsAtMost.uncount {counts : LruCache PeerId Nat} {m : PendingMessage}
    {l₁ l₂ : List PendingMessage} (h : CountsAtMost counts (l₁ ++ m :: l₂)) :
    CountsAtMost (uncount counts m.publisher) (l₁ ++ l₂) := by
  intro p c hp
  rw [LruCache.peek_eq_some_iff, VerifyBuffer.uncount, LruCache.mem_getMut] at hp
  rcases hp with ⟨v, hv, heq⟩ | ⟨hmem, hne⟩
  · obtain ⟨rfl, rfl⟩ := Prod.mk.inj heq
    have hle := h _ v (LruCache.peek_eq_some_iff.mpr hv)
    simp only [countOf_append, countOf_cons, if_true] at hle ⊢
    omega
  · have hle := h p c (LruCache.peek_eq_some_iff.mpr hmem)
    simp only [countOf_append, countOf_cons, if_neg (Ne.symm hne)] at hle ⊢
    omega

/-- A message arrives and is counted. -/
theorem CountsAtMost.put {counts : LruCache PeerId Nat} {l : List PendingMessage}
    (h : CountsAtMost counts l) {m : PendingMessage} {n : Nat} (hn : n ≤ countOf m.publisher l) :
    CountsAtMost (counts.put m.publisher (n + 1)) (l ++ [m]) := by
  intro p c hp
  rw [LruCache.peek_eq_some_iff] at hp
  simp only [countOf_append, countOf_cons, countOf_nil, Nat.zero_add]
  rcases LruCache.mem_put hp with heq | ⟨hmem, hne⟩
  · obtain ⟨rfl, rfl⟩ := Prod.mk.inj heq
    rw [if_pos rfl]
    omega
  · have hle := h p c (LruCache.peek_eq_some_iff.mpr hmem)
    omega

theorem CountsAtMost.get {counts : LruCache PeerId Nat} {l : List PendingMessage}
    (h : CountsAtMost counts l) (q : PeerId) : CountsAtMost (counts.get q).2 l := by
  intro p c hp
  rw [LruCache.peek_get] at hp
  exact h p c hp

/-- What a full queue is when a message arrives: all but the oldest. -/
def kept (queue : List PendingMessage) : List PendingMessage :=
  if bufferCap ≤ queue.length then queue.tail else queue

theorem length_kept {queue : List PendingMessage} (h : queue.length ≤ bufferCap) :
    (kept queue).length < bufferCap := by
  have hcap : bufferCap = 100 := rfl
  unfold kept
  split
  · rw [List.length_tail]
    omega
  · omega

/-- The counters after room was made. -/
def roomCounts (b : VerifyBuffer) : LruCache PeerId Nat :=
  if bufferCap ≤ b.queue.length then
    match b.queue with
    | dropped :: _ => uncount b.counts dropped.publisher
    | [] => b.counts
  else b.counts

theorem countsAtMost_room {b : VerifyBuffer} (h : CountsAtMost b.counts b.queue) :
    CountsAtMost (roomCounts b) (kept b.queue) := by
  unfold roomCounts kept
  split
  · cases hq : b.queue with
    | nil =>
      rw [hq] at h
      exact h
    | cons dropped rest =>
      rw [hq, ← List.nil_append (dropped :: rest)] at h
      exact h.uncount
  · exact h

theorem enqueue_eq (b : VerifyBuffer) (msg : PendingMessage) :
    b.enqueue msg =
      let (found, counts) := (roomCounts b).get msg.publisher
      if found.getD 0 ≥ bufferCap then (false, ⟨counts, kept b.queue⟩)
      else (true, ⟨counts.put msg.publisher (found.getD 0 + 1), kept b.queue ++ [msg]⟩) := by
  unfold enqueue roomCounts kept
  by_cases hfull : bufferCap ≤ b.queue.length
  · cases hq : b.queue with
    | nil => simp [hq, bufferCap] at hfull
    | cons dropped rest =>
      rw [hq] at hfull
      simp only [ge_iff_le, hfull, if_true, List.tail_cons]
  · simp only [ge_iff_le, hfull, if_false]

/-- **What `enqueue` does in a bounded buffer**: it accepts. -/
theorem enqueue_of_bounded {b : VerifyBuffer} (h : Bounded b) (msg : PendingMessage) :
    (b.enqueue msg).1 = true ∧ (b.enqueue msg).2.queue = kept b.queue ++ [msg] ∧
      Bounded (b.enqueue msg).2 := by
  have hroom := countsAtMost_room h.counts
  have hlen := length_kept h.length
  have hfound : (((roomCounts b).get msg.publisher).1).getD 0 ≤
      countOf msg.publisher (kept b.queue) := by
    rw [LruCache.get_fst]
    cases hp : (roomCounts b).peek msg.publisher with
    | none => simp
    | some c => simpa using hroom _ c hp
  have hlt : ¬ (((roomCounts b).get msg.publisher).1).getD 0 ≥ bufferCap := by
    have hle := countOf_le_length msg.publisher (kept b.queue)
    omega
  have heq : b.enqueue msg = (true, ⟨((roomCounts b).get msg.publisher).2.put msg.publisher
      ((((roomCounts b).get msg.publisher).1).getD 0 + 1), kept b.queue ++ [msg]⟩) := by
    rw [enqueue_eq]
    exact if_neg hlt
  rw [heq]
  refine ⟨rfl, rfl, ?_, (hroom.get msg.publisher).put hfound⟩
  rw [List.length_append, List.length_singleton]
  omega

/-! ### Drains -/

/-- A message that stays in the queue. -/
def stays (now : Instant) (isKnown : PeerId → Bool) (m : PendingMessage) : Bool :=
  !m.isExpired now && !isKnown m.publisher

theorem foldl_take (now : Instant) (isKnown : PeerId → Bool) (l : List PendingMessage)
    (d : Drain) :
    (l.foldl (Drain.take now isKnown) d).expired = d.expired + l.countP (·.isExpired now) ∧
      (l.foldl (Drain.take now isKnown) d).remaining =
        d.remaining ++ l.filter (stays now isKnown) := by
  induction l generalizing d with
  | nil => simp
  | cons m l ih =>
    rw [List.foldl_cons, (ih _).1, (ih _).2, List.countP_cons, List.filter_cons]
    unfold Drain.take stays
    cases he : m.isExpired now with
    | true => simp [Nat.add_assoc, Nat.add_comm 1]
    | false => cases hk : isKnown m.publisher <;> simp

theorem countsAtMost_foldl_take (now : Instant) (isKnown : PeerId → Bool)
    (l : List PendingMessage) (d : Drain) (h : CountsAtMost d.counts (d.remaining ++ l)) :
    CountsAtMost (l.foldl (Drain.take now isKnown) d).counts
      (l.foldl (Drain.take now isKnown) d).remaining := by
  induction l generalizing d with
  | nil => simpa using h
  | cons m l ih =>
    rw [List.foldl_cons]
    refine ih _ ?_
    unfold Drain.take
    split
    · exact h.uncount
    · split
      · exact h.uncount
      · simpa using h

theorem drainReady_expired (b : VerifyBuffer) (now : Instant) (isKnown : PeerId → Bool) :
    (b.drainReady now isKnown).2.1 = b.queue.countP (·.isExpired now) := by
  have h := (foldl_take now isKnown b.queue ⟨b.counts, [], 0, []⟩).1
  rw [Nat.zero_add] at h
  exact h

theorem drainReady_queue (b : VerifyBuffer) (now : Instant) (isKnown : PeerId → Bool) :
    (b.drainReady now isKnown).2.2.queue = b.queue.filter (stays now isKnown) :=
  (foldl_take now isKnown b.queue ⟨b.counts, [], 0, []⟩).2

theorem bounded_drainReady {b : VerifyBuffer} (h : Bounded b) (now : Instant)
    (isKnown : PeerId → Bool) : Bounded (b.drainReady now isKnown).2.2 := by
  refine ⟨?_, countsAtMost_foldl_take now isKnown b.queue ⟨b.counts, [], 0, []⟩ h.counts⟩
  rw [drainReady_queue]
  exact (List.length_filter_le _ _).trans h.length

/-! ## Runs -/

/-- A call of the buffer. -/
inductive BufferCall
  | enqueue (msg : PendingMessage)
  | drainReady (now : Instant) (isKnown : PeerId → Bool)

/-- The buffer after a call. -/
def call (b : VerifyBuffer) : BufferCall → VerifyBuffer
  | .enqueue msg => (b.enqueue msg).2
  | .drainReady now isKnown => (b.drainReady now isKnown).2.2

theorem bounded_call {b : VerifyBuffer} (c : BufferCall) (h : Bounded b) : Bounded (b.call c) := by
  cases c with
  | enqueue msg => exact (enqueue_of_bounded h msg).2.2
  | drainReady now isKnown => exact bounded_drainReady h now isKnown

/-! ## Floods -/

/-- A publisher at the cap is refused and changes nothing, and no publisher pushes out
a message of another one that has fewer. -/
def FloodIsolated (b : VerifyBuffer) : BufferCall → Prop
  | .enqueue msg =>
    (bufferCap ≤ countOf msg.publisher b.queue →
      (b.enqueue msg).1 = false ∧ (b.enqueue msg).2.queue = b.queue) ∧
    ∀ q, q ≠ msg.publisher → countOf q (b.enqueue msg).2.queue < countOf q b.queue →
      countOf msg.publisher b.queue ≤ countOf q b.queue
  | .drainReady .. => True

/-- The queue has room; or its oldest message is the publisher's own, with others in the
queue; or it is that of a publisher with at least as many. -/
def Roomy (b : VerifyBuffer) : BufferCall → Prop
  | .enqueue msg =>
    match b.queue with
    | [] => True
    | oldest :: rest =>
      b.queue.length < bufferCap ∨
        if oldest.publisher = msg.publisher then ∃ m ∈ rest, m.publisher ≠ msg.publisher
        else countOf msg.publisher b.queue ≤ countOf oldest.publisher b.queue
  | .drainReady .. => True

theorem countOf_eq_length_iff {p : PeerId} {l : List PendingMessage} :
    l.length ≤ countOf p l ↔ ∀ m ∈ l, m.publisher = p := by
  have hle := countOf_le_length p l
  have hiff : countOf p l = l.length ↔ ∀ m ∈ l, m.publisher = p := by
    simp [countOf, List.countP_eq_length]
  rw [← hiff]
  omega

/-- While there is room nothing is refused or evicted. -/
theorem floodIsolated_of_room {b : VerifyBuffer} (h : Bounded b) {msg : PendingMessage}
    (hroom : b.queue.length < bufferCap) : FloodIsolated b (.enqueue msg) := by
  have hle := countOf_le_length msg.publisher b.queue
  have hqueue : (b.enqueue msg).2.queue = b.queue ++ [msg] := by
    rw [(enqueue_of_bounded h msg).2.1, kept, if_neg (by omega)]
  refine ⟨fun hfull => by omega, fun q hq hlt => ?_⟩
  rw [hqueue, countOf_append] at hlt
  omega

/-- When the oldest message makes room for a new one, only its publisher loses one. -/
theorem countOf_shift_lt_iff {q : PeerId} {msg oldest : PendingMessage}
    {rest : List PendingMessage} (hne : q ≠ msg.publisher) :
    countOf q (rest ++ [msg]) < countOf q (oldest :: rest) ↔ oldest.publisher = q := by
  rw [countOf_append, countOf_cons, countOf_cons, countOf_nil, if_neg (Ne.symm hne)]
  split <;> simp_all

/-- A full queue loses its oldest message, and that of nobody else. -/
theorem floodIsolated_full_iff {b : VerifyBuffer} (h : Bounded b) {msg oldest : PendingMessage}
    {rest : List PendingMessage} (hq : b.queue = oldest :: rest)
    (hfull : ¬ b.queue.length < bufferCap) :
    FloodIsolated b (.enqueue msg) ↔
      if oldest.publisher = msg.publisher then ∃ m ∈ rest, m.publisher ≠ msg.publisher
      else countOf msg.publisher b.queue ≤ countOf oldest.publisher b.queue := by
  obtain ⟨hok, hqueue, -⟩ := enqueue_of_bounded h msg
  rw [kept, if_pos (by omega), hq, List.tail_cons] at hqueue
  have hlen : b.queue.length = bufferCap := by
    have := h.length
    omega
  simp only [FloodIsolated, hok, hqueue, Bool.true_eq_false, false_and, imp_false]
  have hlost : ∀ q, q ≠ msg.publisher → (countOf q (rest ++ [msg]) < countOf q b.queue ↔
      oldest.publisher = q) := fun q hne => hq ▸ countOf_shift_lt_iff hne
  have hmine : ¬ bufferCap ≤ countOf msg.publisher b.queue ↔
      ∃ m ∈ b.queue, m.publisher ≠ msg.publisher := by
    rw [← hlen, countOf_eq_length_iff]
    push Not
    rfl
  rw [hmine]
  split
  · next hown =>
    constructor
    · rintro ⟨⟨m, hm, hne⟩, -⟩
      rw [hq, List.mem_cons] at hm
      rcases hm with rfl | hm
      · exact absurd hown hne
      · exact ⟨m, hm, hne⟩
    · rintro ⟨m, hm, hne⟩
      refine ⟨⟨m, by rw [hq]; exact List.mem_cons_of_mem _ hm, hne⟩, fun q hq' hlt => ?_⟩
      exact absurd (hown.symm.trans ((hlost q hq').mp hlt)) (Ne.symm hq')
  · next hother =>
    constructor
    · rintro ⟨-, hshare⟩
      exact hshare oldest.publisher hother ((hlost _ hother).mpr rfl)
    · intro hle
      refine ⟨⟨oldest, by rw [hq]; exact List.mem_cons_self, hother⟩, fun q hq' hlt => ?_⟩
      rw [← (hlost q hq').mp hlt]
      exact hle

theorem floodIsolated_iff_roomy {b : VerifyBuffer} (h : Bounded b) (c : BufferCall) :
    FloodIsolated b c ↔ Roomy b c := by
  cases c with
  | drainReady now isKnown => exact Iff.rfl
  | enqueue msg =>
    cases hq : b.queue with
    | nil =>
      simp only [Roomy, hq, iff_true]
      exact floodIsolated_of_room h (by rw [hq]; decide)
    | cons oldest rest =>
      simp only [Roomy, hq]
      rw [← hq]
      by_cases hroom : b.queue.length < bufferCap
      · exact iff_of_true (floodIsolated_of_room h hroom) (Or.inl hroom)
      · rw [or_iff_right hroom]
        exact floodIsolated_full_iff h hq hroom

/-- **Floods.**  In a run of calls every publisher is held to its cap and keeps its share
if and only if every `enqueue` finds room, or an oldest message that is its own among
those of others, or one of a publisher with no fewer messages. -/
theorem flood_isolated_iff (calls : List BufferCall) :
    Guarded call FloodIsolated new calls ↔ Guarded call Roomy new calls :=
  guarded_congr (fun _ c h => bounded_call c h) (fun _ c h => floodIsolated_iff_roomy h c)
    bounded_new calls

/-! ### A flood and a crowd -/

/-- A message of the one-byte publisher. -/
def messageOf (n : UInt8) : PendingMessage := ⟨peerOf n, [], none, 0⟩

/-- A hundred messages of peer 1, and one more. -/
def flood : List BufferCall := List.replicate 101 (.enqueue (messageOf 1))

/-- One message of peer 2, then a hundred of peer 1. -/
def crowd : List BufferCall :=
  .enqueue (messageOf 2) :: List.replicate 100 (.enqueue (messageOf 1))

/-- The last message of the flood is accepted, and that of the crowd pushes out the only
message of peer 2. -/
theorem flood_accepted_crowd_evicts :
    ¬ Guarded call FloodIsolated new flood ∧ ¬ Guarded call FloodIsolated new crowd := by
  constructor
  · intro h
    have hlast := (guarded_iff_forall new flood).mp h (List.replicate 100 (.enqueue (messageOf 1)))
      (.enqueue (messageOf 1)) ⟨[], rfl⟩
    have hrefused := hlast.1 (by decide +kernel)
    exact absurd hrefused.1 (by decide +kernel)
  · intro h
    have hlast := (guarded_iff_forall new crowd).mp h
      (.enqueue (messageOf 2) :: List.replicate 99 (.enqueue (messageOf 1)))
      (.enqueue (messageOf 1)) ⟨[], rfl⟩
    have hshare := hlast.2 (peerOf 2) (by decide) (by decide +kernel)
    exact absurd hshare (by decide +kernel)

/-! ## The ledger -/

/-- What a drain did, by the numbers of the messages. -/
structure DrainEntry where
  now : Instant
  isKnown : PeerId → Bool
  ready : List Nat
  expired : List Nat

/-- The messages accepted so far, numbered in that order, and where each one is. -/
structure Ledger where
  messages : List PendingMessage
  queued : List Nat
  evicted : List Nat
  drains : List DrainEntry

namespace Ledger

def new : Ledger := ⟨[], [], [], []⟩

/-- The message with this number satisfies `p`. -/
def holds (L : Ledger) (p : PendingMessage → Bool) (id : Nat) : Bool := (L.messages[id]?).any p

/-- A message is accepted, at the expense of the oldest one of a full queue; a drain takes
out what has expired and, of the rest, what has a known publisher. -/
def step (L : Ledger) : BufferCall → Ledger
  | .enqueue msg =>
    { messages := L.messages ++ [msg]
      queued := (if bufferCap ≤ L.queued.length then L.queued.tail else L.queued) ++
        [L.messages.length]
      evicted := L.evicted ++
        if bufferCap ≤ L.queued.length then L.queued.head?.toList else []
      drains := L.drains }
  | .drainReady now isKnown =>
    { L with
      queued := L.queued.filter (L.holds (stays now isKnown))
      drains := L.drains ++
        [{ now, isKnown
           ready := L.queued.filter (L.holds fun m => !m.isExpired now && isKnown m.publisher)
           expired := L.queued.filter (L.holds (·.isExpired now)) }] }

/-- Every number, once for each place it is found in. -/
def placed (L : Ledger) : List Nat :=
  L.queued ++ L.evicted ++ L.drains.flatMap DrainEntry.ready ++
    L.drains.flatMap DrainEntry.expired

/-- Every message is in one place, and the lists keep the order of arrival. -/
structure Sound (L : Ledger) : Prop where
  place : L.placed.Perm (List.range L.messages.length)
  queueOrder : L.queued.Pairwise (· < ·)
  readyOrder : ∀ d ∈ L.drains, d.ready.Pairwise (· < ·)
  readyValid : ∀ d ∈ L.drains, ∀ id ∈ d.ready, ∃ m, L.messages[id]? = some m ∧
    m.isExpired d.now = false ∧ d.isKnown m.publisher = true

theorem sound_new : Sound new := ⟨List.Perm.refl _, List.Pairwise.nil, by simp [new], by simp [new]⟩

variable {L : Ledger}

theorem Sound.lt_of_placed (h : Sound L) {id : Nat} (hid : id ∈ L.placed) :
    id < L.messages.length :=
  List.mem_range.mp (h.place.mem_iff.mp hid)

theorem Sound.lt_of_queued (h : Sound L) {id : Nat} (hid : id ∈ L.queued) :
    id < L.messages.length :=
  h.lt_of_placed (by simp [placed, hid])

theorem Sound.lt_of_ready (h : Sound L) {d : DrainEntry} (hd : d ∈ L.drains) {id : Nat}
    (hid : id ∈ d.ready) : id < L.messages.length := by
  refine h.lt_of_placed ?_
  simp only [placed, List.mem_append, List.mem_flatMap]
  exact Or.inl (Or.inr ⟨d, hd, hid⟩)

/-- A full queue is its head and the rest. -/
theorem count_room (ids : List Nat) (a : Nat) :
    (if bufferCap ≤ ids.length then ids.tail else ids).count a +
      (if bufferCap ≤ ids.length then ids.head?.toList else []).count a = ids.count a := by
  split
  · cases ids with
    | nil => rfl
    | cons id ids =>
      simp only [List.tail_cons, List.head?_cons, Option.toList_some, List.count_cons,
        List.count_nil]
      omega
  · simp

theorem Sound.enqueue (h : Sound L) (msg : PendingMessage) : Sound (L.step (.enqueue msg)) := by
  refine ⟨?_, ?_, h.readyOrder, fun d hd id hid => ?_⟩
  · rw [List.perm_iff_count]
    intro a
    have hplace := List.perm_iff_count.mp h.place a
    have hroom := count_room L.queued a
    simp only [placed, step, List.count_append, List.length_append, List.length_singleton,
      List.range_succ] at hplace ⊢
    omega
  · have hsub : (if bufferCap ≤ L.queued.length then L.queued.tail else L.queued).Sublist
        L.queued := by
      split
      · exact List.tail_sublist _
      · exact List.Sublist.refl _
    refine List.pairwise_append.mpr ⟨h.queueOrder.sublist hsub, List.pairwise_singleton _ _, ?_⟩
    intro a ha b hb
    rw [List.mem_singleton.mp hb]
    exact h.lt_of_queued (hsub.subset ha)
  · obtain ⟨m, hm, hvalid⟩ := h.readyValid d hd id hid
    exact ⟨m, by simp only [step]; rw [List.getElem?_append_left (h.lt_of_ready hd hid), hm],
      hvalid⟩

/-- A drain finds each queued message in exactly one of three states. -/
theorem count_drain (h : Sound L) (now : Instant) (isKnown : PeerId → Bool) (a : Nat) :
    (L.queued.filter (L.holds (stays now isKnown))).count a +
      (L.queued.filter (L.holds fun m => !m.isExpired now && isKnown m.publisher)).count a +
      (L.queued.filter (L.holds (·.isExpired now))).count a = L.queued.count a := by
  by_cases ha : a ∈ L.queued
  · obtain ⟨m, hm⟩ : ∃ m, L.messages[a]? = some m :=
      ⟨_, List.getElem?_eq_getElem (h.lt_of_queued ha)⟩
    have hone : ∀ p : PendingMessage → Bool,
        (L.queued.filter (L.holds p)).count a = if p m then L.queued.count a else 0 := by
      intro p
      split
      · next hp => exact List.count_filter (by simp [holds, hm, hp])
      · next hp =>
        refine List.count_eq_zero.mpr fun hmem => hp ?_
        simpa [holds, hm] using (List.mem_filter.mp hmem).2
    rw [hone, hone, hone]
    simp only [stays]
    by_cases he : m.isExpired now = true
    · simp [he]
    · by_cases hk : isKnown m.publisher = true
      · simp [he, hk]
      · simp [he, hk]
  · have hzero : ∀ p : Nat → Bool, (L.queued.filter p).count a = 0 :=
      fun p => List.count_eq_zero.mpr fun hmem => ha (List.mem_filter.mp hmem).1
    rw [hzero, hzero, hzero, List.count_eq_zero.mpr ha]

theorem Sound.drainReady (h : Sound L) (now : Instant) (isKnown : PeerId → Bool) :
    Sound (L.step (.drainReady now isKnown)) := by
  refine ⟨?_, h.queueOrder.filter _, fun d hd => ?_, fun d hd id hid => ?_⟩
  · rw [List.perm_iff_count]
    intro a
    have hplace := List.perm_iff_count.mp h.place a
    have hdrain := count_drain h now isKnown a
    simp only [placed, step, List.count_append, List.flatMap_append, List.flatMap_singleton]
      at hplace ⊢
    omega
  · simp only [step, List.mem_append, List.mem_singleton] at hd
    rcases hd with hd | rfl
    · exact h.readyOrder d hd
    · exact h.queueOrder.filter _
  · simp only [step, List.mem_append, List.mem_singleton] at hd ⊢
    rcases hd with hd | rfl
    · exact h.readyValid d hd id hid
    · obtain ⟨hq, hholds⟩ := List.mem_filter.mp hid
      have hm := List.getElem?_eq_getElem (h.lt_of_queued hq)
      refine ⟨_, hm, ?_⟩
      simpa [holds, hm] using hholds

theorem Sound.step (h : Sound L) (c : BufferCall) : Sound (L.step c) := by
  cases c with
  | enqueue msg => exact h.enqueue msg
  | drainReady now isKnown => exact h.drainReady now isKnown

end Ledger

/-! ## The buffer does what the ledger says -/

/-- The buffer, with the messages it accepted and what its drains returned. -/
structure Observed where
  buffer : VerifyBuffer
  accepted : List PendingMessage
  drained : List (List PendingMessage × Nat)

namespace Observed

def start : Observed := ⟨VerifyBuffer.new, [], []⟩

def step (o : Observed) : BufferCall → Observed
  | .enqueue msg =>
    { o with
      buffer := (o.buffer.enqueue msg).2
      accepted := if (o.buffer.enqueue msg).1 then o.accepted ++ [msg] else o.accepted }
  | .drainReady now isKnown =>
    { o with
      buffer := (o.buffer.drainReady now isKnown).2.2
      drained := o.drained ++ [((o.buffer.drainReady now isKnown).1,
        (o.buffer.drainReady now isKnown).2.1)] }

end Observed

/-- The numbers of the ledger stand for what the buffer holds and has returned. -/
structure Refines (o : Observed) (L : Ledger) : Prop where
  bounded : Bounded o.buffer
  messages : L.messages = o.accepted
  queue : L.queued.map (fun id => L.messages[id]?) = o.buffer.queue.map some
  drained : L.drains.map (fun d => (d.ready.map (fun id => L.messages[id]?), d.expired.length)) =
    o.drained.map fun r => (r.1.map some, r.2)

theorem refines_start : Refines Observed.start Ledger.new := ⟨bounded_new, rfl, rfl, rfl⟩

/-- Numbers and messages selected by the same predicate. -/
theorem map_filter_holds {L : Ledger} (p : PendingMessage → Bool) {ids : List Nat}
    {l : List PendingMessage} (h : ids.map (fun id => L.messages[id]?) = l.map some) :
    (ids.filter (L.holds p)).map (fun id => L.messages[id]?) = (l.filter p).map some := by
  induction ids generalizing l with
  | nil =>
    obtain rfl : l = [] := by simpa using h.symm
    rfl
  | cons id ids ih =>
    cases l with
    | nil => simp at h
    | cons m l =>
      have hid : L.messages[id]? = some m := (List.cons.inj h).1
      have hrest := ih (List.cons.inj h).2
      have hholds : L.holds p id = p m := by simp [Ledger.holds, hid]
      rw [List.filter_cons, List.filter_cons, hholds]
      split
      · rw [List.map_cons, List.map_cons, hid, hrest]
      · exact hrest

theorem length_filter_holds {L : Ledger} (p : PendingMessage → Bool) {ids : List Nat}
    {l : List PendingMessage} (h : ids.map (fun id => L.messages[id]?) = l.map some) :
    (ids.filter (L.holds p)).length = l.countP p := by
  have hlen := congrArg List.length (map_filter_holds p h)
  rw [List.length_map, List.length_map] at hlen
  rw [hlen, List.countP_eq_length_filter]

/-- Numbers given out before a message was accepted still stand for the same messages. -/
theorem map_getElem?_append {msgs : List PendingMessage} {ids : List Nat}
    (h : ∀ id ∈ ids, id < msgs.length) (msg : PendingMessage) :
    ids.map (fun id => (msgs ++ [msg])[id]?) = ids.map fun id => msgs[id]? :=
  List.map_congr_left fun id hid => List.getElem?_append_left (h id hid)

theorem Refines.enqueue {o : Observed} {L : Ledger} (h : Refines o L) (hs : L.Sound)
    (msg : PendingMessage) : Refines (o.step (.enqueue msg)) (L.step (.enqueue msg)) := by
  obtain ⟨hok, hqueue, hbounded⟩ := enqueue_of_bounded h.bounded msg
  have hlen : L.queued.length = o.buffer.queue.length := by
    simpa using congrArg List.length h.queue
  have hroom : (if bufferCap ≤ L.queued.length then L.queued.tail else L.queued).map
      (fun id => L.messages[id]?) = (kept o.buffer.queue).map some := by
    rw [kept, ← hlen]
    split
    · rw [List.map_tail, h.queue, List.map_tail]
    · exact h.queue
  have hsub : ∀ id ∈ (if bufferCap ≤ L.queued.length then L.queued.tail else L.queued),
      id < L.messages.length := by
    intro id hid
    refine hs.lt_of_queued ?_
    split at hid
    · exact List.mem_of_mem_tail hid
    · exact hid
  refine ⟨hbounded, ?_, ?_, ?_⟩
  · simp only [Observed.step, Ledger.step, hok, if_true, h.messages]
  · simp only [Observed.step, Ledger.step, hqueue, List.map_append]
    rw [map_getElem?_append hsub, hroom]
    simp
  · simp only [Observed.step, Ledger.step]
    rw [← h.drained]
    refine List.map_congr_left fun d hd => ?_
    rw [map_getElem?_append fun id hid => hs.lt_of_ready hd hid]

theorem Refines.drainReady {o : Observed} {L : Ledger} (h : Refines o L) (now : Instant)
    (isKnown : PeerId → Bool) :
    Refines (o.step (.drainReady now isKnown)) (L.step (.drainReady now isKnown)) := by
  refine ⟨bounded_drainReady h.bounded now isKnown, h.messages, ?_, ?_⟩
  · simp only [Observed.step, Ledger.step, drainReady_queue]
    exact map_filter_holds _ h.queue
  · simp only [Observed.step, Ledger.step, List.map_append, h.drained, List.map_cons,
      List.map_nil, drainReady_ready, drainReady_expired]
    rw [map_filter_holds _ h.queue, length_filter_holds _ h.queue]

theorem Refines.step {o : Observed} {L : Ledger} (h : Refines o L) (hs : L.Sound)
    (c : BufferCall) : Refines (o.step c) (L.step c) := by
  cases c with
  | enqueue msg => exact h.enqueue hs msg
  | drainReady now isKnown => exact h.drainReady now isKnown

def ledgerAfter (calls : List BufferCall) : Ledger := run Ledger.step Ledger.new calls

def observedAfter (calls : List BufferCall) : Observed := run Observed.step Observed.start calls

theorem sound_ledgerAfter (calls : List BufferCall) : (ledgerAfter calls).Sound :=
  run_invariant (fun _ c h => h.step c) Ledger.sound_new calls

/-- **The buffer refines the ledger** in every run. -/
theorem refines_after (calls : List BufferCall) :
    Refines (observedAfter calls) (ledgerAfter calls) := by
  induction calls using List.reverseRecOn with
  | nil => exact refines_start
  | append_singleton calls c ih =>
    rw [observedAfter, ledgerAfter, run_append, run_append]
    exact ih.step (sound_ledgerAfter calls) c

/-! ## Conservation -/

theorem ledgerAfter_append (calls : List BufferCall) (c : BufferCall) :
    ledgerAfter (calls ++ [c]) = (ledgerAfter calls).step c := by
  rw [ledgerAfter, run_append]
  rfl

/-- A message that has been accepted, evicted or drained stays so. -/
structure Ledger.Extends (L L' : Ledger) : Prop where
  messages : L.messages <+: L'.messages
  evicted : L.evicted <+: L'.evicted
  drains : L.drains <+: L'.drains

theorem Ledger.Extends.trans {L₁ L₂ L₃ : Ledger} (h : L₁.Extends L₂) (h' : L₂.Extends L₃) :
    L₁.Extends L₃ :=
  ⟨h.messages.trans h'.messages, h.evicted.trans h'.evicted, h.drains.trans h'.drains⟩

theorem Ledger.extends_step (L : Ledger) (c : BufferCall) : L.Extends (L.step c) := by
  cases c with
  | enqueue msg => exact ⟨List.prefix_append .., List.prefix_append .., List.prefix_refl _⟩
  | drainReady now isKnown =>
    exact ⟨List.prefix_refl _, List.prefix_refl _, List.prefix_append ..⟩

theorem extends_ledgerAfter {pre calls : List BufferCall} (h : pre <+: calls) :
    (ledgerAfter pre).Extends (ledgerAfter calls) := by
  obtain ⟨post, rfl⟩ := h
  rw [ledgerAfter, ledgerAfter, run_append]
  exact run_invariant (I := (run Ledger.step Ledger.new pre).Extends)
    (fun L c h => h.trans (L.extends_step c))
    ⟨List.prefix_refl _, List.prefix_refl _, List.prefix_refl _⟩ post

/-- Only an `enqueue` on a full buffer evicts, and it evicts the oldest message. -/
theorem evicted_oldest {calls : List BufferCall} {c : BufferCall} {id : Nat}
    (hid : id ∈ (ledgerAfter (calls ++ [c])).evicted)
    (hnew : id ∉ (ledgerAfter calls).evicted) :
    (∃ msg, c = .enqueue msg) ∧ bufferCap ≤ (observedAfter calls).buffer.queue.length ∧
      (ledgerAfter calls).queued.head? = some id := by
  have hlen : (ledgerAfter calls).queued.length =
      (observedAfter calls).buffer.queue.length := by
    simpa using congrArg List.length (refines_after calls).queue
  rw [ledgerAfter_append] at hid
  cases c with
  | drainReady now isKnown => exact absurd hid hnew
  | enqueue msg =>
    simp only [Ledger.step, List.mem_append, hnew, false_or] at hid
    split at hid
    · next hfull =>
      refine ⟨⟨msg, rfl⟩, by rw [← hlen]; exact hfull, ?_⟩
      simpa using hid
    · cases hid

/-- What holds of the buffer after some calls. -/
structure Conserved (calls : List BufferCall) : Prop where
  refines : Refines (observedAfter calls) (ledgerAfter calls)
  bounded : (observedAfter calls).buffer.queue.length ≤ bufferCap
  /-- Queued, evicted, handed back or expired: each number is found once. -/
  place : (ledgerAfter calls).placed.Perm (List.range (observedAfter calls).accepted.length)
  lasting : ∀ pre, pre <+: calls → (ledgerAfter pre).Extends (ledgerAfter calls)
  oldest : ∀ pre c id, pre ++ [c] <+: calls → id ∈ (ledgerAfter (pre ++ [c])).evicted →
    id ∉ (ledgerAfter pre).evicted → (∃ msg, c = .enqueue msg) ∧
      bufferCap ≤ (observedAfter pre).buffer.queue.length ∧
      (ledgerAfter pre).queued.head? = some id
  queueOrder : (ledgerAfter calls).queued.Pairwise (· < ·)
  readyOrder : ∀ d ∈ (ledgerAfter calls).drains, d.ready.Pairwise (· < ·)
  readyValid : ∀ d ∈ (ledgerAfter calls).drains, ∀ id ∈ d.ready, ∃ m,
    (ledgerAfter calls).messages[id]? = some m ∧ m.isExpired d.now = false ∧
      d.isKnown m.publisher = true
  counters : ∀ p c, (observedAfter calls).buffer.counts.peek p = some c →
    c ≤ countOf p (observedAfter calls).buffer.queue

/-- **Conservation.**  After any calls every accepted message is in exactly one place, the
order of arrival is kept, and no counter is above what is queued. -/
theorem conservation (calls : List BufferCall) : Conserved calls where
  refines := refines_after calls
  bounded := (refines_after calls).bounded.length
  place := (refines_after calls).messages ▸ (sound_ledgerAfter calls).place
  lasting _ h := extends_ledgerAfter h
  oldest _ _ _ _ hid hnew := evicted_oldest hid hnew
  queueOrder := (sound_ledgerAfter calls).queueOrder
  readyOrder := (sound_ledgerAfter calls).readyOrder
  readyValid := (sound_ledgerAfter calls).readyValid
  counters := (refines_after calls).bounded.counts

end VerifyBuffer

end Parseh.Miner
