import Parseh.Shared.Writers

/-!
# Tailing the outcomes (`parseh tail`, `cmd_tail`)

The tail polls `deltas_since` with a watermark of whole seconds and moves it to
the latest second it has printed.  The query asks for seconds strictly after the
watermark, so an outcome recorded later in a second that is already behind the
watermark is never printed.

* `deltasSince_ok`: what one poll gets;
* `Tracks` and `Missed`: an outcome is printed once when the watermark passes it,
  and never if it was behind the watermark when it was recorded;
* `tail_lossless_iff`: every outcome recorded after the start is printed exactly
  once, if and only if each came in a second after the start and after those of
  the outcomes printed before.
-/

namespace Parseh.Shared

open Parseh.Lib Parseh.Wire

variable {W : Type}

/-! ## `deltas_since` -/

/-- `t.max(0) as u64`. -/
def clampSecs (t : Int64) : UInt64 := if t < 0 then 0 else t.toUInt64

theorem clampSecs_of_nonneg {t : Int64} (h : 0 ≤ t.toInt) :
    (clampSecs t).toInt64 = t ∧ ((clampSecs t).toNat : Int) = t.toInt := by
  have hneg : ¬ t < 0 := by
    rw [Int64.lt_iff_toInt_lt]
    exact Int.not_lt.mpr h
  rw [clampSecs, if_neg hneg]
  have hlt : t.toUInt64.toNat < 2 ^ 63 := lt_of_toInt_toInt64 h
  exact ⟨rfl, (toInt_toInt64_of_lt hlt).symm⟩

theorem clampSecs_lt (t : Int64) : (clampSecs t).toNat < 2 ^ 63 := by
  unfold clampSecs
  split
  · decide
  · next h =>
    rw [Int64.lt_iff_toInt_lt, Int.not_lt] at h
    exact lt_of_toInt_toInt64 h

/-- The hash of the outcome a delta carries. -/
def carriedHash (x : Externals W) (d : StateDelta W) : Option ContentHash :=
  match d.kind with
  | .outcome o => some (o.contentHash x)
  | _ => none

namespace SharedState

variable (x : Externals W)

/-- The outcome rows observed strictly after a second, by `observed_at`. -/
def outcomeRowsAfter (s : SharedState) (observedAtAfter : UInt64) : List OutcomeRow :=
  sortByKey (fun r => r.observedAt.toInt)
    (s.outcomes.rows.filter fun r => observedAtAfter.toInt64.toInt < r.observedAt.toInt)

/-- The unsigned delta of a row whose body decodes. -/
def rowDelta (r : OutcomeRow) : Option (StateDelta W) :=
  (x.outcomeCbor.decode r.outcomeCbor).map fun o =>
    StateDelta.unsigned (.outcome o) o.observedBy (clampSecs r.observedAt)

/-- `deltas_since`; one body that does not decode fails the query. -/
def deltasSince (s : SharedState) (observedAtAfter : UInt64) :
    Except StoreError (List (StateDelta W)) :=
  (s.outcomeRowsAfter observedAtAfter).mapM fun r =>
    okOr (rowDelta x r) (.cborDecode "outcome_cbor")

end SharedState

/-! ## The tail -/

/-- The loop of `cmd_tail`: its watermark, the deltas it has printed, and whether
it has returned. -/
structure Tail (W : Type) where
  watermark : UInt64
  emitted : List (StateDelta W)
  finished : Bool

namespace Tail

/-- The tail starts at the second of the clock. -/
def start (timestamp : Int64) : Tail W := ⟨clampSecs timestamp, [], false⟩

/-- Print one delta; a nonzero `limit` of lines ends the loop. -/
def emit (limit : Nat) (t : Tail W) (d : StateDelta W) : Tail W :=
  if t.finished then t
  else
    let emitted := t.emitted ++ [d]
    { watermark := max t.watermark d.observedAt
      emitted
      finished := limit ≠ 0 ∧ limit ≤ emitted.length }

/-- One turn of the loop; an error of the query ends it. -/
def poll (x : Externals W) (limit : Nat) (s : SharedState) (t : Tail W) : Tail W :=
  if t.finished then t
  else
    match s.deltasSince x t.watermark with
    | .error _ => { t with finished := true }
    | .ok deltas => deltas.foldl (emit limit) t

end Tail

/-- A writer of the store, or the tail taking a turn. -/
inductive TailEvent (W : Type)
  | write (c : Call W)
  | poll

/-- The codec reads back the outcome a writer carries. -/
def TailEvent.Decodes (x : Externals W) : TailEvent W → Prop
  | .write c => ∀ o, c.Carries o → x.outcomeCbor.decode (x.outcomeCbor.encode o) = some o
  | .poll => True

/-- The store and the tail that reads it. -/
structure Tailed (W : Type) where
  store : SharedState
  tail : Tail W

namespace Tailed

def step (x : Externals W) (s : Tailed W) : TailEvent W → Tailed W
  | .write c => { s with store := s.store.write x c }
  | .poll => { s with tail := s.tail.poll x 0 s.store }

/-- How often the tail has printed the outcome with the given hash. -/
def printed (x : Externals W) (s : Tailed W) (h : ContentHash) : Nat :=
  s.tail.emitted.countP fun d => carriedHash x d = some h

/-! ## One poll -/

theorem foldl_emit (deltas : List (StateDelta W)) (t : Tail W) (h : t.finished = false) :
    deltas.foldl (Tail.emit 0) t =
      ⟨(deltas.map (·.observedAt)).foldl max t.watermark, t.emitted ++ deltas, false⟩ := by
  induction deltas generalizing t with
  | nil =>
    obtain ⟨w, e, f⟩ := t
    have hf : f = false := h
    simp [hf]
  | cons d deltas ih =>
    have hemit : t.emit 0 d = ⟨max t.watermark d.observedAt, t.emitted ++ [d], false⟩ := by
      simp [Tail.emit, h]
    rw [List.foldl_cons, hemit, ih _ rfl]
    simp

/-- The watermark after a poll is the old one or a second just printed, and is
behind none of them. -/
theorem foldl_max_spec (l : List UInt64) (w : UInt64) :
    w ≤ l.foldl max w ∧ (∀ t ∈ l, t ≤ l.foldl max w) ∧ (l.foldl max w = w ∨ l.foldl max w ∈ l) := by
  induction l generalizing w with
  | nil => exact ⟨UInt64.le_refl w, by simp, Or.inl rfl⟩
  | cons t l ih =>
    obtain ⟨hle, hall, horig⟩ := ih (max w t)
    have hmax := le_max_time w t
    refine ⟨UInt64.le_trans hmax.1 hle, ?_, ?_⟩
    · intro u hu
      rcases List.mem_cons.mp hu with rfl | hu
      · exact UInt64.le_trans hmax.2 hle
      · exact hall u hu
    · rcases horig with heq | hmem
      · rcases max_time_eq w t with hm | hm
        · exact Or.inl (heq.trans hm)
        · exact Or.inr (List.mem_cons.mpr (Or.inl (heq.trans hm)))
      · exact Or.inr (List.mem_cons_of_mem t hmem)

/-- The row of an outcome whose body decodes. -/
def Readable (x : Externals W) (r : OutcomeRow) : Prop :=
  ∃ o now, r = SharedState.outcomeRow x o now ∧
    x.outcomeCbor.decode (x.outcomeCbor.encode o) = some o

theorem Readable.rowDelta {x : Externals W} {r : OutcomeRow} (h : Readable x r) :
    ∃ d, SharedState.rowDelta x r = some d ∧ d.observedAt = clampSecs r.observedAt ∧
      carriedHash x d = some r.outcomeHash := by
  obtain ⟨o, now, rfl, hdec⟩ := h
  have hbody : x.outcomeCbor.decode (SharedState.outcomeRow x o now).outcomeCbor = some o := hdec
  exact ⟨_, by rw [SharedState.rowDelta, hbody]; rfl, rfl, rfl⟩

theorem observedAt_rowDelta {x : Externals W} {rows : List OutcomeRow}
    (h : ∀ r ∈ rows, Readable x r) :
    (rows.filterMap (SharedState.rowDelta x)).map (·.observedAt) =
      rows.map (clampSecs ·.observedAt) := by
  induction rows with
  | nil => rfl
  | cons r rows ih =>
    obtain ⟨d, hd, hobs, -⟩ := (h r (by simp)).rowDelta
    rw [List.filterMap_cons_some hd, List.map_cons, List.map_cons, hobs,
      ih fun r' hr' => h r' (by simp [hr'])]

theorem countP_rowDelta {x : Externals W} {rows : List OutcomeRow}
    (h : ∀ r ∈ rows, Readable x r) (hash : ContentHash) :
    (rows.filterMap (SharedState.rowDelta x)).countP (fun d => carriedHash x d = some hash) =
      rows.countP fun r => r.outcomeHash = hash := by
  induction rows with
  | nil => rfl
  | cons r rows ih =>
    obtain ⟨d, hd, -, hhash⟩ := (h r (by simp)).rowDelta
    rw [List.filterMap_cons_some hd, List.countP_cons, List.countP_cons, hhash,
      ih fun r' hr' => h r' (by simp [hr'])]
    simp

theorem deltasSince_ok {x : Externals W} {s : SharedState}
    (h : ∀ r ∈ s.outcomes.rows, Readable x r) (w : UInt64) :
    s.deltasSince x w = .ok ((s.outcomeRowsAfter w).filterMap (SharedState.rowDelta x)) := by
  refine SharedState.mapM_okOr_of_isSome (fun r hr => ?_) _
  have hmem : r ∈ s.outcomes.rows := (List.mem_filter.mp (mem_sortByKey.mp hr)).1
  obtain ⟨d, hd, -⟩ := (h r hmem).rowDelta
  rw [hd]
  rfl

/-! ## What holds in every run -/

/-- What every run of writers and polls keeps: the tail goes on, it prints only
what is stored, and its watermark is the start or the latest second printed. -/
structure TailInv (x : Externals W) (timestamp : Int64) (old : SharedState) (s : Tailed W) :
    Prop where
  alive : s.tail.finished = false
  readable : ∀ r ∈ s.store.outcomes.rows, Readable x r
  kept : SharedState.Keeps old s.store
  absent : ∀ h, s.store.outcomes.contains h = false → s.printed x h = 0
  small : s.tail.watermark.toNat < 2 ^ 63
  lower : clampSecs timestamp ≤ s.tail.watermark ∧
    ∀ d ∈ s.tail.emitted, d.observedAt ≤ s.tail.watermark
  attained : s.tail.watermark = clampSecs timestamp ∨
    ∃ d ∈ s.tail.emitted, d.observedAt = s.tail.watermark

section Step

variable {x : Externals W} {timestamp : Int64} {old : SharedState} {s : Tailed W}

theorem TailInv.readable_after (h : TailInv x timestamp old s) :
    ∀ r ∈ s.store.outcomeRowsAfter s.tail.watermark, Readable x r := fun r hr =>
  h.readable r (List.mem_filter.mp (mem_sortByKey.mp hr)).1

/-- The tail after a poll. -/
theorem TailInv.poll_eq (h : TailInv x timestamp old s) :
    s.tail.poll x 0 s.store =
      ⟨((s.store.outcomeRowsAfter s.tail.watermark).map (clampSecs ·.observedAt)).foldl max
          s.tail.watermark,
        s.tail.emitted ++
          (s.store.outcomeRowsAfter s.tail.watermark).filterMap (SharedState.rowDelta x),
        false⟩ := by
  rw [Tail.poll, if_neg (by simp [h.alive]), deltasSince_ok h.readable]
  dsimp only
  rw [foldl_emit _ _ h.alive, observedAt_rowDelta h.readable_after]

/-- A poll prints the rows after the watermark. -/
theorem TailInv.printed_poll (h : TailInv x timestamp old s) (hash : ContentHash) :
    (s.step x .poll).printed x hash = s.printed x hash +
      (s.store.outcomes.rows.filter fun r =>
        s.tail.watermark.toInt64.toInt < r.observedAt.toInt).countP
          fun r => r.outcomeHash = hash := by
  simp only [printed, step, h.poll_eq, List.countP_append]
  rw [countP_rowDelta h.readable_after, SharedState.outcomeRowsAfter, (sortByKey_perm_self _ _).countP_eq]

/-- A stored row is printed by the poll exactly when it is after the watermark. -/
theorem TailInv.printed_poll_row (h : TailInv x timestamp old s) {r : OutcomeRow}
    (hr : r ∈ s.store.outcomes.rows) :
    (s.step x .poll).printed x r.outcomeHash = s.printed x r.outcomeHash +
      if (s.tail.watermark.toNat : Int) < r.observedAt.toInt then 1 else 0 := by
  rw [h.printed_poll, Keyed.countP_filter_key s.store.outcomes _ hr, toInt_toInt64_of_lt h.small]
  simp

/-- The watermark after a poll is the latest of the old one and the seconds of the rows
after it. -/
theorem TailInv.watermark_spec (h : TailInv x timestamp old s) :
    s.tail.watermark ≤ (s.step x .poll).tail.watermark ∧
      (∀ t ∈ (s.store.outcomeRowsAfter s.tail.watermark).map (clampSecs ·.observedAt),
        t ≤ (s.step x .poll).tail.watermark) ∧
      ((s.step x .poll).tail.watermark = s.tail.watermark ∨
        (s.step x .poll).tail.watermark ∈
          (s.store.outcomeRowsAfter s.tail.watermark).map (clampSecs ·.observedAt)) := by
  simp only [step, h.poll_eq]
  exact foldl_max_spec _ _

/-- The poll moves the watermark on, to the second of every row there is. -/
theorem TailInv.watermark_poll (h : TailInv x timestamp old s) {r : OutcomeRow}
    (hr : r ∈ s.store.outcomes.rows) :
    r.observedAt.toInt ≤ (s.step x .poll).tail.watermark.toNat := by
  obtain ⟨hmove, hafter, -⟩ := h.watermark_spec
  by_cases hlt : (s.tail.watermark.toNat : Int) < r.observedAt.toInt
  · have hmem : r ∈ s.store.outcomeRowsAfter s.tail.watermark := by
      refine mem_sortByKey.mpr (List.mem_filter.mpr ⟨hr, ?_⟩)
      rw [toInt_toInt64_of_lt h.small]
      exact decide_eq_true hlt
    have hle := UInt64.le_iff_toNat_le.mp (hafter _ (List.mem_map_of_mem hmem))
    have hnonneg : 0 ≤ r.observedAt.toInt := by omega
    have hclamp := (clampSecs_of_nonneg hnonneg).2
    omega
  · have hle := UInt64.le_iff_toNat_le.mp hmove
    omega

/-- What a writer leaves of the invariant. -/
theorem TailInv.write (h : TailInv x timestamp old s) {c : Call W}
    (hc : TailEvent.Decodes x (.write c)) : TailInv x timestamp old (s.step x (.write c)) where
  alive := h.alive
  readable := by
    intro r hr
    have hg := SharedState.write_grown x s.store c
    have hr : r ∈ (s.store.write x c).outcomes.rows := hr
    rw [hg.outcomes] at hr
    rcases Keyed.mem_of_mem_insertAll hr with hold | hnew
    · exact h.readable r hold
    · obtain ⟨o, hcar, heq⟩ := SharedState.acceptedOutcomes_of_mem hnew
      rw [heq, List.mem_singleton] at hnew
      exact ⟨o, c.now, hnew, hc o hcar⟩
  kept := h.kept.trans (SharedState.write_grown x s.store c).keeps
  absent := by
    intro hash hnot
    refine h.absent hash ?_
    rw [Keyed.contains_eq_false_iff] at hnot ⊢
    exact fun r hr => hnot r ((SharedState.write_grown x s.store c).keeps.outcomes r hr)
  small := h.small
  lower := h.lower
  attained := h.attained

theorem TailInv.poll (h : TailInv x timestamp old s) :
    TailInv x timestamp old (s.step x .poll) where
  alive := by simp [step, h.poll_eq]
  readable := h.readable
  kept := h.kept
  absent := by
    intro hash hnot
    have hnot : s.store.outcomes.contains hash = false := hnot
    rw [h.printed_poll, h.absent hash hnot, Nat.zero_add, List.countP_eq_zero]
    intro r hr
    rw [decide_eq_true_iff]
    exact Keyed.contains_eq_false_iff.mp hnot r (List.mem_filter.mp hr).1
  small := by
    rcases h.watermark_spec.2.2 with heq | hmem
    · rw [heq]
      exact h.small
    · obtain ⟨r, -, heq⟩ := List.mem_map.mp hmem
      rw [← heq]
      exact clampSecs_lt _
  lower := by
    obtain ⟨hmove, hafter, -⟩ := h.watermark_spec
    refine ⟨UInt64.le_trans h.lower.1 hmove, fun d hd => ?_⟩
    simp only [step, h.poll_eq, List.mem_append] at hd
    rcases hd with hd | hd
    · exact UInt64.le_trans (h.lower.2 d hd) hmove
    · refine hafter _ ?_
      rw [← observedAt_rowDelta h.readable_after]
      exact List.mem_map_of_mem hd
  attained := by
    have hemitted : (s.step x .poll).tail.emitted = s.tail.emitted ++
        (s.store.outcomeRowsAfter s.tail.watermark).filterMap (SharedState.rowDelta x) := by
      simp only [step, h.poll_eq]
    simp only [hemitted, List.mem_append]
    rcases h.watermark_spec.2.2 with heq | hmem
    · rw [heq]
      refine h.attained.imp_right ?_
      rintro ⟨d, hd, hobs⟩
      exact ⟨d, Or.inl hd, hobs⟩
    · rw [← observedAt_rowDelta h.readable_after] at hmem
      obtain ⟨d, hd, heq⟩ := List.mem_map.mp hmem
      exact Or.inr ⟨d, Or.inr hd, heq⟩

theorem tailInv_step {e : TailEvent W} (he : e.Decodes x) (h : TailInv x timestamp old s) :
    TailInv x timestamp old (s.step x e) := by
  cases e with
  | write c => exact h.write he
  | poll => exact h.poll

/-! ## Printed once, or never -/

/-- A new row has been printed once if the watermark has reached it, and not at
all before. -/
def Tracks (x : Externals W) (old : SharedState) (s : Tailed W) : Prop :=
  ∀ r ∈ s.store.outcomes.rows, r ∉ old.outcomes.rows →
    s.printed x r.outcomeHash =
      if r.observedAt.toInt ≤ (s.tail.watermark.toNat : Int) then 1 else 0

/-- The row was behind the watermark before it was printed. -/
structure Missed (x : Externals W) (r : OutcomeRow) (s : Tailed W) : Prop where
  stored : r ∈ s.store.outcomes.rows
  behind : r.observedAt.toInt ≤ (s.tail.watermark.toNat : Int)
  unprinted : s.printed x r.outcomeHash = 0

/-- A new outcome comes in a second after the start of the tail and after the
seconds of the outcomes printed so far. -/
def FreshSecond (x : Externals W) (timestamp : Int64) (s : Tailed W) : TailEvent W → Prop
  | .write c => ∀ r ∈ c.acceptedOutcomes x s.store,
    s.store.outcomes.contains r.outcomeHash = false →
      ((clampSecs timestamp).toNat : Int) < c.now.toInt ∧
        ∀ d ∈ s.tail.emitted, (d.observedAt.toNat : Int) < c.now.toInt
  | .poll => True

/-- To be after all these seconds is to be after the watermark. -/
theorem TailInv.after_watermark (h : TailInv x timestamp old s) (now : Int) :
    (((clampSecs timestamp).toNat : Int) < now ∧
      ∀ d ∈ s.tail.emitted, (d.observedAt.toNat : Int) < now) ↔
        (s.tail.watermark.toNat : Int) < now := by
  constructor
  · rintro ⟨hstart, hall⟩
    rcases h.attained with heq | ⟨d, hd, heq⟩
    · rw [heq]
      exact hstart
    · rw [← heq]
      exact hall d hd
  · intro hlt
    have hstart := UInt64.le_iff_toNat_le.mp h.lower.1
    refine ⟨by omega, fun d hd => ?_⟩
    have hle := UInt64.le_iff_toNat_le.mp (h.lower.2 d hd)
    omega

theorem tracks_step {e : TailEvent W} (he : FreshSecond x timestamp s e)
    (h : TailInv x timestamp old s) (ht : Tracks x old s) : Tracks x old (s.step x e) := by
  intro r hr hnew
  cases e with
  | write c =>
    have hr : r ∈ (s.store.write x c).outcomes.rows := hr
    rw [(SharedState.write_grown x s.store c).outcomes, Keyed.mem_insertAll] at hr
    rcases hr with hold | ⟨hfree, hfind⟩
    · exact ht r hold hnew
    · have hmem := List.mem_of_find?_eq_some hfind
      obtain ⟨o, -, heq⟩ := SharedState.acceptedOutcomes_of_mem hmem
      have hobs : r.observedAt = c.now := by
        rw [heq, List.mem_singleton] at hmem
        rw [hmem]
        rfl
      have hlt := (h.after_watermark c.now.toInt).mp (he r hmem hfree)
      have hzero : (s.step x (.write c)).printed x r.outcomeHash = 0 := h.absent _ hfree
      rw [hzero, hobs, if_neg]
      exact Int.not_le.mpr hlt
  | poll =>
    have hr : r ∈ s.store.outcomes.rows := hr
    rw [h.printed_poll_row hr, ht r hr hnew, if_pos (h.watermark_poll hr)]
    split <;> split <;> omega

theorem missed_step {r : OutcomeRow} (e : TailEvent W) (h : TailInv x timestamp old s)
    (hm : Missed x r s) : Missed x r (s.step x e) := by
  cases e with
  | write c =>
    exact ⟨(SharedState.write_grown x s.store c).keeps.outcomes r hm.stored, hm.behind,
      hm.unprinted⟩
  | poll =>
    refine ⟨hm.stored, h.watermark_poll hm.stored, ?_⟩
    rw [h.printed_poll_row hm.stored, hm.unprinted, if_neg (Int.not_lt.mpr hm.behind)]

end Step

/-- A row that is behind the watermark when it is recorded stays unprinted. -/
theorem missed_of_late {x : Externals W} {timestamp : Int64} {old : SharedState} {s : Tailed W}
    (h : TailInv x timestamp old s) {c : Call W} {r : OutcomeRow}
    (hr : r ∈ c.acceptedOutcomes x s.store)
    (hfree : s.store.outcomes.contains r.outcomeHash = false)
    (hlate : c.now.toInt ≤ (s.tail.watermark.toNat : Int)) :
    Missed x r (s.step x (.write c)) := by
  obtain ⟨o, -, heq⟩ := SharedState.acceptedOutcomes_of_mem hr
  rw [heq, List.mem_singleton] at hr
  refine ⟨?_, ?_, h.absent _ hfree⟩
  · have hin : r ∈ (s.store.write x c).outcomes.rows := by
      rw [(SharedState.write_grown x s.store c).outcomes, heq, Keyed.mem_insertAll, ← hr]
      exact Or.inr ⟨hfree, by simp⟩
    exact hin
  · rw [hr]
    exact hlate

/-- A store written by `before`, and a tail started on it at `timestamp`. -/
def opened (x : Externals W) (before : List (Call W)) (timestamp : Int64) : Tailed W :=
  ⟨run (SharedState.write x) .empty before, Tail.start timestamp⟩

theorem tailInv_opened {x : Externals W} {before : List (Call W)}
    (h : ∀ c ∈ before, TailEvent.Decodes x (.write c)) (timestamp : Int64) :
    TailInv x timestamp (run (SharedState.write x) .empty before)
      (opened x before timestamp) where
  alive := rfl
  readable := by
    intro r hr
    obtain ⟨c, hc, o, hcar, heq⟩ := SharedState.outcomeRow_origin hr
    exact ⟨o, c.now, heq, h c hc o hcar⟩
  kept := SharedState.Keeps.refl _
  absent _ _ := rfl
  small := clampSecs_lt timestamp
  lower := ⟨UInt64.le_refl _, fun d hd => nomatch hd⟩
  attained := Or.inl rfl

/-- After the events and one more poll, every outcome recorded since the tail was
started has been printed, and once only. -/
def Lossless (x : Externals W) (old : SharedState) (s : Tailed W) (es : List (TailEvent W)) :
    Prop :=
  ∀ r ∈ (run (step x) s (es ++ [.poll])).store.outcomes.rows, r ∉ old.outcomes.rows →
    (run (step x) s (es ++ [.poll])).printed x r.outcomeHash = 1

theorem lossless_of_fresh {x : Externals W} {timestamp : Int64} {old : SharedState}
    {s : Tailed W} {es : List (TailEvent W)} (hdec : ∀ e ∈ es, e.Decodes x)
    (h : TailInv x timestamp old s) (ht : Tracks x old s)
    (hg : Guarded (step x) (FreshSecond x timestamp) s es) : Lossless x old s es := by
  have hboth := hg.and ((guarded_const s es).mpr hdec)
  have hend : TailInv x timestamp old (run (step x) s es) ∧ Tracks x old (run (step x) s es) :=
    hboth.invariant (I := fun s => TailInv x timestamp old s ∧ Tracks x old s)
      (fun s e hge hinv => ⟨tailInv_step hge.2 hinv.1, tracks_step hge.1 hinv.1 hinv.2⟩) ⟨h, ht⟩
  intro r hr hnew
  rw [run_append] at hr ⊢
  have htracks := tracks_step (e := .poll) trivial hend.1 hend.2
  exact (htracks r hr hnew).trans (if_pos (hend.1.watermark_poll hr))

theorem fresh_of_lossless {x : Externals W} {timestamp : Int64} {old : SharedState}
    {s : Tailed W} {es : List (TailEvent W)} (hdec : ∀ e ∈ es, e.Decodes x)
    (h : TailInv x timestamp old s) (hl : Lossless x old s es) :
    Guarded (step x) (FreshSecond x timestamp) s es := by
  induction es generalizing s with
  | nil => exact trivial
  | cons e es ih =>
    have hinv := tailInv_step (hdec e (by simp)) h
    refine ⟨?_, ih (fun e' he' => hdec e' (by simp [he'])) hinv hl⟩
    cases e with
    | poll => exact trivial
    | write c =>
      intro r hr hfree
      rw [h.after_watermark]
      by_contra hlate
      -- the row is missed, and the rest of the run does not print it either
      have hmiss := missed_of_late h hr hfree (Int.not_lt.mp hlate)
      have hdec' : Guarded (step x) (fun _ e => TailEvent.Decodes x e) (s.step x (.write c))
          (es ++ [.poll]) := by
        rw [guarded_const]
        intro e he
        rcases List.mem_append.mp he with he | he
        · exact hdec e (by simp [he])
        · rw [List.mem_singleton.mp he]
          exact trivial
      have hend := hdec'.invariant (I := fun s => TailInv x timestamp old s ∧ Missed x r s)
        (fun s e he hs => ⟨tailInv_step he hs.1, missed_step e hs.1 hs.2⟩) ⟨hinv, hmiss⟩
      have hnew : r ∉ old.outcomes.rows := by
        intro hold
        have hcon := Keyed.contains_of_mem (h.kept.outcomes r hold)
        rw [hfree] at hcon
        cases hcon
      have hone := hl r hend.2.stored hnew
      exact absurd (hend.2.unprinted.symm.trans hone) (by decide)

/-- **The tail.**  A tail is started on a store the writers have built, and
writers and polls follow in any order and at any seconds.  Every outcome recorded
after the start is printed by exactly one poll if and only if each was recorded
in a second after the start and after those of the outcomes printed before it. -/
theorem tail_lossless_iff (x : Externals W) (before : List (Call W)) (timestamp : Int64)
    (es : List (TailEvent W))
    (hround : ∀ c, c ∈ before ∨ TailEvent.write c ∈ es → ∀ o, c.Carries o →
      x.outcomeCbor.decode (x.outcomeCbor.encode o) = some o) :
    Lossless x (run (SharedState.write x) .empty before) (opened x before timestamp) es ↔
      Guarded (step x) (FreshSecond x timestamp) (opened x before timestamp) es := by
  have hinv := tailInv_opened (fun c hc => hround c (Or.inl hc)) timestamp
  have hdec : ∀ e ∈ es, e.Decodes x := by
    intro e he
    cases e with
    | write c => exact hround c (Or.inr he)
    | poll => exact trivial
  have htracks : Tracks x (run (SharedState.write x) .empty before)
      (opened x before timestamp) := fun r hr hnew => absurd hr hnew
  exact ⟨fresh_of_lossless hdec hinv, lossless_of_fresh hdec hinv htracks⟩

instance (x : Externals W) (old : SharedState) (s : Tailed W) (es : List (TailEvent W)) :
    Decidable (Lossless x old s es) :=
  inferInstanceAs (Decidable (∀ r ∈ (run (step x) s (es ++ [.poll])).store.outcomes.rows,
    r ∉ old.outcomes.rows → (run (step x) s (es ++ [.poll])).printed x r.outcomeHash = 1))

instance FreshSecond.decide (x : Externals W) (timestamp : Int64) (s : Tailed W) :
    ∀ e : TailEvent W, Decidable (FreshSecond x timestamp s e)
  | .write c => inferInstanceAs (Decidable (∀ r ∈ c.acceptedOutcomes x s.store,
      s.store.outcomes.contains r.outcomeHash = false →
        ((clampSecs timestamp).toNat : Int) < c.now.toInt ∧
          ∀ d ∈ s.tail.emitted, (d.observedAt.toNat : Int) < c.now.toInt))
  | .poll => inferInstanceAs (Decidable True)

/-- The outcomes of two results. -/
def tailedOutcome (n : UInt8) : JobOutcome ℚ := outcomeOf (hashOf 1) (hashOf n) .indeterminate 9 3

/-- Externals whose codec knows the two outcomes. -/
def tailExternals : Externals ℚ :=
  { Externals.bare with
    outcomeCbor := Codec.ofTable [([1], tailedOutcome 1), ([2], tailedOutcome 2)] }

/-- The first outcome at second 10, a poll, and the second outcome at second `t`. -/
def tailedEvents (t : Int64) : List (TailEvent ℚ) :=
  [.write ⟨10, .recordSyncedOutcome (tailedOutcome 1)⟩, .poll,
    .write ⟨t, .recordSyncedOutcome (tailedOutcome 2)⟩]

/-- A poll between two outcomes of one second loses the second of them. -/
theorem second_outcome_lost :
    ¬ Lossless tailExternals .empty (opened tailExternals [] 5) (tailedEvents 10) := by
  decide +kernel

/-- In the next second it is printed. -/
theorem second_outcome_printed :
    Lossless tailExternals .empty (opened tailExternals [] 5) (tailedEvents 11) := by
  refine (tail_lossless_iff tailExternals [] 5 (tailedEvents 11) ?_).mpr (by decide +kernel)
  intro c hc o ho
  have hc : c = ⟨10, .recordSyncedOutcome (tailedOutcome 1)⟩ ∨
      c = ⟨11, .recordSyncedOutcome (tailedOutcome 2)⟩ := by
    simpa [tailedEvents] using hc
  rcases hc with rfl | rfl <;> cases ho <;> decide +kernel

end Tailed

end Parseh.Shared
