import Parseh.Miner.Isolation
import Parseh.Miner.SyncAnswer
import Parseh.Miner.Writes

/-!
# Asking for missed outcomes (`parseh-miner`, `main.rs`)

A node that was alone for thirty seconds, and every node each five minutes, asks one
connected peer for the outcomes of the last half hour, or of the last ten minutes.
The window is widened back to the newest outcome of the node's own store, so that a
node with an old store asks for all it has missed.

* `effectiveSince_le_iff`: a second is asked for exactly when the caller asks for it
  or nothing newer is held;
* `catchUp_exact`: when a request is sent, to whom, what it covers and what the
  answer leaves in the store;
* `gap_abandoned`: a hole behind a newer outcome, once older than the lookback, is
  asked for by no later request.
-/

namespace Parseh.Core

/-- `ReputationBand`. -/
inductive ReputationBand
  | new | probationary | established | trusted | slashed
  deriving DecidableEq, Repr

/-- `ReputationBand::from_score`. -/
def ReputationBand.fromScore (score : Int) : ReputationBand :=
  if score ≤ 9 then .new
  else if score ≤ 99 then .probationary
  else if score ≤ 999 then .established
  else .trusted

end Parseh.Core

namespace Parseh.Miner

open Parseh.Lib Parseh.Wire Parseh.Core Parseh.Shared

variable {W : Type}

/-! ## The responder -/

/-- `Iterator::max_by_key`: of several greatest elements the last. -/
def maxByKey {A : Type} (key : A → Nat) : List A → Option A
  | [] => none
  | a :: l => some (l.foldl (fun best b => if key best ≤ key b then b else best) a)

/-- `a` is the last of the greatest elements of the list. -/
def LastGreatest {A : Type} (key : A → Nat) (l : List A) (a : A) : Prop :=
  ∃ before after, l = before ++ a :: after ∧ (∀ b ∈ before, key b ≤ key a) ∧
    ∀ b ∈ after, key b < key a

theorem lastGreatest_foldl {A : Type} {key : A → Nat} (l : List A) {seen : List A} {a : A}
    (h : LastGreatest key seen a) :
    LastGreatest key (seen ++ l)
      (l.foldl (fun best b => if key best ≤ key b then b else best) a) := by
  induction l generalizing seen a with
  | nil => simpa using h
  | cons b l ih =>
    obtain ⟨before, after, rfl, hbefore, hafter⟩ := h
    rw [List.foldl_cons, List.append_cons]
    apply ih
    split
    · next hle =>
      refine ⟨before ++ a :: after, [], rfl, fun d hd => ?_, by simp⟩
      rcases List.mem_append.mp hd with hd | hd
      · exact (hbefore d hd).trans hle
      · rcases List.mem_cons.mp hd with rfl | hd
        · exact hle
        · exact (hafter d hd).le.trans hle
    · next hlt =>
      refine ⟨before, after ++ [b], by simp, hbefore, fun d hd => ?_⟩
      rcases List.mem_append.mp hd with hd | hd
      · exact hafter d hd
      · rw [List.mem_singleton.mp hd]
        omega

theorem lastGreatest_maxByKey {A : Type} {key : A → Nat} {l : List A} {a : A}
    (h : maxByKey key l = some a) : LastGreatest key l a := by
  cases l with
  | nil => cases h
  | cons b l =>
    obtain rfl := Option.some.inj h
    have hfirst : LastGreatest key [b] b := ⟨[], [], rfl, by simp, by simp⟩
    exact lastGreatest_foldl l hfirst

/-- How much a band is preferred. -/
def bandPreference : ReputationBand → Nat
  | .trusted => 4
  | .established => 3
  | .probationary => 2
  | .new => 1
  | .slashed => 0

/-- How much a peer is preferred, by its reputation in the store. -/
def peerPreference (shared : SharedState) (p : PeerId) : Nat :=
  bandPreference (ReputationBand.fromScore (shared.reputationOf p))

/-! ## The request -/

def stateSyncMaxPartitionWindowSecs : Nat := 1800
def stateSyncBackstopLookbackSecs : Nat := 600

/-- `effective_since`: the caller's second or that of the newest outcome held,
whichever is older; everything if none is held. -/
def effectiveSince (x : Externals W) (shared : SharedState) (since : UInt64) : UInt64 :=
  match shared.outcomesSince x 0 1 with
  | .ok v =>
    match v.head? with
    | some newest => if since ≤ newest.finalisedAt then since else newest.finalisedAt
    | none => 0
  | .error _ => since

/-- `issue_state_sync_request`: the peer asked and the request; none without
connected peers. -/
def issueStateSyncRequest (c : Ctx W) (clock : Clock) (connected : List PeerId)
    (shared : SharedState) (since : UInt64) : Option (PeerId × StateSyncRequest) :=
  match connected with
  | [] => none
  | first :: _ =>
    some ((maxByKey (peerPreference shared) connected).getD first,
      StateSyncRequest.newSigned c.x (effectiveSince c.x shared since) stateSyncHardCeiling
        c.localPeerId (unixNow clock.wall) c.signingKey)

/-- `unix_now().saturating_sub(lookback)`. -/
def lookbackFrom (clock : Clock) (lookback : Nat) : UInt64 :=
  UInt64.ofNat ((unixNow clock.wall).toNat - lookback)

/-- What the node sends on `ConnectionEstablished`, given what the tracker returned. -/
def catchUp (c : Ctx W) (clock : Clock) (connected : List PeerId) (shared : SharedState)
    (isolationGap : Option UInt64) : Option (PeerId × StateSyncRequest) :=
  match isolationGap with
  | some _ => issueStateSyncRequest c clock connected shared
      (lookbackFrom clock stateSyncMaxPartitionWindowSecs)
  | none => none

/-- What the node sends on the tick of `state_sync_backstop_tick`. -/
def backstop (c : Ctx W) (clock : Clock) (connected : List PeerId) (shared : SharedState) :
    Option (PeerId × StateSyncRequest) :=
  issueStateSyncRequest c clock connected shared (lookbackFrom clock stateSyncBackstopLookbackSecs)

theorem lookbackFrom_le_iff {clock : Clock} {lookback : Nat} {t : UInt64} :
    lookbackFrom clock lookback ≤ t ↔ (unixNow clock.wall).toNat ≤ t.toNat + lookback := by
  have hnow : (unixNow clock.wall).toNat < 2 ^ 64 := UInt64.toNat_lt _
  rw [lookbackFrom, UInt64.le_iff_toNat_le, UInt64.toNat_ofNat', Nat.mod_eq_of_lt (by omega)]
  omega

theorem issueStateSyncRequest_eq_some {c : Ctx W} {clock : Clock} {connected : List PeerId}
    {shared : SharedState} {since : UInt64} {p : PeerId} {request : StateSyncRequest}
    (h : issueStateSyncRequest c clock connected shared since = some (p, request)) :
    LastGreatest (peerPreference shared) connected p ∧
      request = StateSyncRequest.newSigned c.x (effectiveSince c.x shared since)
        stateSyncHardCeiling c.localPeerId (unixNow clock.wall) c.signingKey := by
  cases connected with
  | nil => cases h
  | cons first rest =>
    obtain ⟨rfl, rfl⟩ := Prod.mk.inj (Option.some.inj h)
    exact ⟨lastGreatest_maxByKey rfl, rfl⟩

theorem isSome_issueStateSyncRequest {c : Ctx W} {clock : Clock} {connected : List PeerId}
    {shared : SharedState} {since : UInt64} :
    (issueStateSyncRequest c clock connected shared since).isSome = true ↔ connected ≠ [] := by
  cases connected <;> simp [issueStateSyncRequest]

/-! ## The window -/

/-- The store was filled by writer calls whose outcomes the codec reads back, all of
them finalised before second `2^63`. -/
structure SoundStore (x : Externals W) (s : SharedState) : Prop where
  written : ∃ calls : List (Call W), s = run (SharedState.write x) .empty calls ∧
    ∀ call ∈ calls, ∀ o, call.Carries o → x.outcomeCbor.decode (x.outcomeCbor.encode o) = some o
  timely : ∀ o, SharedState.HoldsOutcome x s o → o.finalisedAt.toNat < 2 ^ 63

theorem effectiveSince_le_iff {x : Externals W} {s : SharedState} (hs : SoundStore x s)
    (since t : UInt64) : effectiveSince x s since ≤ t ↔
      since ≤ t ∨ ∀ o, SharedState.HoldsOutcome x s o → o.finalisedAt ≤ t := by
  obtain ⟨calls, rfl, hround⟩ := hs.written
  obtain ⟨all, hdec, hmem, hsorted⟩ := SharedState.exists_decoded_of_sameSide hround
    (fun o ho => iff_of_true (show (0 : UInt64).toNat < 2 ^ 63 by decide) (hs.timely o ho))
  have hok := SharedState.outcomesSince_of_decoded hdec 1
  rw [SharedState.sqlLimit_of_lt (by decide)] at hok
  have hheld : ∀ o, SharedState.HoldsOutcome x (run (SharedState.write x) .empty calls) o ↔
      o ∈ all := by
    intro o
    rw [hmem, and_iff_left (UInt64.le_iff_toNat_le.mpr (Nat.zero_le _))]
  simp only [effectiveSince, hok, hheld]
  cases all with
  | nil => simp [UInt64.le_iff_toNat_le]
  | cons newest older =>
    -- the first outcome is the newest, so it bounds them all
    have hnewest : (∀ o ∈ newest :: older, o.finalisedAt ≤ t) ↔ newest.finalisedAt ≤ t := by
      constructor
      · intro h
        exact h newest List.mem_cons_self
      · intro h o ho
        rcases List.mem_cons.mp ho with rfl | ho
        · exact h
        · have hlt := (List.pairwise_cons.mp hsorted).1 o ho
          have hle := Prod.Lex.monotone_fst _ _ hlt.le
          simp only [ofLex_toLex] at hle
          rw [UInt64.le_iff_toNat_le] at h ⊢
          omega
    rw [hnewest]
    show (if since ≤ newest.finalisedAt then since else newest.finalisedAt) ≤ t ↔ _
    split
    · next hle =>
      simp only [UInt64.le_iff_toNat_le] at hle ⊢
      omega
    · next hle =>
      simp only [UInt64.le_iff_toNat_le] at hle ⊢
      omega

/-- Whatever the clock says, a request starts before second `2^63`. -/
theorem effectiveSince_lt {x : Externals W} {s : SharedState} (hs : SoundStore x s)
    (since : UInt64) : (effectiveSince x s since).toNat < 2 ^ 63 := by
  have hle := (effectiveSince_le_iff hs since 9223372036854775807).mpr (Or.inr fun o ho => by
    have hlt := hs.timely o ho
    rw [UInt64.le_iff_toNat_le]
    show o.finalisedAt.toNat ≤ 9223372036854775807
    omega)
  rw [UInt64.le_iff_toNat_le] at hle
  have hbound : (9223372036854775807 : UInt64).toNat = 2 ^ 63 - 1 := by decide
  omega

/-! ## The answer -/

/-- The answer to an admitted request for five hundred outcomes holds those of the
window that are among the newest five hundred of the store. -/
theorem mem_answer {c : Ctx W} {clock : Clock} {r : Responder} {request : StateSyncRequest}
    (hadm : Admitted c clock r request) (hmax : request.maxOutcomes = stateSyncHardCeiling)
    (hsince : request.sinceUnix.toNat < 2 ^ 63) (hr : SoundStore c.x r.shared)
    (o : JobOutcome W) :
    o ∈ (buildStateSyncResponse c clock r request).1.outcomes ↔
      request.sinceUnix ≤ o.finalisedAt ∧ ∃ row ∈ r.shared.outcomes.rows,
        c.x.outcomeCbor.decode row.outcomeCbor = some o ∧ newerOutcomes r.shared row < 500 := by
  obtain ⟨calls, hcalls, hround⟩ := hr.written
  have hlimit : answerLimit request = 500 := by
    rw [answerLimit, hmax]
    rfl
  have hpos : 1 ≤ request.maxOutcomes.toNat := by
    rw [hmax]
    decide
  have hok := SharedState.outcomesSince_ok hround request.sinceUnix
    (UInt64.ofNat (answerLimit request + 1))
  rw [← hcalls] at hok
  obtain ⟨hout, -⟩ := buildStateSyncResponse_answer hadm hpos hok
  have htake := SharedState.take_outcomesSince (n := 500) (by decide) (hlimit ▸ hok)
  rw [hlimit] at hout
  -- an outcome of the answer is the body of one of the first rows of the window
  have hbody : o ∈ (buildStateSyncResponse c clock r request).1.outcomes ↔
      ∃ row ∈ (r.shared.outcomeRowsSince request.sinceUnix).take 500,
        c.x.outcomeCbor.decode row.outcomeCbor = some o := by
    rw [hout, ← List.mem_map_of_injective (Option.some_injective _), ← htake,
      List.mem_map]
  rw [hbody]
  have hcast : ∀ row ∈ r.shared.outcomes.rows,
      c.x.outcomeCbor.decode row.outcomeCbor = some o →
      (request.sinceUnix.toInt64.toInt ≤ row.finalisedAt.toInt ↔
        request.sinceUnix ≤ o.finalisedAt) := by
    intro row hrow hdec
    obtain ⟨now, rfl⟩ := SharedState.eq_outcomeRow_of_decode hround (hcalls ▸ hrow) hdec
    exact SharedState.cast_le_iff.mpr (iff_of_true hsince (hr.timely o ⟨_, hrow, hdec⟩))
  constructor
  · rintro ⟨row, hrow, hdec⟩
    obtain ⟨⟨hmem, hle⟩, hcount⟩ := SharedState.mem_take_outcomeRowsSince.mp hrow
    exact ⟨(hcast row hmem hdec).mp hle, row, hmem, hdec, hcount⟩
  · rintro ⟨hle, row, hmem, hdec, hcount⟩
    refine ⟨row, SharedState.mem_take_outcomeRowsSince.mpr ⟨⟨hmem, ?_⟩, hcount⟩, hdec⟩
    exact (hcast row hmem hdec).mpr hle

/-- What applying a response adds to the table of outcomes. -/
theorem contains_applyStateSyncResponse {c : Ctx W} (clock : Clock) {n : Node W}
    {r : StateSyncResponse W} (hok : syncEnvelopeOk c n.peerRegistry r = true)
    (hash : ContentHash) :
    (applyStateSyncResponse c clock n r).shared.outcomes.contains hash = true ↔
      n.shared.outcomes.contains hash = true ∨
        ∃ o ∈ r.outcomes, syncAccepted c n.peerRegistry o = true ∧ o.contentHash c.x = hash := by
  rw [applyStateSyncResponse_shared, if_pos hok, (grown_syncCalls ..).outcomes,
    Keyed.contains_insertAll]
  simp only [acceptedOutcomes, List.mem_map, List.mem_filter]
  constructor
  · rintro (h | ⟨row, ⟨o, ⟨ho, hacc⟩, rfl⟩, hrow⟩)
    · exact Or.inl h
    · exact Or.inr ⟨o, ho, hacc, hrow⟩
  · rintro (h | ⟨o, ho, hacc, hhash⟩)
    · exact Or.inl h
    · exact Or.inr ⟨_, ⟨o, ⟨ho, hacc⟩, rfl⟩, hhash⟩

/-! ## Catching up -/

/-- The request asks for the second `t`: it lies within the lookback, or nothing newer
is held. -/
def AsksFor (x : Externals W) (clock : Clock) (lookback : Nat) (s : SharedState) (t : UInt64) :
    Prop :=
  (unixNow clock.wall).toNat ≤ t.toNat + lookback ∨
    ∀ o, SharedState.HoldsOutcome x s o → o.finalisedAt ≤ t

theorem sinceUnix_le_iff {c : Ctx W} {clock : Clock} {connected : List PeerId}
    {s : SharedState} (hs : SoundStore c.x s) {lookback : Nat} {p : PeerId}
    {request : StateSyncRequest}
    (h : issueStateSyncRequest c clock connected s (lookbackFrom clock lookback) =
      some (p, request)) (t : UInt64) :
    request.sinceUnix ≤ t ↔ AsksFor c.x clock lookback s t := by
  obtain ⟨-, rfl⟩ := issueStateSyncRequest_eq_some h
  show effectiveSince c.x s (lookbackFrom clock lookback) ≤ t ↔ _
  rw [effectiveSince_le_iff hs, lookbackFrom_le_iff]
  rfl

section History

variable {C : Type} [DecidableEq C]

/-- What the node sends when the event `j` of its history is handled. -/
def sentAt (c : Ctx W) (h : History C) (j : Nat) (clock : Clock) (connected : List PeerId)
    (n : Node W) : Option (PeerId × StateSyncRequest) :=
  catchUp c clock connected n.shared (h.reportAt j)

/-- What holds of the request sent for the event `j`. -/
structure CatchUpExact (c : Ctx W) (h : History C) (j : Nat) (clock : Clock)
    (connected : List PeerId) (n : Node W) : Prop where
  sent : (sentAt c h j clock connected n).isSome = true ↔
    ∃ i, h.IdleInterval i j ∧ (h.timeOf i).toNat + 30 ≤ (h.timeOf (j + 1)).toNat
  responder : ∀ p request, sentAt c h j clock connected n = some (p, request) →
    LastGreatest (peerPreference n.shared) connected p
  window : ∀ p request, sentAt c h j clock connected n = some (p, request) →
    ∀ t, request.sinceUnix ≤ t ↔ AsksFor c.x clock 1800 n.shared t
  stored : ∀ p request, sentAt c h j clock connected n = some (p, request) →
    ∀ (d : Ctx W) (answered applied : Clock) (r : Responder), d.x = c.x →
      Admitted d answered r request → SoundStore c.x r.shared →
      syncEnvelopeOk c n.peerRegistry (buildStateSyncResponse d answered r request).1 = true →
      ∀ hash, (applyStateSyncResponse c applied n
          (buildStateSyncResponse d answered r request).1).shared.outcomes.contains hash = true ↔
        n.shared.outcomes.contains hash = true ∨
          ∃ row ∈ r.shared.outcomes.rows, ∃ o, c.x.outcomeCbor.decode row.outcomeCbor = some o ∧
            o.contentHash c.x = hash ∧ newerOutcomes r.shared row < 500 ∧
            AsksFor c.x clock 1800 n.shared o.finalisedAt ∧
            syncAccepted c n.peerRegistry o = true

theorem timeOf_succ {h : History C} {j : Nat} {e : ConnectionEvent C}
    (he : h.events[j]? = some e) : h.timeOf (j + 1) = e.now := by
  simp [History.timeOf, he]

theorem isSome_reportAt_iff {h : History C} {j : Nat} : (h.reportAt j).isSome = true ↔
    ∃ i, h.IdleInterval i j ∧ (h.timeOf i).toNat + 30 ≤ (h.timeOf (j + 1)).toNat := by
  rw [Option.isSome_iff_exists]
  constructor
  · rintro ⟨gap, hgap⟩
    obtain ⟨i, e, hi, he, hsum, hge⟩ := (History.reportAt_iff j gap).mp hgap
    refine ⟨i, hi, ?_⟩
    rw [timeOf_succ he]
    omega
  · rintro ⟨i, hi, hlong⟩
    obtain ⟨e, he⟩ : ∃ e, h.events[j]? = some e := ⟨_, List.getElem?_eq_getElem hi.lt⟩
    rw [timeOf_succ he] at hlong
    have hnow : e.now.toNat < 2 ^ 64 := UInt64.toNat_lt _
    have hgap : (UInt64.ofNat (e.now.toNat - (h.timeOf i).toNat)).toNat =
        e.now.toNat - (h.timeOf i).toNat := by
      rw [UInt64.toNat_ofNat', Nat.mod_eq_of_lt (by omega)]
    refine ⟨UInt64.ofNat (e.now.toNat - (h.timeOf i).toNat),
      (History.reportAt_iff j _).mpr ⟨i, e, hi, he, ?_, ?_⟩⟩
    · rw [hgap]
      omega
    · rw [hgap]
      omega

theorem sentAt_eq_some {c : Ctx W} {h : History C} {j : Nat} {clock : Clock}
    {connected : List PeerId} {n : Node W} {p : PeerId} {request : StateSyncRequest}
    (hsent : sentAt c h j clock connected n = some (p, request)) :
    issueStateSyncRequest c clock connected n.shared (lookbackFrom clock 1800) =
      some (p, request) := by
  unfold sentAt catchUp at hsent
  split at hsent
  · exact hsent
  · cases hsent

/-- **Catching up.**  In every history of connections, a request goes out exactly when a
connection ends an interval of thirty seconds or more without any; it goes to the last
of the connected peers of the best reputation band, and it asks for the last half hour
and for whatever is newer than all the node holds.  Applying the answer of a responder
that admits it adds exactly the outcomes asked for that are among the responder's newest
five hundred and whose observer's signature the node can check. -/
theorem catchUp_exact (c : Ctx W) (h : History C) (j : Nat) (clock : Clock)
    {connected : List PeerId} (hconn : liveAt h.events (j + 1) ≠ [] → connected ≠ [])
    {n : Node W} (hn : SoundStore c.x n.shared) : CatchUpExact c h j clock connected n where
  sent := by
    rw [← isSome_reportAt_iff]
    unfold sentAt catchUp
    cases hreport : h.reportAt j with
    | none => exact Iff.rfl
    | some gap =>
      rw [isSome_issueStateSyncRequest]
      obtain ⟨i, e, hi, -, -, -⟩ := (History.reportAt_iff j gap).mp hreport
      exact iff_of_true (hconn hi.right) rfl
  responder p request hsent := (issueStateSyncRequest_eq_some (sentAt_eq_some hsent)).1
  window p request hsent := sinceUnix_le_iff hn (sentAt_eq_some hsent)
  stored := by
    intro p request hsent d answered applied r hx hadm hr henv hash
    have hissued := sentAt_eq_some hsent
    have hwindow := sinceUnix_le_iff hn hissued
    obtain ⟨-, hrequest⟩ := issueStateSyncRequest_eq_some hissued
    have hmax : request.maxOutcomes = stateSyncHardCeiling := by rw [hrequest]; rfl
    have hsince : request.sinceUnix.toNat < 2 ^ 63 := by
      rw [hrequest]
      exact effectiveSince_lt hn _
    rw [contains_applyStateSyncResponse applied henv]
    refine or_congr_right ?_
    have hmem := mem_answer hadm hmax hsince (hx.symm ▸ hr)
    constructor
    · rintro ⟨o, ho, hacc, rfl⟩
      obtain ⟨hle, row, hrow, hdec, hcount⟩ := (hmem o).mp ho
      exact ⟨row, hrow, o, hx ▸ hdec, rfl, hcount, (hwindow _).mp hle, hacc⟩
    · rintro ⟨row, hrow, o, hdec, hhash, hcount, hasks, hacc⟩
      exact ⟨o, (hmem o).mpr ⟨(hwindow _).mpr hasks, row, hrow, hx.symm ▸ hdec, hcount⟩, hacc,
        hhash⟩

end History

/-- Peer 2 as a requester. -/
def askingCtx : Ctx ℚ :=
  { pagedCtx with
    localPeerId := peerOf 2
    signingKey := keyOf 2
    verifyingKey := (keyOf 2).verifyingKey }

/-- Peer 2 with the outcomes of the first six seconds. -/
def askingNode : Node ℚ :=
  Node.start askingCtx ⟨0, 0⟩ [] (run (SharedState.write askingCtx.x) .empty (pagedCalls 6))

theorem soundStore_askingNode : SoundStore askingCtx.x askingNode.shared where
  written := ⟨pagedCalls 6, rfl, pagedCalls_round 6⟩
  timely := by
    rintro o ⟨row, hrow, hdec⟩
    have hall : ∀ row ∈ askingNode.shared.outcomes.rows,
        ∀ o ∈ askingCtx.x.outcomeCbor.decode row.outcomeCbor, o.finalisedAt.toNat < 2 ^ 63 := by
      decide +kernel
    exact hall row hrow o hdec

/-- The connection that ends half a minute alone sends a request. -/
theorem brief_isolation_caught_up :
    (sentAt askingCtx History.briefHistory 2 ⟨0, 0⟩ [peerOf 9] askingNode).isSome = true ∧
    CatchUpExact askingCtx History.briefHistory 2 ⟨0, 0⟩ [peerOf 9] askingNode :=
  ⟨by decide +kernel, catchUp_exact askingCtx History.briefHistory 2 ⟨0, 0⟩
    (fun _ => List.cons_ne_nil _ _) soundStore_askingNode⟩

/-! ## What is given up -/

variable [WeightArith W]

/-- **Holes that stay.**  Once a node holds an outcome newer than the second `t` and `t`
is more than half an hour ago, no request it sends after any further run asks for `t`,
and no answer to one holds an outcome finalised then or before. -/
theorem gap_abandoned {c : Ctx W} {n : Node W} {t : UInt64} {o : JobOutcome W}
    (ho : SharedState.HoldsOutcome c.x n.shared o) (hnewer : t < o.finalisedAt)
    (as : List (Step W)) (hsound : SoundStore c.x (run (step c) n as).shared) {later : Clock}
    (hlater : t.toNat + 1800 < (unixNow later.wall).toNat) {connected : List PeerId}
    {p : PeerId} {request : StateSyncRequest}
    (hsent : (∃ gap, catchUp c later connected (run (step c) n as).shared gap =
        some (p, request)) ∨
      backstop c later connected (run (step c) n as).shared = some (p, request)) :
    t < request.sinceUnix ∧
      ∀ (d : Ctx W) (answered : Clock) (r : Responder), d.x = c.x → SoundStore c.x r.shared →
        ∀ a ∈ (buildStateSyncResponse d answered r request).1.outcomes, t < a.finalisedAt := by
  -- the newer outcome is still held
  have hheld : SharedState.HoldsOutcome c.x (run (step c) n as).shared o := by
    obtain ⟨calls, hcalls, -⟩ := run_writes c n as
    obtain ⟨row, hrow, hdec⟩ := ho
    rw [hcalls]
    exact ⟨row, (SharedState.keeps_run c.x n.shared calls).outcomes row hrow, hdec⟩
  obtain ⟨lookback, hle, hissued⟩ : ∃ lookback ≤ 1800, issueStateSyncRequest c later connected
      (run (step c) n as).shared (lookbackFrom later lookback) = some (p, request) := by
    rcases hsent with ⟨gap, hsent⟩ | hsent
    · cases gap with
      | none => cases hsent
      | some g => exact ⟨1800, Nat.le_refl _, hsent⟩
    · exact ⟨600, by decide, hsent⟩
  have hnot : ¬ request.sinceUnix ≤ t := by
    rw [sinceUnix_le_iff hsound hissued]
    rintro (hrecent | hall)
    · omega
    · exact absurd hnewer (UInt64.not_lt.mpr (hall o hheld))
  have hlt : t < request.sinceUnix := UInt64.not_le.mp hnot
  refine ⟨hlt, fun d answered r hx hr a ha => ?_⟩
  by_cases hadm : Admitted d answered r request
  · obtain ⟨-, hrequest⟩ := issueStateSyncRequest_eq_some hissued
    have hmax : request.maxOutcomes = stateSyncHardCeiling := by rw [hrequest]; rfl
    have hsince : request.sinceUnix.toNat < 2 ^ 63 := by
      rw [hrequest]
      exact effectiveSince_lt hsound _
    obtain ⟨hge, -⟩ := (mem_answer hadm hmax hsince (hx.symm ▸ hr) a).mp ha
    rw [UInt64.lt_iff_toNat_lt] at hlt ⊢
    rw [UInt64.le_iff_toNat_le] at hge
    omega
  · rw [buildStateSyncResponse_refused hadm] at ha
    cases ha

/-- The node that holds second 5 does not ask for second 4 at second 2000. -/
theorem second_four_abandoned : ∃ p request,
    backstop askingCtx ⟨(fromSecs 2000 : Nat), 0⟩ [peerOf 9] askingNode.shared =
      some (p, request) ∧ 4 < request.sinceUnix := by
  have hheld : SharedState.HoldsOutcome askingCtx.x askingNode.shared (outcomeAt 5) :=
    ⟨rowAt 5, by decide +kernel, by decide +kernel⟩
  obtain ⟨⟨p, request⟩, hsent⟩ : ∃ a, backstop askingCtx ⟨(fromSecs 2000 : Nat), 0⟩ [peerOf 9]
      (run (step askingCtx) askingNode []).shared = some a := ⟨_, rfl⟩
  refine ⟨p, request, hsent, ?_⟩
  exact (gap_abandoned (t := 4) hheld (by decide +kernel) [] soundStore_askingNode
    (by decide +kernel) (Or.inr hsent)).1

end Parseh.Miner
