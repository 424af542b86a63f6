import Parseh.Shared.Stubs

/-!
# Timestamps over all of `u64`

A timestamp off the wire, the bound of a query and its limit are unsigned numbers
that nobody checks.  All three are cast to `i64`, and the database compares the
casts.

* `cast_le_iff`: two casts compare as their numbers do exactly when both numbers
  lie on one side of `2^63`;
* `outcomesExact_iff`, `tasksUnsigned_iff` and `timestamps_exact_iff`: the two
  queries answer in the unsigned order exactly when no stored timestamp is on the
  other side of `2^63` than the bound, and the limit is read as given.
-/

namespace Parseh.Shared.SharedState

open Parseh.Lib Parseh.Wire

/-! ## The cast -/

/-- Both numbers are below `2^63`, or neither is. -/
def SameSide (a b : UInt64) : Prop := a.toNat < 2 ^ 63 ↔ b.toNat < 2 ^ 63

instance (a b : UInt64) : Decidable (SameSide a b) :=
  inferInstanceAs (Decidable (a.toNat < 2 ^ 63 ↔ b.toNat < 2 ^ 63))

theorem SameSide.trans {a b c : UInt64} (hab : SameSide a b) (hbc : SameSide b c) :
    SameSide a c := Iff.trans hab hbc

theorem SameSide.symm {a b : UInt64} (h : SameSide a b) : SameSide b a := Iff.symm h

theorem cast_le_iff {a b : UInt64} :
    (a.toInt64.toInt ≤ b.toInt64.toInt ↔ a ≤ b) ↔ SameSide a b := by
  have ha : a.toNat < 2 ^ 64 := a.toNat_lt
  have hb : b.toNat < 2 ^ 64 := b.toNat_lt
  rw [SameSide, toInt_toInt64, toInt_toInt64, UInt64.le_iff_toNat_le]
  split <;> split <;> omega

theorem toUInt64_outcomeRow {W : Type} (x : Externals W) (o : JobOutcome W) (now : Int64) :
    (outcomeRow x o now).finalisedAt.toUInt64 = o.finalisedAt := by
  simp [outcomeRow]

theorem toUInt64_taskRow {W : Type} (x : Externals W) (spec : JobSpec) (now : Int64) :
    (taskRow x spec now).submittedAt.toUInt64 = spec.submittedAt := by
  simp [taskRow]

/-! ## The limit -/

section Limit

variable {R V : Type} {limit : UInt64}

theorem sqlLimit_of_lt (h : limit.toNat < 2 ^ 63) (rows : List R) :
    sqlLimit limit rows = rows.take limit.toNat := by
  rw [sqlLimit, toInt_toInt64_of_lt h, if_neg (by omega), Int.toNat_natCast]

/-- A limit from `2^63` on is none. -/
theorem sqlLimit_of_le (h : 2 ^ 63 ≤ limit.toNat) (rows : List R) :
    sqlLimit limit rows = rows := by
  have hlt : limit.toNat < 2 ^ 64 := limit.toNat_lt
  have hneg : limit.toInt64.toInt < 0 := by
    rw [toInt_toInt64, if_neg (by omega)]
    omega
  rw [sqlLimit, if_pos hneg]

theorem sqlLimit_map (f : R → V) (rows : List R) :
    sqlLimit limit (rows.map f) = (sqlLimit limit rows).map f := by
  unfold sqlLimit
  split
  · rfl
  · exact List.map_take.symm

/-- Any limit but zero lets the first row through. -/
theorem mem_sqlLimit_cons (h : limit ≠ 0) (r : R) (rows : List R) :
    r ∈ sqlLimit limit (r :: rows) := by
  have hpos : limit.toNat ≠ 0 := fun h0 => h (UInt64.toNat.inj h0)
  by_cases hlt : limit.toNat < 2 ^ 63
  · obtain ⟨n, hn⟩ := Nat.exists_eq_succ_of_ne_zero hpos
    rw [sqlLimit_of_lt hlt, hn, List.take_succ_cons]
    exact List.mem_cons_self
  · rw [sqlLimit_of_le (by omega)]
    exact List.mem_cons_self

end Limit

/-! ## Outcomes -/

variable {W : Type} {x : Externals W} {s : SharedState} {sinceUnix limit : UInt64}

/-- What `outcomes_since` promises: the outcomes of the store from `sinceUnix` on,
newest first, cut at `limit`. -/
def OutcomesExact (x : Externals W) (s : SharedState) (sinceUnix limit : UInt64) : Prop :=
  ∃ all : List (JobOutcome W),
    (∀ o, o ∈ all ↔ HoldsOutcome x s o ∧ sinceUnix ≤ o.finalisedAt) ∧ all.Nodup ∧
    all.Pairwise (fun a b => b.finalisedAt ≤ a.finalisedAt) ∧
    s.outcomesSince x sinceUnix limit = .ok (all.take limit.toNat)

theorem outcomesSince_of_decoded {all : List (JobOutcome W)}
    (h : (s.outcomeRowsSince sinceUnix).map (fun r => x.outcomeCbor.decode r.outcomeCbor) =
      all.map some) (limit : UInt64) :
    s.outcomesSince x sinceUnix limit = .ok (sqlLimit limit all) := by
  rw [outcomesSince_eq_ok_iff, ← sqlLimit_map, ← sqlLimit_map, h]

/-- The rows of a window, counted unsigned. -/
def countSince (s : SharedState) (sinceUnix : UInt64) : Nat :=
  s.outcomes.rows.countP fun r => sinceUnix ≤ r.finalisedAt.toUInt64

theorem length_outcomeRowsSince
    (h : ∀ r ∈ s.outcomes.rows, SameSide sinceUnix r.finalisedAt.toUInt64) :
    (s.outcomeRowsSince sinceUnix).length = s.countSince sinceUnix := by
  rw [outcomeRowsSince, (sortByKey_perm_self _ _).length_eq, ← List.countP_eq_length_filter]
  refine List.countP_congr fun r hr => ?_
  have hcast := cast_le_iff.mpr (h r hr)
  rw [show r.finalisedAt.toUInt64.toInt64 = r.finalisedAt from rfl] at hcast
  rw [decide_eq_true_iff, decide_eq_true_iff, hcast]

/-- The first element of an ordered list comes before each. -/
theorem exists_first {V : Type} {R : V → V → Prop} {l : List V} (h : l.Pairwise R) {o : V}
    (ho : o ∈ l) (hrefl : R o o) : ∃ first rest, l = first :: rest ∧ R first o := by
  cases l with
  | nil => cases ho
  | cons first rest =>
    refine ⟨first, rest, rfl, ?_⟩
    rcases List.mem_cons.mp ho with rfl | hrest
    · exact hrefl
    · exact (List.pairwise_cons.mp h).1 o hrest

section OutcomesSince

variable {calls : List (Call W)}
  (hround : ∀ call ∈ calls, ∀ o, call.Carries o →
    x.outcomeCbor.decode (x.outcomeCbor.encode o) = some o)
include hround

/-- The outcomes from any second on, newest first, in a list. -/
theorem exists_newestFirst (sinceUnix : UInt64) : ∃ all : List (JobOutcome W),
    (∀ o, o ∈ all ↔ HoldsOutcome x (run (write x) .empty calls) o ∧ sinceUnix ≤ o.finalisedAt) ∧
    all.Nodup ∧ all.Pairwise fun a b => b.finalisedAt ≤ a.finalisedAt := by
  -- the least cast is that of 2^63, so this bound selects every row
  obtain ⟨held, -, hmem, hlt⟩ := exists_decoded hround (9223372036854775808 : UInt64)
  have hnodup : held.Nodup := nodup_of_pairwise_lt hlt
  let window := held.filter fun o => sinceUnix ≤ o.finalisedAt
  refine ⟨sortByKey (fun o => -(o.finalisedAt.toNat : Int)) window, fun o => ?_, ?_, ?_⟩
  · have hleast : (9223372036854775808 : UInt64).toInt64.toInt ≤ o.finalisedAt.toInt64.toInt := by
      have hb : o.finalisedAt.toNat < 2 ^ 64 := o.finalisedAt.toNat_lt
      have hbound : (9223372036854775808 : UInt64).toInt64.toInt = -(2 ^ 63) := by decide
      rw [hbound, toInt_toInt64]
      split <;> omega
    rw [mem_sortByKey, List.mem_filter, hmem, decide_eq_true_iff]
    exact and_congr_left fun _ => and_iff_left hleast
  · exact (sortByKey_perm_self _ _).nodup_iff.mpr (hnodup.filter _)
  · refine (pairwise_sortByKey _ _).imp fun {a b} hab => ?_
    rw [UInt64.le_iff_toNat_le]
    omega

/-- The first outcome of an answer tells on which side of `2^63` the store is. -/
theorem sameSide_of_outcomesExact (hlimit : limit ≠ 0)
    (h : OutcomesExact x (run (write x) .empty calls) sinceUnix limit) {o : JobOutcome W}
    (ho : HoldsOutcome x (run (write x) .empty calls) o) : SameSide sinceUnix o.finalisedAt := by
  obtain ⟨all, hmem, -, hsorted, hok⟩ := h
  obtain ⟨cast, hdec, hcast, hlt⟩ := exists_decoded hround sinceUnix
  rw [outcomesSince_of_decoded hdec, Except.ok.injEq] at hok
  have hpos : limit.toNat ≠ 0 := fun h0 => hlimit (UInt64.toNat.inj h0)
  have hso := toInt_toInt64 o.finalisedAt
  have hss := toInt_toInt64 sinceUnix
  have hbo : o.finalisedAt.toNat < 2 ^ 64 := o.finalisedAt.toNat_lt
  have hbs : sinceUnix.toNat < 2 ^ 64 := sinceUnix.toNat_lt
  by_contra hside
  rw [SameSide] at hside
  by_cases hs : sinceUnix.toNat < 2 ^ 63
  · -- the newest outcome is due and its cast is negative
    have hin : o ∈ all := (hmem o).mpr ⟨ho, UInt64.le_iff_toNat_le.mpr (by omega)⟩
    obtain ⟨first, rest, rfl, hnewest⟩ := exists_first hsorted hin (UInt64.le_refl _)
    obtain ⟨n, hn⟩ := Nat.exists_eq_succ_of_ne_zero hpos
    have hgiven : first ∈ sqlLimit limit cast := by
      rw [hok, hn, List.take_succ_cons]
      exact List.mem_cons_self
    have hle := ((hcast first).mp (sqlLimit_subset _ hgiven)).2
    have hfirst := lt_of_toInt_toInt64 (n := first.finalisedAt) (by rw [hss] at hle; omega)
    rw [UInt64.le_iff_toNat_le] at hnewest
    omega
  · -- an outcome that is not due has the greatest cast
    have hin : o ∈ cast := (hcast o).mpr ⟨ho, by rw [hso, hss]; omega⟩
    have hfalling : cast.Pairwise fun a b =>
        b.finalisedAt.toInt64.toInt ≤ a.finalisedAt.toInt64.toInt := by
      refine hlt.imp fun {a b} hab => ?_
      have hle := Prod.Lex.monotone_fst _ _ hab.le
      simp only [ofLex_toLex] at hle
      omega
    obtain ⟨first, rest, rfl, hgreatest⟩ := exists_first hfalling hin (le_refl _)
    have hgiven : first ∈ all.take limit.toNat := hok ▸ mem_sqlLimit_cons hlimit first rest
    have hle := ((hmem first).mp (List.mem_of_mem_take hgiven)).2
    have hfirst := lt_of_toInt_toInt64 (n := first.finalisedAt) (by rw [hso] at hgreatest; omega)
    rw [UInt64.le_iff_toNat_le] at hle
    omega

theorem sameSide_rows_iff :
    (∀ r ∈ (run (write x) .empty calls).outcomes.rows, SameSide sinceUnix r.finalisedAt.toUInt64) ↔
      ∀ o, HoldsOutcome x (run (write x) .empty calls) o → SameSide sinceUnix o.finalisedAt := by
  constructor
  · rintro h o ⟨row, hrow, hdec⟩
    obtain ⟨now, rfl⟩ := eq_outcomeRow_of_decode hround hrow hdec
    rw [← toUInt64_outcomeRow x o now]
    exact h _ hrow
  · intro h row hrow
    obtain ⟨o, now, rfl, hdec⟩ := decode_outcomeRow hround hrow
    rw [toUInt64_outcomeRow]
    exact h o ⟨_, hrow, hdec⟩

/-- With the store on the side of the bound, the window is the right one, in the
right order. -/
theorem exists_decoded_of_sameSide
    (hside : ∀ o, HoldsOutcome x (run (write x) .empty calls) o →
      SameSide sinceUnix o.finalisedAt) :
    ∃ all : List (JobOutcome W),
      ((run (write x) .empty calls).outcomeRowsSince sinceUnix).map
        (fun r => x.outcomeCbor.decode r.outcomeCbor) = all.map some ∧
      (∀ o, o ∈ all ↔ HoldsOutcome x (run (write x) .empty calls) o ∧
        sinceUnix ≤ o.finalisedAt) ∧
      all.Pairwise fun a b => toLex (-(a.finalisedAt.toNat : Int), (a.contentHash x).key) <
        toLex (-(b.finalisedAt.toNat : Int), (b.contentHash x).key) := by
  obtain ⟨all, hdec, hmem, hlt⟩ := exists_decoded hround sinceUnix
  have hside' : ∀ a ∈ all, ∀ b ∈ all, SameSide a.finalisedAt b.finalisedAt := fun a ha b hb =>
    (hside a ((hmem a).mp ha).1).symm.trans (hside b ((hmem b).mp hb).1)
  refine ⟨all, hdec, fun o => ?_, hlt.imp_of_mem fun {a b} ha hb hab => ?_⟩
  · rw [hmem]
    exact and_congr_right fun ho => cast_le_iff.mpr (hside o ho)
  · have hle := cast_le_iff.mpr (hside' a ha b hb)
    have hge := cast_le_iff.mpr (hside' b hb a ha)
    rw [UInt64.le_iff_toNat_le] at hle hge
    rw [Prod.Lex.toLex_lt_toLex] at hab ⊢
    rcases hab with hlt | ⟨heq, hkey⟩
    · exact Or.inl (by simp only at hlt ⊢; omega)
    · exact Or.inr ⟨by simp only at heq ⊢; omega, hkey⟩

/-- From `2^63` on the whole window is answered, so it had to fit the limit. -/
theorem fits_of_outcomesExact
    (hside : ∀ r ∈ (run (write x) .empty calls).outcomes.rows,
      SameSide sinceUnix r.finalisedAt.toUInt64)
    (h : OutcomesExact x (run (write x) .empty calls) sinceUnix limit) :
    limit.toNat < 2 ^ 63 ∨ (run (write x) .empty calls).countSince sinceUnix ≤ limit.toNat := by
  by_cases hlt : limit.toNat < 2 ^ 63
  · exact Or.inl hlt
  · obtain ⟨all, -, -, -, hok⟩ := h
    obtain ⟨cast, hdec, -, -⟩ := exists_decoded hround sinceUnix
    rw [outcomesSince_of_decoded hdec, sqlLimit_of_le (by omega), Except.ok.injEq] at hok
    have hlen := congrArg List.length hdec
    rw [List.length_map, List.length_map, length_outcomeRowsSince hside, hok] at hlen
    exact Or.inr (hlen ▸ List.length_take_le _ _)

theorem outcomesExact_of_fits
    (hside : ∀ r ∈ (run (write x) .empty calls).outcomes.rows,
      SameSide sinceUnix r.finalisedAt.toUInt64)
    (hfits : limit.toNat < 2 ^ 63 ∨
      (run (write x) .empty calls).countSince sinceUnix ≤ limit.toNat) :
    OutcomesExact x (run (write x) .empty calls) sinceUnix limit := by
  obtain ⟨all, hdec, hmem, hlt⟩ :=
    exists_decoded_of_sameSide hround ((sameSide_rows_iff hround).mp hside)
  have hlen := congrArg List.length hdec
  rw [List.length_map, List.length_map, length_outcomeRowsSince hside] at hlen
  refine ⟨all, hmem, nodup_of_pairwise_lt hlt, hlt.imp fun {a b} hab => ?_, ?_⟩
  · have hle := Prod.Lex.monotone_fst _ _ hab.le
    simp only [ofLex_toLex] at hle
    rw [UInt64.le_iff_toNat_le]
    omega
  · rw [outcomesSince_of_decoded hdec]
    by_cases hlt : limit.toNat < 2 ^ 63
    · rw [sqlLimit_of_lt hlt]
    · rw [sqlLimit_of_le (by omega), List.take_of_length_le (by omega)]

/-- **`outcomes_since` in the unsigned order.** -/
theorem outcomesExact_iff :
    OutcomesExact x (run (write x) .empty calls) sinceUnix limit ↔
      (limit = 0 ∨ ∀ r ∈ (run (write x) .empty calls).outcomes.rows,
        SameSide sinceUnix r.finalisedAt.toUInt64) ∧
      (limit.toNat < 2 ^ 63 ∨
        (run (write x) .empty calls).countSince sinceUnix ≤ limit.toNat) := by
  constructor
  · intro h
    by_cases hzero : limit = 0
    · exact ⟨Or.inl hzero, Or.inl (by rw [hzero]; decide)⟩
    · have hside := (sameSide_rows_iff hround).mpr
        fun o ho => sameSide_of_outcomesExact hround hzero h ho
      exact ⟨Or.inr hside, fits_of_outcomesExact hround hside h⟩
  · rintro ⟨hside, hfits⟩
    rcases hside with hzero | hside
    · obtain ⟨all, hmem, hnodup, hsorted⟩ := exists_newestFirst hround sinceUnix
      obtain ⟨cast, hdec, -, -⟩ := exists_decoded hround sinceUnix
      refine ⟨all, hmem, hnodup, hsorted, ?_⟩
      rw [outcomesSince_of_decoded hdec, hzero, sqlLimit_of_lt (by decide)]
      rfl
    · exact outcomesExact_of_fits hround hside hfits

end OutcomesSince

/-! ## Tasks -/

/-- A row of the store has the spec as its body. -/
def HoldsSpec (x : Externals W) (s : SharedState) (spec : JobSpec) : Prop :=
  ∃ t ∈ s.tasks.rows, x.specCbor.decode t.specCbor = some spec

/-- What `recent_tasks` promises of the specs it selects and returns. -/
structure TasksUnsigned (x : Externals W) (s : SharedState) (sinceUnix : UInt64) : Prop where
  selected : ∀ spec now, taskRow x spec now ∈ s.tasks.rows →
    (taskRow x spec now ∈ s.recentTaskRows sinceUnix ↔ sinceUnix ≤ spec.submittedAt)
  returned : ∀ specs, s.recentTasks x sinceUnix = .ok specs →
    ∀ spec, spec ∈ specs ↔ HoldsSpec x s spec ∧ sinceUnix ≤ spec.submittedAt
  ordered : ∀ specs, s.recentTasks x sinceUnix = .ok specs →
    specs.Pairwise fun a b => a.submittedAt ≤ b.submittedAt

/-- The specs among the rows, by their unsigned timestamps. -/
theorem sameSide_tasks_iff {calls : List (Call W)} :
    (∀ t ∈ (run (write x) .empty calls).tasks.rows, t.kind ≠ .syncedStub →
      SameSide sinceUnix t.submittedAt.toUInt64) ↔
      ∀ spec now, taskRow x spec now ∈ (run (write x) .empty calls).tasks.rows →
        SameSide sinceUnix spec.submittedAt := by
  constructor
  · intro h spec now ht
    rw [← toUInt64_taskRow x spec now]
    exact h _ ht (by simp [taskRow])
  · intro h t ht hkind
    rcases taskRow_origin ht with ⟨spec, -, now, rfl⟩ | ⟨o, rfl⟩
    · rw [toUInt64_taskRow]
      exact h spec now ht
    · exact absurd rfl hkind

theorem selected_iff {spec : JobSpec} {now : Int64} (ht : taskRow x spec now ∈ s.tasks.rows) :
    (taskRow x spec now ∈ s.recentTaskRows sinceUnix ↔ sinceUnix ≤ spec.submittedAt) ↔
      SameSide sinceUnix spec.submittedAt := by
  rw [mem_recentTaskRows, and_iff_right ht]
  exact cast_le_iff

section RecentTasks

variable {calls : List (Call W)} (hempty : x.specCbor.decode [] = none)
  (hround : ∀ spec ∈ recordedSpecs calls,
    x.specCbor.decode (x.specCbor.encode spec) = some spec)
  (hside : ∀ spec now, taskRow x spec now ∈ (run (write x) .empty calls).tasks.rows →
    SameSide sinceUnix spec.submittedAt)
include hempty hround

section Returned

include hside

theorem returned_of_sameSide {specs : List JobSpec}
    (hok : (run (write x) .empty calls).recentTasks x sinceUnix = .ok specs) (spec : JobSpec) :
    spec ∈ specs ↔
      HoldsSpec x (run (write x) .empty calls) spec ∧ sinceUnix ≤ spec.submittedAt := by
  rw [← List.mem_map_of_injective (Option.some_injective _), ← recentTasks_eq_ok_iff.mp hok,
    List.mem_map]
  constructor
  · rintro ⟨t, ht, hdec⟩
    have hrow := (mem_recentTaskRows.mp ht).1
    obtain ⟨-, now, rfl⟩ := decoded_origin hempty hround hrow hdec
    exact ⟨⟨_, hrow, hdec⟩, ((selected_iff hrow).mpr (hside spec now hrow)).mp ht⟩
  · rintro ⟨⟨t, hrow, hdec⟩, hle⟩
    obtain ⟨-, now, rfl⟩ := decoded_origin hempty hround hrow hdec
    exact ⟨_, ((selected_iff hrow).mpr (hside spec now hrow)).mpr hle, hdec⟩

theorem ordered_of_sameSide {specs : List JobSpec}
    (hok : (run (write x) .empty calls).recentTasks x sinceUnix = .ok specs) :
    specs.Pairwise fun a b => a.submittedAt ≤ b.submittedAt := by
  have hpair : (specs.map some).Pairwise fun a b =>
      ∀ spec ∈ a, ∀ spec' ∈ b, spec.submittedAt ≤ spec'.submittedAt := by
    rw [← recentTasks_eq_ok_iff.mp hok, List.pairwise_map]
    refine (pairwise_sortByKey _ _).imp_of_mem fun ha hb hab spec hspec spec' hspec' => ?_
    have hrow := (mem_recentTaskRows.mp ha).1
    have hrow' := (mem_recentTaskRows.mp hb).1
    obtain ⟨-, now, rfl⟩ := decoded_origin hempty hround hrow hspec
    obtain ⟨-, now', rfl⟩ := decoded_origin hempty hround hrow' hspec'
    have hsame := (hside spec now hrow).symm.trans (hside spec' now' hrow')
    exact (cast_le_iff.mpr hsame).mp hab
  rw [List.pairwise_map] at hpair
  exact hpair.imp fun h => h _ rfl _ rfl

end Returned

/-- **`recent_tasks` in the unsigned order.** -/
theorem tasksUnsigned_iff :
    TasksUnsigned x (run (write x) .empty calls) sinceUnix ↔
      ∀ t ∈ (run (write x) .empty calls).tasks.rows, t.kind ≠ .syncedStub →
        SameSide sinceUnix t.submittedAt.toUInt64 := by
  rw [sameSide_tasks_iff]
  constructor
  · intro h spec now ht
    exact (selected_iff ht).mp (h.selected spec now ht)
  · intro hside
    exact ⟨fun spec now ht => (selected_iff ht).mpr (hside spec now ht),
      fun specs hok => returned_of_sameSide hempty hround hside hok,
      fun specs hok => ordered_of_sameSide hempty hround hside hok⟩

/-- **Timestamps.**  Over a store filled by any writer calls, with any bound and
any limit, both queries answer in the unsigned order if and only if the stored
times lie on the side of `2^63` the bound is on and the limit is one that the cast
keeps or the window does not reach. -/
theorem timestamps_exact_iff
    (hbodies : ∀ call ∈ calls, ∀ o, call.Carries o →
      x.outcomeCbor.decode (x.outcomeCbor.encode o) = some o) :
    (OutcomesExact x (run (write x) .empty calls) sinceUnix limit ∧
        TasksUnsigned x (run (write x) .empty calls) sinceUnix) ↔
      ((limit = 0 ∨ ∀ r ∈ (run (write x) .empty calls).outcomes.rows,
          SameSide sinceUnix r.finalisedAt.toUInt64) ∧
        (limit.toNat < 2 ^ 63 ∨
          (run (write x) .empty calls).countSince sinceUnix ≤ limit.toNat)) ∧
      ∀ t ∈ (run (write x) .empty calls).tasks.rows, t.kind ≠ .syncedStub →
        SameSide sinceUnix t.submittedAt.toUInt64 :=
  and_congr (outcomesExact_iff hbodies) (tasksUnsigned_iff hempty hround)

end RecentTasks

/-! ### An outcome from the far side -/

/-- An outcome of the recorded spec and result, finalised at second `t`. -/
def outcomeAtSecond (t : UInt64) : JobOutcome ℚ :=
  outcomeOf (smallSpecHash false) (smallResultHash false) .indeterminate t 9

/-- The externals that know the outcomes of second 5 and of second `2^63`. -/
def farExternals : Externals ℚ :=
  { twoTaskExternals with
    outcomeCbor := Codec.ofTable
      [([1], outcomeAtSecond 5), ([2], outcomeAtSecond 9223372036854775808)] }

/-- A spec, its result and an outcome finalised at second `t`. -/
def timedCalls (t : UInt64) : List (Call ℚ) :=
  [⟨0, .recordSpec (smallSpec false)⟩, ⟨1, .recordResult (smallResult false)⟩,
    ⟨2, .recordOutcome (outcomeAtSecond t)⟩]

/-- Asked for everything, the query leaves out an outcome of the second `2^63`. -/
theorem far_outcome_left_out :
    ¬ (OutcomesExact farExternals
        (run (write farExternals) .empty (timedCalls 9223372036854775808)) 0 10 ∧
      TasksUnsigned farExternals
        (run (write farExternals) .empty (timedCalls 9223372036854775808)) 0) := by
  rintro ⟨⟨all, hmem, -, -, hok⟩, -⟩
  have hheld : HoldsOutcome farExternals
      (run (write farExternals) .empty (timedCalls 9223372036854775808))
      (outcomeAtSecond 9223372036854775808) :=
    ⟨outcomeRow farExternals (outcomeAtSecond 9223372036854775808) 2, by decide +kernel,
      by decide +kernel⟩
  have hempty : (run (write farExternals) .empty (timedCalls 9223372036854775808)).outcomesSince
      farExternals 0 10 = .ok [] := by
    decide +kernel
  rw [hempty, Except.ok.injEq, eq_comm, List.take_eq_nil_iff] at hok
  have hin := (hmem _).mpr ⟨hheld, by decide⟩
  rcases hok with hten | hnil
  · exact absurd hten (by decide)
  · rw [hnil] at hin
    cases hin

/-- The externals that know the outcomes of the seconds 5, 6 and 7. -/
def nearExternals : Externals ℚ :=
  { twoTaskExternals with
    outcomeCbor := Codec.ofTable
      [([1], outcomeAtSecond 5), ([2], outcomeAtSecond 6), ([3], outcomeAtSecond 7)] }

/-- A spec, its result and three outcomes, the newest of them in the middle. -/
def nearCalls : List (Call ℚ) :=
  [⟨0, .recordSpec (smallSpec false)⟩, ⟨1, .recordResult (smallResult false)⟩,
    ⟨2, .recordOutcome (outcomeAtSecond 5)⟩, ⟨3, .recordOutcome (outcomeAtSecond 7)⟩,
    ⟨4, .recordOutcome (outcomeAtSecond 6)⟩]

/-- Two of the three outcomes are asked for: they come in order, newest first. -/
theorem near_outcomes_answered :
    (OutcomesExact nearExternals (run (write nearExternals) .empty nearCalls) 5 2 ∧
        TasksUnsigned nearExternals (run (write nearExternals) .empty nearCalls) 5) ∧
      (run (write nearExternals) .empty nearCalls).outcomesSince nearExternals 5 2 =
        .ok [outcomeAtSecond 7, outcomeAtSecond 6] := by
  refine ⟨(timestamps_exact_iff (by decide) (by decide +kernel) ?_).mpr (by decide +kernel),
    by decide +kernel⟩
  intro call hcall o hcar
  simp only [nearCalls, List.mem_cons, List.not_mem_nil, or_false] at hcall
  rcases hcall with rfl | rfl | rfl | rfl | rfl
  · exact hcar.elim
  · exact hcar.elim
  · rw [← show outcomeAtSecond 5 = o from hcar]
    decide +kernel
  · rw [← show outcomeAtSecond 7 = o from hcar]
    decide +kernel
  · rw [← show outcomeAtSecond 6 = o from hcar]
    decide +kernel

end Parseh.Shared.SharedState
