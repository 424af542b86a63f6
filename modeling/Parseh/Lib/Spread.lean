import Mathlib.Data.Set.Basic
import Mathlib.Logic.Function.Basic
import Parseh.Lib.Run

/-!
# Spreading along transfers

Sites hold sets of values, and in a transfer one site takes over what another has.
After a list of transfers a value is exactly where some path of them, taken in
order, leads from a site that had it (`mem_run_transfer`).  `spread_exact` is the
rule for a system whose steps are transfers of what its sites hold.
-/

namespace Parseh.Lib

variable {I V : Type} [DecidableEq I]

/-- The target takes over what the source has. -/
structure Transfer (I : Type) where
  source : I
  target : I

/-- The sets after a transfer. -/
def transfer (held : I → Set V) (t : Transfer I) : I → Set V :=
  Function.update held t.target (held t.target ∪ held t.source)

theorem mem_transfer {held : I → Set V} {t : Transfer I} {q : I} {v : V} :
    v ∈ transfer held t q ↔ v ∈ held q ∨ (q = t.target ∧ v ∈ held t.source) := by
  by_cases hq : q = t.target
  · subst hq
    simp [transfer]
  · simp [transfer, hq]

/-- Some of the transfers, in order, lead from `p` to `q`. -/
def Reaches : List (Transfer I) → I → I → Prop
  | [], p, q => p = q
  | t :: ts, p, q => Reaches ts p q ∨ (p = t.source ∧ Reaches ts t.target q)

/-- **Paths.**  After the transfers a value is where a path leads from a site that had
it, and nowhere else. -/
theorem mem_run_transfer {held : I → Set V} {ts : List (Transfer I)} {q : I} {v : V} :
    v ∈ run transfer held ts q ↔ ∃ p, v ∈ held p ∧ Reaches ts p q := by
  induction ts generalizing held with
  | nil => simp [Reaches]
  | cons t ts ih =>
    rw [run_cons, ih]
    constructor
    · rintro ⟨p, hp, hreach⟩
      rcases mem_transfer.mp hp with hold | ⟨rfl, hnew⟩
      · exact ⟨p, hold, Or.inl hreach⟩
      · exact ⟨t.source, hnew, Or.inr ⟨rfl, hreach⟩⟩
    · rintro ⟨p, hp, hreach | ⟨rfl, hreach⟩⟩
      · exact ⟨p, mem_transfer.mpr (Or.inl hp), hreach⟩
      · exact ⟨t.target, mem_transfer.mpr (Or.inr ⟨rfl, hp⟩), hreach⟩

/-- What the sites of a system hold spreads along the transfers its steps make. -/
theorem spread_exact {S A : Type} {step : S → A → S} {G : S → A → Prop} {Inv : S → Prop}
    (held : S → I → Set V) (edge : A → Transfer I)
    (hinv : ∀ s a, G s a → Inv s → Inv (step s a))
    (hheld : ∀ s a, G s a → Inv s → held (step s a) = transfer (held s) (edge a))
    {s : S} {as : List A} (hg : Guarded step G s as) (hs : Inv s) (q : I) (v : V) :
    v ∈ held (run step s as) q ↔ ∃ p, v ∈ held s p ∧ Reaches (as.map edge) p q := by
  rw [← mem_run_transfer]
  induction as generalizing s with
  | nil => exact Iff.rfl
  | cons a as ih =>
    rw [run_cons, List.map_cons, run_cons, ih hg.2 (hinv s a hg.1 hs), hheld s a hg.1 hs]

end Parseh.Lib
