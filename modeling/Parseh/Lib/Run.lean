import Mathlib.Data.List.Basic

/-!
# Runs of a step function

A run is a list of steps folded from a start state.  `Guarded step G s as` says
that every step of the run is taken in a state in which `G` allows it, and
`Occurs step E s as` that some step is taken in a state in which `E` holds of it.
Three rules reduce a statement about every run to one about a single step: the
invariant rules `run_invariant` and `Guarded.invariant`, and `run_origin`, which
traces what holds at the end back to the step that brought it about.
`guarded_iff` compares two conditions on the steps of a run, and `run_padded` leaves
out steps that do nothing.
-/

namespace Parseh.Lib

variable {S A : Type} {step : S → A → S} {G : S → A → Prop}

/-- The state a list of steps leads to. -/
def run (step : S → A → S) (s : S) (as : List A) : S := as.foldl step s

@[simp] theorem run_nil (s : S) : run step s [] = s := rfl

@[simp] theorem run_cons (s : S) (a : A) (as : List A) :
    run step s (a :: as) = run step (step s a) as := rfl

theorem run_append (s : S) (as bs : List A) :
    run step s (as ++ bs) = run step (run step s as) bs := List.foldl_append

/-- What every step preserves, every run preserves. -/
theorem run_invariant {I : S → Prop} (hstep : ∀ s a, I s → I (step s a)) {s : S} (hs : I s)
    (as : List A) : I (run step s as) := by
  induction as generalizing s with
  | nil => exact hs
  | cons a as ih => exact ih (hstep s a hs)

/-- Every step of the run satisfies `G` in the state it is taken in. -/
def Guarded (step : S → A → S) (G : S → A → Prop) : S → List A → Prop
  | _, [] => True
  | s, a :: as => G s a ∧ Guarded step G (step s a) as

instance Guarded.decide [∀ s a, Decidable (G s a)] :
    ∀ (s : S) (as : List A), Decidable (Guarded step G s as)
  | _, [] => inferInstanceAs (Decidable True)
  | s, a :: as => @instDecidableAnd _ _ inferInstance (Guarded.decide (step s a) as)

/-- What every allowed step preserves, every guarded run preserves. -/
theorem Guarded.invariant {I : S → Prop} (hstep : ∀ s a, G s a → I s → I (step s a)) {s : S}
    {as : List A} (hg : Guarded step G s as) (hs : I s) : I (run step s as) := by
  induction as generalizing s with
  | nil => exact hs
  | cons a as ih => exact ih hg.2 (hstep s a hg.1 hs)

/-- In a guarded run with an invariant, every step has what the guard and the
invariant give. -/
theorem Guarded.imp {G' : S → A → Prop} {I : S → Prop}
    (hstep : ∀ s a, G s a → I s → I (step s a)) (himp : ∀ s a, G s a → I s → G' s a) {s : S}
    {as : List A} (hg : Guarded step G s as) (hs : I s) : Guarded step G' s as := by
  induction as generalizing s with
  | nil => exact trivial
  | cons a as ih => exact ⟨himp s a hg.1 hs, ih hg.2 (hstep s a hg.1 hs)⟩

/-- Two guards at once. -/
theorem Guarded.and {G' : S → A → Prop} {s : S} {as : List A} (hg : Guarded step G s as)
    (hg' : Guarded step G' s as) : Guarded step (fun s a => G s a ∧ G' s a) s as := by
  induction as generalizing s with
  | nil => exact trivial
  | cons a as ih => exact ⟨⟨hg.1, hg'.1⟩, ih hg.2 hg'.2⟩

/-- A guard that does not look at the state is a condition on the steps. -/
theorem guarded_const {P : A → Prop} (s : S) (as : List A) :
    Guarded step (fun _ a => P a) s as ↔ ∀ a ∈ as, P a := by
  induction as generalizing s with
  | nil => simp [Guarded]
  | cons a as ih => rw [Guarded, ih, List.forall_mem_cons]

/-- A guard speaks of every step and of the steps before it. -/
theorem guarded_iff_forall (s : S) (as : List A) :
    Guarded step G s as ↔ ∀ pre a, pre ++ [a] <+: as → G (run step s pre) a := by
  induction as generalizing s with
  | nil => simp [Guarded]
  | cons b as ih =>
    rw [Guarded, ih]
    constructor
    · rintro ⟨hb, has⟩ pre a hpre
      cases pre with
      | nil =>
        obtain ⟨rfl, -⟩ := List.cons_prefix_cons.mp hpre
        exact hb
      | cons b' pre =>
        obtain ⟨rfl, htail⟩ := List.cons_prefix_cons.mp hpre
        exact has pre a htail
    · intro h
      refine ⟨h [] b (by simp), fun pre a hpre => ?_⟩
      exact h (b :: pre) a (List.cons_prefix_cons.mpr ⟨rfl, hpre⟩)

/-- A run in two parts. -/
theorem guarded_append (s : S) (as bs : List A) :
    Guarded step G s (as ++ bs) ↔ Guarded step G s as ∧ Guarded step G (run step s as) bs := by
  induction as generalizing s with
  | nil => exact (and_iff_right trivial).symm
  | cons a as ih => rw [List.cons_append, Guarded, Guarded, ih, run_cons, and_assoc]

/-- The beginning of a guarded run is guarded. -/
theorem Guarded.of_prefix {s : S} {pre as : List A} (hg : Guarded step G s as)
    (hpre : pre <+: as) : Guarded step G s pre := by
  obtain ⟨rest, rfl⟩ := hpre
  exact ((guarded_append s pre rest).mp hg).1

/-- Some step of the run satisfies `E` in the state it is taken in. -/
def Occurs (step : S → A → S) (E : S → A → Prop) : S → List A → Prop
  | _, [] => False
  | s, a :: as => E s a ∨ Occurs step E (step s a) as

/-- What holds at the end held at the start, or some step brought it about. -/
theorem run_origin {Q : S → Prop} {E : S → A → Prop}
    (hstep : ∀ s a, Q (step s a) → Q s ∨ E s a) {s : S} {as : List A}
    (h : Q (run step s as)) : Q s ∨ Occurs step E s as := by
  induction as generalizing s with
  | nil => exact Or.inl h
  | cons a as ih =>
    rcases ih h with hq | ho
    · rcases hstep s a hq with hs | he
      · exact Or.inl hs
      · exact Or.inr (Or.inl he)
    · exact Or.inr (Or.inr ho)

/-- In a guarded run every occurrence is of an allowed step. -/
theorem Occurs.of_guarded {E : S → A → Prop} {s : S} {as : List A} (h : Occurs step E s as)
    (hg : Guarded step G s as) : Occurs step (fun s a => E s a ∧ G s a) s as := by
  induction as generalizing s with
  | nil => exact h
  | cons a as ih =>
    rcases h with h | h
    · exact Or.inl ⟨h, hg.1⟩
    · exact Or.inr (ih h hg.2)

/-- A fact that every occurrence gives on its own. -/
theorem Occurs.elim {E : S → A → Prop} {P : Prop} {s : S} {as : List A}
    (h : Occurs step E s as) (hE : ∀ s a, E s a → P) : P := by
  induction as generalizing s with
  | nil => exact False.elim h
  | cons a as ih =>
    rcases h with h | h
    · exact hE s a h
    · exact ih h

/-- Two guards that agree on every state with the invariant `I` allow the same
runs. -/
theorem guarded_congr {G' : S → A → Prop} {I : S → Prop} (hI : ∀ s a, I s → I (step s a))
    (hG : ∀ s a, I s → (G s a ↔ G' s a)) {s : S} (hs : I s) (as : List A) :
    Guarded step G s as ↔ Guarded step G' s as := by
  induction as generalizing s with
  | nil => exact Iff.rfl
  | cons a as ih => exact and_congr (hG s a hs) (ih (hI s a hs))

/-- A property of steps that keeps `J`, and that in the states with `I` and `J` is
the guard `G`, holds of every step of a run exactly when `G` does. -/
theorem guarded_iff {P : S → A → Prop} {I J : S → Prop} (hI : ∀ s a, I s → I (step s a))
    (hJ : ∀ s a, P s a → J (step s a)) (hG : ∀ s a, I s → J s → (P s a ↔ G s a)) {s : S}
    (hi : I s) (hj : J s) (as : List A) : Guarded step P s as ↔ Guarded step G s as := by
  induction as generalizing s with
  | nil => exact Iff.rfl
  | cons a as ih =>
    constructor
    · rintro ⟨hp, hrest⟩
      exact ⟨(hG s a hi hj).mp hp, (ih (hI s a hi) (hJ s a hp)).mp hrest⟩
    · rintro ⟨hg, hrest⟩
      have hp := (hG s a hi hj).mpr hg
      exact ⟨hp, (ih (hI s a hi) (hJ s a hp)).mpr hrest⟩

/-- `bs` is `as` with steps from `P` put in anywhere. -/
inductive Padded (P : A → Prop) : List A → List A → Prop
  | nil : Padded P [] []
  | keep (a : A) {as bs : List A} (h : Padded P as bs) : Padded P (a :: as) (a :: bs)
  | add {a : A} (ha : P a) {as bs : List A} (h : Padded P as bs) : Padded P as (a :: bs)

/-- Steps that do nothing in the states of a guarded run may be put in anywhere. -/
theorem run_padded {P : A → Prop} {I : S → Prop} (hstep : ∀ s a, G s a → I s → I (step s a))
    (hadd : ∀ s a, I s → P a → step s a = s) {s : S} {as bs : List A} (h : Padded P as bs)
    (hg : Guarded step G s as) (hs : I s) : run step s bs = run step s as := by
  induction h generalizing s with
  | nil => rfl
  | keep a h ih => exact ih hg.2 (hstep s a hg.1 hs)
  | add ha h ih =>
    rw [run_cons, hadd s _ hs ha]
    exact ih hg hs

end Parseh.Lib
