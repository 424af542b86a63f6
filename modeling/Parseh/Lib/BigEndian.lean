import Mathlib.Data.Nat.Digits.Lemmas
import Mathlib.Data.List.Lex

/-!
# Big-endian digits

* `beValue_le_iff`: two lists of digits of one length compare from the left as their
  numbers do;
* `beValue_zipWith_xor`: over a power of two, XOR digit by digit is XOR of the numbers.
-/

namespace Parseh.Lib

/-- The number with the digits `ds` in base `b`, the highest first. -/
def beValue (b : Nat) (ds : List Nat) : Nat := Nat.ofDigits b ds.reverse

variable {b : Nat} {ds es : List Nat}

@[simp] theorem beValue_nil : beValue b [] = 0 := rfl

@[simp] theorem beValue_cons (d : Nat) (ds : List Nat) :
    beValue b (d :: ds) = d * b ^ ds.length + beValue b ds := by
  rw [beValue, Nat.ofDigits_reverse_cons, beValue]
  ring

theorem beValue_append (ds es : List Nat) :
    beValue b (ds ++ es) = beValue b ds * b ^ es.length + beValue b es := by
  induction ds with
  | nil => simp
  | cons d ds ih =>
    rw [List.cons_append, beValue_cons, beValue_cons, ih, List.length_append, pow_add]
    ring

theorem beValue_replicate_zero (n : Nat) : beValue b (List.replicate n 0) = 0 := by
  rw [beValue, List.reverse_replicate, Nat.ofDigits_replicate_zero]

/-- Zeros in front do not count. -/
theorem beValue_replicate_zero_append (n : Nat) (ds : List Nat) :
    beValue b (List.replicate n 0 ++ ds) = beValue b ds := by
  rw [beValue_append, beValue_replicate_zero, zero_mul, zero_add]

theorem beValue_lt (hb : 1 < b) (h : ∀ d ∈ ds, d < b) : beValue b ds < b ^ ds.length := by
  have hlt := Nat.ofDigits_lt_base_pow_length (l := ds.reverse) hb (by simpa using h)
  rwa [List.length_reverse] at hlt

/-- Of two numbers in one block, the block decides before the rest. -/
theorem block_lt_block_iff {m d e x y : Nat} (hx : x < m) (hy : y < m) :
    d * m + x < e * m + y ↔ d < e ∨ d = e ∧ x < y := by
  rcases lt_trichotomy d e with hlt | rfl | hgt
  · have := Nat.mul_le_mul_right m hlt
    rw [Nat.succ_mul] at this
    omega
  · omega
  · have := Nat.mul_le_mul_right m hgt
    rw [Nat.succ_mul] at this
    omega

/-- **Digits of one length compare as their numbers.** -/
theorem beValue_lt_iff (hb : 1 < b) (hlen : ds.length = es.length) (hds : ∀ d ∈ ds, d < b)
    (hes : ∀ e ∈ es, e < b) : beValue b ds < beValue b es ↔ ds < es := by
  induction ds generalizing es with
  | nil =>
    obtain rfl := List.eq_nil_of_length_eq_zero hlen.symm
    simp
  | cons d ds ih =>
    cases es with
    | nil => cases hlen
    | cons e es =>
      have hlen' : ds.length = es.length := Nat.succ.inj hlen
      have hds' : ∀ d ∈ ds, d < b := fun x hx => hds x (List.mem_cons_of_mem _ hx)
      have hes' : ∀ e ∈ es, e < b := fun x hx => hes x (List.mem_cons_of_mem _ hx)
      have hx := beValue_lt hb hds'
      rw [beValue_cons, beValue_cons, List.cons_lt_cons_iff, ← ih hlen' hds' hes', hlen']
      exact block_lt_block_iff (hlen' ▸ hx) (beValue_lt hb hes')

theorem beValue_le_iff (hb : 1 < b) (hlen : ds.length = es.length) (hds : ∀ d ∈ ds, d < b)
    (hes : ∀ e ∈ es, e < b) : beValue b ds ≤ beValue b es ↔ ds ≤ es := by
  rw [← not_lt, ← not_lt, beValue_lt_iff hb hlen.symm hes hds]

/-- XOR goes through a block of `w` bits. -/
theorem xor_block (w d e x y : Nat) (hx : x < 2 ^ w) (hy : y < 2 ^ w) :
    (d * 2 ^ w + x) ^^^ (e * 2 ^ w + y) = (d ^^^ e) * 2 ^ w + (x ^^^ y) := by
  have hpos : 0 < 2 ^ w := Nat.two_pow_pos w
  have hdiv : ∀ a c, c < 2 ^ w → (a * 2 ^ w + c) / 2 ^ w = a := by
    intro a c hc
    rw [Nat.add_comm, Nat.add_mul_div_right _ _ hpos, Nat.div_eq_of_lt hc, zero_add]
  have hmod : ∀ a c, c < 2 ^ w → (a * 2 ^ w + c) % 2 ^ w = c := by
    intro a c hc
    rw [Nat.add_comm, Nat.add_mul_mod_self_right, Nat.mod_eq_of_lt hc]
  rw [← Nat.div_add_mod' ((d * 2 ^ w + x) ^^^ (e * 2 ^ w + y)) (2 ^ w), Nat.xor_div_two_pow,
    Nat.xor_mod_two_pow, hdiv d x hx, hdiv e y hy, hmod d x hx, hmod e y hy]

/-- **XOR of the digits is XOR of the numbers.** -/
theorem beValue_zipWith_xor {w : Nat} (hw : 0 < w) (hlen : ds.length = es.length)
    (hds : ∀ d ∈ ds, d < 2 ^ w) (hes : ∀ e ∈ es, e < 2 ^ w) :
    beValue (2 ^ w) (List.zipWith (· ^^^ ·) ds es) =
      beValue (2 ^ w) ds ^^^ beValue (2 ^ w) es := by
  have hb : 1 < 2 ^ w := Nat.one_lt_two_pow hw.ne'
  induction ds generalizing es with
  | nil =>
    obtain rfl := List.eq_nil_of_length_eq_zero hlen.symm
    simp
  | cons d ds ih =>
    cases es with
    | nil => cases hlen
    | cons e es =>
      have hlen' : ds.length = es.length := Nat.succ.inj hlen
      have hds' : ∀ d ∈ ds, d < 2 ^ w := fun x hx => hds x (List.mem_cons_of_mem _ hx)
      have hes' : ∀ e ∈ es, e < 2 ^ w := fun x hx => hes x (List.mem_cons_of_mem _ hx)
      have hx := beValue_lt hb hds'
      have hy := beValue_lt hb hes'
      rw [hlen', ← pow_mul] at hx
      rw [← pow_mul] at hy
      rw [List.zipWith_cons_cons, beValue_cons, ih hlen' hds' hes', beValue_cons, beValue_cons,
        List.length_zipWith, hlen', min_self, ← pow_mul]
      exact (xor_block _ _ _ _ _ hx hy).symm

end Parseh.Lib
