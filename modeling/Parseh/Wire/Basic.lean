import Mathlib.Algebra.Group.Int.Defs
import Mathlib.Algebra.Group.Nat.Defs
import Mathlib.Data.List.Lex

/-!
# Identifiers, keys and clocks

The value types every crate shares: byte strings, `PeerId`, the 32-byte
`ContentHash`, ed25519 keys, and the two clocks a node reads.  `SystemTime` is
counted in nanoseconds from the Unix epoch and may lie before it; `Duration` and
`Instant` are natural numbers of nanoseconds.
-/

namespace Parseh.Wire

abbrev Bytes := List UInt8

/-- The order of byte strings: lexicographic on the byte values. -/
def byteKey (b : Bytes) : List Nat := b.map UInt8.toNat

theorem byteKey_injective : Function.Injective byteKey :=
  List.map_injective_iff.mpr fun _ _ h => UInt8.toNat.inj h

/-- `u64::to_le_bytes`. -/
def u64LeBytes (n : UInt64) : Bytes := (List.range 8).map fun i => UInt8.ofNat (n.toNat / 256 ^ i)

/-- The lowest `k` bytes of a number. -/
theorem foldr_leBytes (k n : Nat) :
    ((List.range k).map fun i => UInt8.ofNat (n / 256 ^ i)).foldr (fun d m => d.toNat + 256 * m) 0 =
      n % 256 ^ k := by
  induction k generalizing n with
  | zero => rw [List.range_zero, List.map_nil, List.foldr_nil, Nat.pow_zero, Nat.mod_one]
  | succ k ih =>
    have htail : ((List.range k).map Nat.succ).map (fun i => UInt8.ofNat (n / 256 ^ i)) =
        (List.range k).map fun i => UInt8.ofNat (n / 256 / 256 ^ i) := by
      rw [List.map_map]
      refine List.map_congr_left fun i _ => ?_
      rw [Function.comp_apply, Nat.pow_succ', Nat.div_div_eq_div_mul]
    have hpow : 256 ^ (k + 1) = 256 * 256 ^ k := Nat.pow_succ'
    rw [List.range_succ_eq_map, List.map_cons, List.foldr_cons, htail, ih, UInt8.toNat_ofNat', hpow,
      Nat.mod_mul, Nat.pow_zero, Nat.div_one]

/-- The bytes spell the number, lowest first. -/
theorem foldr_u64LeBytes (n : UInt64) :
    (u64LeBytes n).foldr (fun d m => d.toNat + 256 * m) 0 = n.toNat := by
  have hn : n.toNat < 256 ^ 8 := n.toNat_lt
  rw [u64LeBytes, foldr_leBytes, Nat.mod_eq_of_lt hn]

/-- `n as i64` keeps the numbers below `2^63` and makes the others negative. -/
theorem toInt_toInt64 (n : UInt64) :
    n.toInt64.toInt = if n.toNat < 2 ^ 63 then (n.toNat : Int) else n.toNat - 2 ^ 64 := by
  have h : n.toInt64.toInt = n.toBitVec.toInt := rfl
  have hn : n.toBitVec.toNat = n.toNat := rfl
  rw [h, BitVec.toInt_eq_toNat_cond, hn]
  split <;> split <;> omega

theorem toInt_toInt64_of_lt {n : UInt64} (h : n.toNat < 2 ^ 63) :
    n.toInt64.toInt = n.toNat := by
  rw [toInt_toInt64, if_pos h]

/-- A cast that stays nonnegative was of a number below `2^63`. -/
theorem lt_of_toInt_toInt64 {n : UInt64} (h : 0 ≤ n.toInt64.toInt) : n.toNat < 2 ^ 63 := by
  have hn : n.toNat < 2 ^ 64 := n.toNat_lt
  rw [toInt_toInt64] at h
  split at h <;> omega

/-- The greater of two times is one of them. -/
theorem max_time_eq (a b : UInt64) : max a b = a ∨ max a b = b := by
  have hmax : max a b = if a ≤ b then b else a := rfl
  rw [hmax]
  split
  · exact Or.inr rfl
  · exact Or.inl rfl

theorem le_max_time (a b : UInt64) : a ≤ max a b ∧ b ≤ max a b := by
  have hmax : max a b = if a ≤ b then b else a := rfl
  rw [hmax]
  split
  · next h => exact ⟨h, UInt64.le_refl _⟩
  · next h => exact ⟨UInt64.le_refl _, (UInt64.le_total a b).resolve_left h⟩

/-- A `[u8; 32]`. -/
structure Array32 where
  bytes : Bytes
  size : bytes.length = 32
  deriving DecidableEq

/-- `[b; 32]`. -/
def Array32.replicate (b : UInt8) : Array32 := ⟨List.replicate 32 b, by simp⟩

/-- libp2p peer identity; an opaque byte string, compared and ordered by it. -/
structure PeerId where
  toBytes : Bytes
  deriving DecidableEq

theorem PeerId.toBytes_injective : Function.Injective PeerId.toBytes := by
  rintro ⟨a⟩ ⟨b⟩ h
  exact congrArg PeerId.mk h

/-- The sort key `p.to_bytes()`. -/
def PeerId.key (p : PeerId) : List Nat := byteKey p.toBytes

theorem PeerId.key_injective : Function.Injective PeerId.key :=
  byteKey_injective.comp PeerId.toBytes_injective

/-- SHA-256 content hash. -/
structure ContentHash where
  asBytes : Array32
  deriving DecidableEq

/-- `ContentHash::zero()`, the default. -/
def ContentHash.zero : ContentHash := ⟨Array32.replicate 0⟩

/-- The sort key `h.as_bytes()`. -/
def ContentHash.key (h : ContentHash) : List Nat := byteKey h.asBytes.bytes

theorem ContentHash.key_injective : Function.Injective ContentHash.key := by
  rintro ⟨⟨a, _⟩⟩ ⟨⟨b, _⟩⟩ h
  cases byteKey_injective h
  rfl

def hexDigit (n : Nat) : Char :=
  if n < 10 then Char.ofNat (48 + n) else Char.ofNat (87 + n)

/-- Lower-case hex, as `Display` prints a hash. -/
def ContentHash.asHex (h : ContentHash) : String :=
  String.ofList (h.asBytes.bytes.flatMap fun b => [hexDigit (b.toNat / 16), hexDigit (b.toNat % 16)])

theorem hexDigit_injOn : ∀ m < 16, ∀ n < 16, hexDigit m = hexDigit n → m = n := by decide

theorem flatMap_hexDigit_injective :
    Function.Injective fun bs : List UInt8 =>
      bs.flatMap fun b => [hexDigit (b.toNat / 16), hexDigit (b.toNat % 16)] := by
  intro bs
  induction bs with
  | nil =>
    rintro (_ | ⟨c, cs⟩) h
    · rfl
    · cases h
  | cons b bs ih =>
    rintro (_ | ⟨c, cs⟩) h
    · cases h
    · simp only [List.flatMap_cons, List.cons_append, List.nil_append, List.cons.injEq] at h
      obtain ⟨hhigh, hlow, hrest⟩ := h
      have hb := b.toNat_lt
      have hc := c.toNat_lt
      have hdiv := hexDigit_injOn _ (by omega) _ (by omega) hhigh
      have hmod := hexDigit_injOn _ (by omega) _ (by omega) hlow
      have hbc : b = c := UInt8.toNat_inj.mp (by omega)
      rw [hbc, ih hrest]

/-- A hash can be read off its hex digits. -/
theorem ContentHash.asHex_injective : Function.Injective ContentHash.asHex := by
  rintro ⟨⟨a, _⟩⟩ ⟨⟨b, _⟩⟩ h
  have hab := flatMap_hexDigit_injective (String.ofList_injective h)
  cases hab
  rfl

/-- ed25519 public key, in its compressed form. -/
structure VerifyingKey where
  asBytes : Array32
  deriving DecidableEq

/-- ed25519 secret key. -/
structure SigningKey where
  secret : Array32
  deriving DecidableEq

/-! ## Clocks -/

abbrev SystemTime := Int
abbrev Duration := Nat
abbrev Instant := Nat

def nanosPerSec : Nat := 1000000000

def fromSecs (s : Nat) : Duration := s * nanosPerSec

def fromMillis (ms : Nat) : Duration := ms * 1000000

/-- `now.duration_since(earlier)`; an error when the clock is behind. -/
def durationSince (now earlier : SystemTime) : Option Duration :=
  if earlier ≤ now then some (now - earlier).toNat else none

/-- `now.duration_since(earlier).unwrap_or_default()`. -/
def elapsed (now earlier : SystemTime) : Duration := (durationSince now earlier).getD 0

/-- `unix_now()`: whole seconds since the epoch, zero before it. -/
def unixNow (now : SystemTime) : UInt64 := UInt64.ofNat (elapsed now 0 / nanosPerSec)

/-- One reading of the wall clock and of the monotonic clock. -/
structure Clock where
  wall : SystemTime
  mono : Instant

end Parseh.Wire
