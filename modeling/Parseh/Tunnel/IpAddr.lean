import Parseh.Wire.Basic

/-!
# IP addresses as text

`Ipv4Addr` and `Ipv6Addr` of the standard library, as far as the tunnel uses them:
`parse`, `to_string` and the octets.  The parser works on bytes; every reading
function gives the rest, and one that fails has read nothing.

* `length_readGroups_le`: a part of an IPv6 address has no more groups than asked for,
  so that every parsed address has eight of them;
* `Ipv6Addr.ofOctets_octets`: an address is known by its octets;
* `Ipv6Addr.length_toString`: an address is printed in at most 42 characters.
-/

namespace Parseh.Tunnel

open Parseh.Wire

structure Ipv4Addr where
  a : UInt8
  b : UInt8
  c : UInt8
  d : UInt8
  deriving DecidableEq

structure Ipv6Addr where
  segments : List UInt16
  size : segments.length = 8
  deriving DecidableEq

inductive IpAddr
  | v4 (ip : Ipv4Addr)
  | v6 (ip : Ipv6Addr)
  deriving DecidableEq

structure SocketAddr where
  ip : IpAddr
  port : UInt16
  deriving DecidableEq

/-! ## Two bytes as a number -/

/-- `u16::from_be_bytes`. -/
def be16 (hi lo : UInt8) : UInt16 := UInt16.ofNat (hi.toNat * 256 + lo.toNat)

/-- `n >> 8` and `n & 0xff`, as bytes. -/
def hiByte (n : UInt16) : UInt8 := UInt8.ofNat (n.toNat / 256)
def loByte (n : UInt16) : UInt8 := UInt8.ofNat (n.toNat % 256)

theorem be16_hiByte_loByte (n : UInt16) : be16 (hiByte n) (loByte n) = n := by
  have hn : n.toNat < 2 ^ 16 := n.toNat_lt
  have hhi : (hiByte n).toNat = n.toNat / 256 := by
    rw [hiByte, UInt8.toNat_ofNat']
    omega
  have hlo : (loByte n).toNat = n.toNat % 256 := by
    rw [loByte, UInt8.toNat_ofNat']
    omega
  rw [be16, hhi, hlo, Nat.div_add_mod']
  exact UInt16.ofNat_toNat

/-! ## Octets -/

def Ipv4Addr.octets (ip : Ipv4Addr) : Bytes := [ip.a, ip.b, ip.c, ip.d]

def Ipv6Addr.octets (ip : Ipv6Addr) : Bytes := ip.segments.flatMap fun s => [hiByte s, loByte s]

/-- The big-endian numbers that the bytes hold in pairs. -/
def pairs : Bytes → List UInt16
  | hi :: lo :: rest => be16 hi lo :: pairs rest
  | _ => []

theorem length_pairs (b : Bytes) : (pairs b).length = b.length / 2 := by
  fun_induction pairs b with
  | case1 hi lo rest ih => simp only [List.length_cons, ih]; omega
  | case2 b h =>
    match b with
    | [] => rfl
    | [_] => simp
    | x :: y :: b => exact absurd rfl (h x y b)

theorem pairs_flatMap (l : List UInt16) : pairs (l.flatMap fun s => [hiByte s, loByte s]) = l := by
  induction l with
  | nil => rfl
  | cons s l ih =>
    simp only [List.flatMap_cons, List.cons_append, List.nil_append, pairs, be16_hiByte_loByte, ih]

/-- `Ipv6Addr::from([u8; 16])`. -/
def Ipv6Addr.ofOctets (b : Bytes) (h : b.length = 16) : Ipv6Addr :=
  ⟨pairs b, by rw [length_pairs, h]⟩

theorem Ipv6Addr.length_octets (ip : Ipv6Addr) : ip.octets.length = 16 := by
  simp [octets, List.length_flatMap, ip.size]

theorem Ipv6Addr.ofOctets_octets (ip : Ipv6Addr) (h : ip.octets.length = 16) :
    Ipv6Addr.ofOctets ip.octets h = ip := by
  obtain ⟨segments, size⟩ := ip
  simp only [ofOctets, octets, pairs_flatMap]

/-! ## Parsing -/

/-- `char::to_digit` of a byte. -/
def toDigit (radix : Nat) (byte : UInt8) : Option Nat :=
  let n := byte.toNat
  let digit :=
    if 48 ≤ n ∧ n ≤ 57 then some (n - 48)
    else if 97 ≤ n ∧ n ≤ 122 then some (n - 97 + 10)
    else if 65 ≤ n ∧ n ≤ 90 then some (n - 65 + 10)
    else none
  digit.filter fun d => d < radix

/-- `read_number`: at most `maxDigits` digits, a value below `bound`. -/
def readNumber (radix maxDigits bound : Nat) (allowZeroPrefix : Bool) (s : Bytes) :
    Option (Nat × Bytes) :=
  let digits := s.takeWhile fun byte => (toDigit radix byte).isSome
  let value := digits.foldl (fun n byte => n * radix + (toDigit radix byte).getD 0) 0
  if digits.length > maxDigits then none
  else if digits.length = 0 then none
  else if !allowZeroPrefix && digits.head? = some 0x30 && digits.length > 1 then none
  else if value < bound then some (value, s.drop digits.length)
  else none

/-- `read_given_char`. -/
def readGivenChar (target : UInt8) : Bytes → Option Bytes
  | byte :: rest => if byte = target then some rest else none
  | [] => none

/-- `read_separator`: a separator stands before every item but the first. -/
def readSeparator {α : Type} (sep : UInt8) (first : Bool) (inner : Bytes → Option (α × Bytes))
    (s : Bytes) : Option (α × Bytes) :=
  if first then inner s else (readGivenChar sep s).bind inner

/-- One decimal number of an IPv4 address. -/
def readOctet (first : Bool) (s : Bytes) : Option (Nat × Bytes) :=
  readSeparator 0x2E first (readNumber 10 3 256 false) s

/-- `read_ipv4_addr`. -/
def readIpv4Addr (s : Bytes) : Option (Ipv4Addr × Bytes) := do
  let (a, s) ← readOctet true s
  let (b, s) ← readOctet false s
  let (c, s) ← readOctet false s
  let (d, s) ← readOctet false s
  return (⟨UInt8.ofNat a, UInt8.ofNat b, UInt8.ofNat c, UInt8.ofNat d⟩, s)

/-- `read_groups`: up to `slots` groups, the last two of which may be an IPv4 address;
with whether they are, and the rest. -/
def readGroups (first : Bool) : (slots : Nat) → Bytes → List UInt16 × Bool × Bytes
  | 0, s => ([], false, s)
  | slots + 1, s =>
    match if 0 < slots then readSeparator 0x3A first readIpv4Addr s else none with
    | some (v4, rest) => ([be16 v4.a v4.b, be16 v4.c v4.d], true, rest)
    | none =>
      match readSeparator 0x3A first (readNumber 16 4 (2 ^ 16) true) s with
      | some (group, rest) =>
        let (groups, ipv4, rest) := readGroups false slots rest
        (UInt16.ofNat group :: groups, ipv4, rest)
      | none => ([], false, s)

theorem length_readGroups_le (first : Bool) (slots : Nat) (s : Bytes) :
    (readGroups first slots s).1.length ≤ slots := by
  induction slots generalizing first s with
  | zero => exact le_rfl
  | succ slots ih =>
    unfold readGroups
    split
    · next h =>
      split at h
      · simp only [List.length_cons, List.length_nil]
        omega
      · cases h
    · split
      · next group rest _ =>
        simp only [List.length_cons]
        exact Nat.succ_le_succ (ih false rest)
      · exact Nat.zero_le _

/-- The groups before and after a `::`, and the zeros it stands for. -/
def joinGroups (head tail : List UInt16) (h : head.length + tail.length ≤ 8) : Ipv6Addr :=
  ⟨head ++ List.replicate (8 - head.length - tail.length) 0 ++ tail, by
    simp only [List.length_append, List.length_replicate]
    omega⟩

/-- `read_ipv6_addr`: eight groups, or fewer around a `::`.  No IPv4 address stands
before the `::`. -/
def readIpv6Addr (s : Bytes) : Option (Ipv6Addr × Bytes) :=
  let head := readGroups true 8 s
  if hsize : head.1.length = 8 then some (⟨head.1, hsize⟩, head.2.2)
  else if head.2.1 then none
  else
    match (readGivenChar 0x3A head.2.2).bind (readGivenChar 0x3A) with
    | none => none
    | some rest =>
      let tail := readGroups true (8 - (head.1.length + 1)) rest
      some (joinGroups head.1 tail.1 (by
        have hhead : head.1.length ≤ 8 := length_readGroups_le ..
        have htail : tail.1.length ≤ 8 - (head.1.length + 1) := length_readGroups_le ..
        omega), tail.2.2)

/-- The parser has to reach the end of the text. -/
def parseWith {α : Type} (inner : Bytes → Option (α × Bytes)) (s : Bytes) : Option α :=
  match inner s with
  | some (a, []) => some a
  | _ => none

/-- `Ipv4Addr::from_str`. -/
def Ipv4Addr.parse (s : Bytes) : Option Ipv4Addr :=
  if s.length > 15 then none else parseWith readIpv4Addr s

/-- `Ipv6Addr::from_str`. -/
def Ipv6Addr.parse (s : Bytes) : Option Ipv6Addr := parseWith readIpv6Addr s

/-! ## Printing -/

/-- `{:x}`. -/
def lowerHex (n : Nat) : String := String.ofList (Nat.toDigits 16 n)

def Ipv4Addr.toString (ip : Ipv4Addr) : String :=
  ".".intercalate (ip.octets.map fun b => ToString.toString b.toNat)

/-- A run of zero segments. -/
structure Span where
  start : Nat := 0
  len : Nat := 0

/-- The longest run of zeros, the first one of them. -/
def longestZeros (segments : List UInt16) : Span :=
  (segments.zipIdx.foldl (fun (longest, current) (segment, i) =>
    if segment = 0 then
      let current : Span := ⟨if current.len = 0 then i else current.start, current.len + 1⟩
      (if current.len > longest.len then current else longest, current)
    else (longest, {})) (({} : Span), ({} : Span))).1

/-- `fmt_subslice`. -/
def fmtSubslice (chunk : List UInt16) : String :=
  ":".intercalate (chunk.map fun s => lowerHex s.toNat)

/-- `to_ipv4_mapped`. -/
def Ipv6Addr.toIpv4Mapped (ip : Ipv6Addr) : Option Ipv4Addr :=
  match ip.segments with
  | [0, 0, 0, 0, 0, 0xFFFF, ab, cd] => some ⟨hiByte ab, loByte ab, hiByte cd, loByte cd⟩
  | _ => none

def Ipv6Addr.toString (ip : Ipv6Addr) : String :=
  match ip.toIpv4Mapped with
  | some ipv4 => "::ffff:" ++ ipv4.toString
  | none =>
    let zeroes := longestZeros ip.segments
    if zeroes.len > 1 then
      fmtSubslice (ip.segments.take zeroes.start) ++ "::" ++
        fmtSubslice (ip.segments.drop (zeroes.start + zeroes.len))
    else fmtSubslice ip.segments

/-! ## The length of what is printed -/

theorem length_intercalate_le (sep : String) {k : Nat} {l : List String}
    (h : ∀ a ∈ l, a.length ≤ k) : (sep.intercalate l).length ≤ l.length * (sep.length + k) := by
  induction l with
  | nil => simp
  | cons a l ih =>
    have ha := h a List.mem_cons_self
    have hl := ih fun b hb => h b (List.mem_cons_of_mem _ hb)
    cases l with
    | nil =>
      rw [String.intercalate_singleton, List.length_singleton]
      omega
    | cons b l =>
      rw [String.intercalate_cons_cons, String.length_append, String.length_append,
        List.length_cons, Nat.succ_mul]
      omega

theorem Ipv4Addr.length_toString (ip : Ipv4Addr) : ip.toString.length ≤ 16 := by
  refine (length_intercalate_le "." (k := 3) ?_).trans (le_of_eq rfl)
  intro a ha
  obtain ⟨b, -, rfl⟩ := List.mem_map.mp ha
  have hb : b.toNat < 256 := b.toNat_lt
  exact (Nat.length_repr_le_iff (by decide)).mpr (by omega)

theorem length_fmtSubslice (chunk : List UInt16) : (fmtSubslice chunk).length ≤ chunk.length * 5 := by
  have hle : ∀ a ∈ chunk.map (fun s => lowerHex s.toNat), a.length ≤ 4 := by
    intro a ha
    obtain ⟨s, -, rfl⟩ := List.mem_map.mp ha
    have hs : s.toNat < 65536 := s.toNat_lt
    rw [lowerHex, String.length_ofList]
    exact (Nat.length_toDigits_le_iff (by decide) (by decide)).mpr (by omega)
  have h := length_intercalate_le ":" hle
  rwa [List.length_map] at h

theorem Ipv6Addr.length_toString (ip : Ipv6Addr) : ip.toString.length ≤ 42 := by
  have hsize := ip.size
  unfold Ipv6Addr.toString
  split
  · next ipv4 _ =>
    have h4 := ipv4.length_toString
    have hpre : "::ffff:".length = 7 := rfl
    rw [String.length_append, hpre]
    omega
  · dsimp only
    split
    · have hhead := length_fmtSubslice (ip.segments.take (longestZeros ip.segments).start)
      have htail := length_fmtSubslice (ip.segments.drop
        ((longestZeros ip.segments).start + (longestZeros ip.segments).len))
      have hsep : "::".length = 2 := rfl
      rw [List.length_take] at hhead
      rw [List.length_drop] at htail
      rw [String.length_append, String.length_append, hsep]
      omega
    · have h := length_fmtSubslice ip.segments
      omega

end Parseh.Tunnel
