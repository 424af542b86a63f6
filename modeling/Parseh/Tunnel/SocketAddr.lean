import Mathlib.Data.List.TakeWhile
import Parseh.Tunnel.IpAddr

/-!
# Socket addresses as text

`IpAddr::from_str` and `SocketAddr::from_str` of the standard library: `ip:port`, where an
IPv6 address stands in brackets and may have a scope in front of the closing one.

* `readIpv4Addr_eq_some`: an IPv4 address is read from its own bytes, whatever follows;
* `SocketAddr.parse_eq_some`: so the text in front of the port is that of the address;
* `colon_mem_of_parse_ipv6`: an IPv6 address is not written without a colon.
-/

namespace Parseh.Tunnel

open Parseh.Wire

/-! ## Parsing -/

/-- `read_ip_addr`. -/
def readIpAddr (s : Bytes) : Option (IpAddr × Bytes) :=
  match readIpv4Addr s with
  | some (ip, rest) => some (.v4 ip, rest)
  | none => (readIpv6Addr s).map fun (ip, rest) => (.v6 ip, rest)

/-- `IpAddr::from_str`. -/
def IpAddr.parse (s : Bytes) : Option IpAddr := parseWith readIpAddr s

/-- A sign and a decimal number of any length below `bound`. -/
def readAfter (sign : UInt8) (bound : Nat) (s : Bytes) : Option (Nat × Bytes) :=
  (readGivenChar sign s).bind fun s => readNumber 10 s.length bound true s

/-- `read_port`. -/
def readPort (s : Bytes) : Option (Nat × Bytes) := readAfter 0x3A (2 ^ 16) s

/-- `read_scope_id`. -/
def readScopeId (s : Bytes) : Option (Nat × Bytes) := readAfter 0x25 (2 ^ 32) s

/-- `read_socket_addr_v4`. -/
def readSocketAddrV4 (s : Bytes) : Option (SocketAddr × Bytes) := do
  let (ip, s) ← readIpv4Addr s
  let (port, s) ← readPort s
  return (⟨.v4 ip, UInt16.ofNat port⟩, s)

/-- `read_socket_addr_v6`.  A scope is read, and is no part of what we keep. -/
def readSocketAddrV6 (s : Bytes) : Option (SocketAddr × Bytes) := do
  let s ← readGivenChar 0x5B s
  let (ip, s) ← readIpv6Addr s
  let (_, s) := (readScopeId s).getD (0, s)
  let s ← readGivenChar 0x5D s
  let (port, s) ← readPort s
  return (⟨.v6 ip, UInt16.ofNat port⟩, s)

/-- `read_socket_addr`. -/
def readSocketAddr (s : Bytes) : Option (SocketAddr × Bytes) :=
  match readSocketAddrV4 s with
  | some r => some r
  | none => readSocketAddrV6 s

/-- `SocketAddr::from_str`. -/
def SocketAddr.parse (s : Bytes) : Option SocketAddr := parseWith readSocketAddr s

/-- `is_loopback`. -/
def Ipv4Addr.isLoopback (ip : Ipv4Addr) : Bool := ip.a = 127

def Ipv6Addr.isLoopback (ip : Ipv6Addr) : Bool := ip.segments = [0, 0, 0, 0, 0, 0, 0, 1]

def IpAddr.isLoopback : IpAddr → Bool
  | .v4 ip => ip.isLoopback
  | .v6 ip => ip.isLoopback

/-! ## Numbers -/

/-- The byte is a digit. -/
def isDigit (radix : Nat) (b : UInt8) : Bool := (toDigit radix b).isSome

/-- The text does not go on with a digit. -/
def Stops (radix : Nat) (s : Bytes) : Prop := ∀ b ∈ s.head?, isDigit radix b = false

def digitsValue (radix : Nat) (digits : Bytes) : Nat :=
  digits.foldl (fun n byte => n * radix + (toDigit radix byte).getD 0) 0

/-- What `read_number` makes of the digits it has found. -/
def numeral (radix maxDigits bound : Nat) (allowZeroPrefix : Bool) (digits : Bytes) : Option Nat :=
  if digits.length > maxDigits then none
  else if digits.length = 0 then none
  else if !allowZeroPrefix && digits.head? = some 0x30 && digits.length > 1 then none
  else if digitsValue radix digits < bound then some (digitsValue radix digits)
  else none

variable {radix maxDigits bound v : Nat} {zero : Bool} {s rest digits : Bytes}

theorem takeWhile_digits (hd : ∀ b ∈ digits, isDigit radix b) (hstop : Stops radix rest) :
    (digits ++ rest).takeWhile (isDigit radix) = digits := by
  rw [List.takeWhile_append_of_pos hd]
  cases rest with
  | nil => simp
  | cons b rest =>
    have hb : ¬ isDigit radix b := by simp [hstop b rfl]
    rw [List.takeWhile_cons_of_neg hb, List.append_nil]

theorem readNumber_append (hd : ∀ b ∈ digits, isDigit radix b) (hstop : Stops radix rest) :
    readNumber radix maxDigits bound zero (digits ++ rest) =
      (numeral radix maxDigits bound zero digits).map fun v => (v, rest) := by
  have htake : (digits ++ rest).takeWhile (fun b => (toDigit radix b).isSome) = digits :=
    takeWhile_digits hd hstop
  unfold readNumber numeral digitsValue
  simp only [htake, List.drop_left]
  split
  · rfl
  · split
    · rfl
    · split
      · rfl
      · split <;> rfl

/-- A number is read from its digits alone. -/
theorem readNumber_eq_some (h : readNumber radix maxDigits bound zero s = some (v, rest)) :
    ∃ digits, s = digits ++ rest ∧ (∀ b ∈ digits, isDigit radix b) ∧ Stops radix rest ∧
      numeral radix maxDigits bound zero digits = some v := by
  have hd : ∀ b ∈ s.takeWhile (isDigit radix), isDigit radix b :=
    fun b hb => List.mem_takeWhile_imp hb
  have hstop : Stops radix (s.dropWhile (isDigit radix)) := by
    intro b hb
    have hnot := List.head?_dropWhile_not (isDigit radix) s
    rw [hb] at hnot
    simpa using hnot
  have hs := List.takeWhile_append_dropWhile (p := isDigit radix) (l := s)
  rw [← hs, readNumber_append hd hstop] at h
  obtain ⟨v', hv, heq⟩ := Option.map_eq_some_iff.mp h
  obtain ⟨rfl, rfl⟩ := Prod.mk.inj heq
  exact ⟨_, hs.symm, hd, hstop, hv⟩

theorem numeral_eq_some (h : numeral radix maxDigits bound zero digits = some v) :
    digits ≠ [] ∧ v = digitsValue radix digits ∧ v < bound := by
  unfold numeral at h
  split at h
  · cases h
  · split at h
    · cases h
    · next hlen =>
      split at h
      · cases h
      · split at h
        · next hlt =>
          obtain rfl := Option.some.inj h
          exact ⟨fun hnil => hlen (by rw [hnil]; rfl), rfl, hlt⟩
        · cases h

/-! ## IPv4 addresses -/

/-- `read` takes `text` off the front as `a`, whatever follows it but a digit. -/
def Reads {α : Type} (read : Bytes → Option (α × Bytes)) (text : Bytes) (a : α) : Prop :=
  ∀ rest, Stops 10 rest → read (text ++ rest) = some (a, rest)

/-- Digits and dots. -/
def Dotted (text : Bytes) : Prop := ∀ b ∈ text, isDigit 10 b ∨ b = 0x2E

theorem Dotted.append {t u : Bytes} (ht : Dotted t) (hu : Dotted u) : Dotted (t ++ u) := by
  intro b hb
  rcases List.mem_append.mp hb with hb | hb
  · exact ht b hb
  · exact hu b hb

theorem readGivenChar_eq_some {target : UInt8} (h : readGivenChar target s = some rest) :
    s = target :: rest := by
  cases s with
  | nil => cases h
  | cons b s =>
    simp only [readGivenChar] at h
    split at h
    · next hb =>
      obtain rfl := Option.some.inj h
      rw [hb]
    · cases h

theorem stops_dot (s : Bytes) : Stops 10 (0x2E :: s) := by
  intro b hb
  obtain rfl := Option.some.inj hb
  decide

/-- The first number of an address. -/
theorem readOctet_first (h : readOctet true s = some (v, rest)) :
    ∃ text, s = text ++ rest ∧ Dotted text ∧ Reads (readOctet true) text v := by
  obtain ⟨digits, rfl, hd, -, hv⟩ := readNumber_eq_some h
  refine ⟨digits, rfl, fun b hb => Or.inl (hd b hb), fun rest' hstop => ?_⟩
  change readNumber 10 3 256 false (digits ++ rest') = _
  rw [readNumber_append hd hstop, hv, Option.map_some]

/-- A further number, with the dot in front of it. -/
theorem readOctet_next (h : readOctet false s = some (v, rest)) :
    ∃ text, s = 0x2E :: text ++ rest ∧ Dotted (0x2E :: text) ∧
      Reads (readOctet false) (0x2E :: text) v := by
  obtain ⟨s', hdot, hnum⟩ := Option.bind_eq_some_iff.mp h
  obtain rfl := readGivenChar_eq_some hdot
  obtain ⟨digits, rfl, hd, -, hv⟩ := readNumber_eq_some hnum
  refine ⟨digits, rfl, fun b hb => ?_, fun rest' hstop => ?_⟩
  · rcases List.mem_cons.mp hb with rfl | hb
    · exact Or.inr rfl
    · exact Or.inl (hd b hb)
  · change readNumber 10 3 256 false (digits ++ rest') = _
    rw [readNumber_append hd hstop, hv, Option.map_some]

/-- An IPv4 address is read from its own bytes. -/
theorem readIpv4Addr_eq_some {ip : Ipv4Addr} (h : readIpv4Addr s = some (ip, rest)) :
    ∃ text, s = text ++ rest ∧ Dotted text ∧ Reads readIpv4Addr text ip := by
  simp only [readIpv4Addr, Option.bind_eq_bind, Option.bind_eq_some_iff] at h
  obtain ⟨⟨a, s₁⟩, ha, ⟨b, s₂⟩, hb, ⟨c, s₃⟩, hc, ⟨d, s₄⟩, hd, heq⟩ := h
  obtain ⟨rfl, rfl⟩ := Prod.mk.inj (Option.some.inj heq)
  obtain ⟨ta, rfl, hta, ra⟩ := readOctet_first ha
  obtain ⟨tb, rfl, htb, rb⟩ := readOctet_next hb
  obtain ⟨tc, rfl, htc, rc⟩ := readOctet_next hc
  obtain ⟨td, rfl, htd, rd⟩ := readOctet_next hd
  refine ⟨ta ++ (0x2E :: tb ++ (0x2E :: tc ++ 0x2E :: td)), by simp, ?_, fun rest' hstop => ?_⟩
  · exact hta.append (htb.append (htc.append htd))
  · have h₁ := ra (0x2E :: tb ++ (0x2E :: tc ++ (0x2E :: td ++ rest'))) (stops_dot _)
    have h₂ := rb (0x2E :: tc ++ (0x2E :: td ++ rest')) (stops_dot _)
    have h₃ := rc (0x2E :: td ++ rest') (stops_dot _)
    have h₄ := rd rest' hstop
    simp only [readIpv4Addr, Option.bind_eq_bind, List.append_assoc, h₁, h₂, h₃, h₄,
      Option.bind_some]
    rfl

/-! ## Socket addresses -/

theorem parseWith_eq_some {α : Type} {inner : Bytes → Option (α × Bytes)} {a : α}
    (h : parseWith inner s = some a) : inner s = some (a, []) := by
  unfold parseWith at h
  split at h
  · next hs =>
    obtain rfl := Option.some.inj h
    exact hs
  · cases h

theorem readPort_eq_some (h : readPort s = some (v, rest)) :
    ∃ digits, s = 0x3A :: digits ++ rest ∧ digits ≠ [] ∧ (∀ b ∈ digits, isDigit 10 b) ∧
      v = digitsValue 10 digits ∧ v < 2 ^ 16 := by
  obtain ⟨s', hcolon, hnum⟩ := Option.bind_eq_some_iff.mp h
  obtain rfl := readGivenChar_eq_some hcolon
  obtain ⟨digits, rfl, hd, -, hv⟩ := readNumber_eq_some hnum
  obtain ⟨hne, hval, hlt⟩ := numeral_eq_some hv
  exact ⟨digits, rfl, hne, hd, hval, hlt⟩

/-- The text of a socket address: an IPv4 address, a colon and a number, or something in
brackets. -/
theorem SocketAddr.parse_eq_some {addr : SocketAddr} (h : SocketAddr.parse s = some addr) :
    (∃ text digits ip, s = text ++ 0x3A :: digits ∧ Dotted text ∧ digits ≠ [] ∧
        (∀ b ∈ digits, isDigit 10 b) ∧ digitsValue 10 digits < 2 ^ 16 ∧
        IpAddr.parse text = some (.v4 ip) ∧
        addr = ⟨.v4 ip, UInt16.ofNat (digitsValue 10 digits)⟩) ∨
      ∃ rest ip port, s = 0x5B :: rest ∧ addr = ⟨.v6 ip, port⟩ := by
  have hread := parseWith_eq_some h
  unfold readSocketAddr at hread
  split at hread
  · next r hv4 =>
    obtain rfl := Option.some.inj hread
    simp only [readSocketAddrV4, Option.bind_eq_bind, Option.bind_eq_some_iff] at hv4
    obtain ⟨⟨ip, s₁⟩, hip, ⟨port, s₂⟩, hport, heq⟩ := hv4
    obtain ⟨rfl, rfl⟩ := Prod.mk.inj (Option.some.inj heq)
    obtain ⟨text, rfl, htext, hreads⟩ := readIpv4Addr_eq_some hip
    obtain ⟨digits, rfl, hne, hd, rfl, hlt⟩ := readPort_eq_some hport
    have hparse : readIpv4Addr text = some (ip, []) := by
      have := hreads [] (fun b hb => by cases hb)
      rwa [List.append_nil] at this
    refine Or.inl ⟨text, digits, ip, by simp, htext, hne, hd, hlt, ?_, rfl⟩
    simp only [IpAddr.parse, parseWith, readIpAddr, hparse]
  · simp only [readSocketAddrV6, Option.bind_eq_bind, Option.bind_eq_some_iff] at hread
    obtain ⟨s₁, hopen, ⟨ip, s₂⟩, -, s₃, -, ⟨port, s₄⟩, -, heq⟩ := hread
    obtain ⟨rfl, -⟩ := Prod.mk.inj (Option.some.inj heq)
    exact Or.inr ⟨s₁, ip, _, readGivenChar_eq_some hopen, rfl⟩

/-! ## What is no address -/

/-- No number begins with a bracket. -/
theorem readNumber_bracket (hradix : isDigit radix 0x5B = false) (s : Bytes) :
    readNumber radix maxDigits bound zero (0x5B :: s) = none := by
  cases h : readNumber radix maxDigits bound zero (0x5B :: s) with
  | none => rfl
  | some r =>
    obtain ⟨digits, hs, hd, -, hv⟩ := readNumber_eq_some h
    obtain ⟨b, digits, rfl⟩ := List.exists_cons_of_ne_nil (numeral_eq_some hv).1
    obtain ⟨rfl, -⟩ := List.cons.inj hs
    rw [hd _ List.mem_cons_self] at hradix
    cases hradix

theorem readIpv4Addr_bracket (s : Bytes) : readIpv4Addr (0x5B :: s) = none := by
  have hdigit : isDigit 10 0x5B = false := by decide
  have hfirst : readOctet true (0x5B :: s) = none := by
    rw [readOctet, readSeparator, if_pos rfl, readNumber_bracket hdigit]
  rw [readIpv4Addr, hfirst]
  rfl

theorem readGroups_bracket (slots : Nat) (s : Bytes) :
    readGroups true (slots + 1) (0x5B :: s) = ([], false, 0x5B :: s) := by
  have hv4 : readSeparator 0x3A true readIpv4Addr (0x5B :: s) = none := readIpv4Addr_bracket s
  have hdigit : isDigit 16 0x5B = false := by decide
  have hnum : readSeparator 0x3A true (readNumber 16 4 (2 ^ 16) true) (0x5B :: s) = none := by
    rw [readSeparator, if_pos rfl, readNumber_bracket hdigit]
  rw [readGroups, hv4, ite_self, hnum]

theorem readIpv6Addr_bracket (s : Bytes) : readIpv6Addr (0x5B :: s) = none := by
  have hhead := readGroups_bracket 7 s
  unfold readIpv6Addr
  dsimp only
  split
  · next hsize =>
    rw [hhead] at hsize
    cases hsize
  · split
    · rfl
    · split
      · rfl
      · next hcolons =>
        rw [hhead] at hcolons
        cases hcolons

/-- No address begins with a bracket. -/
theorem IpAddr.parse_bracket (s : Bytes) : IpAddr.parse (0x5B :: s) = none := by
  rw [IpAddr.parse, parseWith, readIpAddr, readIpv4Addr_bracket, readIpv6Addr_bracket]
  rfl

theorem readNumber_suffix (h : readNumber radix maxDigits bound zero s = some (v, rest)) :
    rest <:+ s := by
  obtain ⟨digits, rfl, -⟩ := readNumber_eq_some h
  exact List.suffix_append ..

theorem readIpv4Addr_suffix {ip : Ipv4Addr} (h : readIpv4Addr s = some (ip, rest)) :
    rest <:+ s := by
  obtain ⟨text, rfl, -⟩ := readIpv4Addr_eq_some h
  exact List.suffix_append ..

theorem readSeparator_suffix {α : Type} {sep : UInt8} {first : Bool}
    {inner : Bytes → Option (α × Bytes)} {a : α}
    (hinner : ∀ {s a rest}, inner s = some (a, rest) → rest <:+ s)
    (h : readSeparator sep first inner s = some (a, rest)) : rest <:+ s := by
  unfold readSeparator at h
  split at h
  · exact hinner h
  · obtain ⟨s', hsep, hs'⟩ := Option.bind_eq_some_iff.mp h
    obtain rfl := readGivenChar_eq_some hsep
    exact (hinner hs').trans (List.suffix_cons ..)

theorem sep_mem_of_readSeparator {α : Type} {sep : UInt8} {inner : Bytes → Option (α × Bytes)}
    {r : α × Bytes} (h : readSeparator sep false inner s = some r) : sep ∈ s := by
  obtain ⟨s', hsep, -⟩ := Option.bind_eq_some_iff.mp h
  rw [readGivenChar_eq_some hsep]
  exact List.mem_cons_self

theorem readGroups_suffix (first : Bool) (slots : Nat) (s : Bytes) :
    (readGroups first slots s).2.2 <:+ s := by
  induction slots generalizing first s with
  | zero => exact List.suffix_rfl
  | succ slots ih =>
    unfold readGroups
    split
    · next h =>
      split at h
      · exact readSeparator_suffix readIpv4Addr_suffix h
      · cases h
    · split
      · next group rest h =>
        have hrest : rest <:+ s := readSeparator_suffix readNumber_suffix h
        exact (ih false rest).trans hrest
      · exact List.suffix_rfl

/-- A further group has a colon in front of it. -/
theorem colon_mem_of_readGroups (slots : Nat) (h : (readGroups false slots s).1 ≠ []) :
    0x3A ∈ s := by
  cases slots with
  | zero => exact absurd rfl h
  | succ slots =>
    unfold readGroups at h
    split at h
    · next hv4 =>
      split at hv4
      · exact sep_mem_of_readSeparator hv4
      · cases hv4
    · split at h
      · next hnum => exact sep_mem_of_readSeparator hnum
      · exact absurd rfl h

/-- Three groups are not written without a colon, two may be an IPv4 address. -/
theorem colon_mem_of_length (slots : Nat) (h : 2 < (readGroups true slots s).1.length) :
    0x3A ∈ s := by
  cases slots with
  | zero => exact absurd h (by simp [readGroups])
  | succ slots =>
    unfold readGroups at h
    split at h
    · exact absurd h (by simp)
    · split at h
      · next group rest hnum =>
        have hrest : rest <:+ s := readNumber_suffix hnum
        refine hrest.subset (colon_mem_of_readGroups slots fun hnil => ?_)
        simp [hnil] at h
      · exact absurd h (by simp)

/-- No IPv6 address is written without a colon. -/
theorem colon_mem_of_parse_ipv6 {ip : Ipv6Addr} (h : Ipv6Addr.parse s = some ip) : 0x3A ∈ s := by
  have hread := parseWith_eq_some h
  unfold readIpv6Addr at hread
  dsimp only at hread
  split at hread
  · next hsize => exact colon_mem_of_length 8 (by omega)
  · split at hread
    · cases hread
    · split at hread
      · cases hread
      · next hcolons =>
        obtain ⟨s', hcolon, -⟩ := Option.bind_eq_some_iff.mp hcolons
        apply (readGroups_suffix true 8 s).subset
        rw [readGivenChar_eq_some hcolon]
        exact List.mem_cons_self

end Parseh.Tunnel
