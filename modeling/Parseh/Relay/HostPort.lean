import Parseh.Agent.Mapping
import Parseh.Lib.Split
import Parseh.Lib.Utf8
import Parseh.Tunnel.Socks5
import Parseh.Tunnel.SocketAddr

/-!
# Hosts and ports as text (`relay`, `reality`)

Three ways to read `host:port`: as a socket address, as `parse_host_port` does it, and by
cutting at the colons and taking the first two pieces.

* `parseU16_digits`: the digits of a port are the same number for both parsers;
* `namesAddr_iff`: the first two pieces of a socket address name it exactly if it is not in
  brackets;
* `target_iff`: they are its host and its port exactly if there is one colon and no bracket
  in front.
-/

namespace Parseh.Relay

open Parseh.Lib Parseh.Wire Parseh.Tunnel Parseh.Agent

/-! ## Pieces -/

/-- `s.trim().is_empty()`. -/
def isBlank (s : String) : Bool := (trim s.toList).isEmpty

/-- `s.split(':')`. -/
def splitColons (s : String) : List String := (s.toList.splitOn ':').map String.ofList

/-- `str::parse::<u16>`: what is a `usize`, and small enough. -/
def parseU16 (s : String) : Option UInt16 :=
  ((parseUsize s).filter fun n => n < 2 ^ 16).map UInt16.ofNat

/-- `s.split(':').next()`. -/
def firstPart (s : String) : Option String := (splitColons s).head?

/-- `s.split(':').nth(1).and_then(|p| p.parse::<u16>().ok())`. -/
def secondPort (s : String) : Option UInt16 := (splitColons s)[1]?.bind parseU16

/-! ## Host and port -/

/-- `parse_host_port` of `reality/transport.rs`. -/
def parseHostPort (s : String) : Option (String × UInt16) :=
  match s.toList with
  | '[' :: rest => do
    let (host, port) ← splitOnce [']', ':'] rest
    let port ← parseU16 (String.ofList port)
    return (String.ofList host, port)
  | cs => do
    let (host, port) ← rsplitOnce ':' cs
    let port ← parseU16 (String.ofList port)
    return (String.ofList host, port)

/-! ## The digits of a port -/

theorem toDigit_ten {b : UInt8} (h : isDigit 10 b) :
    48 ≤ b.toNat ∧ b.toNat ≤ 57 ∧ toDigit 10 b = some (b.toNat - 48) := by
  obtain ⟨d, hd⟩ := Option.isSome_iff_exists.mp h
  rw [hd]
  unfold toDigit at hd
  obtain ⟨hd, hlt⟩ := Option.filter_eq_some_iff.mp hd
  have hlt : d < 10 := of_decide_eq_true hlt
  -- the letters are digits of a larger radix
  split at hd
  · next hdec =>
    obtain rfl := Option.some.inj hd
    exact ⟨hdec.1, hdec.2, rfl⟩
  · split at hd
    · have := Option.some.inj hd
      omega
    · split at hd
      · have := Option.some.inj hd
        omega
      · cases hd

theorem digit?_of_toNat {c : Char} (h : 48 ≤ c.toNat ∧ c.toNat ≤ 57) :
    digit? c = some (c.toNat - 48) := by
  have hle : '0' ≤ c ∧ c ≤ '9' := h
  exact if_pos hle

theorem mapM_digit? {cs : List Char} {digits : Bytes} (hd : ∀ b ∈ digits, isDigit 10 b)
    (hcs : cs.map Char.toNat = digits.map UInt8.toNat) :
    cs.mapM digit? = some (digits.map fun b => b.toNat - 48) := by
  induction digits generalizing cs with
  | nil =>
    obtain rfl := List.map_eq_nil_iff.mp hcs
    rfl
  | cons b digits ih =>
    obtain ⟨c, cs, rfl, hc, hcs⟩ := List.map_eq_cons_iff.mp hcs
    obtain ⟨hb, hdigits⟩ := List.forall_mem_cons.mp hd
    obtain ⟨hlo, hhi, -⟩ := toDigit_ten hb
    rw [List.mapM_cons, digit?_of_toNat (by omega), ih hdigits hcs, hc]
    rfl

theorem foldl_digits {digits : Bytes} (hd : ∀ b ∈ digits, isDigit 10 b) :
    (digits.map fun b => b.toNat - 48).foldl (fun n d => 10 * n + d) 0 = digitsValue 10 digits := by
  rw [List.foldl_map, digitsValue]
  apply List.foldl_ext
  intro n b hb
  rw [(toDigit_ten (hd b hb)).2.2, Option.getD_some, Nat.mul_comm]

theorem parseU16_digits {cs : List Char} {digits : Bytes} (hd : ∀ b ∈ digits, isDigit 10 b)
    (hcs : cs.map Char.toNat = digits.map UInt8.toNat) (hne : digits ≠ [])
    (hlt : digitsValue 10 digits < 2 ^ 16) :
    parseU16 (String.ofList cs) = some (UInt16.ofNat (digitsValue 10 digits)) := by
  have hmap := mapM_digit? hd hcs
  have hval := foldl_digits hd
  have husize : parseUsize (String.ofList cs) = some (digitsValue 10 digits) := by
    obtain ⟨b, digits, rfl⟩ := List.exists_cons_of_ne_nil hne
    obtain ⟨c, cs, rfl, hc, -⟩ := List.map_eq_cons_iff.mp hcs
    have hplus : c ≠ '+' := by
      rintro rfl
      obtain ⟨hlo, -⟩ := toDigit_ten (hd b List.mem_cons_self)
      rw [← hc] at hlo
      exact absurd hlo (by decide)
    have hbound : digitsValue 10 (b :: digits) < 2 ^ 64 := by omega
    rw [List.map_cons] at hmap hval
    simp only [parseUsize, String.toList_ofList, List.cons.injEq, hplus, false_and, imp_self,
      implies_true, hmap, hval, hbound, if_true]
  have hsmall : decide (digitsValue 10 digits < 2 ^ 16) := by simpa using hlt
  rw [parseU16, husize, Option.filter_some, if_pos hsmall, Option.map_some]

/-! ## Cutting at the colons -/

variable {s : String} {host port : List Char}

theorem firstPart_of_colon (hs : s.toList = host ++ ':' :: port) (hhost : ':' ∉ host) :
    firstPart s = some (String.ofList host) := by
  rw [firstPart, splitColons, hs, List.splitOn_append_cons_self_of_not_mem hhost]
  rfl

theorem secondPort_of_colon (hs : s.toList = host ++ ':' :: port) (hhost : ':' ∉ host)
    (hport : ':' ∉ port) : secondPort s = parseU16 (String.ofList port) := by
  rw [secondPort, splitColons, hs, List.splitOn_append_cons_self_of_not_mem hhost,
    List.splitOn_eq_singleton hport]
  rfl

theorem firstPart_eq_some (s : String) :
    ∃ x, firstPart s = some (String.ofList x) ∧ ':' ∉ x := by
  obtain ⟨x, hx, hcolon⟩ := head?_splitOn ':' s.toList
  refine ⟨x, ?_, hcolon⟩
  rw [firstPart, splitColons, List.head?_map, hx, Option.map_some]

/-- A text in brackets leaves the first of them in its first piece. -/
theorem firstPart_bracket {cs : List Char} (hs : s.toList = '[' :: cs) :
    ∃ x, firstPart s = some (String.ofList ('[' :: x)) ∧ ':' ∉ x := by
  obtain ⟨x, hx, hcolon⟩ := head?_splitOn ':' cs
  refine ⟨x, ?_, hcolon⟩
  rw [firstPart, splitColons, hs, List.splitOn_cons_eq_if_modifyHead]
  cases hpieces : cs.splitOn ':' with
  | nil => exact absurd hpieces (List.splitOn_ne_nil ':' cs)
  | cons y ys =>
    rw [hpieces] at hx
    obtain rfl := Option.some.inj hx
    rfl

/-! ## The address of a listener -/

/-- The text names the IP address, as it is written or, if it is an IPv6 address, in
brackets. -/
def NamesIp (text : String) (ip : IpAddr) : Prop :=
  IpAddr.parse (asBytes text) = some ip ∨
    ∃ inner v6, text.toList = '[' :: inner ++ [']'] ∧
      Ipv6Addr.parse (asBytes (String.ofList inner)) = some v6 ∧ ip = .v6 v6

theorem asBytes_eq (s : String) : asBytes s = Utf8.encode s.toList := Utf8.utf8_eq_encode s

theorem asBytes_ofList (cs : List Char) : asBytes (String.ofList cs) = Utf8.encode cs := by
  rw [asBytes_eq, String.toList_ofList]

theorem colon_of_toNat {c : Char} (h : c.toNat = 58) : c = ':' := Char.toNat_inj.mp h

/-- A piece of a text in brackets names no address: it has lost its colons. -/
theorem not_namesIp_bracket {x : List Char} (hcolon : ':' ∉ x) (ip : IpAddr) :
    ¬ NamesIp (String.ofList ('[' :: x)) ip := by
  rintro (hparse | ⟨inner, v6, htext, hparse, -⟩)
  · have hbytes : asBytes (String.ofList ('[' :: x)) = 0x5B :: Utf8.encode x := by
      rw [asBytes_ofList, Utf8.encode_cons]
      rfl
    rw [hbytes, IpAddr.parse_bracket] at hparse
    cases hparse
  · have hmem := colon_mem_of_parse_ipv6 hparse
    rw [asBytes_ofList] at hmem
    obtain ⟨c, hc, hnat⟩ := Utf8.exists_of_mem_encode_ascii (by decide) hmem
    obtain rfl := colon_of_toNat hnat
    rw [String.toList_ofList] at htext
    obtain ⟨-, rfl⟩ := List.cons.inj htext
    exact hcolon (List.mem_append_left _ hc)

/-- The codes of digits and dots are below that of the colon. -/
theorem toNat_lt_of_dotted {text : Bytes} (htext : Dotted text) : ∀ b ∈ text, b.toNat < 58 := by
  intro b hb
  rcases htext b hb with hdig | rfl
  · obtain ⟨-, hhi, -⟩ := toDigit_ten hdig
    omega
  · decide

theorem notMem_of_dotted {text : Bytes} (htext : Dotted text)
    (hnat : host.map Char.toNat = text.map UInt8.toNat) {c : Char} (hc : 58 ≤ c.toNat) :
    c ∉ host := by
  intro hmem
  have hcode : c.toNat ∈ text.map UInt8.toNat := hnat ▸ List.mem_map_of_mem hmem
  obtain ⟨b, hb, hbc⟩ := List.mem_map.mp hcode
  have hlt := toNat_lt_of_dotted htext b hb
  omega

/-- The pieces of a text that is an IPv4 address and a port. -/
theorem pieces_of_dotted {text digits : Bytes} (hbytes : asBytes s = text ++ 0x3A :: digits)
    (htext : Dotted text) (hdigits : Dotted digits) :
    ∃ host port, s.toList = host ++ ':' :: port ∧ Utf8.encode host = text ∧
      host.map Char.toNat = text.map UInt8.toNat ∧ port.map Char.toNat = digits.map UInt8.toNat := by
  have hascii : ∀ {t : Bytes}, Dotted t → ∀ b ∈ t, b.toNat < 128 := fun ht b hb =>
    lt_trans (toNat_lt_of_dotted ht b hb) (by decide)
  rw [asBytes_eq] at hbytes
  obtain ⟨host, es, hs, hhost, hes, hnat⟩ := Utf8.encode_eq_append_ascii (hascii htext) hbytes
  obtain ⟨c, port, rfl, hc, hport⟩ := Utf8.encode_eq_cons_ascii (by decide) hes
  obtain rfl := colon_of_toNat hc
  exact ⟨host, port, hs, hhost, hnat, Utf8.map_toNat_of_encode_ascii (hascii hdigits) hport⟩

/-- The two pieces name the socket address exactly if it is not in brackets. -/
theorem namesAddr_iff {addr : SocketAddr} (h : SocketAddr.parse (asBytes s) = some addr)
    (listen : String) (p : UInt16) :
    NamesIp ((firstPart s).getD listen) addr.ip ∧ (secondPort s).getD p = addr.port ↔
      s.toList.head? ≠ some '[' := by
  rcases SocketAddr.parse_eq_some h with
    ⟨text, digits, ip, hbytes, htext, hne, hd, hlt, hip, rfl⟩ | ⟨rest, ip, q, hbytes, rfl⟩
  · have hdigits : Dotted digits := fun b hb => Or.inl (hd b hb)
    obtain ⟨host, port, hs, henc, hhost, hport⟩ := pieces_of_dotted hbytes htext hdigits
    have hcolon : ':' ∉ host := notMem_of_dotted htext hhost (by decide)
    have hcolon' : ':' ∉ port := notMem_of_dotted hdigits hport (by decide)
    have hbracket : '[' ∉ host := notMem_of_dotted htext hhost (by decide)
    refine iff_of_true ⟨Or.inl ?_, ?_⟩ ?_
    · rw [firstPart_of_colon hs hcolon, Option.getD_some, asBytes_ofList, henc, hip]
    · rw [secondPort_of_colon hs hcolon hcolon', parseU16_digits hd hport hne hlt,
        Option.getD_some]
    · rw [hs]
      cases host with
      | nil => simp
      | cons c host =>
        intro hhead
        obtain rfl := Option.some.inj hhead
        exact hbracket List.mem_cons_self
  · rw [asBytes_eq] at hbytes
    obtain ⟨c, cs, hs, hc, -⟩ := Utf8.encode_eq_cons_ascii (by decide) hbytes
    obtain rfl : c = '[' := Char.toNat_inj.mp hc
    obtain ⟨x, hfirst, hcolon⟩ := firstPart_bracket hs
    refine iff_of_false (fun hnames => ?_) (by simp [hs])
    rw [hfirst, Option.getD_some] at hnames
    exact not_namesIp_bracket hcolon _ hnames.1

/-! ## The host and the port of a text -/

/-- The text is a host that is not blank, and a port. -/
def IsHostPort (s host : String) (port : UInt16) : Prop :=
  parseHostPort s = some (host, port) ∧ isBlank host = false

/-- `host:port` with one colon and no bracket in front. -/
def PlainHostPort (s : String) : Prop :=
  ∃ host port, s.toList = host ++ ':' :: port ∧ ':' ∉ host ∧ ':' ∉ port ∧
    host.head? ≠ some '[' ∧ isBlank (String.ofList host) = false ∧
    (parseU16 (String.ofList port)).isSome

theorem parseHostPort_bracket {rest : List Char} {host : String} {port : UInt16}
    (hs : s.toList = '[' :: rest) (h : parseHostPort s = some (host, port)) :
    ∃ x y, rest = x ++ ']' :: ':' :: y ∧ host = String.ofList x := by
  simp only [parseHostPort, hs, Option.bind_eq_bind, Option.bind_eq_some_iff] at h
  obtain ⟨⟨x, y⟩, hsplit, n, -, heq⟩ := h
  obtain ⟨rfl, -⟩ := Prod.mk.inj (Option.some.inj heq)
  refine ⟨x, y, ?_, rfl⟩
  rw [splitOnce_eq_some hsplit, List.append_assoc]
  rfl

theorem parseHostPort_of_ne (hs : s.toList.head? ≠ some '[') :
    parseHostPort s = (rsplitOnce ':' s.toList).bind fun cut =>
      (parseU16 (String.ofList cut.2)).map fun port => (String.ofList cut.1, port) := by
  unfold parseHostPort
  split
  · next hcs => simp [hcs] at hs
  · simp only [Option.bind_eq_bind, Option.map_eq_bind]
    rfl

/-- The host of a text in brackets is not its first piece: the brackets are in the piece,
and are not in the host. -/
theorem firstPart_ne_host {rest : List Char} {host : String} {port : UInt16}
    (hs : s.toList = '[' :: rest) (h : parseHostPort s = some (host, port)) :
    firstPart s ≠ some host := by
  intro hfirst
  obtain ⟨x, hx, hcolon⟩ := firstPart_eq_some s
  obtain ⟨y, z, rfl, rfl⟩ := parseHostPort_bracket hs h
  obtain rfl := String.ofList_injective (Option.some.inj (hx.symm.trans hfirst))
  have hlist : s.toList = '[' :: (x ++ [']']) ++ ':' :: z := by
    rw [hs]
    simp
  have hpiece := firstPart_of_colon hlist (by simpa using hcolon)
  rw [hx] at hpiece
  have hlen := congrArg List.length (String.ofList_injective (Option.some.inj hpiece))
  simp only [List.length_cons, List.length_append, List.length_nil] at hlen
  omega

theorem plain_of_target {host : String} {port : UInt16} (h : IsHostPort s host port)
    (hfirst : firstPart s = some host) : PlainHostPort s := by
  have hs : s.toList.head? ≠ some '[' := by
    intro hhead
    obtain ⟨rest, hs⟩ := List.head?_eq_some_iff.mp hhead
    exact firstPart_ne_host hs h.1 hfirst
  have hparse := h.1
  rw [parseHostPort_of_ne hs] at hparse
  obtain ⟨⟨x, y⟩, hsplit, hport⟩ := Option.bind_eq_some_iff.mp hparse
  obtain ⟨n, hn, heq⟩ := Option.map_eq_some_iff.mp hport
  obtain ⟨rfl, rfl⟩ := Prod.mk.inj heq
  obtain ⟨hlist, hy⟩ := rsplitOnce_eq_some hsplit
  obtain ⟨x', hx', hcolon⟩ := firstPart_eq_some s
  obtain rfl := String.ofList_injective (Option.some.inj (hx'.symm.trans hfirst))
  refine ⟨x', y, hlist, hcolon, hy, fun hhead => hs ?_, h.2, by rw [hn]; rfl⟩
  obtain ⟨tail, rfl⟩ := List.head?_eq_some_iff.mp hhead
  rw [hlist]
  rfl

theorem target_of_plain (h : PlainHostPort s) :
    ∃ host port, IsHostPort s host port ∧ firstPart s = some host ∧ secondPort s = some port := by
  obtain ⟨host, port, hs, hhost, hport, hbracket, hblank, hsome⟩ := h
  obtain ⟨n, hn⟩ := Option.isSome_iff_exists.mp hsome
  have hhead : s.toList.head? ≠ some '[' := by
    rw [hs]
    cases host with
    | nil => simp
    | cons c host => exact hbracket
  refine ⟨String.ofList host, n, ⟨?_, hblank⟩, firstPart_of_colon hs hhost, ?_⟩
  · rw [parseHostPort_of_ne hhead, hs, rsplitOnce_append_cons host hport, Option.bind_some, hn,
      Option.map_some]
  · rw [secondPort_of_colon hs hhost hport, hn]

/-- The first two pieces are the host and the port exactly if there is one colon and no
bracket in front. -/
theorem target_iff (s address : String) (p : UInt16) :
    (∃ host port, IsHostPort s host port ∧ (firstPart s).getD address = host ∧
      (secondPort s).getD p = port) ↔ PlainHostPort s := by
  constructor
  · rintro ⟨host, port, h, hfirst, -⟩
    obtain ⟨x, hx, -⟩ := firstPart_eq_some s
    rw [hx, Option.getD_some] at hfirst
    apply plain_of_target h
    rw [hx, hfirst]
  · intro h
    obtain ⟨host, port, hhp, hfirst, hsecond⟩ := target_of_plain h
    refine ⟨host, port, hhp, ?_, ?_⟩
    · rw [hfirst, Option.getD_some]
    · rw [hsecond, Option.getD_some]

/-- The bracketed host is read in full, and its first piece is a bracket. -/
example : parseHostPort "[::1]:443" = some ("::1", 443) ∧ firstPart "[::1]:443" = some "[" := by
  decide +kernel

end Parseh.Relay
