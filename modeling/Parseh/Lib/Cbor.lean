import Mathlib.Algebra.Group.Int.Defs
import Mathlib.Algebra.Group.Nat.Defs
import Mathlib.Data.List.Basic

/-!
# CBOR data items

A data item is written as a sequence of tokens: a scalar, a string, or the length
of an array or a map whose elements follow.  `TokenCodec` writes and reads one
token; everything above it is here.  `F` is the type of floats, of which only
some may be written faithfully.

* `decode_encode`: if single tokens are read back, whole items are, up to the
  depth the decoder goes to;
* `encode_injective`: two items have one encoding only if they are the same;
* `lawful_standard`: the tokens of RFC 8949, shortest heads, are read back.
-/

namespace Parseh.Lib.Cbor

/-- What the encoder writes in one go; `nint n` is the number `-1 - n`. -/
inductive Token (F : Type)
  | uint (n : UInt64)
  | nint (n : UInt64)
  | bytes (b : List UInt8)
  | text (s : String)
  | array (len : Nat)
  | map (len : Nat)
  | bool (b : Bool)
  | null
  | float (x : F)

inductive Item (F : Type)
  | uint (n : UInt64)
  | nint (n : UInt64)
  | bytes (b : List UInt8)
  | text (s : String)
  | array (items : List (Item F))
  | map (entries : List (Item F × Item F))
  | bool (b : Bool)
  | null
  | float (x : F)

structure TokenCodec (F : Type) where
  push : Token F → List UInt8
  pull : List UInt8 → Option (Token F × List UInt8)

variable {F : Type}

/-- A token without a float, or with one that is `ok`. -/
def Token.Ok (ok : F → Prop) : Token F → Prop
  | .float x => ok x
  | _ => True

/-- Single tokens are read back, whatever follows them. -/
def TokenCodec.Lawful (c : TokenCodec F) (ok : F → Prop) : Prop :=
  ∀ t : Token F, t.Ok ok → ∀ rest, c.pull (c.push t ++ rest) = some (t, rest)

/-- A map begins with a byte of major type 5. -/
def TokenCodec.MapHeads (c : TokenCodec F) : Prop :=
  ∀ len, ∃ b bs, c.push (.map len) = b :: bs ∧ b.toNat / 32 = 5

/-- The item that is one token. -/
def Token.scalar? : Token F → Option (Item F)
  | .uint n => some (.uint n)
  | .nint n => some (.nint n)
  | .bytes b => some (.bytes b)
  | .text s => some (.text s)
  | .bool b => some (.bool b)
  | .null => some .null
  | .float x => some (.float x)
  | .array _ => none
  | .map _ => none

/-! ## Encoder and decoder -/

section

variable (c : TokenCodec F)

mutual

def encode : Item F → List UInt8
  | .uint n => c.push (.uint n)
  | .nint n => c.push (.nint n)
  | .bytes b => c.push (.bytes b)
  | .text s => c.push (.text s)
  | .array items => c.push (.array items.length) ++ encodeItems items
  | .map entries => c.push (.map entries.length) ++ encodeEntries entries
  | .bool b => c.push (.bool b)
  | .null => c.push .null
  | .float x => c.push (.float x)

def encodeItems : List (Item F) → List UInt8
  | [] => []
  | i :: items => encode i ++ encodeItems items

def encodeEntries : List (Item F × Item F) → List UInt8
  | [] => []
  | (k, v) :: entries => encode k ++ encode v ++ encodeEntries entries

end

/-- Read `n` times. -/
def readMany {α : Type} (read : List UInt8 → Option (α × List UInt8)) :
    Nat → List UInt8 → Option (List α × List UInt8)
  | 0, bs => some ([], bs)
  | n + 1, bs => do
    let (a, bs) ← read bs
    let (as, bs) ← readMany read n bs
    some (a :: as, bs)

/-- Read a key and a value. -/
def readEntry {α : Type} (read : List UInt8 → Option (α × List UInt8)) (bs : List UInt8) :
    Option ((α × α) × List UInt8) := do
  let (k, bs) ← read bs
  let (v, bs) ← read bs
  some ((k, v), bs)

/-- Read one item that is at most `depth` containers deep. -/
def decode : Nat → List UInt8 → Option (Item F × List UInt8)
  | 0, bs => do
    let (t, bs) ← c.pull bs
    let i ← t.scalar?
    some (i, bs)
  | depth + 1, bs => do
    let (t, bs) ← c.pull bs
    match t with
    | .array len =>
      let (items, bs) ← readMany (decode depth) len bs
      some (.array items, bs)
    | .map len =>
      let (entries, bs) ← readMany (readEntry (decode depth)) len bs
      some (.map entries, bs)
    | t =>
      let i ← t.scalar?
      some (i, bs)

end

/-! ## What the decoder reads back -/

/-- The item nests at most this many containers, and its floats are `ok`. -/
def Item.Fits (ok : F → Prop) : Nat → Item F → Prop
  | _, .float x => ok x
  | 0, .array _ => False
  | 0, .map _ => False
  | depth + 1, .array items => ∀ i ∈ items, i.Fits ok depth
  | depth + 1, .map entries => ∀ e ∈ entries, e.1.Fits ok depth ∧ e.2.Fits ok depth
  | _, _ => True

theorem Item.Fits.mono {ok : F → Prop} {depth depth' : Nat} {i : Item F} (h : i.Fits ok depth)
    (hle : depth ≤ depth') : i.Fits ok depth' := by
  induction depth' generalizing depth i with
  | zero =>
    obtain rfl : depth = 0 := by omega
    exact h
  | succ depth' ih =>
    cases i with
    | array items =>
      cases depth with
      | zero => simp [Item.Fits] at h
      | succ depth =>
        simp only [Item.Fits] at h ⊢
        exact fun i hi => ih (h i hi) (by omega)
    | map entries =>
      cases depth with
      | zero => simp [Item.Fits] at h
      | succ depth =>
        simp only [Item.Fits] at h ⊢
        exact fun e he => ⟨ih (h e he).1 (by omega), ih (h e he).2 (by omega)⟩
    | float x => simpa [Item.Fits] using h
    | _ => simp [Item.Fits]

section

variable {c : TokenCodec F} {ok : F → Prop}

theorem encodeItems_eq (items : List (Item F)) : encodeItems c items = items.flatMap (encode c) := by
  induction items with
  | nil => simp [encodeItems]
  | cons i items ih => simp [encodeItems, ih]

theorem encodeEntries_eq (entries : List (Item F × Item F)) :
    encodeEntries c entries = entries.flatMap fun e => encode c e.1 ++ encode c e.2 := by
  induction entries with
  | nil => simp [encodeEntries]
  | cons e entries ih => simp [encodeEntries, ih]

theorem readMany_flatMap {α : Type} {read : List UInt8 → Option (α × List UInt8)}
    {write : α → List UInt8} {as : List α}
    (h : ∀ a ∈ as, ∀ rest, read (write a ++ rest) = some (a, rest)) (rest : List UInt8) :
    readMany read as.length (as.flatMap write ++ rest) = some (as, rest) := by
  induction as with
  | nil => simp [readMany]
  | cons a as ih =>
    have ha := h a (by simp) (as.flatMap write ++ rest)
    have has := ih fun b hb => h b (by simp [hb])
    simp [readMany, ha, has]

/-- An item is one token, or a container of items that fit below it. -/
theorem Item.Fits.cases {depth : Nat} {i : Item F} (h : i.Fits ok depth) :
    (∃ t : Token F, t.scalar? = some i ∧ t.Ok ok ∧ encode c i = c.push t) ∨
    (∃ d items, depth = d + 1 ∧ i = .array items ∧ ∀ j ∈ items, j.Fits ok d) ∨
    ∃ d entries, depth = d + 1 ∧ i = .map entries ∧
      ∀ e ∈ entries, e.1.Fits ok d ∧ e.2.Fits ok d := by
  cases i with
  | array items =>
    cases depth with
    | zero => simp [Item.Fits] at h
    | succ d => exact .inr (.inl ⟨d, items, rfl, rfl, by simpa only [Item.Fits] using h⟩)
  | map entries =>
    cases depth with
    | zero => simp [Item.Fits] at h
    | succ d => exact .inr (.inr ⟨d, entries, rfl, rfl, by simpa only [Item.Fits] using h⟩)
  | float x => exact .inl ⟨.float x, rfl, by simpa [Item.Fits, Token.Ok] using h, by simp only [encode]⟩
  | uint n => exact .inl ⟨.uint n, rfl, trivial, by simp only [encode]⟩
  | nint n => exact .inl ⟨.nint n, rfl, trivial, by simp only [encode]⟩
  | bytes b => exact .inl ⟨.bytes b, rfl, trivial, by simp only [encode]⟩
  | text s => exact .inl ⟨.text s, rfl, trivial, by simp only [encode]⟩
  | bool b => exact .inl ⟨.bool b, rfl, trivial, by simp only [encode]⟩
  | null => exact .inl ⟨.null, rfl, trivial, by simp only [encode]⟩

theorem decode_scalar (hc : c.Lawful ok) {t : Token F} {i : Item F} (ht : t.scalar? = some i)
    (hok : t.Ok ok) (depth : Nat) (rest : List UInt8) :
    decode c depth (c.push t ++ rest) = some (i, rest) := by
  cases depth with
  | zero => simp [decode, hc t hok, ht]
  | succ depth =>
    cases t with
    | array len => simp [Token.scalar?] at ht
    | map len => simp [Token.scalar?] at ht
    | _ => simp [decode, hc _ hok, ht]

theorem readEntry_append {α : Type} {read : List UInt8 → Option (α × List UInt8)}
    {write : α → List UInt8} {e : α × α}
    (h₁ : ∀ rest, read (write e.1 ++ rest) = some (e.1, rest))
    (h₂ : ∀ rest, read (write e.2 ++ rest) = some (e.2, rest)) (rest : List UInt8) :
    readEntry read ((write e.1 ++ write e.2) ++ rest) = some (e, rest) := by
  simp [readEntry, h₁, h₂]

/-- A whole item is read back, whatever follows it. -/
theorem decode_encode (hc : c.Lawful ok) {depth : Nat} {i : Item F} (h : i.Fits ok depth)
    (rest : List UInt8) : decode c depth (encode c i ++ rest) = some (i, rest) := by
  induction depth generalizing i rest with
  | zero =>
    rcases h.cases (c := c) with ⟨t, ht, hok, he⟩ | ⟨d, _, hd, -⟩ | ⟨d, _, hd, -⟩
    · rw [he]
      exact decode_scalar hc ht hok 0 rest
    · omega
    · omega
  | succ depth ih =>
    rcases h.cases (c := c) with ⟨t, ht, hok, he⟩ | ⟨d, items, hd, rfl, hitems⟩ |
      ⟨d, entries, hd, rfl, hentries⟩
    · rw [he]
      exact decode_scalar hc ht hok (depth + 1) rest
    · obtain rfl : d = depth := by omega
      have hmany : readMany (decode c d) items.length (items.flatMap (encode c) ++ rest) =
          some (items, rest) := readMany_flatMap (fun i hi => ih (hitems i hi)) rest
      simp [decode, encode, hc (.array items.length) trivial, encodeItems_eq, hmany]
    · obtain rfl : d = depth := by omega
      have hmany : readMany (readEntry (decode c d)) entries.length
          (entries.flatMap (fun e => encode c e.1 ++ encode c e.2) ++ rest) = some (entries, rest) :=
        readMany_flatMap
          (fun e he => readEntry_append (ih (hentries e he).1) (ih (hentries e he).2)) rest
      simp [decode, encode, hc (.map entries.length) trivial, encodeEntries_eq, hmany]

/-- Two items that fit and have one encoding are the same. -/
theorem encode_injective (hc : c.Lawful ok) {depth : Nat} {i j : Item F} (hi : i.Fits ok depth)
    (hj : j.Fits ok depth) (h : encode c i = encode c j) : i = j := by
  have hi' := decode_encode hc hi []
  rw [h, decode_encode hc hj []] at hi'
  exact (congrArg Prod.fst (Option.some.inj hi')).symm

theorem encode_map_eq_cons (hc : c.MapHeads) (entries : List (Item F × Item F)) :
    ∃ b bs, encode c (.map entries) = b :: bs ∧ b.toNat / 32 = 5 := by
  obtain ⟨b, bs, hpush, hb⟩ := hc entries.length
  refine ⟨b, bs ++ encodeEntries c entries, ?_, hb⟩
  rw [encode, hpush, List.cons_append]

end

/-! ## The standard tokens -/

/-- The `k` low bytes of `n`, the highest first. -/
def be : Nat → Nat → List UInt8
  | 0, _ => []
  | k + 1, n => UInt8.ofNat (n / 256 ^ k) :: be k (n % 256 ^ k)

def readBe : Nat → List UInt8 → Option (Nat × List UInt8)
  | 0, bs => some (0, bs)
  | _ + 1, [] => none
  | k + 1, b :: bs => do
    let (n, bs) ← readBe k bs
    some (b.toNat * 256 ^ k + n, bs)

/-- One one for each unit, and a zero. -/
def unary (n : Nat) : List UInt8 := List.replicate n 1 ++ [0]

def readUnary : List UInt8 → Option (Nat × List UInt8)
  | [] => none
  | b :: bs => if b = 0 then some (0, bs) else (readUnary bs).map fun r => (r.1 + 1, r.2)

/-- The low bits of the initial byte of a head and the bytes after it, for the
argument `n`, in the shortest form.  Arguments from `2^64` on do not occur in a
machine of 64 bits; they are written in unary behind a reserved initial byte, so
that the function is total. -/
def argument (n : Nat) : Nat × List UInt8 :=
  if n < 24 then (n, [])
  else if n < 2 ^ 8 then (24, be 1 n)
  else if n < 2 ^ 16 then (25, be 2 n)
  else if n < 2 ^ 32 then (26, be 4 n)
  else if n < 2 ^ 64 then (27, be 8 n)
  else (28, unary n)

def readArgument (info : Nat) (bs : List UInt8) : Option (Nat × List UInt8) :=
  if info < 24 then some (info, bs)
  else if info = 24 then readBe 1 bs
  else if info = 25 then readBe 2 bs
  else if info = 26 then readBe 4 bs
  else if info = 27 then readBe 8 bs
  else if info = 28 then readUnary bs
  else none

def initialByte (major info : Nat) : UInt8 := UInt8.ofNat (32 * major + info)

/-- The head of a token: its major type and its argument. -/
def head (major n : Nat) : List UInt8 := initialByte major (argument n).1 :: (argument n).2

def readHead : List UInt8 → Option ((Nat × Nat) × List UInt8)
  | [] => none
  | b :: bs => do
    let (n, bs) ← readArgument (b.toNat % 32) bs
    some ((b.toNat / 32, n), bs)

theorem readBe_be {k n : Nat} (h : n < 256 ^ k) (rest : List UInt8) :
    readBe k (be k n ++ rest) = some (n, rest) := by
  induction k generalizing n with
  | zero =>
    obtain rfl : n = 0 := by simpa using h
    rfl
  | succ k ih =>
    have hpos : 0 < 256 ^ k := Nat.pow_pos (by decide)
    have hdiv : n / 256 ^ k < 256 := by
      rw [Nat.div_lt_iff_lt_mul hpos, Nat.mul_comm, ← Nat.pow_succ]
      exact h
    have hrest := ih (n := n % 256 ^ k) (Nat.mod_lt _ hpos)
    simp only [be, List.cons_append, readBe, hrest, Option.bind_eq_bind, Option.bind_some,
      UInt8.toNat_ofNat', Nat.mod_eq_of_lt hdiv, Nat.div_add_mod']

@[simp] theorem length_be (k n : Nat) : (be k n).length = k := by
  induction k generalizing n with
  | zero => rfl
  | succ k ih => rw [be, List.length_cons, ih]

/-- Numbers that fit into `k` bytes are known by them. -/
theorem be_inj {k m n : Nat} (hm : m < 256 ^ k) (hn : n < 256 ^ k) (h : be k m = be k n) :
    m = n := by
  have hread := readBe_be hm []
  rw [h, readBe_be hn []] at hread
  exact (congrArg Prod.fst (Option.some.inj hread)).symm

theorem readUnary_unary (n : Nat) (rest : List UInt8) :
    readUnary (unary n ++ rest) = some (n, rest) := by
  unfold unary
  induction n with
  | zero => simp [readUnary]
  | succ n ih =>
    rw [List.replicate_succ, List.cons_append, List.cons_append, readUnary, if_neg (by decide), ih]
    rfl

theorem argument_lt (n : Nat) : (argument n).1 < 32 := by
  unfold argument
  repeat' split
  all_goals simp
  omega

theorem readArgument_argument (n : Nat) (rest : List UInt8) :
    readArgument (argument n).1 ((argument n).2 ++ rest) = some (n, rest) := by
  unfold argument
  split
  · next h => simp [readArgument, h]
  split
  · exact readBe_be (by omega) rest
  split
  · exact readBe_be (by omega) rest
  split
  · exact readBe_be (by omega) rest
  split
  · exact readBe_be (by omega) rest
  · exact readUnary_unary n rest

theorem initialByte_split {major info : Nat} (hmajor : major < 8) (hinfo : info < 32) :
    (initialByte major info).toNat / 32 = major ∧ (initialByte major info).toNat % 32 = info := by
  rw [initialByte, UInt8.toNat_ofNat', Nat.mod_eq_of_lt (by omega)]
  omega

theorem readHead_head {major : Nat} (hmajor : major < 8) (n : Nat) (rest : List UInt8) :
    readHead (head major n ++ rest) = some ((major, n), rest) := by
  have hb := initialByte_split hmajor (argument_lt n)
  simp only [head, List.cons_append, readHead, hb.1, hb.2, readArgument_argument,
    Option.bind_eq_bind, Option.bind_some]

def utf8 (s : String) : List UInt8 := s.toUTF8.data.toList

def ofUtf8? (bs : List UInt8) : Option String := String.fromUTF8? ⟨bs.toArray⟩

theorem ofUtf8?_utf8 (s : String) : ofUtf8? (utf8 s) = some s := by
  simp only [ofUtf8?, utf8, String.fromUTF8?, Array.toArray_toList]
  exact dif_pos s.isValidUTF8

def takeExactly (n : Nat) (bs : List UInt8) : Option (List UInt8 × List UInt8) :=
  if n ≤ bs.length then some (bs.take n, bs.drop n) else none

theorem takeExactly_append (b rest : List UInt8) :
    takeExactly b.length (b ++ rest) = some (b, rest) := by
  simp [takeExactly]

/-- The token of a head with a major type below 7. -/
def pullBody (major n : Nat) (bs : List UInt8) : Option (Token UInt64 × List UInt8) :=
  match major with
  | 0 => some (.uint (UInt64.ofNat n), bs)
  | 1 => some (.nint (UInt64.ofNat n), bs)
  | 2 => do
    let (b, bs) ← takeExactly n bs
    some (.bytes b, bs)
  | 3 => do
    let (b, bs) ← takeExactly n bs
    let s ← ofUtf8? b
    some (.text s, bs)
  | 4 => some (.array n, bs)
  | 5 => some (.map n, bs)
  | _ => none

/-- The tokens as they are on the wire; a float is the bits of a double. -/
def standard : TokenCodec UInt64 where
  push
    | .uint n => head 0 n.toNat
    | .nint n => head 1 n.toNat
    | .bytes b => head 2 b.length ++ b
    | .text s => head 3 (utf8 s).length ++ utf8 s
    | .array len => head 4 len
    | .map len => head 5 len
    | .bool false => [0xF4]
    | .bool true => [0xF5]
    | .null => [0xF6]
    | .float x => 0xFB :: be 8 x.toNat
  pull
    | [] => none
    | b :: bs =>
      if b = 0xF4 then some (.bool false, bs)
      else if b = 0xF5 then some (.bool true, bs)
      else if b = 0xF6 then some (.null, bs)
      else if b = 0xFB then do
        let (x, bs) ← readBe 8 bs
        some (.float (UInt64.ofNat x), bs)
      else do
        let ((major, n), bs) ← readHead (b :: bs)
        pullBody major n bs

theorem pull_head {major : Nat} (h : major < 7) (n : Nat) (rest : List UInt8) :
    standard.pull (head major n ++ rest) = pullBody major n rest := by
  have hread := readHead_head (Nat.lt_succ_of_lt h) n rest
  have hne : ∀ k : UInt8, k.toNat / 32 = 7 → initialByte major (argument n).1 ≠ k := by
    rintro k hk rfl
    have := (initialByte_split (Nat.lt_succ_of_lt h) (argument_lt n)).1
    omega
  simp only [head, List.cons_append] at hread ⊢
  simp only [standard, hne 0xF4 (by decide), hne 0xF5 (by decide), hne 0xF6 (by decide),
    hne 0xFB (by decide), if_false, hread, Option.bind_eq_bind, Option.bind_some]

/-- The standard tokens are read back. -/
theorem lawful_standard (ok : UInt64 → Prop) : standard.Lawful ok := by
  intro t _ rest
  cases t with
  | uint n =>
    show standard.pull (head 0 n.toNat ++ rest) = _
    rw [pull_head (by omega), pullBody, UInt64.ofNat_toNat]
  | nint n =>
    show standard.pull (head 1 n.toNat ++ rest) = _
    rw [pull_head (by omega), pullBody, UInt64.ofNat_toNat]
  | bytes b =>
    show standard.pull ((head 2 b.length ++ b) ++ rest) = _
    rw [List.append_assoc, pull_head (by omega)]
    simp [pullBody, takeExactly_append]
  | text s =>
    show standard.pull ((head 3 (utf8 s).length ++ utf8 s) ++ rest) = _
    rw [List.append_assoc, pull_head (by omega)]
    simp [pullBody, takeExactly_append, ofUtf8?_utf8]
  | array len =>
    show standard.pull (head 4 len ++ rest) = _
    rw [pull_head (by omega), pullBody]
  | map len =>
    show standard.pull (head 5 len ++ rest) = _
    rw [pull_head (by omega), pullBody]
  | bool b => cases b <;> rfl
  | null => rfl
  | float x =>
    have hx := readBe_be (k := 8) (n := x.toNat) x.toNat_lt rest
    simp [standard, hx]

theorem mapHeads_standard : standard.MapHeads := fun len =>
  ⟨_, _, rfl, (initialByte_split (by decide) (argument_lt len)).1⟩

end Parseh.Lib.Cbor
