import Parseh.Lib.Cbor

/-!
# Slices of UTF-8 text

Text as the bytes that encode it, cut at byte positions: a cut is allowed only between
two characters.

* `encode_eq_cons_ascii`: a byte below `0x80` is a character of its own, and
  `encode_eq_append_ascii` says so of several;
* `isBoundary_append`: between two encoded texts there is a boundary;
* `slice_append`: the slice between two boundaries is the text that stands there.
-/

namespace Parseh.Lib.Utf8

/-- The bytes of a text. -/
def encode (cs : List Char) : List UInt8 := cs.flatMap String.utf8EncodeChar

/-- A byte that does not begin a character. -/
def isContinuation (b : UInt8) : Bool := 0x80 ≤ b && b < 0xC0

/-- `is_char_boundary`. -/
def isBoundary (bytes : List UInt8) (i : Nat) : Bool :=
  match bytes[i]? with
  | some b => i == 0 || !isContinuation b
  | none => i == bytes.length

/-- The bytes from `i` up to `j`, where both are boundaries. -/
def slice (bytes : List UInt8) (i j : Nat) : Option (List UInt8) :=
  if i ≤ j ∧ isBoundary bytes i ∧ isBoundary bytes j then some ((bytes.drop i).take (j - i))
  else none

/-! ## Encoding -/

@[simp] theorem encode_nil : encode [] = [] := rfl

theorem encode_cons (c : Char) (cs : List Char) :
    encode (c :: cs) = String.utf8EncodeChar c ++ encode cs := List.flatMap_cons

theorem encode_append (cs ds : List Char) : encode (cs ++ ds) = encode cs ++ encode ds :=
  List.flatMap_append

theorem length_encode_le (cs : List Char) : (encode cs).length ≤ 4 * cs.length := by
  induction cs with
  | nil => simp
  | cons c cs ih =>
    have hc := c.utf8Size_le_four
    rw [encode_cons, List.length_append, String.length_utf8EncodeChar, List.length_cons]
    omega

theorem utf8_eq_encode (s : String) : Cbor.utf8 s = encode s.toList := by
  rw [Cbor.utf8, String.toUTF8, ← String.utf8Encode_toList, List.utf8Encode,
    List.toList_data_toByteArray]
  rfl

theorem ofUtf8?_encode (cs : List Char) : Cbor.ofUtf8? (encode cs) = some (String.ofList cs) := by
  have h := Cbor.ofUtf8?_utf8 (String.ofList cs)
  rwa [utf8_eq_encode, String.toList_ofList] at h

theorem isContinuation_iff (b : UInt8) : isContinuation b ↔ 128 ≤ b.toNat ∧ b.toNat < 192 := by
  simp only [isContinuation, Bool.and_eq_true, decide_eq_true_eq, UInt8.le_iff_toNat_le,
    UInt8.lt_iff_toNat_lt]
  rfl

/-- A byte with a fixed part in front of its free bits. -/
theorem toNat_ofNat_mod_add (n width lo : Nat) (hwidth : 0 < width) (h : lo + width ≤ 256) :
    lo ≤ (UInt8.ofNat (n % width + lo)).toNat ∧
      (UInt8.ofNat (n % width + lo)).toNat < lo + width := by
  have hlt := Nat.mod_lt n hwidth
  rw [UInt8.toNat_ofNat', Nat.mod_eq_of_lt (by omega)]
  omega

theorem utf8EncodeChar_ascii {c : Char} (h : c.toNat < 128) :
    String.utf8EncodeChar c = [UInt8.ofNat c.toNat] := if_pos (Nat.le_of_lt_succ h)

/-- A character is one byte below `0x80`, or a byte that says how many continuations
follow. -/
theorem utf8EncodeChar_cases (c : Char) :
    (c.toNat < 128 ∧ String.utf8EncodeChar c = [UInt8.ofNat c.toNat]) ∨
      ∃ b bs, String.utf8EncodeChar c = b :: bs ∧ (∀ d ∈ bs, isContinuation d) ∧
        (bs.length = 1 ∧ 192 ≤ b.toNat ∧ b.toNat < 224 ∨
          bs.length = 2 ∧ 224 ≤ b.toNat ∧ b.toNat < 240 ∨
          bs.length = 3 ∧ 240 ≤ b.toNat ∧ b.toNat < 248) := by
  have hcont : ∀ n : Nat, isContinuation (UInt8.ofNat (n % 64 + 128)) := fun n =>
    (isContinuation_iff _).mpr (toNat_ofNat_mod_add n 64 128 (by omega) (by omega))
  unfold String.utf8EncodeChar
  dsimp only
  split
  · next h => exact .inl ⟨Nat.lt_succ_of_le h, rfl⟩
  · refine .inr ?_
    split
    · refine ⟨_, _, rfl, ?_, .inl ⟨rfl, toNat_ofNat_mod_add _ 32 192 (by omega) (by omega)⟩⟩
      simp only [List.mem_cons, List.not_mem_nil, or_false, forall_eq, hcont]
    · split
      · refine ⟨_, _, rfl, ?_,
          .inr (.inl ⟨rfl, toNat_ofNat_mod_add _ 16 224 (by omega) (by omega)⟩)⟩
        simp only [List.mem_cons, List.not_mem_nil, or_false, forall_eq_or_imp, forall_eq, hcont,
          and_self]
      · refine ⟨_, _, rfl, ?_,
          .inr (.inr ⟨rfl, toNat_ofNat_mod_add _ 8 240 (by omega) (by omega)⟩)⟩
        simp only [List.mem_cons, List.not_mem_nil, or_false, forall_eq_or_imp, forall_eq, hcont,
          and_self]

/-- A byte below `0x80` is a character of its own. -/
theorem encode_eq_cons_ascii {cs : List Char} {b : UInt8} {bs : List UInt8} (hb : b.toNat < 128)
    (h : encode cs = b :: bs) :
    ∃ c cs', cs = c :: cs' ∧ c.toNat = b.toNat ∧ encode cs' = bs := by
  cases cs with
  | nil => cases h
  | cons c cs =>
    rw [encode_cons] at h
    rcases utf8EncodeChar_cases c with ⟨hc, henc⟩ | ⟨b', bs', henc, -, hlead⟩
    · rw [henc] at h
      obtain ⟨rfl, hbs⟩ := List.cons.inj h
      refine ⟨c, cs, rfl, ?_, hbs⟩
      rw [UInt8.toNat_ofNat', Nat.mod_eq_of_lt (by omega)]
    · rw [henc] at h
      obtain ⟨rfl, -⟩ := List.cons.inj h
      omega

/-- Bytes below `0x80` are the characters of the same numbers. -/
theorem encode_eq_append_ascii {cs : List Char} {bs tail : List UInt8}
    (hbs : ∀ b ∈ bs, b.toNat < 128) (h : encode cs = bs ++ tail) :
    ∃ ds es, cs = ds ++ es ∧ encode ds = bs ∧ encode es = tail ∧
      ds.map Char.toNat = bs.map UInt8.toNat := by
  induction bs generalizing cs with
  | nil => exact ⟨[], cs, rfl, rfl, h, rfl⟩
  | cons b bs ih =>
    obtain ⟨hb, hrest⟩ := List.forall_mem_cons.mp hbs
    obtain ⟨c, cs', rfl, hc, hcs'⟩ := encode_eq_cons_ascii hb h
    obtain ⟨ds, es, rfl, hds, hes, hnat⟩ := ih hrest hcs'
    refine ⟨c :: ds, es, rfl, ?_, hes, by rw [List.map_cons, List.map_cons, hc, hnat]⟩
    rw [encode_cons, utf8EncodeChar_ascii (by omega), hds, hc, UInt8.ofNat_toNat]
    rfl

theorem encode_eq_nil_iff {cs : List Char} : encode cs = [] ↔ cs = [] := by
  cases cs with
  | nil => exact iff_of_true rfl rfl
  | cons c cs =>
    have hne : String.utf8EncodeChar c ≠ [] := by
      rcases utf8EncodeChar_cases c with ⟨-, henc⟩ | ⟨b, bs, henc, -⟩
      · simp [henc]
      · simp [henc]
    simp [encode_cons, hne]

theorem map_toNat_of_encode_ascii {cs : List Char} {bs : List UInt8}
    (hbs : ∀ b ∈ bs, b.toNat < 128) (h : encode cs = bs) :
    cs.map Char.toNat = bs.map UInt8.toNat := by
  obtain ⟨ds, es, rfl, -, hes, hnat⟩ := encode_eq_append_ascii hbs (h.trans (List.append_nil _).symm)
  rw [encode_eq_nil_iff.mp hes, List.append_nil, hnat]

theorem exists_of_mem_encode_ascii {cs : List Char} {b : UInt8} (hb : b.toNat < 128)
    (h : b ∈ encode cs) : ∃ c ∈ cs, c.toNat = b.toNat := by
  obtain ⟨c, hc, hbc⟩ := List.mem_flatMap.mp h
  refine ⟨c, hc, ?_⟩
  rcases utf8EncodeChar_cases c with ⟨hlt, henc⟩ | ⟨b', bs', henc, hcont, hlead⟩
  · rw [henc, List.mem_singleton] at hbc
    rw [hbc, UInt8.toNat_ofNat', Nat.mod_eq_of_lt (by omega)]
  · rw [henc] at hbc
    rcases List.mem_cons.mp hbc with rfl | hbc
    · omega
    · have := (isContinuation_iff b).mp (hcont b hbc)
      omega

/-- Whether a text begins with certain characters below `0x80` can be read off its
bytes. -/
theorem encode_prefix_iff {ds cs : List Char} (hds : ∀ d ∈ ds, d.toNat < 128) :
    encode ds <+: encode cs ↔ ds <+: cs := by
  constructor
  · intro h
    induction ds generalizing cs with
    | nil => exact List.nil_prefix
    | cons d ds ih =>
      obtain ⟨hd, hrest⟩ := List.forall_mem_cons.mp hds
      obtain ⟨bs, hbs⟩ := h
      rw [encode_cons, utf8EncodeChar_ascii hd, List.append_assoc, List.singleton_append] at hbs
      have hbyte : (UInt8.ofNat d.toNat).toNat = d.toNat := by
        rw [UInt8.toNat_ofNat', Nat.mod_eq_of_lt (by omega)]
      obtain ⟨c, cs', rfl, hc, hcs'⟩ := encode_eq_cons_ascii (by omega) hbs.symm
      obtain rfl : c = d := Char.ext (UInt32.toNat_inj.mp (hc.trans hbyte))
      exact (List.prefix_cons_inj c).mpr (ih hrest ⟨bs, hcs'.symm⟩)
  · rintro ⟨es, rfl⟩
    exact ⟨encode es, (encode_append ds es).symm⟩

/-! ## Boundaries -/

/-- A text does not begin with a continuation. -/
theorem not_isContinuation_of_encode {cs : List Char} {b : UInt8} {bs : List UInt8}
    (h : encode cs = b :: bs) : isContinuation b = false := by
  have hb : ¬ (128 ≤ b.toNat ∧ b.toNat < 192) := by
    cases cs with
    | nil => cases h
    | cons c cs =>
      rw [encode_cons] at h
      rcases utf8EncodeChar_cases c with ⟨hc, henc⟩ | ⟨b', bs', henc, -, hlead⟩
      · rw [henc] at h
        obtain ⟨rfl, -⟩ := List.cons.inj h
        rw [UInt8.toNat_ofNat']
        omega
      · rw [henc] at h
        obtain ⟨rfl, -⟩ := List.cons.inj h
        omega
  rw [← isContinuation_iff] at hb
  simpa using hb

/-- Where an encoded text begins there is a boundary. -/
theorem isBoundary_append (before : List UInt8) (cs : List Char) :
    isBoundary (before ++ encode cs) before.length = true := by
  unfold isBoundary
  rw [List.getElem?_append_right (Nat.le_refl _), Nat.sub_self]
  cases h : encode cs with
  | nil => simp
  | cons b bs => simp [not_isContinuation_of_encode h]

/-- Between two boundaries stands what was written there. -/
theorem slice_append (before : List UInt8) (cs ds : List Char) :
    slice (before ++ encode cs ++ encode ds) before.length (before.length + (encode cs).length) =
      some (encode cs) := by
  have hi := isBoundary_append before (cs ++ ds)
  have hj := isBoundary_append (before ++ encode cs) ds
  rw [encode_append, ← List.append_assoc] at hi
  rw [List.length_append] at hj
  rw [slice, if_pos ⟨Nat.le_add_right _ _, hi, hj⟩]
  simp

end Parseh.Lib.Utf8
