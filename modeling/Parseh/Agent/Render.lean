import Parseh.Agent.Prompt
import Parseh.Lib.Utf8

/-!
# Rendering on bytes (`parseh-agent-runtime`, `render.rs`)

`render_prompt` walks over the bytes of its template and cuts slices out of it.
`renderFrom` walks over the characters.

* `agrees_renderFrom`: the two agree, so that no slice is cut inside a character;
* `pieces`: the template cut into escapes, placeholders and characters, without a look
  at the context; `renderFrom_eq` says what each piece contributes;
* `render_single_pass` puts these together;
* `render_escape`: every text can be written in a template.
-/

namespace Parseh.Agent

open Parseh.Lib

/-! ## The loop on bytes -/

/-- `utf8_len`: how many bytes a character has, by its first one. -/
def utf8Len (b : UInt8) : Nat :=
  if b < 0x80 then 1
  else if b >>> 5 = 0b110 then 2
  else if b >>> 4 = 0b1110 then 3
  else 4

theorem utf8Len_pos (b : UInt8) : 0 < utf8Len b := by
  unfold utf8Len
  split_ifs <;> decide

/-- `str::find` of two closing braces. -/
def findBraces : List UInt8 → Option Nat
  | 0x7D :: 0x7D :: _ => some 0
  | _ :: rest => (findBraces rest).map (· + 1)
  | [] => none

variable (j : Json)

/-- The loop of `render_prompt` at the byte `i`; there is no result where a slice is cut
inside a character. -/
def renderLoop (template : List UInt8) (context : Value) (i : Nat) (out : List UInt8) :
    Option (Except RenderError (List UInt8)) :=
  if h : i < template.length then
    if template[i] = 0x7B ∧ i + 3 < template.length ∧
        (template.drop i).take 4 = [0x7B, 0x7B, 0x7B, 0x7B] then
      renderLoop template context (i + 4) (out ++ [0x7B, 0x7B])
    else if template[i] = 0x7D ∧ i + 3 < template.length ∧
        (template.drop i).take 4 = [0x7D, 0x7D, 0x7D, 0x7D] then
      renderLoop template context (i + 4) (out ++ [0x7D, 0x7D])
    else if template[i] = 0x7B ∧ i + 1 < template.length ∧ template[i + 1]? = some 0x7B then do
      let rest ← Utf8.slice template (i + 2) template.length
      match findBraces rest with
      | none => some (.error .unterminatedPlaceholder)
      | some close =>
        let body ← Utf8.slice rest 0 close
        let text ← Cbor.ofUtf8? body
        let key := trim text.toList
        if key.isEmpty then some (.error .emptyPlaceholder)
        else
          match lookup context key with
          | none => some (.error (.undefinedKey (String.ofList key)))
          | some value =>
            renderLoop template context (i + (2 + close + 2))
              (out ++ Cbor.utf8 (stringify j value))
    else do
      let chLen := utf8Len template[i]
      let ch ← Utf8.slice template i (i + chLen)
      renderLoop template context (i + chLen) (out ++ ch)
  else some (.ok out)
termination_by template.length - i
decreasing_by
  all_goals have hpos := utf8Len_pos template[i]
  all_goals omega

/-- `render_prompt` on the bytes of the template. -/
def renderBytes (template : List UInt8) (context : Value) :
    Option (Except RenderError (List UInt8)) :=
  renderLoop j template context 0 []

/-! ## The loop by what it stands in front of -/

variable {j} {template bs : List UInt8} {context : Value} {i : Nat} {out : List UInt8}

theorem getElem_of_drop_eq_cons {b : UInt8} (h : template.drop i = b :: bs) :
    ∃ hi : i < template.length, template[i] = b := by
  have hi : i < template.length := by
    by_contra hge
    rw [List.drop_eq_nil_of_le (by omega)] at h
    cases h
  refine ⟨hi, ?_⟩
  rw [List.drop_eq_getElem_cons hi] at h
  exact (List.cons.inj h).1

/-- The test for an escape is a test for four bytes in front. -/
theorem escape_iff (b : UInt8) (hi : i < template.length) :
    (template[i] = b ∧ i + 3 < template.length ∧ (template.drop i).take 4 = [b, b, b, b]) ↔
      [b, b, b, b] <+: template.drop i := by
  constructor
  · rintro ⟨-, -, htake⟩
    exact htake ▸ List.take_prefix 4 _
  · rintro ⟨bs, hbs⟩
    have hlen := congrArg List.length hbs
    obtain ⟨_, hb⟩ := getElem_of_drop_eq_cons hbs.symm
    refine ⟨hb, ?_, by rw [← hbs]; rfl⟩
    simp only [List.length_append, List.length_cons, List.length_nil, List.length_drop] at hlen
    omega

/-- The test for a placeholder is a test for two bytes in front. -/
theorem open_iff (b : UInt8) (hi : i < template.length) :
    (template[i] = b ∧ i + 1 < template.length ∧ template[i + 1]? = some b) ↔
      [b, b] <+: template.drop i := by
  constructor
  · rintro ⟨hb, hlt, hb'⟩
    rw [List.getElem?_eq_getElem hlt] at hb'
    rw [List.drop_eq_getElem_cons hi, List.drop_eq_getElem_cons hlt, hb, Option.some.inj hb']
    exact ⟨_, rfl⟩
  · rintro ⟨bs, hbs⟩
    have hlen := congrArg List.length hbs
    obtain ⟨_, hb⟩ := getElem_of_drop_eq_cons hbs.symm
    have hdrop : template.drop (i + 1) = b :: bs := by
      rw [← List.drop_drop, ← hbs]
      rfl
    obtain ⟨hlt, hb'⟩ := getElem_of_drop_eq_cons hdrop
    exact ⟨hb, hlt, by rw [List.getElem?_eq_getElem hlt, hb']⟩

theorem renderLoop_openEscape (h : [0x7B, 0x7B, 0x7B, 0x7B] <+: template.drop i) :
    renderLoop j template context i out =
      renderLoop j template context (i + 4) (out ++ [0x7B, 0x7B]) := by
  obtain ⟨hi, -⟩ := getElem_of_drop_eq_cons h.choose_spec.symm
  rw [renderLoop, dif_pos hi, if_pos ((escape_iff _ hi).mpr h)]

theorem renderLoop_closeEscape (h : [0x7D, 0x7D, 0x7D, 0x7D] <+: template.drop i) :
    renderLoop j template context i out =
      renderLoop j template context (i + 4) (out ++ [0x7D, 0x7D]) := by
  obtain ⟨hi, hb⟩ := getElem_of_drop_eq_cons h.choose_spec.symm
  have hopen : ¬ (template[i] = 0x7B ∧ i + 3 < template.length ∧
      (template.drop i).take 4 = [0x7B, 0x7B, 0x7B, 0x7B]) := by
    rw [hb]
    exact fun h => absurd h.1 (by decide)
  rw [renderLoop, dif_pos hi, if_neg hopen, if_pos ((escape_iff _ hi).mpr h)]

/-- What the loop does with the text behind two opening braces. -/
def renderPlaceholder (j : Json) (template : List UInt8) (context : Value) (i : Nat)
    (out rest : List UInt8) : Option (Except RenderError (List UInt8)) :=
  match findBraces rest with
  | none => some (.error .unterminatedPlaceholder)
  | some close => do
    let body ← Utf8.slice rest 0 close
    let text ← Cbor.ofUtf8? body
    let key := trim text.toList
    if key.isEmpty then some (.error .emptyPlaceholder)
    else
      match lookup context key with
      | none => some (.error (.undefinedKey (String.ofList key)))
      | some value =>
        renderLoop j template context (i + (2 + close + 2))
          (out ++ Cbor.utf8 (stringify j value))

theorem renderLoop_open (hescape : ¬ [0x7B, 0x7B, 0x7B, 0x7B] <+: template.drop i)
    (h : [0x7B, 0x7B] <+: template.drop i) :
    renderLoop j template context i out =
      (Utf8.slice template (i + 2) template.length).bind
        (renderPlaceholder j template context i out) := by
  obtain ⟨hi, hb⟩ := getElem_of_drop_eq_cons h.choose_spec.symm
  have hclose : ¬ (template[i] = 0x7D ∧ i + 3 < template.length ∧
      (template.drop i).take 4 = [0x7D, 0x7D, 0x7D, 0x7D]) := by
    rw [hb]
    exact fun h => absurd h.1 (by decide)
  rw [renderLoop, dif_pos hi, if_neg fun h => hescape ((escape_iff _ hi).mp h), if_neg hclose,
    if_pos ((open_iff _ hi).mpr h)]
  rfl

theorem renderLoop_char (hopen : ¬ [0x7B, 0x7B] <+: template.drop i)
    (hclose : ¬ [0x7D, 0x7D, 0x7D, 0x7D] <+: template.drop i) {b : UInt8}
    (h : template.drop i = b :: bs) :
    renderLoop j template context i out =
      (Utf8.slice template i (i + utf8Len b)).bind fun ch =>
        renderLoop j template context (i + utf8Len b) (out ++ ch) := by
  obtain ⟨hi, hb⟩ := getElem_of_drop_eq_cons h
  have hescape : ¬ [0x7B, 0x7B, 0x7B, 0x7B] <+: template.drop i :=
    fun h => hopen (List.IsPrefix.trans ⟨[0x7B, 0x7B], rfl⟩ h)
  rw [renderLoop, dif_pos hi, if_neg fun h => hescape ((escape_iff _ hi).mp h),
    if_neg fun h => hclose ((escape_iff _ hi).mp h), if_neg fun h => hopen ((open_iff _ hi).mp h),
    hb]
  rfl

/-! ## Bytes and characters -/

/-- `utf8_len` of the first byte is the number of bytes of the character. -/
theorem utf8Len_encode {c : Char} {b : UInt8} {bs : List UInt8}
    (h : String.utf8EncodeChar c = b :: bs) : utf8Len b = bs.length + 1 := by
  have hlt : b < 0x80 ↔ b.toNat < 128 := UInt8.lt_iff_toNat_lt
  have h5 : b >>> 5 = 0b110 ↔ b.toNat / 32 = 6 := by
    rw [← UInt8.toNat_inj, UInt8.toNat_shiftRight, Nat.shiftRight_eq_div_pow]
    rfl
  have h4 : b >>> 4 = 0b1110 ↔ b.toNat / 16 = 14 := by
    rw [← UInt8.toNat_inj, UInt8.toNat_shiftRight, Nat.shiftRight_eq_div_pow]
    rfl
  simp only [utf8Len, hlt, h5, h4]
  rcases Utf8.utf8EncodeChar_cases c with ⟨hc, henc⟩ | ⟨b', bs', henc, -, hlead⟩
  · obtain ⟨rfl, rfl⟩ := List.cons.inj (henc.symm.trans h)
    rw [UInt8.toNat_ofNat', Nat.mod_eq_of_lt (by omega), if_pos hc]
    rfl
  · obtain ⟨rfl, rfl⟩ := List.cons.inj (henc.symm.trans h)
    split_ifs <;> omega

theorem encode_openBraces (cs : List Char) :
    Utf8.encode ('{' :: '{' :: cs) = 0x7B :: 0x7B :: Utf8.encode cs := rfl

theorem encode_closeBraces (cs : List Char) :
    Utf8.encode ('}' :: '}' :: cs) = 0x7D :: 0x7D :: Utf8.encode cs := rfl

/-- Whether a text begins with certain braces can be read off its bytes. -/
theorem braces_prefix_iff {cs : List Char} (n : Nat) {c : Char} (hc : c.toNat < 128) :
    List.replicate n (UInt8.ofNat c.toNat) <+: Utf8.encode cs ↔ List.replicate n c <+: cs := by
  have henc : Utf8.encode (List.replicate n c) = List.replicate n (UInt8.ofNat c.toNat) := by
    induction n with
    | zero => rfl
    | succ n ih =>
      rw [List.replicate_succ, Utf8.encode_cons, Utf8.utf8EncodeChar_ascii hc, ih]
      rfl
  rw [← henc]
  refine Utf8.encode_prefix_iff fun d hd => ?_
  rwa [List.eq_of_mem_replicate hd]

theorem findBraces_cons {b : UInt8} {rest : List UInt8} (h : ¬ [0x7D, 0x7D] <+: b :: rest) :
    findBraces (b :: rest) = (findBraces rest).map (· + 1) := by
  rw [findBraces]
  rintro r rfl rfl
  exact h ⟨r, rfl⟩

theorem findBraces_append {bs : List UInt8} (h : ∀ d ∈ bs, d ≠ 0x7D) (rest : List UInt8) :
    findBraces (bs ++ rest) = (findBraces rest).map (· + bs.length) := by
  induction bs with
  | nil => simp
  | cons b bs ih =>
    obtain ⟨hb, hbs⟩ := List.forall_mem_cons.mp h
    rw [List.cons_append, findBraces_cons, ih hbs, Option.map_map]
    · congr 1
    · rintro ⟨r, hr⟩
      exact hb (List.cons.inj hr).1.symm

/-- A character that does not begin the braces is skipped. -/
theorem findBraces_encode_cons {c : Char} {cs : List Char} (h : ¬ ['}', '}'] <+: c :: cs) :
    findBraces (Utf8.encode (c :: cs)) =
      (findBraces (Utf8.encode cs)).map (· + (String.utf8EncodeChar c).length) := by
  rcases Utf8.utf8EncodeChar_cases c with ⟨-, henc⟩ | ⟨b, bs, henc, hcont, hlead⟩
  · have hbytes : ¬ [0x7D, 0x7D] <+: Utf8.encode (c :: cs) := fun hp =>
      h ((braces_prefix_iff 2 (by decide : ('}' : Char).toNat < 128)).mp hp)
    rw [Utf8.encode_cons, henc] at hbytes ⊢
    exact findBraces_cons hbytes
  · rw [Utf8.encode_cons, henc]
    refine findBraces_append ?_ _
    have hb : b ≠ 0x7D := by
      rintro rfl
      have hbrace : (0x7D : UInt8).toNat = 125 := rfl
      omega
    have hbs : ∀ d ∈ bs, d ≠ 0x7D := by
      rintro d hd rfl
      exact absurd (hcont _ hd) (by decide)
    exact List.forall_mem_cons.mpr ⟨hb, hbs⟩

theorem findBraces_encode (cs : List Char) :
    findBraces (Utf8.encode cs) = (findClose cs).map fun found => (Utf8.encode found.1).length := by
  fun_induction findClose cs with
  | case1 rest => rfl
  | case2 c rest hne ih =>
    rw [findBraces_encode_cons, ih, Option.map_map, Option.map_map]
    · congr 1
      funext found
      simp [Utf8.encode_cons, Nat.add_comm]
    · rintro ⟨r, hr⟩
      obtain ⟨rfl, hrest⟩ := List.cons.inj hr
      exact hne r rfl hrest.symm
  | case3 => rfl

/-! ## The two loops agree -/

theorem slice_to_end (before : List UInt8) (cs : List Char) :
    Utf8.slice (before ++ Utf8.encode cs) before.length (before ++ Utf8.encode cs).length =
      some (Utf8.encode cs) := by
  have h := Utf8.slice_append before cs []
  rwa [Utf8.encode_nil, List.append_nil, ← List.length_append] at h

theorem slice_from_start (cs ds : List Char) :
    Utf8.slice (Utf8.encode (cs ++ ds)) 0 (Utf8.encode cs).length = some (Utf8.encode cs) := by
  have h := Utf8.slice_append [] cs ds
  rwa [List.nil_append, List.length_nil, Nat.zero_add, ← Utf8.encode_append] at h

variable (j context) in
/-- Where `cs` begins, the loop goes on as the characters say. -/
def Agrees (cs : List Char) (r : Except RenderError (List Char)) : Prop :=
  ∀ before out, renderLoop j (before ++ Utf8.encode cs) context before.length out =
    some (r.map fun text => out ++ Utf8.encode text)

variable {cs rest : List Char} {r : Except RenderError (List Char)}

/-- Some bytes further on, the loop stands where `rest` begins. -/
theorem Agrees.advance (h : Agrees j context rest r) (before bytes out : List UInt8)
    (htemplate : template = before ++ bytes ++ Utf8.encode rest)
    (hi : i = before.length + bytes.length) :
    renderLoop j template context i out = some (r.map fun text => out ++ Utf8.encode text) := by
  rw [htemplate, hi, ← List.length_append]
  exact h (before ++ bytes) out

theorem agrees_nil : Agrees j context [] (.ok []) := by
  intro before out
  rw [renderLoop, dif_neg (by simp)]
  simp [Except.map]

theorem agrees_openEscape (h : Agrees j context rest r) :
    Agrees j context ('{' :: '{' :: '{' :: '{' :: rest) (do
      let out ← r
      return '{' :: '{' :: out) := by
  intro before out
  rw [renderLoop_openEscape (by rw [List.drop_left]; exact ⟨_, rfl⟩)]
  refine (h.advance before [0x7B, 0x7B, 0x7B, 0x7B] _ (by simp [encode_openBraces]) rfl).trans ?_
  cases r with
  | error e => rfl
  | ok text => simp [Except.map, encode_openBraces, bind, Except.bind, pure, Except.pure]

theorem agrees_closeEscape (h : Agrees j context rest r) :
    Agrees j context ('}' :: '}' :: '}' :: '}' :: rest) (do
      let out ← r
      return '}' :: '}' :: out) := by
  intro before out
  rw [renderLoop_closeEscape (by rw [List.drop_left]; exact ⟨_, rfl⟩)]
  refine (h.advance before [0x7D, 0x7D, 0x7D, 0x7D] _ (by simp [encode_closeBraces]) rfl).trans ?_
  cases r with
  | error e => rfl
  | ok text => simp [Except.map, encode_closeBraces, bind, Except.bind, pure, Except.pure]

/-- Two opening braces that are no escape. -/
theorem renderLoop_placeholder (hescape : ¬ ['{', '{'] <+: rest) (before out : List UInt8) :
    renderLoop j (before ++ Utf8.encode ('{' :: '{' :: rest)) context before.length out =
      renderPlaceholder j (before ++ Utf8.encode ('{' :: '{' :: rest)) context before.length out
        (Utf8.encode rest) := by
  have hbytes : ¬ [0x7B, 0x7B, 0x7B, 0x7B] <+: Utf8.encode ('{' :: '{' :: rest) := by
    intro hp
    have hchars := (braces_prefix_iff 4 (by decide : ('{' : Char).toNat < 128)).mp hp
    exact hescape ((List.prefix_cons_inj _).mp ((List.prefix_cons_inj _).mp hchars))
  have hslice : Utf8.slice (before ++ Utf8.encode ('{' :: '{' :: rest)) (before.length + 2)
      (before ++ Utf8.encode ('{' :: '{' :: rest)).length = some (Utf8.encode rest) := by
    have h := slice_to_end (before ++ [0x7B, 0x7B]) rest
    rwa [List.append_assoc, List.length_append] at h
  rw [renderLoop_open (by rwa [List.drop_left]) (by rw [List.drop_left]; exact ⟨_, rfl⟩), hslice]
  rfl

theorem agrees_unterminated (hescape : ¬ ['{', '{'] <+: rest) (hnone : findClose rest = none) :
    Agrees j context ('{' :: '{' :: rest) (.error .unterminatedPlaceholder) := by
  intro before out
  rw [renderLoop_placeholder hescape, renderPlaceholder, findBraces_encode, hnone]
  rfl

/-- The key of a placeholder is the text up to the first closing braces. -/
theorem renderPlaceholder_eq {body after : List Char} (hfind : findClose rest = some (body, after)) :
    renderPlaceholder j template context i out (Utf8.encode rest) =
      if (trim body).isEmpty then some (.error .emptyPlaceholder)
      else
        match lookup context (trim body) with
        | none => some (.error (.undefinedKey (String.ofList (trim body))))
        | some value =>
          renderLoop j template context (i + (2 + (Utf8.encode body).length + 2))
            (out ++ Utf8.encode (stringify j value).toList) := by
  rw [renderPlaceholder, findBraces_encode, hfind]
  simp only [Option.map_some]
  rw [eq_of_findClose hfind, slice_from_start]
  simp only [Option.bind_eq_bind, Option.bind_some, Utf8.ofUtf8?_encode, String.toList_ofList,
    Utf8.utf8_eq_encode]

theorem agrees_placeholder (hescape : ¬ ['{', '{'] <+: rest) {body after : List Char}
    (hfind : findClose rest = some (body, after)) (h : Agrees j context after r) :
    Agrees j context ('{' :: '{' :: rest)
      (if (trim body).isEmpty then .error .emptyPlaceholder
      else
        match lookup context (trim body) with
        | none => .error (.undefinedKey (String.ofList (trim body)))
        | some value => do
          let out ← r
          return (stringify j value).toList ++ out) := by
  intro before out
  rw [renderLoop_placeholder hescape, renderPlaceholder_eq hfind]
  split
  · rfl
  · cases lookup context (trim body) with
    | none => rfl
    | some value =>
      have htemplate : before ++ Utf8.encode ('{' :: '{' :: rest) =
          before ++ (0x7B :: 0x7B :: (Utf8.encode body ++ [0x7D, 0x7D])) ++ Utf8.encode after := by
        rw [eq_of_findClose hfind, encode_openBraces, Utf8.encode_append, encode_closeBraces]
        simp
      dsimp only
      rw [h.advance before _ _ htemplate (by simp; omega)]
      cases r with
      | error e => rfl
      | ok text => simp [Except.map, Utf8.encode_append, bind, Except.bind, pure, Except.pure]

theorem agrees_char {c : Char} (hopen : ¬ ['{', '{'] <+: c :: rest)
    (hclose : ¬ ['}', '}', '}', '}'] <+: c :: rest) (h : Agrees j context rest r) :
    Agrees j context (c :: rest) (do
      let out ← r
      return c :: out) := by
  intro before out
  have hopenBytes : ¬ [0x7B, 0x7B] <+: Utf8.encode (c :: rest) := fun hp =>
    hopen ((braces_prefix_iff 2 (by decide : ('{' : Char).toNat < 128)).mp hp)
  have hcloseBytes : ¬ [0x7D, 0x7D, 0x7D, 0x7D] <+: Utf8.encode (c :: rest) := fun hp =>
    hclose ((braces_prefix_iff 4 (by decide : ('}' : Char).toNat < 128)).mp hp)
  obtain ⟨b, bs, henc⟩ : ∃ b bs, String.utf8EncodeChar c = b :: bs := by
    rcases Utf8.utf8EncodeChar_cases c with ⟨-, henc⟩ | ⟨b, bs, henc, -⟩
    · exact ⟨_, _, henc⟩
    · exact ⟨b, bs, henc⟩
  have hlen : utf8Len b = (String.utf8EncodeChar c).length := by
    rw [utf8Len_encode henc, henc]
    rfl
  have hslice := Utf8.slice_append before [c] rest
  rw [List.append_assoc, ← Utf8.encode_append] at hslice
  have hsingle : Utf8.encode [c] = String.utf8EncodeChar c := by simp [Utf8.encode_cons]
  have hdrop : (before ++ Utf8.encode (c :: rest)).drop before.length =
      b :: (bs ++ Utf8.encode rest) := by
    rw [List.drop_left, Utf8.encode_cons, henc]
    rfl
  rw [renderLoop_char (by rwa [List.drop_left]) (by rwa [List.drop_left]) hdrop, hlen, ← hsingle]
  rw [show before ++ Utf8.encode (c :: rest) = before ++ Utf8.encode ([c] ++ rest) from rfl, hslice]
  dsimp only [Option.bind_some]
  rw [h.advance before (Utf8.encode [c]) _ (by rw [Utf8.encode_append, List.append_assoc]) rfl]
  cases r with
  | error e => rfl
  | ok text => simp [Except.map, Utf8.encode_cons, bind, Except.bind, pure, Except.pure]

/-! ## Pieces -/

inductive Piece
  /-- A doubled pair of braces. -/
  | escape (brace : Char)
  | placeholder (body : List Char)
  /-- Opening braces that are not closed. -/
  | unterminated (rest : List Char)
  | char (c : Char)

/-- The text of the template that a piece is. -/
def Piece.source : Piece → List Char
  | .escape b => [b, b, b, b]
  | .placeholder body => '{' :: '{' :: (body ++ ['}', '}'])
  | .unterminated rest => '{' :: '{' :: rest
  | .char c => [c]

/-- The template from left to right. -/
def pieces : List Char → List Piece
  | [] => []
  | '{' :: '{' :: '{' :: '{' :: rest => .escape '{' :: pieces rest
  | '}' :: '}' :: '}' :: '}' :: rest => .escape '}' :: pieces rest
  | '{' :: '{' :: rest =>
    match _ : findClose rest with
    | none => [.unterminated rest]
    | some (body, after) => .placeholder body :: pieces after
  | c :: rest => .char c :: pieces rest
termination_by cs => cs.length
decreasing_by
  all_goals simp only [List.length_cons]
  · omega
  · omega
  · have hlt := length_after_findClose ‹findClose _ = some _›
    omega
  · omega

/-- Nothing of the template is lost. -/
theorem source_pieces (cs : List Char) : (pieces cs).flatMap Piece.source = cs := by
  fun_induction pieces cs with
  | case1 => rfl
  | case2 rest ih => simp [Piece.source, ih]
  | case3 rest ih => simp [Piece.source, ih]
  | case4 rest _ hnone => simp [Piece.source]
  | case5 rest _ body after hfind ih =>
    rw [List.flatMap_cons, ih, eq_of_findClose hfind]
    simp [Piece.source]
  | case6 c rest _ _ _ ih => simp [Piece.source, ih]

/-- What is wrong with a piece; `find` is the lookup of a key. -/
def Piece.offence (find : List Char → Option Value) : Piece → Option RenderError
  | .unterminated _ => some .unterminatedPlaceholder
  | .placeholder body =>
    if (trim body).isEmpty then some .emptyPlaceholder
    else if (find (trim body)).isNone then some (.undefinedKey (String.ofList (trim body)))
    else none
  | _ => none

/-- What a piece with which nothing is wrong is rendered to. -/
def Piece.text (j : Json) (find : List Char → Option Value) : Piece → List Char
  | .escape b => [b, b]
  | .placeholder body => ((find (trim body)).map fun v => (stringify j v).toList).getD []
  | .unterminated _ => []
  | .char c => [c]

/-- The pieces one after the other; the first with which something is wrong is the
error. -/
def renderPieces (j : Json) (find : List Char → Option Value) (ps : List Piece) :
    Except RenderError (List Char) :=
  match ps.findSome? (Piece.offence find) with
  | some e => .error e
  | none => .ok (ps.flatMap (Piece.text j find))

theorem renderPieces_cons (find : List Char → Option Value) (p : Piece) (ps : List Piece) :
    renderPieces j find (p :: ps) =
      match p.offence find with
      | some e => .error e
      | none => do
        let out ← renderPieces j find ps
        return p.text j find ++ out := by
  unfold renderPieces
  rw [List.findSome?_cons]
  cases p.offence find with
  | some e => rfl
  | none =>
    dsimp only
    cases ps.findSome? (Piece.offence find) with
    | some e => rfl
    | none => rfl

theorem not_prefix_open {c : Char} (h : ∀ r, c = '{' → rest = '{' :: r → False) :
    ¬ ['{', '{'] <+: c :: rest := by
  rintro ⟨r, hr⟩
  obtain ⟨rfl, rfl⟩ := List.cons.inj hr
  exact h r rfl rfl

theorem not_prefix_close {c : Char} (h : ∀ r, c = '}' → rest = '}' :: '}' :: '}' :: r → False) :
    ¬ ['}', '}', '}', '}'] <+: c :: rest := by
  rintro ⟨r, hr⟩
  obtain ⟨rfl, rfl⟩ := List.cons.inj hr
  exact h r rfl rfl

theorem renderFrom_unterminated (hescape : ∀ r, rest = '{' :: '{' :: r → False)
    (hnone : findClose rest = none) :
    renderFrom j context ('{' :: '{' :: rest) = .error .unterminatedPlaceholder := by
  rw [renderFrom]
  · split
    · rfl
    · next body after hfind =>
      rw [hnone] at hfind
      cases hfind
  · exact hescape

theorem renderFrom_placeholder (hescape : ∀ r, rest = '{' :: '{' :: r → False)
    {body after : List Char} (hfind : findClose rest = some (body, after)) :
    renderFrom j context ('{' :: '{' :: rest) =
      if (trim body).isEmpty then .error .emptyPlaceholder
      else
        match lookup context (trim body) with
        | none => .error (.undefinedKey (String.ofList (trim body)))
        | some value => do
          let out ← renderFrom j context after
          return (stringify j value).toList ++ out := by
  rw [renderFrom]
  · split
    · next hnone =>
      rw [hnone] at hfind
      cases hfind
    · next body' after' hfind' =>
      rw [hfind'] at hfind
      obtain ⟨rfl, rfl⟩ := Prod.mk.inj (Option.some.inj hfind)
      rfl
  · exact hescape

theorem renderFrom_char {c : Char} (hopen : ¬ ['{', '{'] <+: c :: rest)
    (hclose : ¬ ['}', '}', '}', '}'] <+: c :: rest) :
    renderFrom j context (c :: rest) = (do
      let out ← renderFrom j context rest
      return c :: out) := by
  rw [renderFrom]
  · rintro r rfl rfl
    exact hopen ⟨_, rfl⟩
  · rintro r rfl rfl
    exact hclose ⟨_, rfl⟩
  · rintro r rfl rfl
    exact hopen ⟨_, rfl⟩

/-- The loop on characters renders the pieces. -/
theorem renderFrom_eq (j : Json) (context : Value) (cs : List Char) :
    renderFrom j context cs = renderPieces j (lookup context) (pieces cs) := by
  fun_induction pieces cs with
  | case1 =>
    rw [renderFrom]
    rfl
  | case2 rest ih =>
    rw [renderFrom, renderPieces_cons, ih]
    rfl
  | case3 rest ih =>
    rw [renderFrom, renderPieces_cons, ih]
    rfl
  | case4 rest hescape hnone =>
    rw [renderFrom_unterminated hescape hnone]
    rfl
  | case5 rest hescape body after hfind ih =>
    rw [renderFrom_placeholder hescape hfind, renderPieces_cons, ih]
    simp only [Piece.offence, Piece.text]
    split
    · rfl
    · cases lookup context (trim body) with
      | none => rfl
      | some v => rfl
  | case6 c rest _ hclose hopen ih =>
    rw [renderFrom_char (not_prefix_open hopen) (not_prefix_close hclose), renderPieces_cons, ih]
    rfl

/-- The loop on bytes does what the loop on characters does. -/
theorem agrees_renderFrom (j : Json) (context : Value) (cs : List Char) :
    Agrees j context cs (renderFrom j context cs) := by
  fun_induction pieces cs with
  | case1 =>
    rw [renderFrom]
    exact agrees_nil
  | case2 rest ih =>
    rw [renderFrom]
    exact agrees_openEscape ih
  | case3 rest ih =>
    rw [renderFrom]
    exact agrees_closeEscape ih
  | case4 rest hescape hnone =>
    rw [renderFrom_unterminated hescape hnone]
    refine agrees_unterminated ?_ hnone
    rintro ⟨r, rfl⟩
    exact hescape r rfl
  | case5 rest hescape body after hfind ih =>
    rw [renderFrom_placeholder hescape hfind]
    refine agrees_placeholder ?_ hfind ih
    rintro ⟨r, rfl⟩
    exact hescape r rfl
  | case6 c rest _ hclose hopen ih =>
    rw [renderFrom_char (not_prefix_open hopen) (not_prefix_close hclose)]
    exact agrees_char (not_prefix_open hopen) (not_prefix_close hclose) ih

/-- A template is split without a look at the context, from left to right.  No slice of
it is cut inside a character; the result is what the pieces contribute, or the error of
the first piece with which something is wrong. -/
theorem render_single_pass (j : Json) (template : String) (context : Value) :
    (pieces template.toList).flatMap Piece.source = template.toList ∧
      renderBytes j (Cbor.utf8 template) context =
        some (match (pieces template.toList).findSome? (Piece.offence (lookup context)) with
          | some e => .error e
          | none => .ok (Utf8.encode
              ((pieces template.toList).flatMap (Piece.text j (lookup context))))) ∧
      renderBytes j (Cbor.utf8 template) context =
        some ((renderPrompt j template context).map Cbor.utf8) := by
  have hbytes : renderBytes j (Cbor.utf8 template) context =
      some ((renderFrom j context template.toList).map Utf8.encode) := by
    rw [Utf8.utf8_eq_encode]
    exact agrees_renderFrom j context template.toList [] []
  refine ⟨source_pieces _, ?_, ?_⟩
  · rw [hbytes, renderFrom_eq, renderPieces]
    cases (pieces template.toList).findSome? (Piece.offence (lookup context)) with
    | some e => rfl
    | none => rfl
  · rw [hbytes, renderPrompt]
    cases renderFrom j context template.toList with
    | error e => rfl
    | ok text =>
      simp only [Except.map, bind, Except.bind, pure, Except.pure, Utf8.utf8_eq_encode,
        String.toList_ofList]

/-! ## Escaping -/

/-- Every pair of braces doubled, from left to right. -/
def escapeChars : List Char → List Char
  | '{' :: '{' :: rest => '{' :: '{' :: '{' :: '{' :: escapeChars rest
  | '}' :: '}' :: rest => '}' :: '}' :: '}' :: '}' :: escapeChars rest
  | c :: rest => c :: escapeChars rest
  | [] => []

def escape (s : String) : String := String.ofList (escapeChars s.toList)

/-- An escaped text begins as the text does. -/
theorem head?_escapeChars (cs : List Char) : (escapeChars cs).head? = cs.head? := by
  fun_cases escapeChars cs <;> rfl

theorem renderFrom_escapeChars (j : Json) (context : Value) (cs : List Char) :
    renderFrom j context (escapeChars cs) = .ok cs := by
  fun_induction escapeChars cs with
  | case1 rest ih =>
    rw [renderFrom, ih]
    rfl
  | case2 rest ih =>
    rw [renderFrom, ih]
    rfl
  | case3 c rest hopen hclose ih =>
    -- a single brace is not followed by another one
    have hhead := head?_escapeChars rest
    rw [renderFrom_char, ih]
    · rfl
    · rintro ⟨r, hr⟩
      obtain ⟨rfl, hrest⟩ := List.cons.inj hr
      rw [← hrest] at hhead
      obtain ⟨r', rfl⟩ := List.head?_eq_some_iff.mp hhead.symm
      exact hopen r' rfl rfl
    · rintro ⟨r, hr⟩
      obtain ⟨rfl, hrest⟩ := List.cons.inj hr
      rw [← hrest] at hhead
      obtain ⟨r', rfl⟩ := List.head?_eq_some_iff.mp hhead.symm
      exact hclose r' rfl rfl
  | case4 => rw [renderFrom]

/-- Every text can be written in a template. -/
theorem render_escape (j : Json) (s : String) (context : Value) :
    renderPrompt j (escape s) context = .ok s := by
  rw [renderPrompt, escape, String.toList_ofList, renderFrom_escapeChars]
  simp [bind, Except.bind, pure, Except.pure]

end Parseh.Agent
