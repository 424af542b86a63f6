import Parseh.Lib.Cbor

/-!
# Typed values as data items

`Serde F α` says how values of a type are written as data items and read back.
A record is a map from the names of its fields, in their order, to their values;
it is read in any order, unknown fields are skipped, a field that is missing has a
default or is an error, and one that is there twice is an error.  A variant of an
enumeration is its name, or a map of one entry from the name to the content.

The lemmas `de_ser_*` say that what is written is read back, and `fits_ser_*` that
the item has a depth and floats that the encoding keeps; both are simp lemmas, so
that a record takes them from its fields.
-/

namespace Parseh.Lib.Cbor

structure Serde (F α : Type) where
  ser : α → Item F
  de : Item F → Option α

variable {F α : Type}

/-! ## Scalars and strings -/

namespace Serde

def u64 : Serde F UInt64 where
  ser n := .uint n
  de
    | .uint n => some n
    | _ => none

def u32 : Serde F UInt32 where
  ser n := .uint n.toUInt64
  de
    | .uint n => if n.toNat < 2 ^ 32 then some n.toUInt32 else none
    | _ => none

def i32 : Serde F Int32 where
  ser n :=
    if 0 ≤ n.toInt then .uint (UInt64.ofNat n.toInt.toNat)
    else .nint (UInt64.ofNat (-1 - n.toInt).toNat)
  de
    | .uint n => if n.toNat < 2 ^ 31 then some (Int32.ofInt n.toNat) else none
    | .nint n => if n.toNat < 2 ^ 31 then some (Int32.ofInt (-1 - n.toNat)) else none
    | _ => none

def bool : Serde F Bool where
  ser b := .bool b
  de
    | .bool b => some b
    | _ => none

def string : Serde F String where
  ser s := .text s
  de
    | .text s => some s
    | _ => none

def float : Serde F F where
  ser x := .float x
  de
    | .float x => some x
    | _ => none

def u8? : Item F → Option UInt8
  | .uint n => if n.toNat < 2 ^ 8 then some n.toUInt8 else none
  | _ => none

/-- A byte string; an array of small numbers is read too. -/
def byteBuf : Serde F (List UInt8) where
  ser b := .bytes b
  de
    | .bytes b => some b
    | .array items => items.mapM u8?
    | _ => none

/-- A byte string that stands for a value of another type. -/
def viaBytes (toBytes : α → List UInt8) (ofBytes : List UInt8 → Option α) : Serde F α where
  ser a := .bytes (toBytes a)
  de
    | .bytes b => ofBytes b
    | _ => none

/-- The same, read as a byte buffer. -/
def viaByteBuf (toBytes : α → List UInt8) (ofBytes : List UInt8 → Option α) : Serde F α where
  ser a := .bytes (toBytes a)
  de i := (byteBuf.de i).bind ofBytes

def option (s : Serde F α) : Serde F (Option α) where
  ser
    | none => .null
    | some a => s.ser a
  de
    | .null => some none
    | i => (s.de i).map some

def vec (s : Serde F α) : Serde F (List α) where
  ser as := .array (as.map s.ser)
  de
    | .array items => items.mapM s.de
    | _ => none

/-- An enumeration whose variants have no content. -/
def unitEnum (name : α → String) (all : List α) : Serde F α where
  ser a := .text (name a)
  de
    | .text s => all.find? fun a => name a = s
    | _ => none

end Serde

/-! ## Records and variants -/

/-- A record with its fields in order. -/
def record (fields : List (String × Item F)) : Item F :=
  .map (fields.map fun f => (.text f.1, f.2))

/-- The name a key stands for; keys are text or, as some writers have them, bytes. -/
def Item.name? : Item F → Option String
  | .text s => some s
  | .bytes b => some ((ofUtf8? b).getD "")
  | _ => none

/-- The entries of a map with their names. -/
def Item.fields? : Item F → Option (List (String × Item F))
  | .map entries => entries.mapM fun e => e.1.name?.map fun name => (name, e.2)
  | _ => none

/-- One field of a record, or its default. -/
def field (fields : List (String × Item F)) (name : String) (s : Serde F α) (default : Option α) :
    Option α :=
  match fields.filter fun f => f.1 = name with
  | [] => default
  | [f] => s.de f.2
  | _ => none

/-- The name and the content of a variant. -/
def Item.variant? : Item F → Option (String × Option (Item F))
  | .text s => some (s, none)
  | .map [(.text s, i)] => some (s, some i)
  | _ => none

@[simp] theorem fields?_record (fields : List (String × Item F)) :
    (record fields).fields? = some fields := by
  show (fields.map fun f => ((Item.text f.1 : Item F), f.2)).mapM _ = some fields
  induction fields with
  | nil => rfl
  | cons f fields ih =>
    rw [List.map_cons, List.mapM_cons, ih]
    rfl

/-- An entry of a map is one of its fields. -/
theorem mem_of_fields? {entries : List (Item F × Item F)} {fields : List (String × Item F)}
    (h : (Item.map entries).fields? = some fields) {key value : Item F} {name : String}
    (hmem : (key, value) ∈ entries) (hkey : key.name? = some name) : (name, value) ∈ fields := by
  simp only [Item.fields?] at h
  induction entries generalizing fields with
  | nil => simp at hmem
  | cons e entries ih =>
    simp only [List.mapM_cons, Option.bind_eq_bind, Option.bind_eq_some_iff, Option.map_eq_some_iff,
      Option.pure_def, Option.some.injEq] at h
    obtain ⟨_, ⟨name', hname', rfl⟩, rest, hrest, rfl⟩ := h
    obtain rfl | hmem := List.mem_cons.mp hmem
    · rw [hkey] at hname'
      simp [Option.some.inj hname']
    · exact List.mem_cons_of_mem _ (ih hrest hmem)

@[simp] theorem field_nil (name : String) (s : Serde F α) (default : Option α) :
    field [] name s default = default := rfl

/-- The fields are looked through from the first. -/
@[simp] theorem field_cons (n : String) (i : Item F) (fields : List (String × Item F))
    (name : String) (s : Serde F α) (default : Option α) :
    field ((n, i) :: fields) name s default =
      if n = name then if name ∈ fields.map Prod.fst then none else s.de i
      else field fields name s default := by
  by_cases hn : n = name
  · have hrest : fields.filter (fun f => f.1 = name) = [] ↔ name ∉ fields.map Prod.fst := by
      simp only [List.filter_eq_nil_iff, List.mem_map, not_exists, not_and, decide_eq_true_eq]
    by_cases hmem : name ∈ fields.map Prod.fst
    · obtain ⟨g, gs, hg⟩ := List.exists_cons_of_ne_nil (mt hrest.mp (not_not_intro hmem))
      simp only [field, List.filter_cons, hn, decide_true, if_true, hg, hmem]
    · simp only [field, List.filter_cons, hn, decide_true, if_true, hrest.mpr hmem, hmem, if_false]
  · simp only [field, List.filter_cons, hn, decide_false, if_false, Bool.false_eq_true]

/-- In a record without repeated names a field is found at its place. -/
theorem field_eq_de {fields : List (String × Item F)} (hnodup : (fields.map Prod.fst).Nodup)
    {name : String} {i : Item F} (n : Nat) (h : fields[n]? = some (name, i)) (s : Serde F α)
    (default : Option α) : field fields name s default = s.de i := by
  have hmem := List.mem_of_getElem? h
  clear h
  induction fields with
  | nil => cases hmem
  | cons f fields ih =>
    obtain ⟨name', i'⟩ := f
    obtain ⟨hnew, hrest⟩ := List.nodup_cons.mp hnodup
    rw [field_cons]
    obtain heq | hmem := List.mem_cons.mp hmem
    · obtain ⟨rfl, rfl⟩ := Prod.mk.inj heq
      rw [if_pos rfl, if_neg hnew]
    · have hne : name' ≠ name := by
        rintro rfl
        exact hnew (List.mem_map.mpr ⟨_, hmem, rfl⟩)
      rw [if_neg hne, ih hrest hmem]

/-- A field that cannot be read is an error, also where it has a default. -/
theorem field_of_unreadable {fields : List (String × Item F)} {name : String} {i : Item F}
    {s : Serde F α} (hmem : (name, i) ∈ fields) (hde : s.de i = none) (default : Option α) :
    field fields name s default = none := by
  have hin : (name, i) ∈ fields.filter fun f => f.1 = name := by simp [hmem]
  unfold field
  split
  · next h => simp [h] at hin
  · next f h =>
    rw [h, List.mem_singleton] at hin
    rw [← hin]
    exact hde
  · rfl

@[simp] theorem variant?_text (s : String) : (Item.text s : Item F).variant? = some (s, none) := rfl

@[simp] theorem variant?_record (s : String) (i : Item F) :
    (record [(s, i)]).variant? = some (s, some i) := rfl

variable {ok : F → Prop} {depth : Nat}

@[simp] theorem fits_record {fields : List (String × Item F)} :
    (record fields).Fits ok (depth + 1) ↔ ∀ f ∈ fields, f.2.Fits ok depth := by
  simp only [record, Item.Fits, List.forall_mem_map]
  exact ⟨fun h f hf => (h f hf).2, fun h f hf => ⟨trivial, h f hf⟩⟩

@[simp] theorem fits_array {items : List (Item F)} :
    (Item.array items).Fits ok (depth + 1) ↔ ∀ i ∈ items, i.Fits ok depth := by
  simp [Item.Fits]

@[simp] theorem fits_text (s : String) : (Item.text s : Item F).Fits ok depth := by simp [Item.Fits]

/-! ## What is written is read back -/

namespace Serde

@[simp] theorem de_ser_u64 (n : UInt64) : (u64 : Serde F UInt64).de (u64.ser n) = some n := rfl

@[simp] theorem de_ser_u32 (n : UInt32) : (u32 : Serde F UInt32).de (u32.ser n) = some n := by
  have hn : n.toUInt64.toNat < 2 ^ 32 := by
    rw [UInt32.toNat_toUInt64]
    exact n.toNat_lt
  show (if n.toUInt64.toNat < 2 ^ 32 then some n.toUInt64.toUInt32 else none) = some n
  rw [if_pos hn, UInt32.toUInt32_toUInt64]

@[simp] theorem de_ser_bool (b : Bool) : (bool : Serde F Bool).de (bool.ser b) = some b := rfl

@[simp] theorem de_ser_string (s : String) :
    (string : Serde F String).de (string.ser s) = some s := rfl

@[simp] theorem de_ser_float (x : F) : (float : Serde F F).de (float.ser x) = some x := rfl

@[simp] theorem de_ser_byteBuf (b : List UInt8) :
    (byteBuf : Serde F (List UInt8)).de (byteBuf.ser b) = some b := rfl

@[simp] theorem de_ser_i32 (n : Int32) : (i32 : Serde F Int32).de (i32.ser n) = some n := by
  have hlo : -2 ^ 31 ≤ n.toInt := n.le_toInt
  have hhi : n.toInt < 2 ^ 31 := n.toInt_lt
  by_cases h : 0 ≤ n.toInt
  · have hser : (i32 : Serde F Int32).ser n = .uint (UInt64.ofNat n.toInt.toNat) := if_pos h
    have hk : (UInt64.ofNat n.toInt.toNat).toNat = n.toInt.toNat := by
      rw [UInt64.toNat_ofNat', Nat.mod_eq_of_lt (by omega)]
    have hback : ((n.toInt.toNat : Nat) : Int) = n.toInt := by omega
    rw [hser]
    simp only [i32, hk, hback, Int32.ofInt_toInt]
    exact if_pos (by omega)
  · have hser : (i32 : Serde F Int32).ser n = .nint (UInt64.ofNat (-1 - n.toInt).toNat) := if_neg h
    have hk : (UInt64.ofNat (-1 - n.toInt).toNat).toNat = (-1 - n.toInt).toNat := by
      rw [UInt64.toNat_ofNat', Nat.mod_eq_of_lt (by omega)]
    have hback : -1 - (((-1 - n.toInt).toNat : Nat) : Int) = n.toInt := by omega
    rw [hser]
    simp only [i32, hk, hback, Int32.ofInt_toInt]
    exact if_pos (by omega)

theorem de_ser_viaBytes {toBytes : α → List UInt8} {ofBytes : List UInt8 → Option α} {a : α}
    (h : ofBytes (toBytes a) = some a) :
    (viaBytes toBytes ofBytes : Serde F α).de ((viaBytes toBytes ofBytes).ser a) = some a := h

theorem de_ser_viaByteBuf {toBytes : α → List UInt8} {ofBytes : List UInt8 → Option α} {a : α}
    (h : ofBytes (toBytes a) = some a) :
    (viaByteBuf toBytes ofBytes : Serde F α).de ((viaByteBuf toBytes ofBytes).ser a) = some a := h

theorem de_ser_option {s : Serde F α} {o : Option α}
    (h : ∀ a, o = some a → s.de (s.ser a) = some a) (hnull : ∀ a, s.ser a ≠ .null) :
    (option s).de ((option s).ser o) = some o := by
  cases o with
  | none => rfl
  | some a =>
    have hne := hnull a
    simp only [option]
    rw [h a rfl]
    rfl

theorem de_ser_vec {s : Serde F α} {as : List α} (h : ∀ a ∈ as, s.de (s.ser a) = some a) :
    (vec s).de ((vec s).ser as) = some as := by
  simp only [vec]
  induction as with
  | nil => rfl
  | cons a as ih =>
    have ha := h a (by simp)
    have has := ih fun b hb => h b (by simp [hb])
    simp [ha, has]

@[simp] theorem de_ser_strings (ss : List String) :
    (vec string : Serde F (List String)).de ((vec string).ser ss) = some ss :=
  de_ser_vec fun s _ => de_ser_string s

theorem de_ser_unitEnum {name : α → String} {all : List α} {a : α} (ha : a ∈ all)
    (hinj : ∀ b ∈ all, name b = name a → b = a) :
    (unitEnum name all : Serde F α).de ((unitEnum name all).ser a) = some a := by
  simp only [unitEnum]
  cases hf : all.find? fun b => name b = name a with
  | none => simpa using List.find?_eq_none.mp hf a ha
  | some b =>
    rw [hinj b (List.mem_of_find?_eq_some hf) (by simpa using List.find?_some hf)]

/-! ## What is written fits -/

@[simp] theorem fits_ser_u64 (n : UInt64) : ((u64 : Serde F UInt64).ser n).Fits ok depth := by
  simp [u64, Item.Fits]

@[simp] theorem fits_ser_u32 (n : UInt32) : ((u32 : Serde F UInt32).ser n).Fits ok depth := by
  simp [u32, Item.Fits]

@[simp] theorem fits_ser_i32 (n : Int32) : ((i32 : Serde F Int32).ser n).Fits ok depth := by
  simp only [i32]
  split <;> simp [Item.Fits]

@[simp] theorem fits_ser_bool (b : Bool) : ((bool : Serde F Bool).ser b).Fits ok depth := by
  simp [bool, Item.Fits]

@[simp] theorem fits_ser_string (s : String) : ((string : Serde F String).ser s).Fits ok depth := by
  simp [string]

@[simp] theorem fits_ser_float (x : F) : ((float : Serde F F).ser x).Fits ok depth ↔ ok x := by
  simp [float, Item.Fits]

@[simp] theorem fits_ser_byteBuf (b : List UInt8) :
    ((byteBuf : Serde F (List UInt8)).ser b).Fits ok depth := by
  simp [byteBuf, Item.Fits]

@[simp] theorem fits_ser_viaBytes (toBytes : α → List UInt8) (ofBytes : List UInt8 → Option α)
    (a : α) : ((viaBytes toBytes ofBytes : Serde F α).ser a).Fits ok depth := by
  simp [viaBytes, Item.Fits]

@[simp] theorem fits_ser_viaByteBuf (toBytes : α → List UInt8) (ofBytes : List UInt8 → Option α)
    (a : α) : ((viaByteBuf toBytes ofBytes : Serde F α).ser a).Fits ok depth := by
  simp [viaByteBuf, Item.Fits]

@[simp] theorem fits_ser_unitEnum (name : α → String) (all : List α) (a : α) :
    ((unitEnum name all : Serde F α).ser a).Fits ok depth := by
  simp [unitEnum]

@[simp] theorem fits_ser_option {s : Serde F α} {o : Option α} :
    ((option s).ser o).Fits ok depth ↔ ∀ a, o = some a → (s.ser a).Fits ok depth := by
  cases o <;> simp [option, Item.Fits]

@[simp] theorem fits_ser_vec {s : Serde F α} {as : List α} :
    ((vec s).ser as).Fits ok (depth + 1) ↔ ∀ a ∈ as, (s.ser a).Fits ok depth := by
  simp [vec]

end Serde

end Parseh.Lib.Cbor
