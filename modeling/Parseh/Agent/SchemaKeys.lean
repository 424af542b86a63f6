import Parseh.Agent.Prompt

/-!
# Schemas and their key lists (`parseh-agent-spec`, `schema_validation.rs`)

A schema carries a document and, for quick filtering, a list of keys that its author
considers required.  `compile` compares the list with the `properties` of the document,
where it has any, and never with its `required`.

* `compileSchema_eq_ok`: what a schema that compiles has passed;
* `Draft202012`: what jsonschema implements, for the keywords `type`, `required` and
  `properties` at the top of a document;
* `Demands.keys`: a document for objects that requires the keys accepts only objects with
  them;
* `exists_accepted_without`: a document that says no more than these keywords do, and does
  not require a key, accepts a value without it;
* `schemaKeys_agree`: so the list agrees with the document if, and for such documents only
  if, the document demands the keys of the list.
-/

namespace Parseh.Agent

open Parseh.Lib Parseh.Wire

inductive SchemaError
  | invalidJson (text : String)
  | invalidSchema (text : String)
  | unknownRequiredKey (key : String)
  deriving DecidableEq

/-- `Value::as_object`. -/
def Value.asObject : Value → Option (List (String × Value))
  | .object fields => some fields
  | _ => none

variable (j : Json)

/-- `compile_schema`. -/
def compileSchema (schemaJson : String) (requiredKeys : List String) : Except SchemaError Unit :=
  match j.fromStr schemaJson with
  | .error e => .error (.invalidJson e)
  | .ok value =>
    match j.validatorFor value with
    | .error e => .error (.invalidSchema e)
    | .ok _ =>
      match (value.get "properties").bind Value.asObject with
      | some props =>
        requiredKeys.forM fun k =>
          if (props.lookup k).isNone then .error (.unknownRequiredKey k) else .ok ()
      | none => .ok ()

/-- `InputSchema::compile` and `OutputSchema::compile`. -/
def Schema.compile (s : Schema) : Except SchemaError Unit :=
  compileSchema j s.schemaJson s.requiredKeys

/-! ## What has been checked -/

theorem forM_eq_ok_iff {ε α : Type} (f : α → Except ε Unit) (l : List α) :
    l.forM f = .ok () ↔ ∀ a ∈ l, f a = .ok () := by
  induction l with
  | nil => exact iff_of_true rfl (by simp)
  | cons a l ih =>
    rw [List.forM_eq_forM, List.forM_cons, ← List.forM_eq_forM, List.forall_mem_cons, ← ih]
    constructor
    · intro h
      obtain ⟨⟨⟩, ha, hl⟩ := bind_eq_ok h
      exact ⟨ha, hl⟩
    · rintro ⟨ha, hl⟩
      rw [ha]
      exact hl

variable {j}

theorem compileSchema_eq_ok {schemaJson : String} {requiredKeys : List String}
    (h : compileSchema j schemaJson requiredKeys = .ok ()) :
    ∃ doc validate, j.fromStr schemaJson = .ok doc ∧ j.validatorFor doc = .ok validate ∧
      ∀ props, doc.get "properties" = some (.object props) →
        ∀ k ∈ requiredKeys, (props.lookup k).isSome := by
  unfold compileSchema at h
  split at h
  · cases h
  · next doc hdoc =>
    split at h
    · cases h
    · next validate hvalidate =>
      refine ⟨doc, validate, hdoc, hvalidate, fun props hprops k hk => ?_⟩
      rw [hprops, Option.bind_some] at h
      have hkey := (forM_eq_ok_iff _ _).mp h k hk
      cases hlookup : props.lookup k with
      | some v => rfl
      | none =>
        rw [hlookup] at hkey
        cases hkey

/-- A value that passes has been accepted by the validator. -/
theorem validate_eq_ok {s : Schema} {value doc : Value} {validate : Value → Except String Unit}
    (hdoc : j.fromStr s.schemaJson = .ok doc) (hvalidate : j.validatorFor doc = .ok validate)
    (h : s.validate j value = .ok ()) : validate value = .ok () := by
  obtain ⟨⟨⟩, -, h⟩ := bind_eq_ok h
  unfold validateAgainstSchema at h
  simp only [hdoc, hvalidate] at h
  split at h
  · cases h
  · next hok => exact hok

/-! ## The language of schemas -/

/-- Has the number no fractional part? -/
def Number.isInteger : Number → Bool
  | .posInt _ => true
  | .negInt _ => true
  | .float bits =>
    let exponent := bits.toNat / 2 ^ 52 % 2 ^ 11
    let mantissa := bits.toNat % 2 ^ 52
    if exponent = 0 then mantissa = 0 else (2 ^ 52 + mantissa) % 2 ^ (1075 - exponent) = 0

/-- Does the value have the type of that name? -/
def Value.hasType : Value → String → Bool
  | .null, t => t = "null"
  | .bool _, t => t = "boolean"
  | .number n, t => t = "number" || (t = "integer" && n.isInteger)
  | .string _, t => t = "string"
  | .array _, t => t = "array"
  | .object _, t => t = "object"

@[simp] theorem Value.hasType_object (fields : List (String × Value)) :
    (Value.object fields).hasType "object" = true := rfl

theorem Value.eq_object {v : Value} (h : v.hasType "object") : ∃ fields, v = .object fields := by
  cases v with
  | object fields => exact ⟨fields, rfl⟩
  | _ => simp [hasType] at h

/-- A value of the type of that name, and an object only if it has to be one. -/
def sampleOfType (t : String) : Value :=
  if t = "null" then .null
  else if t = "boolean" then .bool true
  else if t = "number" ∨ t = "integer" then .number (.posInt 0)
  else if t = "string" then .string ""
  else if t = "array" then .array []
  else .object []

def typeNames : List String :=
  ["array", "boolean", "integer", "null", "number", "object", "string"]

theorem hasType_sampleOfType {t : String} (h : t ∈ typeNames) : (sampleOfType t).hasType t := by
  revert t
  decide

theorem sampleOfType_hasType_object {t : String} (h : t ∈ typeNames)
    (hobj : (sampleOfType t).hasType "object") : t = "object" := by
  revert t
  decide

def Value.asString : Value → Option String
  | .string s => some s
  | _ => none

/-- The names in the value of the keyword `type`: one name, or an array of names. -/
def namesOf : Value → List String
  | .string t => [t]
  | .array ts => ts.filterMap Value.asString
  | _ => []

/-- The assertion of the keyword `type`. -/
def typeAccepts (doc v : Value) : Bool :=
  match doc.get "type" with
  | some t => (namesOf t).any v.hasType
  | none => true

/-- The keys in the keyword `required`. -/
def keysOf (doc : Value) : List String :=
  match doc.get "required" with
  | some (.array required) => required.filterMap Value.asString
  | _ => []

/-- The assertion of the keyword `required`, which is one about objects. -/
def requiredAccepts (doc : Value) : Value → Bool
  | .object fields => (keysOf doc).all fun k => (fields.lookup k).isSome
  | _ => true

/-- What the keyword `properties` says of a key. -/
def propertySchema (doc : Value) (k : String) : Option Value :=
  (doc.get "properties").bind (Value.get · k)

/-- The keywords that refer to another schema, or say how references are to be read. -/
def refersElsewhere (keyword : String) : Bool :=
  keyword ∈ ["$ref", "$dynamicRef", "$recursiveRef", "$id", "$anchor", "$dynamicAnchor",
    "$recursiveAnchor", "$schema", "$vocabulary"]

mutual

/-- Does no object inside the value have one of these keywords? -/
def selfContained : Value → Bool
  | .array items => itemsSelfContained items
  | .object fields => fieldsSelfContained fields
  | _ => true

def itemsSelfContained : List Value → Bool
  | [] => true
  | v :: items => selfContained v && itemsSelfContained items

def fieldsSelfContained : List (String × Value) → Bool
  | [] => true
  | (k, v) :: fields => !refersElsewhere k && selfContained v && fieldsSelfContained fields

end

/-- The keywords that assert nothing. -/
def annotations : List String :=
  ["$comment", "title", "description", "default", "examples", "deprecated", "readOnly",
    "writeOnly"]

/-- The document asserts something with `type`, `required` and `properties` only. -/
def Plain (doc : Value) : Prop :=
  ∃ keywords, doc = .object keywords ∧ fieldsSelfContained keywords ∧
    ∀ entry ∈ keywords, entry.1 ∈ ["type", "required", "properties"] ++ annotations

variable (j)

/-- `validator_for` takes the document, and its validator takes the value. -/
def Accepts (doc v : Value) : Prop :=
  ∃ validate, j.validatorFor doc = .ok validate ∧ validate v = .ok ()

/-- The assertion of the keyword `properties`. -/
def PropertiesAccept (doc : Value) : Value → Prop
  | .object fields => ∀ entry ∈ fields, ∀ sub, propertySchema doc entry.1 = some sub →
      Accepts j sub entry.2
  | _ => True

/-- jsonschema implements Draft 2020-12, for the keywords `type`, `required` and
`properties` at the top of a document. -/
structure Draft202012 : Prop where
  /-- The meta-schema: `type` is a name of a type or a non-empty array of such names. -/
  metaschema : ∀ {doc t : Value} {validate : Value → Except String Unit},
    j.validatorFor doc = .ok validate → doc.get "type" = some t →
    namesOf t ≠ [] ∧ ∀ name ∈ namesOf t, name ∈ typeNames
  /-- Every assertion of a document counts. -/
  sound : ∀ {doc v : Value}, Accepts j doc v → typeAccepts doc v ∧ requiredAccepts doc v
  /-- Nothing counts but the assertions. -/
  complete : ∀ {doc v : Value} {validate : Value → Except String Unit},
    j.validatorFor doc = .ok validate → Plain doc → typeAccepts doc v →
    requiredAccepts doc v → PropertiesAccept j doc v → validate v = .ok ()

variable {j}

/-! ## The keys that a document demands -/

/-- The document is one for objects. -/
def OnlyObjects (doc : Value) : Prop :=
  ∃ t, doc.get "type" = some t ∧ ∀ name ∈ namesOf t, name = "object"

/-- The document is one for objects and requires the keys. -/
def Demands (doc : Value) (keys : List String) : Prop :=
  OnlyObjects doc ∧ ∀ k ∈ keys, k ∈ keysOf doc

/-- The values that the document accepts are objects with the keys. -/
theorem Demands.keys {doc v : Value} {keys : List String} (h : Demands doc keys)
    (hj : Draft202012 j) (haccepts : Accepts j doc v) :
    ∃ fields, v = .object fields ∧ ∀ k ∈ keys, (fields.lookup k).isSome := by
  obtain ⟨⟨t, ht, hnames⟩, hkeys⟩ := h
  obtain ⟨htype, hrequired⟩ := hj.sound haccepts
  simp only [typeAccepts, ht, List.any_eq_true] at htype
  obtain ⟨name, hname, hhas⟩ := htype
  rw [hnames name hname] at hhas
  obtain ⟨fields, rfl⟩ := Value.eq_object hhas
  refine ⟨fields, rfl, fun k hk => ?_⟩
  exact List.all_eq_true.mp hrequired k (hkeys k hk)

/-- Each property that the document requires has a value that its schema accepts. -/
def Fillable (j : Json) (doc : Value) : Prop :=
  ∀ k ∈ keysOf doc, ∃ u, ∀ sub, propertySchema doc k = some sub → Accepts j sub u

theorem lookup_map_pair {α : Type} (f : String → α) (keys : List String) (k : String) :
    (keys.map fun k' => (k', f k')).lookup k = if k ∈ keys then some (f k) else none := by
  induction keys with
  | nil => rfl
  | cons k' keys ih =>
    rw [List.map_cons, List.lookup_cons, ih]
    by_cases hk : k = k'
    · subst hk
      simp
    · have hne : (k == k') = false := beq_false_of_ne hk
      simp [hne, hk]

/-- A document that is not one for objects accepts something else. -/
theorem exists_accepted_nonObject {doc : Value} {validate : Value → Except String Unit}
    (hj : Draft202012 j) (hvalidate : j.validatorFor doc = .ok validate) (hplain : Plain doc)
    (h : ¬ OnlyObjects doc) : ∃ v, validate v = .ok () ∧ ¬ v.hasType "object" := by
  have haccept : ∀ v : Value, ¬ v.hasType "object" → typeAccepts doc v → validate v = .ok () := by
    intro v hv htype
    refine hj.complete hvalidate hplain htype ?_ ?_
    · cases v with
      | object fields => exact absurd (Value.hasType_object fields) hv
      | _ => rfl
    · cases v with
      | object fields => exact absurd (Value.hasType_object fields) hv
      | _ => exact trivial
  cases ht : doc.get "type" with
  | none =>
    refine ⟨.null, haccept .null (by decide) ?_, by decide⟩
    simp only [typeAccepts, ht]
  | some t =>
    obtain ⟨-, hnames⟩ := hj.metaschema hvalidate ht
    obtain ⟨name, hname, hne⟩ : ∃ name ∈ namesOf t, name ≠ "object" := by
      by_contra hall
      push Not at hall
      exact h ⟨t, ht, hall⟩
    have hsample : ¬ (sampleOfType name).hasType "object" := fun hobj =>
      hne (sampleOfType_hasType_object (hnames name hname) hobj)
    refine ⟨sampleOfType name, haccept _ hsample ?_, hsample⟩
    simp only [typeAccepts, ht, List.any_eq_true]
    exact ⟨name, hname, hasType_sampleOfType (hnames name hname)⟩

/-- A document that does not require a key accepts an object without it. -/
theorem exists_accepted_without {doc : Value} {validate : Value → Except String Unit} {k : String}
    (hj : Draft202012 j) (hvalidate : j.validatorFor doc = .ok validate) (hplain : Plain doc)
    (hfill : Fillable j doc) (hobjects : OnlyObjects doc) (hk : k ∉ keysOf doc) :
    ∃ fields, validate (.object fields) = .ok () ∧ fields.lookup k = none := by
  have hfill' : ∀ k', ∃ u, k' ∈ keysOf doc →
      ∀ sub, propertySchema doc k' = some sub → Accepts j sub u := fun k' => by
    by_cases hk' : k' ∈ keysOf doc
    · obtain ⟨u, hu⟩ := hfill k' hk'
      exact ⟨u, fun _ => hu⟩
    · exact ⟨.null, fun h => absurd h hk'⟩
  choose filling hfilling using hfill'
  have hlookup := lookup_map_pair filling (keysOf doc)
  refine ⟨(keysOf doc).map fun k' => (k', filling k'), ?_, by rw [hlookup, if_neg hk]⟩
  refine hj.complete hvalidate hplain ?_ ?_ ?_
  · obtain ⟨t, ht, hnames⟩ := hobjects
    obtain ⟨hne, -⟩ := hj.metaschema hvalidate ht
    obtain ⟨name, hname⟩ := List.exists_mem_of_ne_nil _ hne
    simp only [typeAccepts, ht, List.any_eq_true]
    exact ⟨name, hname, by rw [hnames name hname]; rfl⟩
  · refine List.all_eq_true.mpr fun k' hk' => ?_
    rw [hlookup, if_pos hk']
    rfl
  · intro entry hentry sub hsub
    obtain ⟨k', hk', rfl⟩ := List.mem_map.mp hentry
    exact hfilling k' hk' sub hsub

/-! ## The list of keys -/

/-- Every value that passes a schema that compiles is an object with the keys of the
list. -/
def KeysAgree (j : Json) (s : Schema) : Prop :=
  s.compile j = .ok () → ∀ value, s.validate j value = .ok () →
    ∃ fields, value = .object fields ∧ ∀ k ∈ s.requiredKeys, (fields.lookup k).isSome

/-- Without a limit on the size, what the validator takes passes. -/
theorem validate_of_accepts {s : Schema} {value doc : Value}
    {validate : Value → Except String Unit} (hsize : s.maxSizeBytes = 0)
    (hdoc : j.fromStr s.schemaJson = .ok doc) (hvalidate : j.validatorFor doc = .ok validate)
    (h : validate value = .ok ()) : s.validate j value = .ok () := by
  have hcheck : s.checkSize j value = .ok () := by
    unfold Schema.checkSize
    rw [if_neg (by rw [hsize]; decide)]
  unfold Schema.validate
  rw [hcheck]
  show validateAgainstSchema j value s.schemaJson = .ok ()
  unfold validateAgainstSchema
  simp only [hdoc, hvalidate, h]

/-- In a schema that compiles the keys are among the properties of the document, if it has
any.  If the document demands the keys, every value that passes is an object with them; and
if the document asserts something with `type`, `required` and `properties` only, its required
properties can be had, and there is no limit on the size, then only if it demands them. -/
theorem schemaKeys_agree (hj : Draft202012 j) (s : Schema) (hcompile : s.compile j = .ok ()) :
    ∃ doc, j.fromStr s.schemaJson = .ok doc ∧
      (∀ props, doc.get "properties" = some (.object props) →
        ∀ k ∈ s.requiredKeys, (props.lookup k).isSome) ∧
      (Demands doc s.requiredKeys → KeysAgree j s) ∧
      (Plain doc → Fillable j doc → s.maxSizeBytes = 0 →
        (KeysAgree j s ↔ Demands doc s.requiredKeys)) := by
  obtain ⟨doc, validate, hdoc, hvalidate, hprops⟩ := compileSchema_eq_ok hcompile
  have henough : Demands doc s.requiredKeys → KeysAgree j s := fun hdemands _ value hvalue =>
    hdemands.keys hj ⟨validate, hvalidate, validate_eq_ok hdoc hvalidate hvalue⟩
  refine ⟨doc, hdoc, hprops, henough, fun hplain hfill hsize => ⟨fun hagree => ?_, henough⟩⟩
  have hpasses := fun value => hagree hcompile value ∘ validate_of_accepts hsize hdoc hvalidate
  have hobjects : OnlyObjects doc := by
    by_contra hnot
    obtain ⟨v, hv, hother⟩ := exists_accepted_nonObject hj hvalidate hplain hnot
    obtain ⟨fields, rfl, -⟩ := hpasses v hv
    exact hother (Value.hasType_object fields)
  refine ⟨hobjects, fun k hk => ?_⟩
  by_contra hnot
  obtain ⟨fields, hv, hnone⟩ := exists_accepted_without hj hvalidate hplain hfill hobjects hnot
  obtain ⟨fields', heq, hkeys⟩ := hpasses _ hv
  cases heq
  have hsome := hkeys k hk
  rw [hnone] at hsome
  cases hsome

/-! ## Two schemas -/

/-- Objects that may have an answer. -/
def answerDoc : Value :=
  .object [("properties", .object [("answer", .object [])]), ("type", .string "object")]

def answerText : String :=
  "\x7b\"type\":\"object\",\"properties\":\x7b\"answer\":\x7b\x7d\x7d\x7d"

/-- Objects that have an answer. -/
def requiringDoc : Value :=
  .object [("properties", .object [("answer", .object [])]),
    ("required", .array [.string "answer"]), ("type", .string "object")]

def requiringText : String :=
  "\x7b\"type\":\"object\",\"properties\":\x7b\"answer\":\x7b\x7d\x7d,\"required\":[\"answer\"]\x7d"

/-- serde_json and jsonschema, as far as the two documents below go. -/
def keywordsJson : Json where
  fromStr s :=
    if s = answerText then .ok answerDoc
    else if s = requiringText then .ok requiringDoc
    else .error "expected value at line 1 column 1"
  toString _ := ""
  toVec _ := .ok []
  validatorFor doc :=
    if ∀ t ∈ doc.get "type", namesOf t ≠ [] ∧ ∀ name ∈ namesOf t, name ∈ typeNames then
      .ok fun v =>
        if typeAccepts doc v && requiredAccepts doc v then .ok () else .error "value does not match"
    else .error "the value of type is not valid"
  toCbor _ := .ok []

theorem keywordsJson_validatorFor {doc : Value} {validate : Value → Except String Unit}
    (h : keywordsJson.validatorFor doc = .ok validate) :
    (∀ t ∈ doc.get "type", namesOf t ≠ [] ∧ ∀ name ∈ namesOf t, name ∈ typeNames) ∧
      ∀ v, validate v = .ok () ↔ typeAccepts doc v ∧ requiredAccepts doc v := by
  simp only [keywordsJson] at h
  split at h
  · next hmeta =>
    refine ⟨hmeta, fun v => ?_⟩
    rw [← Except.ok.inj h, ← Bool.and_eq_true]
    beta_reduce
    split
    · next hok => exact iff_of_true rfl hok
    · next hnot => exact iff_of_false nofun hnot
  · cases h

theorem draft202012_keywordsJson : Draft202012 keywordsJson where
  metaschema hvalidate ht := (keywordsJson_validatorFor hvalidate).1 _ (Option.mem_def.mpr ht)
  sound := by
    rintro doc v ⟨validate, hvalidate, hv⟩
    exact ((keywordsJson_validatorFor hvalidate).2 v).mp hv
  complete hvalidate _ htype hrequired _ :=
    ((keywordsJson_validatorFor hvalidate).2 _).mpr ⟨htype, hrequired⟩

/-- A schema that requires its key. -/
def answerSchema : Schema := ⟨requiringText, ["answer"], 0⟩

theorem schemaKeys_agree_answer :
    Draft202012 keywordsJson ∧ answerSchema.compile keywordsJson = .ok () ∧
      KeysAgree keywordsJson answerSchema := by
  have hcompile : answerSchema.compile keywordsJson = .ok () := by decide +kernel
  obtain ⟨doc, hdoc, -, -, hiff⟩ :=
    schemaKeys_agree draft202012_keywordsJson answerSchema hcompile
  have hfrom : keywordsJson.fromStr answerSchema.schemaJson = .ok requiringDoc := by
    simp [keywordsJson, answerSchema, requiringText, answerText]
  obtain rfl := Except.ok.inj (hfrom.symm.trans hdoc)
  have hplain : Plain requiringDoc := ⟨_, rfl, by decide, by decide⟩
  have hfill : Fillable keywordsJson requiringDoc := by
    intro k hk
    obtain rfl : k = "answer" := List.mem_singleton.mp hk
    refine ⟨.null, fun sub hsub => ?_⟩
    obtain rfl : Value.object [] = sub := Option.some.inj hsub
    exact ⟨_, rfl, rfl⟩
  refine ⟨draft202012_keywordsJson, hcompile, (hiff hplain hfill rfl).mpr ⟨⟨_, rfl, ?_⟩, ?_⟩⟩
  · decide
  · decide

/-- Without `required` the schema compiles all the same, and the empty object passes it. -/
theorem property_not_required :
    let s : Schema := ⟨answerText, ["answer"], 0⟩
    Draft202012 keywordsJson ∧ s.compile keywordsJson = .ok () ∧
      s.validate keywordsJson (.object []) = .ok () ∧ ¬ KeysAgree keywordsJson s := by
  intro s
  have hcompile : s.compile keywordsJson = .ok () := by decide +kernel
  have hvalidate : s.validate keywordsJson (.object []) = .ok () := by decide +kernel
  refine ⟨draft202012_keywordsJson, hcompile, hvalidate, fun h => ?_⟩
  obtain ⟨fields, hfields, hkeys⟩ := h hcompile (.object []) hvalidate
  cases hfields
  exact absurd (hkeys "answer" List.mem_cons_self) (by decide)

end Parseh.Agent
