import Parseh.Agent.Workflow
import Parseh.Lib.Cbor

/-!
# From an input to a prompt

`schema_validation.rs` of `parseh-agent-spec`, and `knowledge.rs` and `render.rs` of
`parseh-agent-runtime`: a schema checks a value, the text corpora of an agent are read
from the local cache, and a template is filled in from a JSON context.

serde_json and jsonschema are `Json`.  Nothing is assumed about them here.

* `resolveKnowledge_eq_ok`: what is resolved are the agent's corpora, in order, and
  the bytes of each have the hash that the agent declares;
* `length_after_findClose`: a placeholder ends before the rest of the template begins.
-/

namespace Parseh.Agent

open Parseh.Lib Parseh.Wire

/-- serde_json, jsonschema and ciborium, as far as the executor calls them; a failed
call gives the text of its error. -/
structure Json where
  /-- `serde_json::from_str::<Value>`. -/
  fromStr : String → Except String Value
  /-- `Value::to_string`: compact JSON. -/
  toString : Value → String
  /-- `serde_json::to_vec`. -/
  toVec : Value → Except String Bytes
  /-- `jsonschema::validator_for`, and `validate` of the validator. -/
  validatorFor : Value → Except String (Value → Except String Unit)
  /-- `ciborium::into_writer`. -/
  toCbor : Value → Except String Bytes

/-! ## Schemas -/

inductive ValidationError
  | compile (text : String)
  | invalidValue (text : String)
  | oversizeValue (actual limit : Nat)
  deriving DecidableEq

/-- `Display` of a `ValidationError`. -/
def ValidationError.display : ValidationError → String
  | .compile text => "schema compile failed: " ++ text
  | .invalidValue text => "value did not validate: " ++ text
  | .oversizeValue actual limit =>
    "value size " ++ toString actual ++ "B exceeds max " ++ toString limit ++ "B"

/-- The fields of `InputSchema` and of `OutputSchema`. -/
structure Schema where
  schemaJson : String
  requiredKeys : List String
  maxSizeBytes : UInt32
  deriving DecidableEq

abbrev InputSchema := Schema
abbrev OutputSchema := Schema

variable (j : Json)

/-- `validate_against_schema`. -/
def validateAgainstSchema (value : Value) (schemaJson : String) : Except ValidationError Unit :=
  match j.fromStr schemaJson with
  | .error e => .error (.compile ("schema not JSON: " ++ e))
  | .ok schemaValue =>
    match j.validatorFor schemaValue with
    | .error e => .error (.compile e)
    | .ok validate =>
      match validate value with
      | .error e => .error (.invalidValue e)
      | .ok () => .ok ()

/-- The size is looked at only if there is a limit. -/
def Schema.checkSize (s : Schema) (value : Value) : Except ValidationError Unit :=
  if s.maxSizeBytes > 0 then
    match j.toVec value with
    | .error e => .error (.invalidValue e)
    | .ok bytes =>
      if bytes.length > s.maxSizeBytes.toNat then
        .error (.oversizeValue bytes.length s.maxSizeBytes.toNat)
      else .ok ()
  else .ok ()

/-- `InputSchema::validate` and `OutputSchema::validate`. -/
def Schema.validate (s : Schema) (value : Value) : Except ValidationError Unit := do
  s.checkSize j value
  validateAgainstSchema j value s.schemaJson

/-! ## Knowledge -/

structure AgentVersion where
  major : UInt32
  minor : UInt32
  patch : UInt32
  deriving DecidableEq

inductive KnowledgeKind
  | textCorpus (contentHash : ContentHash) (encoding : String)
  | embeddingIndex (contentHash : ContentHash) (modelName : String) (dimension : UInt32)
  | structuredDataset (contentHash schemaHash : ContentHash)
  | upstreamAgentOutput (agentId : AgentId) (version : AgentVersion)
  deriving DecidableEq

/-- Where the corpus can be fetched and how large it is are of no use to the executor. -/
structure KnowledgeRef where
  kind : KnowledgeKind
  deriving DecidableEq

inductive KnowledgeError
  | notInLocalCache (hex : String)
  | hashMismatch (expected actual : String)
  | io (text : String)
  | noHomeDir
  | embeddingIndexUnsupported
  | structuredDatasetUnsupported
  | upstreamAgentOutputUnsupported
  deriving DecidableEq

structure ResolvedKnowledge where
  contentHashHex : String
  encoding : String
  text : String
  deriving DecidableEq

/-- The files of a directory: what reading one of them gives, where it exists. -/
abbrev CacheDir := String → Option (Except String Bytes)

/-- The tests that the bytes behind a first byte have to pass. -/
def utf8Followers (first : UInt8) : Option (List (UInt8 → Bool)) :=
  let within (lo hi : UInt8) (b : UInt8) : Bool := lo ≤ b && b ≤ hi
  let cont := within 0x80 0xBF
  if first < 0x80 then some []
  else if within 0xC2 0xDF first then some [cont]
  else if first = 0xE0 then some [within 0xA0 0xBF, cont]
  else if first = 0xED then some [within 0x80 0x9F, cont]
  else if within 0xE1 0xEF first then some [cont, cont]
  else if first = 0xF0 then some [within 0x90 0xBF, cont, cont]
  else if first = 0xF4 then some [within 0x80 0x8F, cont, cont]
  else if within 0xF1 0xF3 first then some [cont, cont, cont]
  else none

/-- The bytes in front that pass their tests. -/
def passing : List (UInt8 → Bool) → Bytes → Bytes
  | test :: tests, b :: rest => if test b then b :: passing tests rest else []
  | _, _ => []

/-- The code point that a first byte and the bytes behind it stand for. -/
def utf8Scalar (first : UInt8) (followers : Bytes) : Nat :=
  let bits := if followers.length = 0 then first.toNat else first.toNat % 2 ^ (6 - followers.length)
  followers.foldl (fun n b => n * 64 + b.toNat % 64) bits

/-- The characters of `String::from_utf8_lossy`: a sequence that breaks off is one
replacement character. -/
def lossyChars : Bytes → List Char
  | [] => []
  | first :: rest =>
    match utf8Followers first with
    | none => '\uFFFD' :: lossyChars rest
    | some tests =>
      let followers := passing tests rest
      let c := if followers.length = tests.length then Char.ofNat (utf8Scalar first followers)
        else '\uFFFD'
      c :: lossyChars (rest.drop followers.length)
termination_by b => b.length
decreasing_by all_goals simp only [List.length_cons, List.length_drop]; omega

/-- `String::from_utf8_lossy`. -/
def fromUtf8Lossy (b : Bytes) : String := String.ofList (lossyChars b)

variable {W : Type} (x : Externals W)

/-- `resolve_one`. -/
def resolveOne (r : KnowledgeRef) (root : CacheDir) : Except KnowledgeError ResolvedKnowledge :=
  match r.kind with
  | .textCorpus contentHash encoding =>
    let hex := contentHash.asHex
    match root hex with
    | none => .error (.notInLocalCache hex)
    | some (.error e) => .error (.io e)
    | some (.ok bytes) =>
      let actual := (Wire.contentHash x bytes).asHex
      if actual ≠ hex then .error (.hashMismatch hex actual)
      else .ok ⟨hex, encoding, fromUtf8Lossy bytes⟩
  | .embeddingIndex .. => .error .embeddingIndexUnsupported
  | .structuredDataset .. => .error .structuredDatasetUnsupported
  | .upstreamAgentOutput .. => .error .upstreamAgentOutputUnsupported

/-- `resolve_knowledge`; `home` is the cache below the home directory, where there is
one. -/
def resolveKnowledge (refs : List KnowledgeRef) (cacheRoot home : Option CacheDir) :
    Except KnowledgeError (List ResolvedKnowledge) :=
  if refs.isEmpty then .ok []
  else
    match cacheRoot.or home with
    | none => .error .noHomeDir
    | some root => refs.mapM fun r => resolveOne x r root

/-- What a resolved corpus stands for. -/
def Holds (root : CacheDir) (r : KnowledgeRef) (k : ResolvedKnowledge) : Prop :=
  ∃ contentHash bytes, r.kind = .textCorpus contentHash k.encoding ∧
    k.contentHashHex = contentHash.asHex ∧ root contentHash.asHex = some (.ok bytes) ∧
    (Wire.contentHash x bytes).asHex = contentHash.asHex ∧ k.text = fromUtf8Lossy bytes

section

variable {x} {r : KnowledgeRef} {refs : List KnowledgeRef} {root : CacheDir}
  {cacheRoot home : Option CacheDir} {k : ResolvedKnowledge} {ks : List ResolvedKnowledge}

theorem holds_of_resolveOne (h : resolveOne x r root = .ok k) : Holds x root r k := by
  unfold resolveOne at h
  split at h
  · next contentHash encoding hkind =>
    dsimp only at h
    split at h
    · cases h
    · cases h
    · next bytes hbytes =>
      split at h
      · cases h
      · next hhash =>
        obtain rfl := Except.ok.inj h
        exact ⟨contentHash, bytes, hkind, rfl, hbytes, not_not.mp hhash, rfl⟩
  · cases h
  · cases h
  · cases h

theorem forall₂_mapM (h : refs.mapM (fun r => resolveOne x r root) = .ok ks) :
    List.Forall₂ (Holds x root) refs ks := by
  induction refs generalizing ks with
  | nil =>
    obtain rfl := Except.ok.inj h
    exact .nil
  | cons r refs ih =>
    rw [List.mapM_cons] at h
    obtain ⟨k, hk, h⟩ := bind_eq_ok h
    obtain ⟨ks', hks, h⟩ := bind_eq_ok h
    obtain rfl := Except.ok.inj h
    exact .cons (holds_of_resolveOne hk) (ih hks)

/-- Without references there is nothing to resolve.  Else there is a cache, and the
corpora come in the order of the references, each the one that its reference declares. -/
theorem resolveKnowledge_eq_ok (h : resolveKnowledge x refs cacheRoot home = .ok ks) :
    (refs = [] ∧ ks = []) ∨
      ∃ root, cacheRoot.or home = some root ∧ List.Forall₂ (Holds x root) refs ks := by
  unfold resolveKnowledge at h
  split at h
  · next hrefs => exact Or.inl ⟨List.isEmpty_iff.mp hrefs, (Except.ok.inj h).symm⟩
  · split at h
    · cases h
    · next root hroot => exact Or.inr ⟨root, hroot, forall₂_mapM h⟩

end

/-! ## Rendering -/

inductive RenderError
  | undefinedKey (key : String)
  | unterminatedPlaceholder
  | emptyPlaceholder
  deriving DecidableEq

/-- `lookup`: a dotted path into a JSON tree. -/
def lookup (ctx : Value) (path : List Char) : Option Value := walk ctx (splitPath path)

/-- `stringify`: strings as they are, everything else as compact JSON. -/
def stringify : Value → String
  | .string s => s
  | other => j.toString other

/-- `rest.find("}}")`: what stands before the first closing braces, and what behind. -/
def findClose : List Char → Option (List Char × List Char)
  | '}' :: '}' :: rest => some ([], rest)
  | c :: rest => (findClose rest).map fun (key, after) => (c :: key, after)
  | [] => none

theorem eq_of_findClose {cs key after : List Char} (h : findClose cs = some (key, after)) :
    cs = key ++ '}' :: '}' :: after := by
  fun_induction findClose cs generalizing key after with
  | case1 rest =>
    obtain ⟨rfl, rfl⟩ := Prod.mk.inj (Option.some.inj h)
    rfl
  | case2 c rest _ ih =>
    obtain ⟨⟨key', after'⟩, hfind, heq⟩ := Option.map_eq_some_iff.mp h
    obtain ⟨rfl, rfl⟩ := Prod.mk.inj heq
    rw [ih hfind, List.cons_append]
  | case3 => cases h

theorem length_after_findClose {cs key after : List Char} (h : findClose cs = some (key, after)) :
    after.length < cs.length := by
  rw [eq_of_findClose h, List.length_append, List.length_cons, List.length_cons]
  omega

/-- The loop of `render_prompt`, from where it stands in the template. -/
def renderFrom (context : Value) : List Char → Except RenderError (List Char)
  | [] => .ok []
  | '{' :: '{' :: '{' :: '{' :: rest => do
    let out ← renderFrom context rest
    return '{' :: '{' :: out
  | '}' :: '}' :: '}' :: '}' :: rest => do
    let out ← renderFrom context rest
    return '}' :: '}' :: out
  | '{' :: '{' :: rest =>
    match _ : findClose rest with
    | none => .error .unterminatedPlaceholder
    | some (body, after) =>
      let key := trim body
      if key.isEmpty then .error .emptyPlaceholder
      else
        match lookup context key with
        | none => .error (.undefinedKey (String.ofList key))
        | some value => do
          let out ← renderFrom context after
          return (stringify j value).toList ++ out
  | c :: rest => do
    let out ← renderFrom context rest
    return c :: out
termination_by cs => cs.length
decreasing_by
  all_goals simp only [List.length_cons]
  · omega
  · omega
  · have hlt := length_after_findClose ‹findClose _ = some _›
    omega
  · omega

/-- `render_prompt`. -/
def renderPrompt (template : String) (context : Value) : Except RenderError String := do
  let out ← renderFrom j context template.toList
  return String.ofList out

end Parseh.Agent
