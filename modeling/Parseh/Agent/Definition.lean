import Parseh.Agent.Executor
import Parseh.Agent.SchemaKeys
import Parseh.Miner.WireFormat

/-!
# Signed agent definitions (`parseh-agent-spec`, `definition.rs`)

An agent definition carries its own identity: the hash of its encoding with an empty
`id`, made after the signature, which in turn is made over the encoding with an empty
`id` and an empty `signature`.  This is the whole record, with its encoding; the executor
looks at a part of it (`AgentDefinition.executed`).

* `de_ser_agentDefinition` and `fits_ser_agentDefinition`: a definition is read back from
  its encoding;
* `newSignedAt_eq_ok`: what a definition that was made is;
* `unhashed_of_recomputeId`: the identity determines every field but `id`, and so what
  is executed (`executed_of_recomputeId`);
* `identity_binds` puts these together.
-/

namespace Parseh.Agent.Spec

open Parseh.Lib Parseh.Lib.Cbor Parseh.Wire
open Parseh.Miner.Envelope (Binds)

/-! ## Data -/

/-- `SPEC_VERSION`. -/
def specVersion : UInt32 := 1

structure KnowledgeRef where
  kind : KnowledgeKind
  fetchHint : Option String
  sizeBytes : UInt64
  deriving DecidableEq

inductive ForkReason
  | improvement | translation | specialisation | bugFix | customisation
  | other (text : String)
  deriving DecidableEq

structure ParentRef where
  agentId : AgentId
  version : AgentVersion
  forkReason : ForkReason
  deriving DecidableEq

structure AgentMetadata where
  name : String
  description : String
  languages : List String
  tags : List String
  license : String
  deriving DecidableEq

structure ModelRequirements where
  minParameters : Option UInt64
  preferredModelNames : List String
  contextWindowTokens : UInt32
  deterministicModeRequired : Bool
  deriving DecidableEq

structure AgentDefinition where
  specVersion : UInt32
  id : AgentId
  version : AgentVersion
  author : PeerId
  metadata : AgentMetadata
  inputSchema : InputSchema
  outputSchema : OutputSchema
  promptTemplate : String
  knowledgeRefs : List KnowledgeRef
  modelRequirements : ModelRequirements
  parents : List ParentRef
  createdAt : UInt64
  signature : Bytes
  deriving DecidableEq

/-- The part of a definition that the executor looks at. -/
def AgentDefinition.executed (d : AgentDefinition) : Agent.AgentDefinition where
  inputSchema := d.inputSchema
  outputSchema := d.outputSchema
  promptTemplate := d.promptTemplate
  knowledgeRefs := d.knowledgeRefs.map fun r => ⟨r.kind⟩

/-- `AgentId::zero()`. -/
def zeroId : AgentId := ⟨.zero⟩

/-! ## Encoding -/

section

variable {W : Type}

/-- `#[serde(transparent)]`: as the hash inside. -/
def AgentId.serde : Serde W AgentId :=
  .viaByteBuf (fun a => a.hash.asBytes.bytes) fun b => (ContentHash.ofSlice b).map AgentId.mk

def AgentVersion.serde : Serde W AgentVersion where
  ser v := record
    [("major", Serde.u32.ser v.major),
     ("minor", Serde.u32.ser v.minor),
     ("patch", Serde.u32.ser v.patch)]
  de i := do
    let m ← i.fields?
    let major ← field m "major" .u32 none
    let minor ← field m "minor" .u32 none
    let patch ← field m "patch" .u32 none
    some { major, minor, patch }

def KnowledgeKind.serde : Serde W KnowledgeKind where
  ser
    | .textCorpus contentHash encoding =>
      record [("TextCorpus", record
        [("content_hash", ContentHash.serde.ser contentHash),
         ("encoding", Serde.string.ser encoding)])]
    | .embeddingIndex contentHash modelName dimension =>
      record [("EmbeddingIndex", record
        [("content_hash", ContentHash.serde.ser contentHash),
         ("model_name", Serde.string.ser modelName),
         ("dimension", Serde.u32.ser dimension)])]
    | .structuredDataset contentHash schemaHash =>
      record [("StructuredDataset", record
        [("content_hash", ContentHash.serde.ser contentHash),
         ("schema_hash", ContentHash.serde.ser schemaHash)])]
    | .upstreamAgentOutput agentId version =>
      record [("UpstreamAgentOutput", record
        [("agent_id", AgentId.serde.ser agentId),
         ("version", AgentVersion.serde.ser version)])]
  de i := do
    match ← i.variant? with
    | ("TextCorpus", some i) =>
      let m ← i.fields?
      let contentHash ← field m "content_hash" ContentHash.serde none
      let encoding ← field m "encoding" .string none
      some (.textCorpus contentHash encoding)
    | ("EmbeddingIndex", some i) =>
      let m ← i.fields?
      let contentHash ← field m "content_hash" ContentHash.serde none
      let modelName ← field m "model_name" .string none
      let dimension ← field m "dimension" .u32 none
      some (.embeddingIndex contentHash modelName dimension)
    | ("StructuredDataset", some i) =>
      let m ← i.fields?
      let contentHash ← field m "content_hash" ContentHash.serde none
      let schemaHash ← field m "schema_hash" ContentHash.serde none
      some (.structuredDataset contentHash schemaHash)
    | ("UpstreamAgentOutput", some i) =>
      let m ← i.fields?
      let agentId ← field m "agent_id" AgentId.serde none
      let version ← field m "version" AgentVersion.serde none
      some (.upstreamAgentOutput agentId version)
    | _ => none

def KnowledgeRef.serde : Serde W KnowledgeRef where
  ser v := record
    [("kind", KnowledgeKind.serde.ser v.kind),
     ("fetch_hint", (Serde.option .string).ser v.fetchHint),
     ("size_bytes", Serde.u64.ser v.sizeBytes)]
  de i := do
    let m ← i.fields?
    let kind ← field m "kind" KnowledgeKind.serde none
    let fetchHint ← field m "fetch_hint" (.option .string) (some none)
    let sizeBytes ← field m "size_bytes" .u64 none
    some { kind, fetchHint, sizeBytes }

def ForkReason.serde : Serde W ForkReason where
  ser
    | .improvement => .text "Improvement"
    | .translation => .text "Translation"
    | .specialisation => .text "Specialisation"
    | .bugFix => .text "BugFix"
    | .customisation => .text "Customisation"
    | .other text => record [("Other", Serde.string.ser text)]
  de i := do
    match ← i.variant? with
    | ("Improvement", none) => some .improvement
    | ("Translation", none) => some .translation
    | ("Specialisation", none) => some .specialisation
    | ("BugFix", none) => some .bugFix
    | ("Customisation", none) => some .customisation
    | ("Other", some i) =>
      let text ← Serde.string.de i
      some (.other text)
    | _ => none

def ParentRef.serde : Serde W ParentRef where
  ser v := record
    [("agent_id", AgentId.serde.ser v.agentId),
     ("version", AgentVersion.serde.ser v.version),
     ("fork_reason", ForkReason.serde.ser v.forkReason)]
  de i := do
    let m ← i.fields?
    let agentId ← field m "agent_id" AgentId.serde none
    let version ← field m "version" AgentVersion.serde none
    let forkReason ← field m "fork_reason" ForkReason.serde none
    some { agentId, version, forkReason }

def AgentMetadata.serde : Serde W AgentMetadata where
  ser v := record
    [("name", Serde.string.ser v.name),
     ("description", Serde.string.ser v.description),
     ("languages", (Serde.vec .string).ser v.languages),
     ("tags", (Serde.vec .string).ser v.tags),
     ("license", Serde.string.ser v.license)]
  de i := do
    let m ← i.fields?
    let name ← field m "name" .string none
    let description ← field m "description" .string none
    let languages ← field m "languages" (.vec .string) none
    let tags ← field m "tags" (.vec .string) none
    let license ← field m "license" .string none
    some { name, description, languages, tags, license }

/-- `InputSchema` and `OutputSchema`. -/
def Schema.serde : Serde W Schema where
  ser v := record
    [("schema_json", Serde.string.ser v.schemaJson),
     ("required_keys", (Serde.vec .string).ser v.requiredKeys),
     ("max_size_bytes", Serde.u32.ser v.maxSizeBytes)]
  de i := do
    let m ← i.fields?
    let schemaJson ← field m "schema_json" .string none
    let requiredKeys ← field m "required_keys" (.vec .string) none
    let maxSizeBytes ← field m "max_size_bytes" .u32 none
    some { schemaJson, requiredKeys, maxSizeBytes }

def ModelRequirements.serde : Serde W ModelRequirements where
  ser v := record
    [("min_parameters", (Serde.option .u64).ser v.minParameters),
     ("preferred_model_names", (Serde.vec .string).ser v.preferredModelNames),
     ("context_window_tokens", Serde.u32.ser v.contextWindowTokens),
     ("deterministic_mode_required", Serde.bool.ser v.deterministicModeRequired)]
  de i := do
    let m ← i.fields?
    let minParameters ← field m "min_parameters" (.option .u64) (some none)
    let preferredModelNames ← field m "preferred_model_names" (.vec .string) none
    let contextWindowTokens ← field m "context_window_tokens" .u32 none
    let deterministicModeRequired ← field m "deterministic_mode_required" .bool none
    some { minParameters, preferredModelNames, contextWindowTokens, deterministicModeRequired }

/-- The fields of a definition, in the order of the source. -/
def AgentDefinition.fields (c : Wire.Cbor W) (v : AgentDefinition) : List (String × Item W) :=
  [("spec_version", Serde.u32.ser v.specVersion),
   ("id", AgentId.serde.ser v.id),
   ("version", AgentVersion.serde.ser v.version),
   ("author", (PeerId.serde c).ser v.author),
   ("metadata", AgentMetadata.serde.ser v.metadata),
   ("input_schema", Schema.serde.ser v.inputSchema),
   ("output_schema", Schema.serde.ser v.outputSchema),
   ("prompt_template", Serde.string.ser v.promptTemplate),
   ("knowledge_refs", (Serde.vec KnowledgeRef.serde).ser v.knowledgeRefs),
   ("model_requirements", ModelRequirements.serde.ser v.modelRequirements),
   ("parents", (Serde.vec ParentRef.serde).ser v.parents),
   ("created_at", Serde.u64.ser v.createdAt),
   ("signature", Serde.byteBuf.ser v.signature)]

/-- A definition from its fields, in any order. -/
def AgentDefinition.ofFields (c : Wire.Cbor W) (m : List (String × Item W)) :
    Option AgentDefinition := do
  let specVersion ← field m "spec_version" .u32 none
  let id ← field m "id" AgentId.serde none
  let version ← field m "version" AgentVersion.serde none
  let author ← field m "author" (PeerId.serde c) none
  let metadata ← field m "metadata" AgentMetadata.serde none
  let inputSchema ← field m "input_schema" Schema.serde none
  let outputSchema ← field m "output_schema" Schema.serde none
  let promptTemplate ← field m "prompt_template" .string none
  let knowledgeRefs ← field m "knowledge_refs" (.vec KnowledgeRef.serde) none
  let modelRequirements ← field m "model_requirements" ModelRequirements.serde none
  let parents ← field m "parents" (.vec ParentRef.serde) none
  let createdAt ← field m "created_at" .u64 none
  let signature ← field m "signature" .byteBuf none
  some { specVersion, id, version, author, metadata, inputSchema, outputSchema, promptTemplate,
         knowledgeRefs, modelRequirements, parents, createdAt, signature }

def AgentDefinition.serde (c : Wire.Cbor W) : Serde W AgentDefinition where
  ser v := record (v.fields c)
  de i := do
    let m ← i.fields?
    AgentDefinition.ofFields c m

/-- `to_cbor_bytes` and `from_cbor_bytes` of a definition. -/
def agentCbor (c : Wire.Cbor W) : Codec AgentDefinition := c.codec (AgentDefinition.serde c)

end

/-! ## What is written is read back -/

section

variable {W : Type}

@[simp] theorem de_ser_agentId (a : AgentId) :
    (AgentId.serde : Serde W _).de (AgentId.serde.ser a) = some a := by
  refine Serde.de_ser_viaByteBuf ?_
  rw [ContentHash.ofSlice_bytes]
  rfl

@[simp] theorem de_ser_agentVersion (v : AgentVersion) :
    (AgentVersion.serde : Serde W _).de (AgentVersion.serde.ser v) = some v := by
  simp [AgentVersion.serde]

@[simp] theorem de_ser_knowledgeKind (k : KnowledgeKind) :
    (KnowledgeKind.serde : Serde W _).de (KnowledgeKind.serde.ser k) = some k := by
  cases k <;> simp [KnowledgeKind.serde]

@[simp] theorem de_ser_knowledgeRefs (rs : List KnowledgeRef) :
    (Serde.vec KnowledgeRef.serde : Serde W _).de ((Serde.vec KnowledgeRef.serde).ser rs) =
      some rs :=
  Serde.de_ser_vec fun r _ => by simp [KnowledgeRef.serde]

@[simp] theorem de_ser_forkReason (r : ForkReason) :
    (ForkReason.serde : Serde W _).de (ForkReason.serde.ser r) = some r := by
  cases r <;> simp [ForkReason.serde]

@[simp] theorem de_ser_parentRefs (ps : List ParentRef) :
    (Serde.vec ParentRef.serde : Serde W _).de ((Serde.vec ParentRef.serde).ser ps) = some ps :=
  Serde.de_ser_vec fun p _ => by simp [ParentRef.serde]

@[simp] theorem de_ser_agentMetadata (v : AgentMetadata) :
    (AgentMetadata.serde : Serde W _).de (AgentMetadata.serde.ser v) = some v := by
  simp [AgentMetadata.serde]

@[simp] theorem de_ser_schema (v : Schema) :
    (Schema.serde : Serde W _).de (Schema.serde.ser v) = some v := by
  simp [Schema.serde]

@[simp] theorem de_ser_modelRequirements (v : ModelRequirements) :
    (ModelRequirements.serde : Serde W _).de (ModelRequirements.serde.ser v) = some v := by
  simp [ModelRequirements.serde]

theorem de_ser_agentDefinition {c : Wire.Cbor W} {isNan : W → Bool} (hc : c.Lawful isNan)
    (d : AgentDefinition) :
    (AgentDefinition.serde c).de ((AgentDefinition.serde c).ser d) = some d := by
  -- a field is found by its place: there are too many to compare each name with each
  have hnames : ((d.fields c).map Prod.fst).Nodup := by
    show ["spec_version", "id", "version", "author", "metadata", "input_schema", "output_schema",
      "prompt_template", "knowledge_refs", "model_requirements", "parents", "created_at",
      "signature"].Nodup
    decide
  have hfield : ∀ {α : Type} (n : Nat) {name : String} {s : Serde W α} {default : Option α} {v : α},
      (d.fields c)[n]? = some (name, s.ser v) → s.de (s.ser v) = some v →
      field (d.fields c) name s default = some v :=
    fun n _ _ _ _ h hback => (field_eq_de hnames n h _ _).trans hback
  show (record (d.fields c)).fields?.bind (AgentDefinition.ofFields c) = some d
  rw [fields?_record, Option.bind_some, AgentDefinition.ofFields,
    hfield 0 rfl (Serde.de_ser_u32 _), hfield 1 rfl (de_ser_agentId _),
    hfield 2 rfl (de_ser_agentVersion _), hfield 3 rfl (de_ser_peerId hc _),
    hfield 4 rfl (de_ser_agentMetadata _), hfield 5 rfl (de_ser_schema _),
    hfield 6 rfl (de_ser_schema _), hfield 7 rfl (Serde.de_ser_string _),
    hfield 8 rfl (de_ser_knowledgeRefs _), hfield 9 rfl (de_ser_modelRequirements _),
    hfield 10 rfl (de_ser_parentRefs _), hfield 11 rfl (Serde.de_ser_u64 _),
    hfield 12 rfl (Serde.de_ser_byteBuf _)]
  rfl

variable {ok : W → Prop} {depth : Nat}

@[simp] theorem fits_ser_agentId (a : AgentId) :
    ((AgentId.serde : Serde W _).ser a).Fits ok depth := by
  simp [AgentId.serde]

@[simp] theorem fits_ser_agentVersion (v : AgentVersion) :
    ((AgentVersion.serde : Serde W _).ser v).Fits ok (depth + 1) := by
  simp [AgentVersion.serde]

@[simp] theorem fits_ser_knowledgeKind (k : KnowledgeKind) :
    ((KnowledgeKind.serde : Serde W _).ser k).Fits ok (depth + 3) := by
  cases k <;> simp [KnowledgeKind.serde]

@[simp] theorem fits_ser_forkReason (r : ForkReason) :
    ((ForkReason.serde : Serde W _).ser r).Fits ok (depth + 1) := by
  cases r <;> simp [ForkReason.serde]

@[simp] theorem fits_ser_agentMetadata (v : AgentMetadata) :
    ((AgentMetadata.serde : Serde W _).ser v).Fits ok (depth + 2) := by
  simp [AgentMetadata.serde]

@[simp] theorem fits_ser_schema (v : Schema) :
    ((Schema.serde : Serde W _).ser v).Fits ok (depth + 2) := by
  simp [Schema.serde]

@[simp] theorem fits_ser_modelRequirements (v : ModelRequirements) :
    ((ModelRequirements.serde : Serde W _).ser v).Fits ok (depth + 2) := by
  simp [ModelRequirements.serde]

@[simp] theorem fits_ser_knowledgeRef (r : KnowledgeRef) :
    ((KnowledgeRef.serde : Serde W _).ser r).Fits ok (depth + 4) := by
  simp [KnowledgeRef.serde]

@[simp] theorem fits_ser_parentRef (p : ParentRef) :
    ((ParentRef.serde : Serde W _).ser p).Fits ok (depth + 2) := by
  simp [ParentRef.serde]

theorem fits_ser_agentDefinition (c : Wire.Cbor W) (d : AgentDefinition) :
    ((AgentDefinition.serde c).ser d).Fits ok (depth + 6) := by
  simp only [AgentDefinition.serde, fits_record, AgentDefinition.fields, List.forall_mem_cons]
  refine ⟨?_, ?_, ?_, ?_, ?_, ?_, ?_, ?_, ?_, ?_, ?_, ?_, ?_, ?_⟩
  all_goals simp

end

/-! ## Making and checking -/

inductive DefinitionError
  | emptyPromptTemplate
  | emptyName
  | invalidLicense (license : String)
  | schema (e : SchemaError)
  deriving DecidableEq

/-- `[A-Za-z0-9.+\-]`. -/
def isSpdxChar (c : Char) : Bool :=
  ('A' ≤ c && c ≤ 'Z') || ('a' ≤ c && c ≤ 'z') || ('0' ≤ c && c ≤ '9') || c == '.' || c == '+' ||
    c == '-'

/-- An identifier, and behind it at most one clause ` WITH <identifier>`; a blank is no
character of an identifier, so that there is one way to match. -/
def isPlausibleSpdxIdentifier (s : String) : Bool :=
  if (trim s.toList).isEmpty then false
  else
    let rest := s.toList.dropWhile isSpdxChar
    !(s.toList.takeWhile isSpdxChar).isEmpty &&
      (rest.isEmpty ||
        (" WITH ".toList.isPrefixOf rest && !(rest.drop 6).isEmpty &&
          (rest.drop 6).all isSpdxChar))

namespace AgentDefinition

variable {W : Type} (x : Externals W) (c : Wire.Cbor W)

/-- The form that is hashed: the `id` is cleared. -/
def unhashed (d : AgentDefinition) : AgentDefinition := { d with id := zeroId }

/-- The form that is signed: the `signature` is cleared, too. -/
def bare (d : AgentDefinition) : AgentDefinition := { d with id := zeroId, signature := [] }

def recomputeId (d : AgentDefinition) : AgentId :=
  ⟨Wire.contentHash x ((agentCbor c).encode d.unhashed)⟩

def verifySignature (d : AgentDefinition) (authorPubkey : VerifyingKey) : Except SignError Unit :=
  verifyBytes x authorPubkey ((agentCbor c).encode d.bare) d.signature

/-- `new_signed_at`. -/
def newSignedAt (j : Json) (version : AgentVersion) (author : PeerId) (metadata : AgentMetadata)
    (inputSchema : InputSchema) (outputSchema : OutputSchema) (promptTemplate : String)
    (knowledgeRefs : List KnowledgeRef) (modelRequirements : ModelRequirements)
    (parents : List ParentRef) (createdAt : UInt64) (signingKey : SigningKey) :
    Except DefinitionError (AgentDefinition × AgentId) :=
  if (trim promptTemplate.toList).isEmpty then .error .emptyPromptTemplate
  else if (trim metadata.name.toList).isEmpty then .error .emptyName
  else if ¬ isPlausibleSpdxIdentifier metadata.license then
    .error (.invalidLicense metadata.license)
  else do
    (inputSchema.compile j).mapError .schema
    (outputSchema.compile j).mapError .schema
    let unsigned : AgentDefinition :=
      { specVersion := Spec.specVersion, id := zeroId, version, author, metadata, inputSchema,
        outputSchema, promptTemplate, knowledgeRefs, modelRequirements, parents, createdAt,
        signature := [] }
    let signed :=
      { unsigned with signature := x.sign signingKey ((agentCbor c).encode unsigned) }
    let id : AgentId := ⟨Wire.contentHash x ((agentCbor c).encode signed)⟩
    return ({ signed with id }, id)

/-! ## What the identity binds -/

/-- The signature of the definition was made with the key. -/
def SignedBy (secret : SigningKey) (d : AgentDefinition) : Prop :=
  d.signature = x.sign secret ((agentCbor c).encode d.bare)

/-- The definition carries its identity, and its signature verifies. -/
structure Identified (key : VerifyingKey) (d : AgentDefinition) (id : AgentId) : Prop where
  recomputed : d.recomputeId x c = id
  stored : d.id = id
  verifies : d.verifySignature x c key = .ok ()

/-- What is signed with the secret verifies under the key. -/
def SignsFor (secret : SigningKey) (key : VerifyingKey) : Prop :=
  ∀ bytes, verifyBytes x key bytes (x.sign secret bytes) = .ok ()

/-- SHA-256 does not map the two to one hash, unless they are the same. -/
def CollisionFree (b b' : Bytes) : Prop := x.sha256 b = x.sha256 b' → b = b'

section

variable {x c} {j : Json} {version : AgentVersion} {author : PeerId} {metadata : AgentMetadata}
  {inputSchema : InputSchema} {outputSchema : OutputSchema} {promptTemplate : String}
  {knowledgeRefs : List KnowledgeRef} {modelRequirements : ModelRequirements}
  {parents : List ParentRef} {createdAt : UInt64} {secret : SigningKey} {key : VerifyingKey}
  {d d' : AgentDefinition} {id : AgentId}

theorem newSignedAt_eq_ok
    (h : newSignedAt x c j version author metadata inputSchema outputSchema promptTemplate
      knowledgeRefs modelRequirements parents createdAt secret = .ok (d, id)) :
    SignedBy x c secret d ∧ d.recomputeId x c = id ∧ d.id = id := by
  unfold newSignedAt at h
  split at h
  · cases h
  · split at h
    · cases h
    · split at h
      · cases h
      · obtain ⟨⟨⟩, -, h⟩ := bind_eq_ok h
        obtain ⟨⟨⟩, -, h⟩ := bind_eq_ok h
        obtain ⟨rfl, rfl⟩ := Prod.mk.inj (Except.ok.inj h)
        exact ⟨rfl, rfl, rfl⟩

variable {isNan : W → Bool}

/-- A definition is read back from its encoding. -/
theorem decode_agentCbor (hc : c.Lawful isNan) (d : AgentDefinition) :
    (agentCbor c).decode ((agentCbor c).encode d) = some d := by
  have hle : 6 ≤ recursionLimit := by decide
  have hfits : ((AgentDefinition.serde c).ser d).Fits (fun w => isNan w = false) recursionLimit :=
    (fits_ser_agentDefinition c d).mono hle
  exact decode_codec hc (de_ser_agentDefinition hc d) hfits

theorem encode_agentCbor_injective (hc : c.Lawful isNan)
    (h : (agentCbor c).encode d = (agentCbor c).encode d') : d = d' := by
  have hread := decode_agentCbor hc d
  rw [h, decode_agentCbor hc d'] at hread
  exact (Option.some.inj hread).symm

/-- The identity determines every field but `id`. -/
theorem unhashed_of_recomputeId (hc : c.Lawful isNan)
    (hcoll : CollisionFree x ((agentCbor c).encode d.unhashed) ((agentCbor c).encode d'.unhashed))
    (h : d.recomputeId x c = d'.recomputeId x c) : d.unhashed = d'.unhashed := by
  have hhash : x.sha256 ((agentCbor c).encode d.unhashed) =
      x.sha256 ((agentCbor c).encode d'.unhashed) :=
    congrArg (fun id : AgentId => id.hash.asBytes) h
  exact encode_agentCbor_injective hc (hcoll hhash)

/-- Two definitions with one identity are executed in the same way. -/
theorem executed_of_recomputeId (hc : c.Lawful isNan)
    (hcoll : CollisionFree x ((agentCbor c).encode d.unhashed) ((agentCbor c).encode d'.unhashed))
    (h : d.recomputeId x c = d'.recomputeId x c) : d.executed = d'.executed := by
  show d.unhashed.executed = d'.unhashed.executed
  rw [unhashed_of_recomputeId hc hcoll h]

/-- A signature does not pass on other fields than those that were signed. -/
theorem bare_of_verifies (hc : c.Lawful isNan) (hsigned : SignedBy x c secret d)
    (hsig : d'.signature = d.signature)
    (hbinds : Binds x secret key ((agentCbor c).encode d'.bare) ((agentCbor c).encode d.bare))
    (h : d'.verifySignature x c key = .ok ()) : d'.bare = d.bare := by
  rw [verifySignature, hsig, hsigned] at h
  have hverify := ((Miner.SignedMessage.verifyBytes_eq_ok_iff x key _ _).mp h).2
  exact encode_agentCbor_injective hc (hbinds hverify)

end

/-- The identity of a definition binds the whole of it. -/
theorem identity_binds {c : Wire.Cbor W} {isNan : W → Bool} (hc : c.Lawful isNan)
    (x : Externals W) (j : Json) :
    (∀ version author metadata inputSchema outputSchema promptTemplate knowledgeRefs
        modelRequirements parents createdAt secret key d id,
      newSignedAt x c j version author metadata inputSchema outputSchema promptTemplate
        knowledgeRefs modelRequirements parents createdAt secret = .ok (d, id) →
      SignsFor x secret key →
      SignedBy x c secret d ∧ Identified x c key d id ∧
        ∃ d', (agentCbor c).decode ((agentCbor c).encode d) = some d' ∧
          Identified x c key d' id) ∧
    (∀ d d' : AgentDefinition,
      CollisionFree x ((agentCbor c).encode d.unhashed) ((agentCbor c).encode d'.unhashed) →
      d.recomputeId x c = d'.recomputeId x c → d.unhashed = d'.unhashed) ∧
    ∀ (secret : SigningKey) (key : VerifyingKey) (d d' : AgentDefinition),
      SignedBy x c secret d → d'.signature = d.signature → d'.bare ≠ d.bare →
      Binds x secret key ((agentCbor c).encode d'.bare) ((agentCbor c).encode d.bare) →
      d'.verifySignature x c key ≠ .ok () := by
  refine ⟨?_, fun d d' hcoll h => unhashed_of_recomputeId hc hcoll h, ?_⟩
  · intro _ _ _ _ _ _ _ _ _ _ secret key d id h hsigns
    obtain ⟨hsigned, hid, hstored⟩ := newSignedAt_eq_ok h
    have hverifies : d.verifySignature x c key = .ok () := by
      rw [verifySignature, hsigned]
      exact hsigns _
    have hident : Identified x c key d id := ⟨hid, hstored, hverifies⟩
    exact ⟨hsigned, hident, d, decode_agentCbor hc d, hident⟩
  · intro secret key d d' hsigned hsig hne hbinds hverifies
    exact hne (bare_of_verifies hc hsigned hsig hbinds hverifies)

/-! ## One definition -/

/-- The hash, like the signatures, is the sum of the bytes. -/
def sumExternals : Externals UInt64 :=
  { checksumExternals with sha256 := fun bytes => Array32.replicate (bytes.foldl (· + ·) 0) }

theorem signsFor_sum (secret : SigningKey) :
    SignsFor sumExternals secret secret.verifyingKey := by
  intro bytes
  refine (Miner.SignedMessage.verifyBytes_eq_ok_iff _ _ _ _).mpr ⟨List.length_replicate, ?_⟩
  exact if_pos rfl

def sampleBare : AgentDefinition where
  specVersion := Spec.specVersion
  id := zeroId
  version := ⟨1, 0, 0⟩
  author := ed25519Peer 5
  metadata := ⟨"summary", "", ["fa"], [], "Apache-2.0"⟩
  inputSchema := ⟨"\x7b\x7d", [], 64⟩
  outputSchema := ⟨"\x7b\x7d", [], 64⟩
  promptTemplate := "Summarise."
  knowledgeRefs := [⟨.textCorpus (hashOf 1) "utf-8", none, 12⟩]
  modelRequirements := ⟨none, [], 4096, true⟩
  parents := [⟨⟨hashOf 2⟩, ⟨1, 0, 0⟩, .translation⟩]
  createdAt := 100
  signature := []

/-- What `new_signed_at` makes of it. -/
def sampleNew : Except DefinitionError (AgentDefinition × AgentId) :=
  newSignedAt sumExternals standardCbor AgentExecutor.sampleJson sampleBare.version
    sampleBare.author sampleBare.metadata sampleBare.inputSchema sampleBare.outputSchema
    sampleBare.promptTemplate sampleBare.knowledgeRefs sampleBare.modelRequirements
    sampleBare.parents sampleBare.createdAt ⟨Array32.replicate 7⟩

def sampleSigned : AgentDefinition :=
  { sampleBare with
    signature := checksum (Array32.replicate 7) ((agentCbor standardCbor).encode sampleBare) }

def sampleDefinition : AgentDefinition :=
  { sampleSigned with
    id := ⟨Wire.contentHash sumExternals ((agentCbor standardCbor).encode sampleSigned)⟩ }

/-- The definition with another prompt, and the same `id` and `signature`. -/
def otherPrompt : AgentDefinition := { sampleDefinition with promptTemplate := "Translate." }

/-- The definition is made and identified; with another prompt it has another identity, and
its signature does not verify. -/
theorem identity_binds_sample :
    Identified sumExternals standardCbor ⟨Array32.replicate 7⟩ sampleDefinition
        sampleDefinition.id ∧
      otherPrompt.recomputeId sumExternals standardCbor ≠
        sampleDefinition.recomputeId sumExternals standardCbor ∧
      otherPrompt.verifySignature sumExternals standardCbor ⟨Array32.replicate 7⟩ ≠
        .ok () := by
  obtain ⟨hnew, hhash, hsign⟩ :=
    identity_binds lawful_standardCbor sumExternals AgentExecutor.sampleJson
  have hmade : sampleNew = .ok (sampleDefinition, sampleDefinition.id) := by decide +kernel
  obtain ⟨hsigned, hident, -⟩ := hnew _ _ _ _ _ _ _ _ _ _ _ ⟨Array32.replicate 7⟩ _ _ hmade
    (signsFor_sum ⟨Array32.replicate 7⟩)
  have hne : otherPrompt.bare ≠ sampleDefinition.bare := by decide +kernel
  have hbinds : Binds sumExternals ⟨Array32.replicate 7⟩ ⟨Array32.replicate 7⟩
      ((agentCbor standardCbor).encode otherPrompt.bare)
      ((agentCbor standardCbor).encode sampleDefinition.bare) := by
    intro h
    revert h
    decide +kernel
  have hother : otherPrompt.unhashed ≠ sampleDefinition.unhashed := by decide +kernel
  have hcoll : CollisionFree sumExternals
      ((agentCbor standardCbor).encode otherPrompt.unhashed)
      ((agentCbor standardCbor).encode sampleDefinition.unhashed) := by
    intro h
    revert h
    decide +kernel
  exact ⟨hident, fun h => hother (hhash _ _ hcoll h), hsign _ _ _ _ hsigned rfl hne hbinds⟩

end AgentDefinition

end Parseh.Agent.Spec
