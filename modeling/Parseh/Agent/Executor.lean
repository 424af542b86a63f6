import Parseh.Agent.Prompt
import Parseh.Wire.Cbor
import Parseh.Wire.Table

/-!
# The agent executor (`parseh-agent-runtime`, `executor.rs`)

`AgentExecutor::execute`: check the input, resolve the knowledge, render the prompt,
ask the backend, check its answer, sign a result.  A run reads the clock before and
after it asks the backend.

* `execute_eq`: up to the signature a run does not depend on the clock, and so its
  output does not (`output_execute`);
* `completes_iff`: there is something to sign exactly if every check is passed;
* `sameResult_outcome_iff`: the measured time can be read off the signed bytes;
* `same_result_iff`: two runs agree exactly if they do not complete or measure the same
  number of milliseconds.
-/

namespace Parseh.Agent

open Parseh.Lib Parseh.Wire

/-! ## Data -/

/-- The fields of an agent that its execution reads. -/
structure AgentDefinition where
  inputSchema : InputSchema
  outputSchema : OutputSchema
  promptTemplate : String
  knowledgeRefs : List KnowledgeRef

inductive BackendError
  | unreachable (text : String)
  | httpStatus (status : UInt16) (body : String)
  | malformedResponse (text : String)
  | noRuntime
  deriving DecidableEq

/-- A backend that honours the seed: its answer is a function of what it is asked. -/
structure LlmBackend where
  complete : (prompt : String) → (seed : UInt64) → (maxTokens : UInt32) →
    Except BackendError String
  modelId : String

inductive ExecError
  | inputSchemaViolation (text : String)
  | knowledgeUnavailable (e : KnowledgeError)
  | templateError (e : RenderError)
  | backend (e : BackendError)
  | outputNotJson (text : String)
  | outputSchemaViolation (text : String)
  | missingSeed
  | payloadEncode (text : String)
  deriving DecidableEq

structure ExecOutcome where
  outputJson : Value
  jobResult : JobResult
  modelId : String
  executionTimeMs : UInt64

structure AgentExecutor where
  backend : LlmBackend
  signingKey : SigningKey
  localPeerId : PeerId
  knowledgeCacheRoot : Option CacheDir

/-! ## The pipeline -/

/-- `BTreeMap::insert`. -/
def insertField (key : String) (v : Value) : List (String × Value) → List (String × Value)
  | [] => [(key, v)]
  | (k, u) :: fields =>
    if key = k then (key, v) :: fields
    else if key < k then (key, v) :: (k, u) :: fields
    else (k, u) :: insertField key v fields

def ResolvedKnowledge.toValue (k : ResolvedKnowledge) : Value :=
  .object [("content_hash", .string k.contentHashHex), ("encoding", .string k.encoding),
    ("text", .string k.text)]

/-- The rendering context: the input, and in an object the knowledge under its key. -/
def renderContext (input : Value) (resolved : List ResolvedKnowledge) : Value :=
  match input with
  | .object fields =>
    .object (insertField "knowledge" (.array (resolved.map ResolvedKnowledge.toValue)) fields)
  | other => other

/-- `start.elapsed().as_millis() as u64`. -/
def elapsedMillis (start finish : Clock) : UInt64 :=
  UInt64.ofNat ((finish.mono - start.mono) / fromMillis 1)

namespace AgentExecutor

variable {W : Type} (x : Externals W) (j : Json) (home : Option CacheDir) (exec : AgentExecutor)
  (agent : AgentDefinition) (spec : JobSpec) (input : Value)

def maxTokens : UInt32 := spec.inputs.maxTokens.getD 2048

/-- The result that `execute` builds and signs. -/
def signResult (executionTimeMs : UInt64) (payload : Bytes) : JobResult :=
  (JobResult.newSignedAt x (spec.contentHash x) exec.localPeerId spec.submittedAt
    { verifierMethod := .deterministic, executionTimeMs,
      modelUsed := some exec.backend.modelId, inferenceTokenCount := none }
    payload exec.signingKey).1

/-- `AgentExecutor::execute`; `home` is the default cache, and the clock says `start`
when the backend is asked and `finish` when it has answered. -/
def execute (start finish : Clock) : Except ExecError ExecOutcome := do
  (agent.inputSchema.validate j input).mapError fun e => .inputSchemaViolation e.display
  let resolved ← (resolveKnowledge x agent.knowledgeRefs exec.knowledgeCacheRoot home).mapError
    .knowledgeUnavailable
  let prompt ← (renderPrompt j agent.promptTemplate (renderContext input resolved)).mapError
    .templateError
  let seed ← spec.inputs.seed.elim (.error .missingSeed) .ok
  let raw ← (exec.backend.complete prompt seed (maxTokens spec)).mapError .backend
  let executionTimeMs := elapsedMillis start finish
  let outputJson ← (j.fromStr (String.ofList (trim raw.toList))).mapError .outputNotJson
  (agent.outputSchema.validate j outputJson).mapError fun e => .outputSchemaViolation e.display
  let payload ← (j.toCbor outputJson).mapError .payloadEncode
  let jobResult := exec.signResult x spec executionTimeMs payload
  return { outputJson, jobResult, modelId := exec.backend.modelId, executionTimeMs }

/-! ## A run without its clock -/

/-- The output of a run and its encoding. -/
def produce : Except ExecError (Value × Bytes) := do
  (agent.inputSchema.validate j input).mapError fun e => .inputSchemaViolation e.display
  let resolved ← (resolveKnowledge x agent.knowledgeRefs exec.knowledgeCacheRoot home).mapError
    .knowledgeUnavailable
  let prompt ← (renderPrompt j agent.promptTemplate (renderContext input resolved)).mapError
    .templateError
  let seed ← spec.inputs.seed.elim (.error .missingSeed) .ok
  let raw ← (exec.backend.complete prompt seed (maxTokens spec)).mapError .backend
  let outputJson ← (j.fromStr (String.ofList (trim raw.toList))).mapError .outputNotJson
  (agent.outputSchema.validate j outputJson).mapError fun e => .outputSchemaViolation e.display
  let payload ← (j.toCbor outputJson).mapError .payloadEncode
  return (outputJson, payload)

/-- What a run that has produced `p` returns. -/
def outcome (p : Value × Bytes) (executionTimeMs : UInt64) : ExecOutcome where
  outputJson := p.1
  jobResult := exec.signResult x spec executionTimeMs p.2
  modelId := exec.backend.modelId
  executionTimeMs := executionTimeMs

theorem execute_eq (start finish : Clock) :
    exec.execute x j home agent spec input start finish =
      (fun p => exec.outcome x spec p (elapsedMillis start finish)) <$>
        exec.produce x j home agent spec input := by
  simp [execute, produce, outcome]

/-- The output of a run and the payload of its result do not depend on the clock. -/
theorem output_execute (start finish : Clock) :
    (fun o => (o.outputJson, o.jobResult.resultPayload)) <$>
        exec.execute x j home agent spec input start finish =
      exec.produce x j home agent spec input := by
  rw [execute_eq]
  cases exec.produce x j home agent spec input with
  | error e => rfl
  | ok p => rfl

/-- The values of a run that passes every check. -/
structure Stages where
  resolved : List ResolvedKnowledge
  prompt : String
  seed : UInt64
  raw : String
  outputJson : Value
  payload : Bytes
  accepts : agent.inputSchema.validate j input = .ok ()
  resolves : resolveKnowledge x agent.knowledgeRefs exec.knowledgeCacheRoot home = .ok resolved
  renders : renderPrompt j agent.promptTemplate (renderContext input resolved) = .ok prompt
  seeded : spec.inputs.seed = some seed
  answers : exec.backend.complete prompt seed (maxTokens spec) = .ok raw
  parses : j.fromStr (String.ofList (trim raw.toList)) = .ok outputJson
  conforms : agent.outputSchema.validate j outputJson = .ok ()
  encodes : j.toCbor outputJson = .ok payload

/-- The run passes every check. -/
def Completes : Prop := Nonempty (Stages x j home exec agent spec input)

theorem of_mapError_eq_ok {ε δ α : Type} {f : ε → δ} {r : Except ε α} {a : α}
    (h : r.mapError f = .ok a) : r = .ok a := by
  cases r with
  | error e => cases h
  | ok b => exact congrArg Except.ok (Except.ok.inj h)

variable {x j home exec agent spec input}

theorem Stages.produce_eq (s : Stages x j home exec agent spec input) :
    exec.produce x j home agent spec input = .ok (s.outputJson, s.payload) := by
  simp only [produce, s.accepts, s.resolves, s.renders, s.seeded, s.answers, s.parses, s.conforms,
    s.encodes, Except.mapError, Option.elim_some, bind, Except.bind]
  rfl

theorem exists_stages {p : Value × Bytes} (h : exec.produce x j home agent spec input = .ok p) :
    ∃ s : Stages x j home exec agent spec input, p = (s.outputJson, s.payload) := by
  obtain ⟨⟨⟩, haccepts, h⟩ := bind_eq_ok h
  obtain ⟨resolved, hresolves, h⟩ := bind_eq_ok h
  obtain ⟨prompt, hrenders, h⟩ := bind_eq_ok h
  obtain ⟨seed, hseeded, h⟩ := bind_eq_ok h
  obtain ⟨raw, hanswers, h⟩ := bind_eq_ok h
  obtain ⟨outputJson, hparses, h⟩ := bind_eq_ok h
  obtain ⟨⟨⟩, hconforms, h⟩ := bind_eq_ok h
  obtain ⟨payload, hencodes, h⟩ := bind_eq_ok h
  have hseed : spec.inputs.seed = some seed := by
    cases hs : spec.inputs.seed with
    | none => rw [hs] at hseeded; cases hseeded
    | some n =>
      rw [hs] at hseeded
      exact congrArg some (Except.ok.inj hseeded)
  exact ⟨⟨resolved, prompt, seed, raw, outputJson, payload, of_mapError_eq_ok haccepts,
    of_mapError_eq_ok hresolves, of_mapError_eq_ok hrenders, hseed, of_mapError_eq_ok hanswers,
    of_mapError_eq_ok hparses, of_mapError_eq_ok hconforms, of_mapError_eq_ok hencodes⟩,
    (Except.ok.inj h).symm⟩

/-- There is something to sign exactly if the run passes every check. -/
theorem completes_iff :
    Completes x j home exec agent spec input ↔
      ∃ p, exec.produce x j home agent spec input = .ok p := by
  constructor
  · rintro ⟨s⟩
    exact ⟨_, s.produce_eq⟩
  · rintro ⟨p, hp⟩
    obtain ⟨s, -⟩ := exists_stages hp
    exact ⟨s⟩

/-! ## Two runs -/

/-- Two runs fail with the same error, or return the same bytes with the same hash. -/
def SameResult (x : Externals W) :
    Except ExecError ExecOutcome → Except ExecError ExecOutcome → Prop
  | .error e, .error e' => e = e'
  | .ok o, .ok o' =>
    x.resultCbor.encode o.jobResult = x.resultCbor.encode o'.jobResult ∧
      o.jobResult.contentHash x = o'.jobResult.contentHash x
  | _, _ => False

variable {c : Wire.Cbor W} {isNan : W → Bool}

/-- A result can be read off its bytes. -/
theorem eq_of_encode_eq (hc : c.Lawful isNan) {r r' : JobResult}
    (h : (x.withCbor c).resultCbor.encode r = (x.withCbor c).resultCbor.encode r') : r = r' := by
  have hread : ∀ r,
      (x.withCbor c).resultCbor.decode ((x.withCbor c).resultCbor.encode r) = some r :=
    fun r => decode_codec hc (de_ser_jobResult hc r) (fits_ser_jobResult r)
  have hr := hread r
  rw [h, hread r'] at hr
  exact (Option.some.inj hr).symm

/-- The measured time is signed with the result. -/
theorem sameResult_outcome_iff (hc : c.Lawful isNan) (p : Value × Bytes) (ms ms' : UInt64) :
    SameResult (x.withCbor c) (.ok (exec.outcome (x.withCbor c) spec p ms))
      (.ok (exec.outcome (x.withCbor c) spec p ms')) ↔ ms = ms' := by
  constructor
  · rintro ⟨hbytes, -⟩
    have hresult := eq_of_encode_eq hc hbytes
    exact congrArg (fun r => r.resultMeta.executionTimeMs) hresult
  · rintro rfl
    exact ⟨rfl, rfl⟩

/-- Two runs of the same job agree exactly if they do not complete or measure the same
number of milliseconds. -/
theorem same_result_iff (hc : c.Lawful isNan) (x : Externals W) (j : Json) (home : Option CacheDir)
    (exec : AgentExecutor) (agent : AgentDefinition) (spec : JobSpec) (input : Value)
    (start finish start' finish' : Clock) :
    SameResult (x.withCbor c)
        (exec.execute (x.withCbor c) j home agent spec input start finish)
        (exec.execute (x.withCbor c) j home agent spec input start' finish') ↔
      (Completes (x.withCbor c) j home exec agent spec input →
        elapsedMillis start finish = elapsedMillis start' finish') := by
  rw [execute_eq, execute_eq, completes_iff]
  cases hp : exec.produce (x.withCbor c) j home agent spec input with
  | error e =>
    refine iff_of_true rfl ?_
    rintro ⟨p, hp'⟩
    cases hp'
  | ok p =>
    refine (sameResult_outcome_iff hc p _ _).trans ⟨fun h _ => h, fun h => h ⟨p, rfl⟩⟩

/-! ## One job -/

/-- serde_json, jsonschema and ciborium on the texts and values of the job below. -/
def sampleJson : Json where
  fromStr s :=
    if s = "\x7b\x7d" then .ok (.object [])
    else if s = "\x7b\"answer\":\"ok\"\x7d" then .ok (.object [("answer", .string "ok")])
    else .error "expected value at line 1 column 1"
  toString
    | .object [(k, .string v)] => "\x7b\"" ++ k ++ "\":\"" ++ v ++ "\"\x7d"
    | _ => "\x7b\x7d"
  toVec
    | .object [(k, .string v)] => .ok (Cbor.utf8 ("\x7b\"" ++ k ++ "\":\"" ++ v ++ "\"\x7d"))
    | _ => .ok (Cbor.utf8 "\x7b\x7d")
  validatorFor _ := .ok fun _ => .ok ()
  toCbor
    | .object [(k, .string v)] =>
      .ok ([0xA1, 0x60 + UInt8.ofNat k.length] ++ Cbor.utf8 k ++
        [0x60 + UInt8.ofNat v.length] ++ Cbor.utf8 v)
    | _ => .ok [0xA0]

def sampleAgent : AgentDefinition where
  inputSchema := ⟨"\x7b\x7d", [], 64⟩
  outputSchema := ⟨"\x7b\x7d", [], 64⟩
  promptTemplate := "Topic: \x7b\x7btopic\x7d\x7d"
  knowledgeRefs := []

def sampleInput : Value := .object [("topic", .string "deterministic")]

/-- An executor whose model answers every prompt in the same way. -/
def sampleExecutor : AgentExecutor where
  backend := ⟨fun _ _ _ => .ok "\x7b\"answer\":\"ok\"\x7d\n", "sample"⟩
  signingKey := ⟨Array32.replicate 7⟩
  localPeerId := ed25519Peer 5
  knowledgeCacheRoot := none

def sampleExternals : Externals UInt64 := (Externals.ofTables [] [] [] []).withCbor standardCbor

/-- The job passes every check. -/
def sampleStages :
    Stages sampleExternals sampleJson none sampleExecutor sampleAgent (smallSpec false)
      sampleInput where
  resolved := []
  prompt := "Topic: deterministic"
  seed := 1
  raw := "\x7b\"answer\":\"ok\"\x7d\n"
  outputJson := .object [("answer", .string "ok")]
  payload := [0xA1, 0x66, 0x61, 0x6E, 0x73, 0x77, 0x65, 0x72, 0x62, 0x6F, 0x6B]
  accepts := by decide +kernel
  resolves := rfl
  renders := by decide +kernel
  seeded := rfl
  answers := rfl
  parses := rfl
  conforms := by decide +kernel
  encodes := by decide +kernel

/-- A run of the job that takes `ns` nanoseconds. -/
def sampleRun (ns : Nat) : Except ExecError ExecOutcome :=
  sampleExecutor.execute sampleExternals sampleJson none sampleAgent (smallSpec false) sampleInput
    ⟨0, 0⟩ ⟨ns, ns⟩

/-- The job takes 3.0 and 3.9 milliseconds. -/
theorem same_result_within_millisecond :
    Completes sampleExternals sampleJson none sampleExecutor sampleAgent (smallSpec false)
        sampleInput ∧
      SameResult sampleExternals (sampleRun 3000000) (sampleRun 3900000) :=
  ⟨⟨sampleStages⟩, (same_result_iff lawful_standardCbor (Externals.ofTables [] [] [] [])
    sampleJson none sampleExecutor sampleAgent (smallSpec false) sampleInput _ _ _ _).mpr
    fun _ => by decide⟩

/-- It takes 3 and 4 milliseconds. -/
theorem slower_run_differs :
    ¬ SameResult sampleExternals (sampleRun 3000000) (sampleRun 4000000) := by
  unfold sampleRun
  rw [execute_eq, execute_eq, sampleStages.produce_eq]
  intro h
  have hms := (sameResult_outcome_iff lawful_standardCbor _ _ _).mp h
  revert hms
  decide

end AgentExecutor

end Parseh.Agent
