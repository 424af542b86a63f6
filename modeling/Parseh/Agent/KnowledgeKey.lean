import Parseh.Agent.Executor
import Parseh.Agent.Render

/-!
# The reserved key `knowledge` (`parseh-agent-runtime`, `executor.rs`)

The executor puts the resolved corpora into the input under the key `knowledge`, and
renders the prompt from that.  An input can have such a key of its own, or be no object
at all.

* `lookup_renderContext`: a path that begins with `knowledge` leads into the corpora or
  nowhere, and any other path leads where it leads in the input;
* `forall₂_declares`: the corpora are those of the agent, in order, with the hashes that
  it declares;
* `execute_eq_prepare`: nothing else of the run looks at the input;
* `knowledge_not_spoofed` puts these together.
-/

namespace Parseh.Agent

open Parseh.Lib Parseh.Wire

/-! ## Lookups in the context -/

theorem lookup_cons_eq (k' : String) (u : Value) (fields : List (String × Value)) (k : String) :
    ((k', u) :: fields).lookup k = if k = k' then some u else fields.lookup k := by
  by_cases hk : k = k'
  · simp [hk]
  · simp [hk, List.lookup_cons, beq_false_of_ne hk]

theorem lookup_insertField (key : String) (v : Value) (fields : List (String × Value))
    (k : String) :
    (insertField key v fields).lookup k = if k = key then some v else fields.lookup k := by
  induction fields with
  | nil => rw [insertField, lookup_cons_eq]
  | cons f fields ih =>
    obtain ⟨k', u⟩ := f
    rw [insertField, lookup_cons_eq]
    split
    · next hkey =>
      subst hkey
      rw [lookup_cons_eq]
      split <;> rfl
    · next hkey =>
      split
      · rw [lookup_cons_eq, lookup_cons_eq]
      · rw [lookup_cons_eq, ih]
        -- the fields in front have other keys
        by_cases hk : k = k'
        · have hne : k ≠ key := fun h => hkey (h.symm.trans hk)
          rw [if_pos hk, if_neg hne, if_pos hk]
        · rw [if_neg hk, if_neg hk]

/-- What a path that begins with `knowledge` leads into. -/
def knowledgeValue (corpora : List ResolvedKnowledge) : Value :=
  .array (corpora.map ResolvedKnowledge.toValue)

/-- Where a key leads: `knowledge` into the corpora, as far as the input is an object,
and everything else into the input. -/
def findKey (input : Value) (corpora : List ResolvedKnowledge) (key : List Char) : Option Value :=
  match splitPath key, input with
  | "knowledge" :: rest, .object _ => walk (knowledgeValue corpora) rest
  | "knowledge" :: _, _ => none
  | _, _ => lookup input key

theorem walk_cons (v : Value) (seg : String) (segs : List String) :
    walk v (seg :: segs) = (walkSegment v seg).bind fun u => walk u segs := by
  unfold walk
  rw [List.foldlM_cons]
  rfl

theorem walkSegment_object (fields : List (String × Value)) (seg : String) :
    walkSegment (.object fields) seg = fields.lookup seg := by
  simp [walkSegment, Value.get]

/-- Only an object has something under a word. -/
theorem walkSegment_knowledge {input : Value} (h : ∀ fields, input ≠ .object fields) :
    walkSegment input "knowledge" = none := by
  have hparse : parseUsize "knowledge" = none := by decide
  cases input with
  | object fields => exact absurd rfl (h fields)
  | array items => simp [walkSegment, Value.get, hparse]
  | _ => simp [walkSegment, Value.get]

theorem renderContext_of_not_object {input : Value} (h : ∀ fields, input ≠ .object fields)
    (corpora : List ResolvedKnowledge) : renderContext input corpora = input := by
  cases input with
  | object fields => exact absurd rfl (h fields)
  | _ => rfl

theorem splitPath_ne_nil (key : List Char) : splitPath key ≠ [] := by
  simp [splitPath, List.splitOn_ne_nil]

theorem lookup_renderContext (input : Value) (corpora : List ResolvedKnowledge)
    (key : List Char) :
    lookup (renderContext input corpora) key = findKey input corpora key := by
  unfold findKey lookup
  split
  · next rest fields hsegs =>
    rw [hsegs, walk_cons, renderContext, walkSegment_object, lookup_insertField, if_pos rfl]
    rfl
  · next input rest hsegs hobj =>
    rw [hsegs, walk_cons, renderContext_of_not_object hobj, walkSegment_knowledge hobj]
    rfl
  · next input _ _ hother _ =>
    cases hsegs : splitPath key with
    | nil => exact absurd hsegs (splitPath_ne_nil key)
    | cons seg rest =>
      have hseg : seg ≠ "knowledge" := by
        rintro rfl
        exact hother rest hsegs
      by_cases hfields : ∃ fields, input = .object fields
      · obtain ⟨fields, rfl⟩ := hfields
        rw [walk_cons, walk_cons, renderContext, walkSegment_object, walkSegment_object,
          lookup_insertField, if_neg hseg]
      · rw [renderContext_of_not_object fun fields h => hfields ⟨fields, h⟩]

/-! ## The corpora -/

/-- `k` is the text corpus that the reference declares: the cached bytes have the hash
that the reference gives. -/
def Declares {W : Type} (x : Externals W) (cache : Option CacheDir) (r : KnowledgeRef)
    (k : ResolvedKnowledge) : Prop :=
  ∃ root contentHash bytes, cache = some root ∧ r.kind = .textCorpus contentHash k.encoding ∧
    k.contentHashHex = contentHash.asHex ∧ root contentHash.asHex = some (.ok bytes) ∧
    Wire.contentHash x bytes = contentHash ∧ k.text = fromUtf8Lossy bytes

variable {W : Type} {x : Externals W}

theorem Holds.declares {root : CacheDir} {r : KnowledgeRef} {k : ResolvedKnowledge}
    (h : Holds x root r k) : Declares x (some root) r k := by
  obtain ⟨contentHash, bytes, hkind, hhex, hbytes, hhash, htext⟩ := h
  exact ⟨root, contentHash, bytes, rfl, hkind, hhex, hbytes, ContentHash.asHex_injective hhash,
    htext⟩

theorem forall₂_declares {refs : List KnowledgeRef} {cacheRoot home : Option CacheDir}
    {corpora : List ResolvedKnowledge} (h : resolveKnowledge x refs cacheRoot home = .ok corpora) :
    List.Forall₂ (Declares x (cacheRoot.or home)) refs corpora := by
  rcases resolveKnowledge_eq_ok h with ⟨rfl, rfl⟩ | ⟨root, hroot, hholds⟩
  · exact .nil
  · rw [hroot]
    exact hholds.imp fun _ _ hk => hk.declares

/-! ## The run -/

namespace AgentExecutor

variable (x : Externals W) (j : Json) (home : Option CacheDir) (exec : AgentExecutor)
  (agent : AgentDefinition) (spec : JobSpec) (input : Value)

/-- The run up to the rendering context. -/
def prepare : Except ExecError Value := do
  (agent.inputSchema.validate j input).mapError fun e => .inputSchemaViolation e.display
  let resolved ← (resolveKnowledge x agent.knowledgeRefs exec.knowledgeCacheRoot home).mapError
    .knowledgeUnavailable
  return renderContext input resolved

/-- The run from the prompt on. -/
def answer (start finish : Clock) (prompt : String) : Except ExecError ExecOutcome := do
  let seed ← spec.inputs.seed.elim (.error .missingSeed) .ok
  let raw ← (exec.backend.complete prompt seed (maxTokens spec)).mapError .backend
  let executionTimeMs := elapsedMillis start finish
  let outputJson ← (j.fromStr (String.ofList (trim raw.toList))).mapError .outputNotJson
  (agent.outputSchema.validate j outputJson).mapError fun e => .outputSchemaViolation e.display
  let payload ← (j.toCbor outputJson).mapError .payloadEncode
  let jobResult := exec.signResult x spec executionTimeMs payload
  return { outputJson, jobResult, modelId := exec.backend.modelId, executionTimeMs }

theorem execute_eq_prepare (start finish : Clock) :
    exec.execute x j home agent spec input start finish = (do
      let context ← exec.prepare x j home agent input
      let prompt ← (renderPrompt j agent.promptTemplate context).mapError .templateError
      exec.answer x j agent spec start finish prompt) := by
  simp [execute, prepare, answer]

theorem prepare_eq_ok {context : Value} (h : exec.prepare x j home agent input = .ok context) :
    ∃ corpora, resolveKnowledge x agent.knowledgeRefs exec.knowledgeCacheRoot home = .ok corpora ∧
      context = renderContext input corpora := by
  obtain ⟨⟨⟩, -, h⟩ := bind_eq_ok h
  obtain ⟨corpora, hcorpora, h⟩ := bind_eq_ok h
  exact ⟨corpora, of_mapError_eq_ok hcorpora, (Except.ok.inj h).symm⟩

theorem renderPrompt_renderContext (template : String) (corpora : List ResolvedKnowledge) :
    renderPrompt j template (renderContext input corpora) =
      (renderPieces j (findKey input corpora) (pieces template.toList)).map String.ofList := by
  have hlookup : lookup (renderContext input corpora) = findKey input corpora :=
    funext (lookup_renderContext input corpora)
  rw [renderPrompt, renderFrom_eq, hlookup]
  rfl

/-- A run stops before it renders, or the keys of its template lead where `findKey` says:
those that begin with `knowledge` into the corpora that the agent declares, which do not
depend on the input, and the others into the input. -/
theorem knowledge_not_spoofed (start finish : Clock) :
    match exec.prepare x j home agent input with
    | .error e => exec.execute x j home agent spec input start finish = .error e
    | .ok context =>
      ∃ corpora,
        resolveKnowledge x agent.knowledgeRefs exec.knowledgeCacheRoot home = .ok corpora ∧
        List.Forall₂ (Declares x (exec.knowledgeCacheRoot.or home)) agent.knowledgeRefs corpora ∧
        (∀ key, lookup context key = findKey input corpora key) ∧
        exec.execute x j home agent spec input start finish = (do
          let prompt ← ((renderPieces j (findKey input corpora)
            (pieces agent.promptTemplate.toList)).map String.ofList).mapError .templateError
          exec.answer x j agent spec start finish prompt) := by
  rw [execute_eq_prepare]
  cases hprepare : exec.prepare x j home agent input with
  | error e => rfl
  | ok context =>
    obtain ⟨corpora, hcorpora, rfl⟩ := prepare_eq_ok x j home exec agent input hprepare
    refine ⟨corpora, hcorpora, forall₂_declares hcorpora, lookup_renderContext input corpora, ?_⟩
    rw [← renderPrompt_renderContext]
    rfl

end AgentExecutor

end Parseh.Agent
