import Mathlib.Logic.Relation
import Parseh.Agent.Mapping
import Parseh.Lib.Kahn
import Parseh.Wire.Table

/-!
# Workflows (`parseh-agent-runtime`, `workflow.rs`)

A workflow is a list of agent steps with declared dependencies.  `run` sorts the
steps topologically and executes them one after the other, each on the input its
mapping resolves to.  The executor is any function of the agent, the spec and the
input.

* `new_steps`: every `Workflow` is one that `new` accepts;
* `perm_stepsAt`: an order that `topo_order` returns runs every step once;
* `produced_before`: when a run gets to a step, it has the outputs of everything
  the step transitively depends on, and they are what these steps produced;
* `input_determined`: the outputs of the dependencies determine the input of a
  step that reads no other step's output.
-/

namespace Parseh.Agent

open Parseh.Lib Parseh.Wire

structure AgentId where
  hash : ContentHash
  deriving DecidableEq

def AgentId.asHex (a : AgentId) : String := a.hash.asHex

structure WorkflowStep where
  stepId : String
  agentId : AgentId
  inputMapping : Value
  dependsOn : List String

/-- The steps, with what `new` has checked. -/
structure Workflow where
  steps : List WorkflowStep
  nonempty : steps ≠ []
  nodup : (steps.map WorkflowStep.stepId).Nodup
  known : ∀ s ∈ steps, ∀ d ∈ s.dependsOn, d ∈ steps.map WorkflowStep.stepId

structure WorkflowResult where
  stepOutputs : StepOutputs
  finalStepId : String
  finalOutput : Value

variable {A E : Type}

/-! ## `new` -/

/-- The first id that has been seen before. -/
def firstDuplicate (seen : List String) : List String → Option String
  | [] => none
  | id :: ids => if id ∈ seen then some id else firstDuplicate (id :: seen) ids

/-- The first dependency that names no step, with the step that has it. -/
def firstUnknown (steps : List WorkflowStep) : Option (String × String) :=
  steps.findSome? fun s =>
    (s.dependsOn.find? fun d => d ∉ steps.map WorkflowStep.stepId).map fun d => (s.stepId, d)

theorem firstDuplicate_eq_none_iff (seen ids : List String) :
    firstDuplicate seen ids = none ↔ ids.Nodup ∧ ∀ id ∈ ids, id ∉ seen := by
  induction ids generalizing seen with
  | nil => simp [firstDuplicate]
  | cons id ids ih =>
    unfold firstDuplicate
    by_cases h : id ∈ seen
    · simp [h]
    · rw [if_neg h, ih]
      simp only [List.nodup_cons, List.mem_cons, not_or, forall_eq_or_imp]
      constructor
      · rintro ⟨hnd, hall⟩
        exact ⟨⟨fun hid => (hall id hid).1 rfl, hnd⟩, h, fun a ha => (hall a ha).2⟩
      · rintro ⟨⟨hid, hnd⟩, -, hall⟩
        exact ⟨hnd, fun a ha => ⟨fun heq => hid (heq ▸ ha), hall a ha⟩⟩

theorem firstUnknown_eq_none_iff (steps : List WorkflowStep) :
    firstUnknown steps = none ↔
      ∀ s ∈ steps, ∀ d ∈ s.dependsOn, d ∈ steps.map WorkflowStep.stepId := by
  simp [firstUnknown]

namespace Workflow

/-- `Workflow::new`. -/
def new (steps : List WorkflowStep) : Except (WorkflowError E) Workflow :=
  if hne : steps = [] then .error .empty
  else
    match hd : firstDuplicate [] (steps.map WorkflowStep.stepId) with
    | some id => .error (.duplicateStepId id)
    | none =>
      match hu : firstUnknown steps with
      | some (step, dep) => .error (.unknownDependency step dep)
      | none => .ok ⟨steps, hne, ((firstDuplicate_eq_none_iff _ _).mp hd).1,
          (firstUnknown_eq_none_iff steps).mp hu⟩

/-- Every workflow is one that `new` accepts. -/
theorem new_steps (w : Workflow) : (new w.steps : Except (WorkflowError E) Workflow) = .ok w := by
  have hd : firstDuplicate [] (w.steps.map WorkflowStep.stepId) = none :=
    (firstDuplicate_eq_none_iff _ _).mpr ⟨w.nodup, by simp⟩
  have hu : firstUnknown w.steps = none := (firstUnknown_eq_none_iff _).mpr w.known
  unfold new
  rw [dif_neg w.nonempty]
  split
  · next id h => simp [hd] at h
  · split
    · next h => simp [hu] at h
    · rfl

/-! ## The topological order -/

/-- The index of a step id. -/
def index (w : Workflow) (stepId : String) : Nat := w.steps.findIdx fun s => s.stepId = stepId

/-- The indices a step depends on. -/
def deps (w : Workflow) (i : Nat) : List Nat :=
  match w.steps[i]? with
  | some s => s.dependsOn.map w.index
  | none => []

/-- `topo_order`: Kahn's algorithm, ready steps in declaration order. -/
def topoOrder (w : Workflow) : Except (WorkflowError E) (List Nat) :=
  let order := (Kahn.kahn w.steps.length w.deps).order
  if order.length ≠ w.steps.length then
    let inCycle := (List.range w.steps.length).filter fun i => i ∉ order
    .error (.cycleDetected (", ".intercalate
      ((inCycle.filterMap fun i => w.steps[i]?).map WorkflowStep.stepId)))
  else .ok order

/-- The loop of `topo_order` ends: after as many rounds as there are steps the queue is
empty, and further rounds change nothing. -/
theorem rounds_eq_kahn (w : Workflow) {k : Nat} (h : w.steps.length ≤ k) :
    (Kahn.process w.steps.length w.deps)^[k] (Kahn.start w.steps.length w.deps) =
      Kahn.kahn w.steps.length w.deps := by
  obtain ⟨m, rfl⟩ := Nat.exists_eq_add_of_le h
  have hfixed : Kahn.process w.steps.length w.deps (Kahn.kahn w.steps.length w.deps) =
      Kahn.kahn w.steps.length w.deps := by
    simp only [Kahn.process, Kahn.pending_kahn]
  rw [Nat.add_comm, Function.iterate_add_apply]
  exact Function.iterate_fixed hfixed m

end Workflow

/-! ## Runs -/

/-- What the runs that are compared share. -/
structure Env (A : Type) where
  registry : AgentId → Option A
  spec : JobSpec
  initialInput : Value

/-- `AgentExecutor::execute`, as far as the output goes. -/
abbrev Executor (A E : Type) := A → JobSpec → Value → Except E Value

/-- One round of the loop of `run`. -/
def runStep (env : Env A) (exec : Executor A E) (outputs : StepOutputs) (step : WorkflowStep) :
    Except (WorkflowError E) StepOutputs :=
  match env.registry step.agentId with
  | none => .error (.agentNotFound step.stepId step.agentId.asHex)
  | some agent => do
    let input ← resolveMapping step.inputMapping env.initialInput outputs step.stepId
    match exec agent env.spec input with
    | .error e => .error (.stepFailed step.stepId e)
    | .ok output => .ok (Function.update outputs step.stepId (some output))

namespace Workflow

/-- The steps at the indices of an order. -/
def stepsAt (w : Workflow) (order : List Nat) : List WorkflowStep :=
  order.filterMap fun i => w.steps[i]?

def run (w : Workflow) (env : Env A) (exec : Executor A E) :
    Except (WorkflowError E) WorkflowResult := do
  let order ← w.topoOrder
  let stepOutputs ← (w.stepsAt order).foldlM (runStep env exec) fun _ => none
  match (w.stepsAt order).getLast? with
  | none => .error .empty
  | some final => .ok ⟨stepOutputs, final.stepId, (stepOutputs final.stepId).getD .null⟩

/-- The run gets to the step, and `outputs` is what it has by then. -/
def Reaches (w : Workflow) (env : Env A) (exec : Executor A E) (s : WorkflowStep)
    (outputs : StepOutputs) : Prop :=
  ∃ order pre post, (w.topoOrder : Except (WorkflowError E) _) = .ok order ∧
    w.stepsAt order = pre ++ s :: post ∧
    pre.foldlM (runStep env exec) (fun _ => none) = .ok outputs

/-- The run executes the step with this id, and the output is `v`. -/
def Produces (w : Workflow) (env : Env A) (exec : Executor A E) (stepId : String) (v : Value) :
    Prop :=
  ∃ s outputs outputs', s.stepId = stepId ∧ w.Reaches env exec s outputs ∧
    runStep env exec outputs s = .ok outputs' ∧ outputs' stepId = some v

/-- The step `a` names `d` in its `depends_on`. -/
def Names (w : Workflow) (a d : String) : Prop :=
  ∃ s ∈ w.steps, s.stepId = a ∧ d ∈ s.dependsOn

/-- The step `a` depends on `d`, at once or through other steps. -/
def DependsOn (w : Workflow) : String → String → Prop := Relation.TransGen w.Names

/-! ## A step comes after what it depends on -/

section

variable {w : Workflow} {order : List Nat}

theorem topoOrder_eq_ok (h : (w.topoOrder : Except (WorkflowError E) _) = .ok order) :
    (Kahn.kahn w.steps.length w.deps).order = order := by
  unfold topoOrder at h
  by_cases hlen : (Kahn.kahn w.steps.length w.deps).order.length = w.steps.length
  · simpa [hlen] using h
  · simp [hlen] at h

theorem filterMap_getElem?_range {α : Type} (l : List α) :
    (List.range l.length).filterMap (fun i => l[i]?) = l := by
  induction l with
  | nil => rfl
  | cons a l ih =>
    rw [List.length_cons, List.range_succ_eq_map]
    simp [List.filterMap_map, ih]

/-- An order is one of all the indices. -/
theorem perm_range_of_topoOrder (h : (w.topoOrder : Except (WorkflowError E) _) = .ok order) :
    order.Perm (List.range w.steps.length) := by
  have hlen : order.length = w.steps.length := by
    rw [← topoOrder_eq_ok h]
    unfold topoOrder at h
    by_contra hne
    simp [hne] at h
  have hnd : order.Nodup := topoOrder_eq_ok h ▸ Kahn.nodup_kahn
  have hlt : ∀ i ∈ order, i ∈ List.range w.steps.length := by
    intro i hi
    rw [← topoOrder_eq_ok h] at hi
    exact List.mem_range.mpr (Kahn.lt_of_mem_kahn hi)
  exact (List.subperm_of_subset hnd hlt).perm_of_length_le (by simp [hlen])

/-- An order that is returned runs every step once. -/
theorem perm_stepsAt (h : (w.topoOrder : Except (WorkflowError E) _) = .ok order) :
    (w.stepsAt order).Perm w.steps := by
  have hall : w.stepsAt (List.range w.steps.length) = w.steps := filterMap_getElem?_range w.steps
  exact hall ▸ (perm_range_of_topoOrder h).filterMap _

theorem getElem?_index {d : String} (h : d ∈ w.steps.map WorkflowStep.stepId) :
    ∃ s, w.steps[w.index d]? = some s ∧ s.stepId = d := by
  obtain ⟨s, hs, hid⟩ := List.mem_map.mp h
  have hlt : w.index d < w.steps.length := List.findIdx_lt_length_of_exists ⟨s, hs, by simp [hid]⟩
  refine ⟨w.steps[w.index d], List.getElem?_eq_getElem hlt, ?_⟩
  have hfound : decide (w.steps[w.index d].stepId = d) = true := List.findIdx_getElem (w := hlt)
  exact of_decide_eq_true hfound

/-- What a step names comes before it. -/
theorem names_before (h : (w.topoOrder : Except (WorkflowError E) _) = .ok order)
    {pre post : List WorkflowStep} {s : WorkflowStep} (hsplit : w.stepsAt order = pre ++ s :: post) :
    s ∈ w.steps ∧ ∀ d ∈ s.dependsOn, d ∈ pre.map WorkflowStep.stepId := by
  obtain ⟨l₁, l₂, rfl, hpre, hl₂⟩ := List.filterMap_eq_append_iff.mp hsplit
  obtain ⟨skip, i, rest, rfl, hskip, hi, -⟩ := List.filterMap_eq_cons_iff.mp hl₂
  have hs : s ∈ w.steps := List.mem_of_getElem? hi
  refine ⟨hs, fun d hd => ?_⟩
  obtain ⟨sd, hsd, hid⟩ := getElem?_index (w.known s hs d hd)
  have hbefore : w.index d ∈ l₁ ++ skip := by
    have horder : (Kahn.kahn w.steps.length w.deps).order = (l₁ ++ skip) ++ i :: rest := by
      rw [topoOrder_eq_ok h, List.append_assoc]
    refine Kahn.deps_before horder _ ?_
    simp only [deps, hi]
    exact List.mem_map_of_mem hd
  have hmem : sd ∈ pre := by
    rcases List.mem_append.mp hbefore with hin | hin
    · rw [← hpre]
      exact List.mem_filterMap.mpr ⟨_, hin, hsd⟩
    · simp [hskip _ hin] at hsd
  exact List.mem_map.mpr ⟨sd, hmem, hid⟩

/-- No step runs twice. -/
theorem nodup_stepsAt (h : (w.topoOrder : Except (WorkflowError E) _) = .ok order) :
    ((w.stepsAt order).map WorkflowStep.stepId).Nodup := by
  have hperm := (perm_stepsAt h).map WorkflowStep.stepId
  exact hperm.nodup_iff.mpr w.nodup

end

/-! ## What a run knows at a step -/

section

variable {env : Env A} {exec : Executor A E} {outputs outputs' : StepOutputs}

/-- A step adds its own output and changes no other. -/
theorem runStep_eq_ok_iff {s : WorkflowStep} :
    runStep env exec outputs s = .ok outputs' ↔
      ∃ agent input output, env.registry s.agentId = some agent ∧
        (resolveMapping s.inputMapping env.initialInput outputs s.stepId :
          Except (WorkflowError E) Value) = .ok input ∧
        exec agent env.spec input = .ok output ∧
        outputs' = Function.update outputs s.stepId (some output) := by
  unfold runStep
  constructor
  · intro h
    cases hagent : env.registry s.agentId with
    | none => simp [hagent] at h
    | some agent =>
      simp only [hagent] at h
      obtain ⟨input, hinput, h⟩ := bind_eq_ok h
      cases hexec : exec agent env.spec input with
      | error e => simp [hexec] at h
      | ok output =>
        simp only [hexec, Except.ok.injEq] at h
        exact ⟨agent, input, output, rfl, hinput, hexec, h.symm⟩
  · rintro ⟨agent, input, output, hagent, hinput, hexec, rfl⟩
    simp only [hagent, hinput, bind, Except.bind, hexec]

theorem foldlM_frame {steps : List WorkflowStep}
    (h : steps.foldlM (runStep env exec) outputs = .ok outputs') {id : String}
    (hid : id ∉ steps.map WorkflowStep.stepId) : outputs' id = outputs id := by
  induction steps generalizing outputs with
  | nil =>
    obtain rfl : outputs = outputs' := Except.ok.inj h
    rfl
  | cons s steps ih =>
    rw [List.foldlM_cons] at h
    obtain ⟨mid, hmid, h⟩ := bind_eq_ok h
    obtain ⟨-, -, output, -, -, -, rfl⟩ := runStep_eq_ok_iff.mp hmid
    simp only [List.map_cons, List.mem_cons, not_or] at hid
    rw [ih h hid.2, Function.update_of_ne hid.1]

variable {w : Workflow} {s : WorkflowStep}

/-- A step of the order, and what comes before it, are known by the id. -/
theorem split_unique {l pre pre' post post' : List WorkflowStep} {s s' : WorkflowStep}
    (hnd : (l.map WorkflowStep.stepId).Nodup) (h : l = pre ++ s :: post)
    (h' : l = pre' ++ s' :: post') (hid : s.stepId = s'.stepId) : pre = pre' ∧ s = s' := by
  have hs : s = s' := List.inj_on_of_nodup_map hnd (by simp [h]) (by simp [h']) hid
  have hl : l.Nodup := hnd.of_map
  subst hs
  rw [h] at hl
  have hnotin : s ∉ pre ∧ s ∉ post := by
    simp only [List.nodup_append, List.nodup_cons, List.mem_cons] at hl
    exact ⟨fun hs => hl.2.2 s hs s (.inl rfl) rfl, hl.2.1.1⟩
  exact ⟨((List.append_cons_inj_of_notMem hnotin.1 hnotin.2).mp (h.symm.trans h')).1, rfl⟩

/-- The output of a step that has run is what the step produced. -/
theorem output_iff_produces {order : List Nat} {pre post : List WorkflowStep}
    (horder : (w.topoOrder : Except (WorkflowError E) _) = .ok order)
    (hsplit : w.stepsAt order = pre ++ s :: post)
    (hrun : pre.foldlM (runStep env exec) (fun _ => none) = .ok outputs) {d : String}
    (hd : d ∈ pre.map WorkflowStep.stepId) (v : Value) :
    outputs d = some v ↔ w.Produces env exec d v := by
  obtain ⟨sd, hsd, rfl⟩ := List.mem_map.mp hd
  obtain ⟨pre₁, pre₂, rfl⟩ := List.append_of_mem hsd
  have hnd := nodup_stepsAt horder
  rw [List.foldlM_append] at hrun
  obtain ⟨o₁, ho₁, hrun⟩ := bind_eq_ok hrun
  rw [List.foldlM_cons] at hrun
  obtain ⟨o₂, ho₂, hrun⟩ := bind_eq_ok hrun
  have hsplit' : w.stepsAt order = pre₁ ++ sd :: (pre₂ ++ s :: post) := by simp [hsplit]
  have hlater : sd.stepId ∉ pre₂.map WorkflowStep.stepId := by
    rw [hsplit'] at hnd
    simp only [List.map_append, List.map_cons, List.nodup_append, List.nodup_cons,
      List.mem_append, not_or] at hnd
    exact hnd.2.1.1.1
  rw [foldlM_frame hrun hlater]
  constructor
  · intro hv
    exact ⟨sd, o₁, o₂, rfl, ⟨order, pre₁, _, horder, hsplit', ho₁⟩, ho₂, hv⟩
  · rintro ⟨s', o₁', o₂', hid, ⟨order', pre', post', horder', hsplit'', ho₁'⟩, ho₂', hv⟩
    obtain rfl : order' = order := Except.ok.inj (horder'.symm.trans horder)
    obtain ⟨rfl, rfl⟩ := split_unique hnd hsplit'' hsplit' hid
    obtain rfl : o₁' = o₁ := Except.ok.inj (ho₁'.symm.trans ho₁)
    obtain rfl : o₂' = o₂ := Except.ok.inj (ho₂'.symm.trans ho₂)
    exact hv

/-- Along a chain of dependencies, every step stands before the one it started from. -/
theorem dependsOn_before {order : List Nat} {pre post : List WorkflowStep}
    (horder : (w.topoOrder : Except (WorkflowError E) _) = .ok order)
    (hsplit : w.stepsAt order = pre ++ s :: post) {d : String} (hd : w.DependsOn s.stepId d) :
    d ∈ pre.map WorkflowStep.stepId := by
  have hnamed : ∀ {l₁ l₂ : List WorkflowStep} {a : WorkflowStep} {e : String},
      w.stepsAt order = l₁ ++ a :: l₂ → w.Names a.stepId e → e ∈ l₁.map WorkflowStep.stepId := by
    rintro l₁ l₂ a e hl ⟨a', ha', hid, he⟩
    obtain ⟨ha, hbefore⟩ := names_before horder hl
    obtain rfl : a' = a := List.inj_on_of_nodup_map w.nodup ha' ha hid
    exact hbefore e he
  induction hd with
  | single hn => exact hnamed hsplit hn
  | tail _ hn ih =>
    obtain ⟨b, hb, rfl⟩ := List.mem_map.mp ih
    obtain ⟨pre₁, pre₂, rfl⟩ := List.append_of_mem hb
    have hb' : w.stepsAt order = pre₁ ++ b :: (pre₂ ++ s :: post) := by simp [hsplit]
    rw [List.map_append]
    exact List.mem_append_left _ (hnamed hb' hn)

/-- When a run gets to a step, it has the outputs of everything the step depends
on, and they are what these steps produced. -/
theorem produced_before (h : w.Reaches env exec s outputs) {d : String}
    (hd : w.DependsOn s.stepId d) (v : Value) :
    outputs d = some v ↔ w.Produces env exec d v := by
  obtain ⟨order, pre, post, horder, hsplit, hrun⟩ := h
  refine output_iff_produces horder hsplit hrun ?_ v
  exact dependsOn_before horder hsplit hd

/-! ## What determines the input of a step -/

/-- Two inputs are the same, or both are errors. -/
def SameInput (r r' : Except (WorkflowError E) Value) : Prop := r.toOption = r'.toOption

/-- A step that has run and that the mapping of `s` points at is one `s` depends on. -/
def ReadsDeclared (w : Workflow) (s : WorkflowStep) (outputs : StepOutputs) : Prop :=
  ∀ X ∈ reads s.inputMapping, w.DependsOn s.stepId X ∨ outputs X = none

theorem dependsOn_perm {w' : Workflow} (h : w.steps.Perm w'.steps) {a d : String}
    (hd : w.DependsOn a d) : w'.DependsOn a d := by
  have hnames : w.Names ≤ w'.Names := by
    rintro a d ⟨s, hs, hid, hdep⟩
    exact ⟨s, h.mem_iff.mp hs, hid, hdep⟩
  exact Relation.TransGen.mono hnames a d hd

/-- In two runs of a workflow, in any order of its steps and with any executors, in
which the steps that `s` depends on produce the same, and in which the mapping of
`s` reads no other step's output, the input of `s` is the same. -/
theorem input_determined {w' : Workflow} (hperm : w.steps.Perm w'.steps) {env : Env A}
    {exec exec' : Executor A E} {s : WorkflowStep} {outputs outputs' : StepOutputs}
    (h : w.Reaches env exec s outputs) (h' : w'.Reaches env exec' s outputs')
    (hsame : ∀ d, w.DependsOn s.stepId d → ∀ v, w.Produces env exec d v ↔ w'.Produces env exec' d v)
    (hreads : w.ReadsDeclared s outputs) (hreads' : w.ReadsDeclared s outputs') :
    SameInput (E := E) (resolveMapping s.inputMapping env.initialInput outputs s.stepId)
      (resolveMapping s.inputMapping env.initialInput outputs' s.stepId) := by
  have hagree : ∀ X ∈ reads s.inputMapping, outputs X = outputs' X := by
    intro X hX
    by_cases hd : w.DependsOn s.stepId X
    · refine Option.ext fun v => ?_
      rw [produced_before h hd, produced_before h' (dependsOn_perm hperm hd)]
      exact hsame X hd v
    · rw [(hreads X hX).resolve_left hd, (hreads' X hX).resolve_left hd]
  rw [SameInput, resolveMapping_congr hagree]

/-! ## The condition is needed -/

/-- No two steps share an agent, so that an executor can tell them apart. -/
def OwnAgents (w : Workflow) (env : Env A) : Prop :=
  ∀ e ∈ w.steps, ∀ e' ∈ w.steps, ∀ agent, env.registry e.agentId = some agent →
    env.registry e'.agentId = some agent → e = e'

/-- The executor that answers for the agents of some steps with the outputs given. -/
def replay [DecidableEq A] (env : Env A) (steps : List WorkflowStep) (outputs : StepOutputs)
    (exec : Executor A E) : Executor A E := fun agent spec input =>
  match (steps.find? fun e => env.registry e.agentId = some agent).bind
      fun e => outputs e.stepId with
  | some v => .ok v
  | none => exec agent spec input

theorem replay_eq [DecidableEq A] {steps : List WorkflowStep} {e : WorkflowStep} {agent : A}
    {v : Value} (he : e ∈ steps) (hagent : env.registry e.agentId = some agent)
    (hown : ∀ e' ∈ steps, env.registry e'.agentId = some agent → e' = e)
    (hv : outputs e.stepId = some v) (spec : JobSpec) (input : Value) :
    replay env steps outputs exec agent spec input = .ok v := by
  have hfind : (steps.find? fun e => env.registry e.agentId = some agent) = some e := by
    cases hf : steps.find? fun e => env.registry e.agentId = some agent with
    | none => exact absurd hagent (by simpa using List.find?_eq_none.mp hf e he)
    | some e' =>
      rw [hown e' (List.mem_of_find?_eq_some hf) (by simpa using List.find?_some hf)]
  simp [replay, hfind, hv]

/-- Steps that run with one executor run with another that gives `X` the perturbed
output and the others what they had. -/
theorem foldlM_perturbAt {X : String} {exec' : Executor A E} {steps : List WorkflowStep}
    (h : steps.foldlM (runStep env exec) outputs = .ok outputs')
    (hnd : (steps.map WorkflowStep.stepId).Nodup)
    (hexec : ∀ e ∈ steps, ∀ agent, env.registry e.agentId = some agent → ∀ input v,
      perturbAt X outputs' e.stepId = some v → exec' agent env.spec input = .ok v) :
    steps.foldlM (runStep env exec') (perturbAt X outputs) = .ok (perturbAt X outputs') := by
  induction steps generalizing outputs with
  | nil =>
    obtain rfl : outputs = outputs' := Except.ok.inj h
    rfl
  | cons e steps ih =>
    rw [List.map_cons, List.nodup_cons] at hnd
    rw [List.foldlM_cons] at h ⊢
    obtain ⟨mid, hmid, h⟩ := bind_eq_ok h
    have hlast : outputs' e.stepId = mid e.stepId := foldlM_frame h hnd.1
    obtain ⟨agent, input, output, hagent, hinput, -, rfl⟩ := runStep_eq_ok_iff.mp hmid
    rw [Function.update_self] at hlast
    obtain ⟨input', hinput', -⟩ := resolveMapping_perturbAt (X := X) hinput
    have hstep : runStep env exec' (perturbAt X outputs) e =
        .ok (perturbAt X (Function.update outputs e.stepId (some output))) := by
      refine runStep_eq_ok_iff.mpr ⟨agent, input', if e.stepId = X then output.perturb else output,
        hagent, hinput', hexec e (by simp) agent hagent input' _ ?_, ?_⟩
      · exact perturbAt_of_some hlast
      · exact perturbAt_update X e.stepId outputs output
    rw [hstep]
    exact ih h hnd.2 fun e' he' => hexec e' (by simp [he'])

/-- Where every step has its own agent, a step whose input resolves and whose mapping
points at a step it does not depend on has another input in another run. -/
theorem exists_leak [DecidableEq A] (hown : w.OwnAgents env) (h : w.Reaches env exec s outputs)
    {r : Value} (hr : (resolveMapping s.inputMapping env.initialInput outputs s.stepId :
      Except (WorkflowError E) Value) = .ok r)
    {X : String} (hX : X ∈ reads s.inputMapping) (hdep : ¬ w.DependsOn s.stepId X) :
    ∃ (exec' : Executor A E) (outputs' : StepOutputs), w.Reaches env exec' s outputs' ∧
      (∀ d, w.DependsOn s.stepId d → ∀ v, w.Produces env exec d v ↔ w.Produces env exec' d v) ∧
      ¬ SameInput (E := E) (resolveMapping s.inputMapping env.initialInput outputs s.stepId)
        (resolveMapping s.inputMapping env.initialInput outputs' s.stepId) := by
  obtain ⟨order, pre, post, horder, hsplit, hrun⟩ := h
  have hmem : ∀ e ∈ pre, e ∈ w.steps := by
    intro e he
    obtain ⟨pre₁, pre₂, rfl⟩ := List.append_of_mem he
    have he' : w.stepsAt order = pre₁ ++ e :: (pre₂ ++ s :: post) := by simp [hsplit]
    exact (names_before horder he').1
  have hnd : (pre.map WorkflowStep.stepId).Nodup := by
    have hnd := nodup_stepsAt horder
    rw [hsplit, List.map_append] at hnd
    exact hnd.of_append_left
  have hempty : perturbAt X (fun _ => none) = fun _ => none := by
    funext id
    simp [perturbAt]
  have hreach : w.Reaches env (replay env pre (perturbAt X outputs) exec) s
      (perturbAt X outputs) := by
    refine ⟨order, pre, post, horder, hsplit, ?_⟩
    rw [← hempty]
    refine foldlM_perturbAt hrun hnd fun e he agent hagent input v hv => ?_
    refine replay_eq he hagent (fun e' he' hagent' => ?_) hv _ _
    exact hown e' (hmem e' he') e (hmem e he) agent hagent' hagent
  refine ⟨_, _, hreach, fun d hd v => ?_, ?_⟩
  · rw [← produced_before ⟨order, pre, post, horder, hsplit, hrun⟩ hd, ← produced_before hreach hd]
    have hne : d ≠ X := by
      rintro rfl
      exact hdep hd
    simp [perturbAt, hne]
  · obtain ⟨r', hr', hne⟩ := resolveMapping_perturbAt (X := X) hr
    rw [SameInput, hr, hr']
    exact fun heq => hne hX (Option.some.inj heq).symm

end

/-! ## A step that passes on the output of another -/

def otherStep : WorkflowStep := ⟨"other", ⟨hashOf 3⟩, .null, []⟩

def sourceStep : WorkflowStep := ⟨"source", ⟨hashOf 1⟩, .null, []⟩

def readerStep (declared : Bool) : WorkflowStep :=
  ⟨"reader", ⟨hashOf 2⟩, .string "\x7b\x7bsteps.source.output\x7d\x7d",
    if declared then ["source"] else []⟩

def readerWorkflow (declared : Bool) : Workflow where
  steps := [otherStep, sourceStep, readerStep declared]
  nonempty := by simp
  nodup := by cases declared <;> decide
  known := by cases declared <;> decide

/-- The same steps, the other way round. -/
def reversedWorkflow : Workflow where
  steps := [readerStep true, sourceStep, otherStep]
  nonempty := by simp
  nodup := by decide
  known := by decide

/-- Every agent is its id. -/
def readerEnv : Env AgentId := ⟨some, smallSpec false, .null⟩

/-- The executor that gives the source's agent `b` and the other ones `c`. -/
def answering (b c : Bool) : Executor AgentId Unit :=
  fun agent _ _ => .ok (.bool (if agent = ⟨hashOf 1⟩ then b else c))

/-- The outputs in front of the reader. -/
def bothOutputs (b c : Bool) : StepOutputs :=
  Function.update (Function.update (fun _ => none) "other" (some (.bool c))) "source"
    (some (.bool b))

theorem reaches_reader (declared b c : Bool) :
    (readerWorkflow declared).Reaches readerEnv (answering b c) (readerStep declared)
      (bothOutputs b c) := by
  refine ⟨[0, 1, 2], [otherStep, sourceStep], [], ?_, rfl, rfl⟩
  cases declared <;> rfl

theorem reversed_reaches_reader (b c : Bool) :
    reversedWorkflow.Reaches readerEnv (answering b c) (readerStep true) (bothOutputs b c) := by
  refine ⟨[1, 2, 0], [sourceStep, otherStep], [], rfl, rfl, ?_⟩
  have hswap : bothOutputs b c =
      Function.update (Function.update (fun _ => none) "source" (some (.bool b))) "other"
        (some (.bool c)) := Function.update_comm (by decide) ..
  rw [hswap]
  rfl

/-- Only a declared source is depended on. -/
theorem eq_source_of_dependsOn {declared : Bool} {a d : String}
    (h : (readerWorkflow declared).DependsOn a d) : declared = true ∧ d = "source" := by
  have hnames : ∀ a, (readerWorkflow declared).Names a d → declared = true ∧ d = "source" := by
    rintro a ⟨s, hs, -, hd⟩
    simp only [readerWorkflow, List.mem_cons, List.not_mem_nil, or_false] at hs
    rcases hs with rfl | rfl | rfl
    · simp [otherStep] at hd
    · simp [sourceStep] at hd
    · simpa [readerStep] using hd
  cases h with
  | single hn => exact hnames _ hn
  | tail _ hn => exact hnames _ hn

/-- The reader declares nothing, and what it gets depends on the source. -/
theorem undeclared_output_read :
    (readerWorkflow false).Reaches readerEnv (answering true true) (readerStep false)
        (bothOutputs true true) ∧
      (readerWorkflow false).Reaches readerEnv (answering false true) (readerStep false)
        (bothOutputs false true) ∧
      (∀ d, ¬ (readerWorkflow false).DependsOn "reader" d) ∧
      ¬ SameInput (E := Unit)
        (resolveMapping (readerStep false).inputMapping .null (bothOutputs true true) "reader")
        (resolveMapping (readerStep false).inputMapping .null (bothOutputs false true) "reader") := by
  refine ⟨reaches_reader false true true, reaches_reader false false true, fun d hd => ?_, ?_⟩
  · exact absurd (eq_source_of_dependsOn hd).1 (by simp)
  · intro h
    have h' : some (Value.bool true) = some (Value.bool false) := h
    simp at h'

/-- A reader that declares the source, in two orders of the steps and with two
outputs of a step it does not depend on. -/
theorem declared_output_same :
    SameInput (E := Unit)
      (resolveMapping (readerStep true).inputMapping .null (bothOutputs true true) "reader")
      (resolveMapping (readerStep true).inputMapping .null (bothOutputs true false) "reader") := by
  have hreads : ∀ c, (readerWorkflow true).ReadsDeclared (readerStep true) (bothOutputs true c) := by
    intro c X hX
    have hX' : X ∈ ["source"] := hX
    obtain rfl := List.mem_singleton.mp hX'
    exact .inl (.single ⟨readerStep true, by simp [readerWorkflow], rfl, by simp [readerStep]⟩)
  have hperm : (readerWorkflow true).steps.Perm reversedWorkflow.steps :=
    (List.reverse_perm (readerWorkflow true).steps).symm
  refine input_determined hperm (reaches_reader true true true) (reversed_reaches_reader true false)
    (fun d hd v => ?_) (hreads true) (hreads false)
  rw [← produced_before (reaches_reader true true true) hd,
    ← produced_before (reversed_reaches_reader true false) (dependsOn_perm hperm hd),
    (eq_source_of_dependsOn hd).2]
  rfl

end Workflow

end Parseh.Agent
