import Parseh.Agent.WorkflowOrder

/-!
# The topological sort (`parseh-agent-runtime`, `workflow.rs`)

`topo_order` over any steps that `new` accepts; a step may name a dependency more
than once, and may name itself.

* `exists_topoOrder_iff`: there is an order exactly when no step depends on itself,
  at once or through others;
* `runIn`: `run` over an executor with effects, and `runIn_id`, that it is `run`
  when there are none;
* `topoOrder_correct`: all of it, with the counters and the loop.
-/

namespace Parseh.Agent.Workflow

open Parseh.Lib Parseh.Wire

variable {A E : Type} {w : Workflow}

/-! ## Indices and ids -/

/-- The id of the step at an index. -/
def idAt (w : Workflow) (i : Nat) : String := ((w.steps[i]?).map WorkflowStep.stepId).getD ""

theorem idAt_eq {i : Nat} {s : WorkflowStep} (h : w.steps[i]? = some s) :
    w.idAt i = s.stepId := by
  simp [idAt, h]

theorem idAt_index {d : String} (h : d ∈ w.steps.map WorkflowStep.stepId) :
    w.idAt (w.index d) = d := by
  obtain ⟨s, hs, hid⟩ := getElem?_index h
  rw [idAt_eq hs, hid]

/-- Only a step has dependencies, and they are those it names. -/
theorem exists_of_mem_deps {i j : Nat} (h : j ∈ w.deps i) :
    ∃ s, w.steps[i]? = some s ∧ ∃ d ∈ s.dependsOn, j = w.index d := by
  unfold deps at h
  split at h
  · next s hs =>
    obtain ⟨d, hd, rfl⟩ := List.mem_map.mp h
    exact ⟨s, hs, d, hd, rfl⟩
  · cases h

theorem deps_lt (i : Nat) : ∀ d ∈ w.deps i, d < w.steps.length := by
  intro j hj
  obtain ⟨s, hs, d, hd, rfl⟩ := exists_of_mem_deps hj
  obtain ⟨sd, hsd, -⟩ := getElem?_index (w.known s (List.mem_of_getElem? hs) d hd)
  exact (List.getElem?_eq_some_iff.mp hsd).1

theorem needs_of_dependsOn {a d : String} (h : w.DependsOn a d) :
    Kahn.Needs w.deps (w.index a) (w.index d) := by
  refine Relation.TransGen.lift w.index ?_ a d h
  rintro _ d ⟨s, hs, rfl, hd⟩
  change w.index d ∈ w.deps (w.index s.stepId)
  simp only [deps, getElem?_index_stepId hs]
  exact List.mem_map_of_mem hd

theorem dependsOn_of_needs {i j : Nat} (h : Kahn.Needs w.deps i j) :
    w.DependsOn (w.idAt i) (w.idAt j) := by
  refine Relation.TransGen.lift w.idAt ?_ i j h
  intro i j hj
  obtain ⟨s, hs, d, hd, rfl⟩ := exists_of_mem_deps hj
  have hmem := List.mem_of_getElem? hs
  refine ⟨s, hmem, (idAt_eq hs).symm, ?_⟩
  rw [idAt_index (w.known s hmem d hd)]
  exact hd

/-! ## Orders -/

theorem exists_topoOrder_iff_length :
    (∃ order, (w.topoOrder : Except (WorkflowError E) _) = .ok order) ↔
      (Kahn.kahn w.steps.length w.deps).order.length = w.steps.length := by
  unfold topoOrder
  by_cases hlen : (Kahn.kahn w.steps.length w.deps).order.length = w.steps.length
  · simp [hlen]
  · simp [hlen]

/-- **There is an order exactly when there is no cycle.** -/
theorem exists_topoOrder_iff :
    (∃ order, (w.topoOrder : Except (WorkflowError E) _) = .ok order) ↔
      ∀ a, ¬ w.DependsOn a a := by
  rw [exists_topoOrder_iff_length, Kahn.length_kahn_iff fun i _ => deps_lt i]
  constructor
  · intro h a hcycle
    obtain ⟨_, ⟨s, hs, rfl, -⟩, -⟩ := Relation.TransGen.head'_iff.mp hcycle
    exact h _ (index_lt hs) (needs_of_dependsOn hcycle)
  · intro h i _ hcycle
    exact h _ (dependsOn_of_needs hcycle)

/-- A step comes after each step it names. -/
theorem dependency_before {order : List Nat}
    (h : (w.topoOrder : Except (WorkflowError E) _) = .ok order) {pre post : List Nat} {i : Nat}
    (hsplit : order = pre ++ i :: post) {s : WorkflowStep} (hs : w.steps[i]? = some s) {d : String}
    (hd : d ∈ s.dependsOn) : ∃ j ∈ pre, ∃ s', w.steps[j]? = some s' ∧ s'.stepId = d := by
  obtain ⟨s', hs', hid⟩ := getElem?_index (w.known s (List.mem_of_getElem? hs) d hd)
  refine ⟨w.index d, ?_, s', hs', hid⟩
  refine Kahn.deps_before ((topoOrder_eq_ok h).trans hsplit) _ ?_
  simp only [deps, hs]
  exact List.mem_map_of_mem hd

/-! ## Runs with effects -/

section Effects

variable {m : Type → Type} [Monad m]

/-- One round of the loop, where executing the agent is an action. -/
def runStepIn (env : Env A) (exec : A → JobSpec → Value → m (Except E Value))
    (outputs : StepOutputs) (step : WorkflowStep) : m (Except (WorkflowError E) StepOutputs) :=
  match env.registry step.agentId with
  | none => pure (.error (.agentNotFound step.stepId step.agentId.asHex))
  | some agent =>
    match resolveMapping step.inputMapping env.initialInput outputs step.stepId with
    | .error e => pure (.error e)
    | .ok input => do
      match ← exec agent env.spec input with
      | .error e => pure (.error (.stepFailed step.stepId e))
      | .ok output => pure (.ok (Function.update outputs step.stepId (some output)))

def runStepsIn (env : Env A) (exec : A → JobSpec → Value → m (Except E Value)) :
    List WorkflowStep → StepOutputs → m (Except (WorkflowError E) StepOutputs)
  | [], outputs => pure (.ok outputs)
  | step :: steps, outputs => do
    match ← runStepIn env exec outputs step with
    | .error e => pure (.error e)
    | .ok outputs' => runStepsIn env exec steps outputs'

/-- `run`, where executing an agent is an action. -/
def runIn (w : Workflow) (env : Env A) (exec : A → JobSpec → Value → m (Except E Value)) :
    m (Except (WorkflowError E) WorkflowResult) :=
  match w.topoOrder with
  | .error e => pure (.error e)
  | .ok order => do
    match ← runStepsIn env exec (w.stepsAt order) fun _ => none with
    | .error e => pure (.error e)
    | .ok stepOutputs =>
      match (w.stepsAt order).getLast? with
      | none => pure (.error .empty)
      | some final => pure (.ok ⟨stepOutputs, final.stepId, (stepOutputs final.stepId).getD .null⟩)

end Effects

theorem runStepIn_id (env : Env A) (exec : Executor A E) (outputs : StepOutputs)
    (step : WorkflowStep) :
    runStepIn (m := Id) env exec outputs step = runStep env exec outputs step := by
  unfold runStepIn runStep
  cases env.registry step.agentId with
  | none => rfl
  | some agent =>
    cases (resolveMapping step.inputMapping env.initialInput outputs step.stepId :
      Except (WorkflowError E) Value) with
    | error e => rfl
    | ok input =>
      simp only [bind, Except.bind, pure]
      cases exec agent env.spec input <;> rfl

theorem runStepsIn_id (env : Env A) (exec : Executor A E) (steps : List WorkflowStep)
    (outputs : StepOutputs) :
    runStepsIn (m := Id) env exec steps outputs = steps.foldlM (runStep env exec) outputs := by
  induction steps generalizing outputs with
  | nil => rfl
  | cons step steps ih =>
    rw [List.foldlM_cons]
    simp only [runStepsIn, runStepIn_id, bind, Except.bind, pure]
    cases hstep : runStep env exec outputs step with
    | error e => rfl
    | ok outputs' => exact ih outputs'

/-- Without effects it is `run`. -/
theorem runIn_id (env : Env A) (exec : Executor A E) :
    runIn (m := Id) w env exec = w.run env exec := by
  unfold runIn run
  cases horder : (w.topoOrder : Except (WorkflowError E) _) with
  | error e => rfl
  | ok order =>
    simp only [runStepsIn_id, bind, Except.bind, pure]
    cases (w.stepsAt order).foldlM (runStep env exec) fun _ => none with
    | error e => rfl
    | ok outputs =>
      simp only
      cases (w.stepsAt order).getLast? <;> rfl

/-! ## All of it -/

/-- What holds of the sort of a workflow. -/
structure TopoCorrect (w : Workflow) (E : Type) : Prop where
  ok_iff : (∃ order, (w.topoOrder : Except (WorkflowError E) _) = .ok order) ↔
    ∀ a, ¬ w.DependsOn a a
  perm : ∀ order, (w.topoOrder : Except (WorkflowError E) _) = .ok order →
    order.Perm (List.range w.steps.length)
  before : ∀ order, (w.topoOrder : Except (WorkflowError E) _) = .ok order →
    ∀ pre i post, order = pre ++ i :: post → ∀ s, w.steps[i]? = some s →
      ∀ d ∈ s.dependsOn, ∃ j ∈ pre, ∃ s', w.steps[j]? = some s' ∧ s'.stepId = d
  /-- No round takes an indegree below zero. -/
  noUnderflow : ∀ k, Kahn.roundsChecked w.steps.length w.deps k =
    some ((Kahn.process w.steps.length w.deps)^[k] (Kahn.start w.steps.length w.deps))
  /-- The loop has come to its end after as many rounds as there are steps. -/
  terminates : ∀ k, w.steps.length ≤ k →
    ((Kahn.process w.steps.length w.deps)^[k] (Kahn.start w.steps.length w.deps)).pending = []
  /-- An error is returned with no action taken. -/
  errorFirst : ∀ e, w.topoOrder = .error e → ∀ (A : Type) (m : Type → Type) [Monad m]
    (env : Env A) (exec : A → JobSpec → Value → m (Except E Value)),
    runIn w env exec = pure (.error e)

/-- **The topological sort is correct**, for every workflow that `new` accepts. -/
theorem topoOrder_correct (w : Workflow) (E : Type) : TopoCorrect w E where
  ok_iff := exists_topoOrder_iff
  perm _ h := perm_range_of_topoOrder h
  before _ h _ _ _ hsplit _ hs _ hd := dependency_before h hsplit hs hd
  noUnderflow := Kahn.roundsChecked_eq
  terminates k hk := by
    rw [rounds_eq_kahn w hk]
    exact Kahn.pending_kahn
  errorFirst e he A m _ env exec := by
    unfold runIn
    rw [he]

end Parseh.Agent.Workflow
