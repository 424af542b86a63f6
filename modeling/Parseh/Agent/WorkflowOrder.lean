import Parseh.Agent.Workflow
import Parseh.Lib.Schedule

/-!
# The declaration order of a workflow

The order in which the steps are declared decides which order `topo_order`
returns, and nothing else.

* `exists_topoOrder`: there is an order as soon as the steps can be sorted at all;
* `runs_iff`: a run is a sorted schedule of the steps;
* `run_perm`: so the outputs are those of any other declaration order.
-/

namespace Parseh.Agent.Workflow

open Parseh.Lib

variable {A E : Type}

/-! ## When there is an order -/

section

variable {w : Workflow}

theorem getElem?_index_stepId {s : WorkflowStep} (hs : s ∈ w.steps) :
    w.steps[w.index s.stepId]? = some s := by
  obtain ⟨s', hs', hid⟩ := getElem?_index (List.mem_map_of_mem hs)
  rw [hs', List.inj_on_of_nodup_map w.nodup (List.mem_of_getElem? hs') hs hid]

theorem index_lt {s : WorkflowStep} (hs : s ∈ w.steps) : w.index s.stepId < w.steps.length :=
  (List.getElem?_eq_some_iff.mp (getElem?_index_stepId hs)).1

theorem exists_eq_index {i : Nat} (hi : i < w.steps.length) :
    ∃ s ∈ w.steps, i = w.index s.stepId := by
  refine ⟨w.steps[i], List.getElem_mem hi, ?_⟩
  have hindex := getElem?_index_stepId (List.getElem_mem hi)
  refine (List.getElem?_inj hi w.nodup.of_map).mp ?_
  rw [hindex, List.getElem?_eq_getElem hi]

/-- Every step stands after what it names. -/
def NamesBefore (l : List WorkflowStep) : Prop :=
  Schedule.Sorted WorkflowStep.stepId (fun s d => d ∈ s.dependsOn) l

theorem namesBefore_stepsAt {order : List Nat}
    (h : (w.topoOrder : Except (WorkflowError E) _) = .ok order) :
    NamesBefore (w.stepsAt order) :=
  fun _ _ _ hsplit => (names_before h hsplit).2

/-- Kahn's algorithm gets to every step of a list that is sorted. -/
theorem index_mem_kahn {l : List WorkflowStep} (hl : l ⊆ w.steps) (hsorted : NamesBefore l) :
    ∀ s ∈ l, w.index s.stepId ∈ (Kahn.kahn w.steps.length w.deps).order := by
  induction l using List.reverseRecOn with
  | nil => nofun
  | append_singleton l a ih =>
    have hfirst := ih (fun s hs => hl (List.mem_append_left _ hs)) hsorted.dropLast
    have ha : a ∈ w.steps := hl (by simp)
    intro s hs
    rcases List.mem_append.mp hs with hs | hs
    · exact hfirst s hs
    · obtain rfl := List.mem_singleton.mp hs
      by_contra hleft
      obtain ⟨i, hi, hileft⟩ := Kahn.exists_dep_left (index_lt ha) hleft
      simp only [deps, getElem?_index_stepId ha] at hi
      obtain ⟨d, hd, rfl⟩ := List.mem_map.mp hi
      obtain ⟨e, he, rfl⟩ := List.mem_map.mp (hsorted l s [] (by simp) d hd)
      exact hileft (hfirst e he)

theorem exists_topoOrder {l : List WorkflowStep} (hperm : l.Perm w.steps)
    (hsorted : NamesBefore l) :
    ∃ order, (w.topoOrder : Except (WorkflowError E) _) = .ok order := by
  have hall : ∀ i < w.steps.length, i ∈ (Kahn.kahn w.steps.length w.deps).order := by
    intro i hi
    obtain ⟨s, hs, rfl⟩ := exists_eq_index hi
    exact index_mem_kahn hperm.subset hsorted s (hperm.mem_iff.mpr hs)
  refine ⟨(Kahn.kahn w.steps.length w.deps).order, ?_⟩
  unfold topoOrder
  rw [if_neg (by simpa using Kahn.length_kahn hall)]

/-- Whether there is an order does not depend on the declaration order. -/
theorem exists_topoOrder_perm {w' : Workflow} (hperm : w.steps.Perm w'.steps) {order : List Nat}
    (h : (w.topoOrder : Except (WorkflowError E) _) = .ok order) :
    ∃ order', (w'.topoOrder : Except (WorkflowError E) _) = .ok order' :=
  exists_topoOrder ((perm_stepsAt h).trans hperm) (namesBefore_stepsAt h)

end

/-! ## A run is a schedule -/

/-- What a step puts out, from the outputs so far. -/
def evalStep (env : Env A) (exec : Executor A E) (outputs : StepOutputs) (step : WorkflowStep) :
    Except (WorkflowError E) Value :=
  match env.registry step.agentId with
  | none => .error (.agentNotFound step.stepId step.agentId.asHex)
  | some agent => do
    let input ← resolveMapping step.inputMapping env.initialInput outputs step.stepId
    match exec agent env.spec input with
    | .error e => .error (.stepFailed step.stepId e)
    | .ok output => .ok output

section

variable {w : Workflow} {env : Env A} {exec : Executor A E} {out : StepOutputs}

theorem runStep_eq_step :
    runStep env exec = Schedule.step WorkflowStep.stepId (evalStep env exec) := by
  funext outputs s
  unfold runStep Schedule.step evalStep
  cases env.registry s.agentId with
  | none => rfl
  | some agent =>
    simp only [bind, Except.bind]
    cases resolveMapping s.inputMapping env.initialInput outputs s.stepId with
    | error e => rfl
    | ok input =>
      simp only
      cases exec agent env.spec input <;> rfl

/-- Only the outputs that the mapping points at matter. -/
theorem evalStep_congr (s : WorkflowStep) (out out' : StepOutputs)
    (h : ∀ X, X ∈ reads s.inputMapping → out X = out' X) :
    evalStep env exec out s = evalStep env exec out' s := by
  unfold evalStep
  rw [resolveMapping_congr h]

theorem stepsAt_ne_nil {order : List Nat}
    (h : (w.topoOrder : Except (WorkflowError E) _) = .ok order) : w.stepsAt order ≠ [] := by
  intro hnil
  have hperm := perm_stepsAt h
  rw [hnil] at hperm
  exact w.nonempty hperm.nil_eq.symm

theorem run_eq_ok_iff {r : WorkflowResult} :
    w.run env exec = .ok r ↔
      ∃ order final, (w.topoOrder : Except (WorkflowError E) _) = .ok order ∧
        Schedule.Runs WorkflowStep.stepId (evalStep env exec) (w.stepsAt order) r.stepOutputs ∧
        (w.stepsAt order).getLast? = some final ∧
        r = ⟨r.stepOutputs, final.stepId, (r.stepOutputs final.stepId).getD .null⟩ := by
  unfold run Schedule.Runs
  rw [runStep_eq_step]
  constructor
  · intro h
    obtain ⟨order, horder, h⟩ := bind_eq_ok h
    obtain ⟨out, hout, h⟩ := bind_eq_ok h
    cases hlast : (w.stepsAt order).getLast? with
    | none => simp [hlast] at h
    | some final =>
      simp only [hlast, Except.ok.injEq] at h
      subst h
      exact ⟨order, final, horder, hout, hlast, rfl⟩
  · rintro ⟨order, final, horder, hout, hlast, hr⟩
    rw [horder]
    simp only [bind, Except.bind]
    rw [hout]
    simp only [hlast]
    rw [← hr]

/-- The outputs of a run that succeeds are those of a sorted schedule. -/
theorem runs_iff :
    (∃ r, w.run env exec = .ok r ∧ r.stepOutputs = out) ↔
      ∃ order, (w.topoOrder : Except (WorkflowError E) _) = .ok order ∧
        Schedule.Runs WorkflowStep.stepId (evalStep env exec) (w.stepsAt order) out := by
  constructor
  · rintro ⟨r, hr, rfl⟩
    obtain ⟨order, -, horder, hruns, -⟩ := run_eq_ok_iff.mp hr
    exact ⟨order, horder, hruns⟩
  · rintro ⟨order, horder, hruns⟩
    have hlast := List.getLast?_eq_getLast_of_ne_nil (stepsAt_ne_nil horder)
    generalize (w.stepsAt order).getLast (stepsAt_ne_nil horder) = final at hlast
    refine ⟨⟨out, final.stepId, (out final.stepId).getD .null⟩, ?_, rfl⟩
    exact run_eq_ok_iff.mpr ⟨order, final, horder, hruns, hlast, rfl⟩

/-! ## Other declaration orders -/

/-- The placeholders of a step point at steps it depends on. -/
def ReadsOnlyDeclared (w : Workflow) : Prop :=
  ∀ s ∈ w.steps, ∀ X ∈ reads s.inputMapping, w.DependsOn s.stepId X

theorem ReadsOnlyDeclared.perm {w' : Workflow} (h : w.ReadsOnlyDeclared)
    (hperm : w.steps.Perm w'.steps) : w'.ReadsOnlyDeclared := by
  intro s hs X hX
  exact dependsOn_perm hperm (h s (hperm.mem_iff.mpr hs) X hX)

theorem ReadsOnlyDeclared.sorted (h : w.ReadsOnlyDeclared) {order : List Nat}
    (horder : (w.topoOrder : Except (WorkflowError E) _) = .ok order) :
    Schedule.Sorted WorkflowStep.stepId (fun s X => X ∈ reads s.inputMapping)
      (w.stepsAt order) := by
  intro pre s post hsplit X hX
  have hs : s ∈ w.steps := (names_before horder hsplit).1
  exact dependsOn_before horder hsplit (h s hs X hX)

/-- What one declaration order computes, another one does. -/
theorem runs_of_perm {w' : Workflow} (h : w.ReadsOnlyDeclared) (hperm : w.steps.Perm w'.steps)
    (hrun : ∃ r, w.run env exec = .ok r ∧ r.stepOutputs = out) :
    ∃ r, w'.run env exec = .ok r ∧ r.stepOutputs = out := by
  obtain ⟨order, horder, hruns⟩ := runs_iff.mp hrun
  obtain ⟨order', horder'⟩ := exists_topoOrder_perm hperm horder
  have hsame : (w.stepsAt order).Perm (w'.stepsAt order') :=
    ((perm_stepsAt horder).trans hperm).trans (perm_stepsAt horder').symm
  refine runs_iff.mpr ⟨order', horder', ?_⟩
  exact (Schedule.runs_perm evalStep_congr (nodup_stepsAt horder) hsame (h.sorted horder)
    ((h.perm hperm).sorted horder')).mp hruns

/-- The last step of an order is one that no step depends on. -/
theorem final_not_named {order : List Nat}
    (h : (w.topoOrder : Except (WorkflowError E) _) = .ok order) {final : WorkflowStep}
    (hlast : (w.stepsAt order).getLast? = some final) :
    final ∈ w.steps ∧ ∀ s ∈ w.steps, final.stepId ∉ s.dependsOn := by
  obtain ⟨init, hinit⟩ := List.getLast?_eq_some_iff.mp hlast
  have hperm := perm_stepsAt h
  refine ⟨hperm.subset (by simp [hinit]), fun s hs hdep => ?_⟩
  have hmem : s ∈ w.stepsAt order := hperm.mem_iff.mpr hs
  obtain ⟨pre, post, hsplit⟩ := List.append_of_mem hmem
  have hbefore := (names_before h hsplit).2 _ hdep
  have hnd := nodup_stepsAt h
  -- the final step would stand before `s` and at the end
  have hpre : final.stepId ∉ pre.map WorkflowStep.stepId := by
    rw [hsplit] at hinit hnd
    intro hin
    rw [List.map_append, List.nodup_append] at hnd
    refine hnd.2.2 _ hin _ ?_ rfl
    have hlast' : (s :: post).getLast? = some final := by
      rw [← List.getLast?_append_of_ne_nil pre (by simp), hinit]
      simp
    exact List.mem_map_of_mem (List.mem_of_getLast? hlast')
  exact hpre hbefore

/-- A list of the same steps is accepted. -/
theorem exists_new_perm {steps : List WorkflowStep} (hperm : w.steps.Perm steps) :
    ∃ w', (new steps : Except (WorkflowError E) Workflow) = .ok w' ∧ w'.steps = steps := by
  have hids := hperm.map WorkflowStep.stepId
  let w' : Workflow :=
    { steps := steps
      nonempty := fun hnil => w.nonempty (hnil ▸ hperm).eq_nil
      nodup := hids.nodup_iff.mp w.nodup
      known := fun s hs d hd => hids.mem_iff.mp (w.known s (hperm.mem_iff.mpr hs) d hd) }
  exact ⟨w', new_steps w', rfl⟩

/-- Whatever order the steps are declared in, a workflow whose placeholders point only
at what their step depends on is accepted, succeeds alike and ends with the same
outputs, and no step depends on the final one. -/
theorem run_perm (w : Workflow) (h : w.ReadsOnlyDeclared) (steps : List WorkflowStep)
    (hperm : w.steps.Perm steps) (env : Env A) (exec : Executor A E) :
    ∃ w', (new steps : Except (WorkflowError E) Workflow) = .ok w' ∧ w'.steps = steps ∧
      (∀ out, (∃ r, w.run env exec = .ok r ∧ r.stepOutputs = out) ↔
        ∃ r, w'.run env exec = .ok r ∧ r.stepOutputs = out) ∧
      ∀ r, w'.run env exec = .ok r →
        r.finalStepId ∈ steps.map WorkflowStep.stepId ∧
          ∀ s ∈ steps, r.finalStepId ∉ s.dependsOn := by
  obtain ⟨w', hnew, rfl⟩ := exists_new_perm (E := E) hperm
  refine ⟨w', hnew, rfl, fun out => ⟨?_, ?_⟩, fun r hr => ?_⟩
  · exact runs_of_perm h hperm
  · exact runs_of_perm (h.perm hperm) hperm.symm
  · obtain ⟨order, final, horder, -, hlast, hr⟩ := run_eq_ok_iff.mp hr
    rw [hr]
    obtain ⟨hfinal, hnone⟩ := final_not_named horder hlast
    exact ⟨List.mem_map_of_mem hfinal, hnone⟩

end

/-- The reader, declared first, passes on what the source put out. -/
theorem run_perm_reversed :
    ∃ w', (new [readerStep true, sourceStep, otherStep] : Except (WorkflowError Unit) Workflow) =
        .ok w' ∧
      ∃ r, w'.run readerEnv (answering true false) = .ok r ∧
        r.stepOutputs "source" = some (.bool true) := by
  have hreads : (readerWorkflow true).ReadsOnlyDeclared := by
    intro s hs X hX
    simp only [readerWorkflow, List.mem_cons, List.not_mem_nil, or_false] at hs
    rcases hs with rfl | rfl | rfl
    · exact absurd (hX : X ∈ []) List.not_mem_nil
    · exact absurd (hX : X ∈ []) List.not_mem_nil
    · have hX' : X ∈ ["source"] := hX
      obtain rfl := List.mem_singleton.mp hX'
      exact .single ⟨readerStep true, by simp [readerWorkflow], rfl, by simp [readerStep]⟩
  have hperm : (readerWorkflow true).steps.Perm [readerStep true, sourceStep, otherStep] :=
    (List.reverse_perm (readerWorkflow true).steps).symm
  obtain ⟨w', hnew, -, hruns, -⟩ :=
    run_perm (readerWorkflow true) hreads _ hperm readerEnv (answering true false)
  obtain ⟨r, hr, hout⟩ := (hruns _).mp ⟨_, rfl, rfl⟩
  refine ⟨w', hnew, r, hr, ?_⟩
  rw [hout]
  rfl

end Parseh.Agent.Workflow
