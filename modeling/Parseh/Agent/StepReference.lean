import Mathlib.Data.List.Induction
import Parseh.Agent.Workflow

/-!
# References to the output of a step

A mapping refers to the output of a step as `{{steps.<id>.output}}`.  `new` accepts
any string as an id; the resolver splits the reference at the dots.  Braces and
blanks in an id do no harm, since the reference begins and ends with its own.

* `wholePlaceholder_stepReference`: the reference is a placeholder, whatever the id;
* `splitPath_stepReference`: its path is that of the id between two segments;
* `stepReference_iff`: it stands for the output of the step if the id has no dot,
  and otherwise only if the segments happen to lead to the same value.
-/

namespace Parseh.Agent

open Parseh.Wire

/-- The string `{{steps.<id>.output}}`. -/
def stepReference (stepId : String) : String :=
  "\x7b\x7bsteps." ++ stepId ++ ".output\x7d\x7d"

/-- The path between the braces. -/
def stepPath (stepId : String) : List Char :=
  "steps".toList ++ '.' :: (stepId.toList ++ '.' :: "output".toList)

theorem stepPath_eq (stepId : String) :
    stepPath stepId = "steps".toList ++ '.' :: (stepId.toList ++ '.' :: "output".toList) := rfl

/-! ## The reference as a placeholder -/

theorem toList_stepReference (stepId : String) :
    (stepReference stepId).toList = '{' :: '{' :: (stepPath stepId ++ ['}', '}']) := by
  simp [stepReference, stepPath_eq]

theorem wholePlaceholder_stepReference (stepId : String) :
    wholePlaceholder (stepReference stepId) = some (stepPath stepId) := by
  have houter : trim (stepReference stepId).toList =
      '{' :: '{' :: (stepPath stepId ++ ['}', '}']) := by
    have hsplit : ('{' :: '{' :: (stepPath stepId ++ ['}', '}'])) =
        '{' :: (('{' :: (stepPath stepId ++ ['}'])) ++ ['}']) := by simp
    rw [toList_stepReference, hsplit]
    exact trim_of_ends (by decide) (by decide) _
  have hinner : trim (stepPath stepId) = stepPath stepId := by
    have hsplit : stepPath stepId =
        's' :: (("teps".toList ++ '.' :: (stepId.toList ++ '.' :: "outpu".toList)) ++ ['t']) := by
      simp [stepPath_eq]
    rw [hsplit]
    exact trim_of_ends (by decide) (by decide) _
  unfold wholePlaceholder
  rw [houter]
  simp only [stripClosing_append, Option.map_some, hinner]

theorem splitPath_stepReference (stepId : String) :
    splitPath (stepPath stepId) = "steps" :: (splitPath stepId.toList ++ ["output"]) := by
  have hsteps : "steps".toList.splitOn '.' = ["steps".toList] :=
    List.splitOn_eq_singleton (by decide)
  have houtput : "output".toList.splitOn '.' = ["output".toList] :=
    List.splitOn_eq_singleton (by decide)
  unfold splitPath
  rw [stepPath_eq, List.splitOn_append_cons_self, List.splitOn_append_cons_self, hsteps, houtput]
  simp

/-- An id without dots is one segment. -/
theorem splitPath_of_notMem {stepId : String} (h : '.' ∉ stepId.toList) :
    splitPath stepId.toList = [stepId] := by
  rw [splitPath, List.splitOn_eq_singleton h]
  simp

/-- An id with a dot has at least two segments. -/
theorem splitPath_of_mem {stepId : String} (h : '.' ∈ stepId.toList) :
    ∃ a b rest, splitPath stepId.toList = a :: b :: rest := by
  obtain ⟨pre, post, heq⟩ := List.append_of_mem h
  rw [splitPath, heq, List.splitOn_append_cons_self, List.map_append]
  obtain ⟨p, ps, hp⟩ := List.exists_cons_of_ne_nil (List.splitOn_ne_nil '.' pre)
  obtain ⟨q, qs, hq⟩ := List.exists_cons_of_ne_nil (List.splitOn_ne_nil '.' post)
  rw [hp, hq]
  cases ps with
  | nil => exact ⟨_, _, _, rfl⟩
  | cons p' ps => exact ⟨_, _, _, rfl⟩

/-! ## What the reference stands for -/

/-- The segments of a dotted id lead, through another step, to the output of its own. -/
def LeadsToOwn (outputs : StepOutputs) (stepId : String) : Prop :=
  ∃ a rest, splitPath stepId.toList = a :: "output" :: rest ∧
    ((outputs a).bind fun base => walk base (rest ++ ["output"])) = outputs stepId

variable {initial : Value} {outputs : StepOutputs} {stepId : String}

theorem resolvePath_stepReference {v : Value} (hv : outputs stepId = some v) :
    resolvePath (splitPath (stepPath stepId)) initial outputs = some v ↔
      '.' ∉ stepId.toList ∨ LeadsToOwn outputs stepId := by
  rw [splitPath_stepReference]
  by_cases hdot : '.' ∈ stepId.toList
  · obtain ⟨a, b, rest, hsplit⟩ := splitPath_of_mem hdot
    rw [hsplit, or_iff_right (not_not.mpr hdot), LeadsToOwn, hsplit, hv]
    simp only [List.cons_append, resolvePath]
    by_cases hb : b = "output"
    · subst hb
      simp
    · simp [hb]
  · rw [splitPath_of_notMem hdot]
    simp [resolvePath, hdot, hv, walk]

theorem resolveMapping_stepReference {E : Type} {v : Value} {reader : String} :
    (resolveMapping (.string (stepReference stepId)) initial outputs reader :
      Except (WorkflowError E) Value) = .ok v ↔
      resolvePath (splitPath (stepPath stepId)) initial outputs = some v := by
  simp only [resolveMapping, resolveString, wholePlaceholder_stepReference]
  cases resolvePath (splitPath (stepPath stepId)) initial outputs with
  | none => simp
  | some u => simp

namespace Workflow

variable {A E : Type} {w : Workflow} {env : Env A} {exec : Executor A E} {s t : WorkflowStep}

/-- In front of `t`, the reference to `s` resolves to what `s` has produced. -/
def Referenced (w : Workflow) (env : Env A) (exec : Executor A E) (s t : WorkflowStep)
    (outputs : StepOutputs) : Prop :=
  ∃ v, w.Produces env exec s.stepId v ∧
    (resolveMapping (.string (stepReference s.stepId)) env.initialInput outputs t.stepId :
      Except (WorkflowError E) Value) = .ok v

/-- A step that has been reached finds the outputs of what it depends on. -/
theorem exists_output (h : w.Reaches env exec t outputs) {d : String}
    (hd : w.DependsOn t.stepId d) : ∃ v, outputs d = some v := by
  obtain ⟨order, pre, post, horder, hsplit, hrun⟩ := h
  have hmem := dependsOn_before horder hsplit hd
  clear hsplit hd
  induction pre using List.reverseRecOn generalizing outputs with
  | nil => cases hmem
  | append_singleton pre p ih =>
    rw [List.foldlM_append] at hrun
    obtain ⟨mid, hmid, hlast⟩ := bind_eq_ok hrun
    rw [List.foldlM_cons] at hlast
    obtain ⟨last, hstep, hnil⟩ := bind_eq_ok hlast
    obtain rfl : last = outputs := Except.ok.inj hnil
    obtain ⟨-, -, output, -, -, -, rfl⟩ := runStep_eq_ok_iff.mp hstep
    by_cases hp : d = p.stepId
    · exact ⟨output, by rw [hp, Function.update_self]⟩
    · rw [Function.update_of_ne hp]
      refine ih hmid ?_
      simpa [hp] using hmem

/-- **References.**  When a step is reached, the reference to a step it depends on
resolves to the output of that step if and only if the id has no dot, or its segments
lead to the same value by another way. -/
theorem stepReference_iff (h : w.Reaches env exec t outputs)
    (hd : w.DependsOn t.stepId s.stepId) :
    w.Referenced env exec s t outputs ↔
      '.' ∉ s.stepId.toList ∨ LeadsToOwn outputs s.stepId := by
  obtain ⟨v, hv⟩ := exists_output h hd
  have hpath : resolvePath (splitPath (stepPath s.stepId)) env.initialInput outputs = some v ↔
      '.' ∉ s.stepId.toList ∨ LeadsToOwn outputs s.stepId := resolvePath_stepReference hv
  rw [← hpath]
  simp only [Referenced, resolveMapping_stepReference]
  constructor
  · rintro ⟨v', hprod, hpath⟩
    rw [hpath, ← (produced_before h hd v').mpr hprod, hv]
  · intro hpath
    exact ⟨v, (produced_before h hd v).mp hv, hpath⟩

/-! ### An id with a dot -/

/-- The workflow of a source with this id and of a step that depends on it. -/
def referringWorkflow (stepId : String) (h : stepId ≠ "reader") : Workflow where
  steps := [⟨stepId, ⟨hashOf 1⟩, .null, []⟩,
    ⟨"reader", ⟨hashOf 2⟩, .string (stepReference stepId), [stepId]⟩]
  nonempty := by simp
  nodup := by simpa using h
  known := by simp

/-- What the source has put out when the reader is reached. -/
def sourceOutput (stepId : String) : StepOutputs :=
  Function.update (fun _ => none) stepId (some (.bool true))

theorem dependsOn_referring (stepId : String) (h : stepId ≠ "reader") :
    (referringWorkflow stepId h).DependsOn "reader" stepId :=
  .single ⟨_, List.mem_cons_of_mem _ List.mem_cons_self, rfl, by simp⟩

/-- The reader is reached, and the reference to `a.b` does not resolve. -/
theorem dotted_id_unresolved :
    ∃ s t, s ∈ (referringWorkflow "a.b" (by decide)).steps ∧
      (referringWorkflow "a.b" (by decide)).Reaches readerEnv (answering true true) t
        (sourceOutput "a.b") ∧
      (referringWorkflow "a.b" (by decide)).DependsOn t.stepId s.stepId ∧
      ¬ (referringWorkflow "a.b" (by decide)).Referenced readerEnv (answering true true) s t
        (sourceOutput "a.b") := by
  refine ⟨⟨"a.b", ⟨hashOf 1⟩, .null, []⟩, ⟨"reader", ⟨hashOf 2⟩,
    .string (stepReference "a.b"), ["a.b"]⟩, by simp [referringWorkflow],
    ⟨[0, 1], [⟨"a.b", ⟨hashOf 1⟩, .null, []⟩], [], rfl, rfl, rfl⟩,
    dependsOn_referring "a.b" (by decide), ?_⟩
  rintro ⟨v, -, hok⟩
  -- the segment after `a` is `b`, where the grammar has `output`
  have hnone : resolvePath (splitPath (stepPath "a.b")) readerEnv.initialInput
      (sourceOutput "a.b") = none := rfl
  rw [resolveMapping_stepReference, hnone] at hok
  cases hok

/-- The same reader with a source `a b` gets its output. -/
theorem blank_id_resolved :
    (referringWorkflow "a b" (by decide)).Referenced readerEnv (answering true true)
      ⟨"a b", ⟨hashOf 1⟩, .null, []⟩
      ⟨"reader", ⟨hashOf 2⟩, .string (stepReference "a b"), ["a b"]⟩ (sourceOutput "a b") :=
  (stepReference_iff ⟨[0, 1], [⟨"a b", ⟨hashOf 1⟩, .null, []⟩], [], rfl, rfl, rfl⟩
    (dependsOn_referring "a b" (by decide))).mpr (Or.inl (by decide))

end Workflow

end Parseh.Agent
