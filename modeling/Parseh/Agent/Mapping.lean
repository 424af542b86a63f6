import Mathlib.Algebra.Group.Int.Defs
import Mathlib.Algebra.Group.Nat.Defs
import Mathlib.Data.List.Basic

/-!
# Input mappings (`parseh-agent-runtime`, `workflow.rs`)

A step's `input_mapping` is a JSON template.  A string of the form
`{{steps.<id>.output<.path>}}` or `{{initial<.path>}}` stands for the JSON value it
points at; every other string stands for itself.

* `reads`: the steps a template points at;
* `resolveMapping_congr`: the resolver looks at the outputs of these steps and at
  no others;
* `resolveMapping_perturbAt`: it does look at them: for every output of a step that
  a template points at there is another one for which it resolves to something else.
-/

namespace Parseh.Agent

/-- `serde_json::Number`; a float is its bits. -/
inductive Number
  | posInt (n : UInt64)
  | negInt (n : Int64)
  | float (bits : UInt64)
  deriving DecidableEq

/-- `serde_json::Value`; the fields of an object are listed in the map's order. -/
inductive Value
  | null
  | bool (b : Bool)
  | number (n : Number)
  | string (s : String)
  | array (items : List Value)
  | object (fields : List (String × Value))

/-- `E` is the executor's error. -/
inductive WorkflowError (E : Type)
  | duplicateStepId (stepId : String)
  | unknownDependency (step dep : String)
  | cycleDetected (steps : String)
  | agentNotFound (step agent : String)
  | undefinedMappingPath (step path : String)
  | empty
  | stepFailed (step : String) (source : E)

/-! ## Placeholders -/

/-- `char::is_whitespace`: the Unicode property `White_Space`. -/
def isWhitespace (c : Char) : Bool :=
  let n := c.toNat
  (0x9 ≤ n ∧ n ≤ 0xD) ∨ n = 0x20 ∨ n = 0x85 ∨ n = 0xA0 ∨ n = 0x1680 ∨
    (0x2000 ≤ n ∧ n ≤ 0x200A) ∨ n = 0x2028 ∨ n = 0x2029 ∨ n = 0x202F ∨ n = 0x205F ∨ n = 0x3000

def trim (cs : List Char) : List Char :=
  ((cs.dropWhile isWhitespace).reverse.dropWhile isWhitespace).reverse

/-- `str::strip_suffix` of two closing braces. -/
def stripClosing (cs : List Char) : Option (List Char) :=
  match cs.reverse with
  | '}' :: '}' :: rest => some rest.reverse
  | _ => none

/-- A text that begins and ends with something else than a blank stays. -/
theorem trim_of_ends {a b : Char} (ha : isWhitespace a = false) (hb : isWhitespace b = false)
    (mid : List Char) : trim (a :: (mid ++ [b])) = a :: (mid ++ [b]) := by
  unfold trim
  rw [List.dropWhile_cons_of_neg (by simp [ha]), List.reverse_cons, List.reverse_append,
    List.reverse_singleton, List.singleton_append, List.cons_append,
    List.dropWhile_cons_of_neg (by simp [hb])]
  simp

theorem stripClosing_append (cs : List Char) : stripClosing (cs ++ ['}', '}']) = some cs := by
  simp [stripClosing]

/-- The trimmed inner path of a string that is a placeholder as a whole. -/
def wholePlaceholder (s : String) : Option (List Char) :=
  match trim s.toList with
  | '{' :: '{' :: rest => (stripClosing rest).map trim
  | _ => none

/-- `str::split('.')`. -/
def splitPath (path : List Char) : List String := (path.splitOn '.').map String.ofList

def digit? (c : Char) : Option Nat :=
  if '0' ≤ c ∧ c ≤ '9' then some (c.toNat - '0'.toNat) else none

/-- `str::parse::<usize>`: an optional sign `+`, then digits, at least one, whose
value fits in 64 bits. -/
def parseUsize (seg : String) : Option Nat :=
  let digits := match seg.toList with
    | '+' :: rest => rest
    | cs => cs
  match digits.mapM digit? with
  | some (d :: ds) =>
    let n := (d :: ds).foldl (fun n d => 10 * n + d) 0
    if n < 2 ^ 64 then some n else none
  | _ => none

/-- `Value::get` with a string. -/
def Value.get (v : Value) (key : String) : Option Value :=
  match v with
  | .object fields => fields.lookup key
  | _ => none

/-- One segment: an array takes a number as an index, everything else a key. -/
def walkSegment (cur : Value) (seg : String) : Option Value :=
  match cur, parseUsize seg with
  | .array items, some idx => items[idx]?
  | cur, _ => cur.get seg

def walk (base : Value) (segs : List String) : Option Value := segs.foldlM walkSegment base

/-- `BTreeMap<String, Value>`: the outputs so far, by step id. -/
abbrev StepOutputs := String → Option Value

/-- `steps.<id>.output[.path]` or `initial[.path]`. -/
def resolvePath (segs : List String) (initial : Value) (outputs : StepOutputs) : Option Value :=
  match segs with
  | "initial" :: segs => walk initial segs
  | "steps" :: stepId :: output :: segs =>
    if output ≠ "output" then none else (outputs stepId).bind fun base => walk base segs
  | _ => none

/-- The step a path points at. -/
def readsPath (segs : List String) : Option String :=
  match segs with
  | "steps" :: stepId :: "output" :: _ => some stepId
  | _ => none

variable {E : Type}

/-- A string of a template. -/
def resolveString (s : String) (initial : Value) (outputs : StepOutputs) (stepId : String) :
    Except (WorkflowError E) Value :=
  match wholePlaceholder s with
  | none => .ok (.string s)
  | some path =>
    match resolvePath (splitPath path) initial outputs with
    | some v => .ok v
    | none => .error (.undefinedMappingPath stepId (String.ofList path))

mutual

/-- `resolve_mapping`; the first placeholder without a value is an error. -/
def resolveMapping (mapping initial : Value) (outputs : StepOutputs) (stepId : String) :
    Except (WorkflowError E) Value :=
  match mapping with
  | .string s => resolveString s initial outputs stepId
  | .array items => do
    let out ← resolveItems items initial outputs stepId
    .ok (.array out)
  | .object fields => do
    let out ← resolveFields fields initial outputs stepId
    .ok (.object out)
  | other => .ok other

def resolveItems (items : List Value) (initial : Value) (outputs : StepOutputs) (stepId : String) :
    Except (WorkflowError E) (List Value) :=
  match items with
  | [] => .ok []
  | v :: items => do
    let out ← resolveMapping v initial outputs stepId
    let outs ← resolveItems items initial outputs stepId
    .ok (out :: outs)

def resolveFields (fields : List (String × Value)) (initial : Value) (outputs : StepOutputs)
    (stepId : String) : Except (WorkflowError E) (List (String × Value)) :=
  match fields with
  | [] => .ok []
  | (k, v) :: fields => do
    let out ← resolveMapping v initial outputs stepId
    let outs ← resolveFields fields initial outputs stepId
    .ok ((k, out) :: outs)

end

mutual

/-- The steps a template points at. -/
def reads (mapping : Value) : List String :=
  match mapping with
  | .string s => ((wholePlaceholder s).bind fun path => readsPath (splitPath path)).toList
  | .array items => readsItems items
  | .object fields => readsFields fields
  | _ => []

def readsItems (items : List Value) : List String :=
  match items with
  | [] => []
  | v :: items => reads v ++ readsItems items

def readsFields (fields : List (String × Value)) : List String :=
  match fields with
  | [] => []
  | (_, v) :: fields => reads v ++ readsFields fields

end

/-! ## The resolver looks at what the template points at -/

variable {initial : Value} {outputs outputs' : StepOutputs} {stepId : String}

theorem resolvePath_congr {segs : List String}
    (h : ∀ X, readsPath segs = some X → outputs X = outputs' X) :
    resolvePath segs initial outputs = resolvePath segs initial outputs' := by
  unfold resolvePath
  split
  · rfl
  · next stepId output segs =>
    by_cases ho : output = "output"
    · subst ho
      rw [h stepId rfl]
    · simp [ho]
  · rfl

theorem resolveString_congr {s : String} (h : ∀ X ∈ reads (.string s), outputs X = outputs' X) :
    (resolveString s initial outputs stepId : Except (WorkflowError E) Value) =
      resolveString s initial outputs' stepId := by
  unfold resolveString
  cases hp : wholePlaceholder s with
  | none => rfl
  | some path =>
    have hpath : resolvePath (splitPath path) initial outputs =
        resolvePath (splitPath path) initial outputs' := by
      refine resolvePath_congr fun X hX => h X ?_
      simp [reads, hp, hX]
    simp only [hpath]

mutual

theorem resolveMapping_congr : ∀ {mapping : Value},
    (∀ X ∈ reads mapping, outputs X = outputs' X) →
      (resolveMapping mapping initial outputs stepId : Except (WorkflowError E) Value) =
        resolveMapping mapping initial outputs' stepId
  | .string s, h => by
    simp only [resolveMapping]
    exact resolveString_congr h
  | .array items, h => by
    simp only [resolveMapping]
    rw [resolveItems_congr (by simpa only [reads] using h)]
  | .object fields, h => by
    simp only [resolveMapping]
    rw [resolveFields_congr (by simpa only [reads] using h)]
  | .null, _ => by simp only [resolveMapping]
  | .bool b, _ => by simp only [resolveMapping]
  | .number n, _ => by simp only [resolveMapping]

theorem resolveItems_congr : ∀ {items : List Value},
    (∀ X ∈ readsItems items, outputs X = outputs' X) →
      (resolveItems items initial outputs stepId : Except (WorkflowError E) (List Value)) =
        resolveItems items initial outputs' stepId
  | [], _ => by simp only [resolveItems]
  | v :: items, h => by
    simp only [readsItems, List.mem_append] at h
    simp only [resolveItems]
    rw [resolveMapping_congr fun X hX => h X (.inl hX),
      resolveItems_congr fun X hX => h X (.inr hX)]

theorem resolveFields_congr : ∀ {fields : List (String × Value)},
    (∀ X ∈ readsFields fields, outputs X = outputs' X) →
      (resolveFields fields initial outputs stepId : Except (WorkflowError E) _) =
        resolveFields fields initial outputs' stepId
  | [], _ => by simp only [resolveFields]
  | (k, v) :: fields, h => by
    simp only [readsFields, List.mem_append] at h
    simp only [resolveFields]
    rw [resolveMapping_congr fun X hX => h X (.inl hX),
      resolveFields_congr fun X hX => h X (.inr hX)]

end

/-! ## It does look at it -/

mutual

/-- A value with the same paths as `v` and with other values at their ends. -/
def Value.perturb : Value → Value
  | .null => .bool true
  | .array (v :: items) => .array (v.perturb :: perturbItems items)
  | .object ((k, v) :: fields) => .object ((k, v.perturb) :: perturbFields fields)
  | _ => .null

def perturbItems : List Value → List Value
  | [] => []
  | v :: items => v.perturb :: perturbItems items

def perturbFields : List (String × Value) → List (String × Value)
  | [] => []
  | (k, v) :: fields => (k, v.perturb) :: perturbFields fields

end

theorem perturb_ne : ∀ v : Value, v.perturb ≠ v
  | .null => by simp [Value.perturb]
  | .bool b => by simp [Value.perturb]
  | .number n => by simp [Value.perturb]
  | .string s => by simp [Value.perturb]
  | .array [] => by simp [Value.perturb]
  | .object [] => by simp [Value.perturb]
  | .array (v :: items) => by
    simp only [Value.perturb, ne_eq, Value.array.injEq, List.cons.injEq, not_and]
    exact fun h => absurd h (perturb_ne v)
  | .object ((k, v) :: fields) => by
    simp only [Value.perturb, ne_eq, Value.object.injEq, List.cons.injEq, Prod.mk.injEq, true_and,
      not_and]
    exact fun h => absurd h (perturb_ne v)

theorem perturbItems_eq (items : List Value) : perturbItems items = items.map Value.perturb := by
  induction items with
  | nil => simp [perturbItems]
  | cons v items ih => simp [perturbItems, ih]

theorem lookup_perturbFields (fields : List (String × Value)) (key : String) :
    (perturbFields fields).lookup key = (fields.lookup key).map Value.perturb := by
  induction fields with
  | nil => simp [perturbFields]
  | cons f fields ih =>
    obtain ⟨k, v⟩ := f
    simp only [perturbFields, List.lookup_cons]
    cases key == k with
    | false => exact ih
    | true => rfl

theorem walkSegment_perturb (v : Value) (seg : String) :
    walkSegment v.perturb seg = (walkSegment v seg).map Value.perturb := by
  cases v with
  | array items =>
    cases items with
    | nil => cases h : parseUsize seg <;> simp [Value.perturb, walkSegment, Value.get, h]
    | cons v items =>
      cases h : parseUsize seg with
      | none => simp [Value.perturb, walkSegment, Value.get, h]
      | some idx =>
        cases idx <;> simp [Value.perturb, walkSegment, h, perturbItems_eq]
  | object fields =>
    cases fields with
    | nil => simp [Value.perturb, walkSegment, Value.get]
    | cons f fields =>
      have hl := lookup_perturbFields (f :: fields) seg
      simpa [Value.perturb, walkSegment, Value.get, perturbFields] using hl
  | null => simp [Value.perturb, walkSegment, Value.get]
  | bool b => simp [Value.perturb, walkSegment, Value.get]
  | number n => simp [Value.perturb, walkSegment, Value.get]
  | string s => simp [Value.perturb, walkSegment, Value.get]

theorem walk_perturb (v : Value) (segs : List String) :
    walk v.perturb segs = (walk v segs).map Value.perturb := by
  induction segs generalizing v with
  | nil => rfl
  | cons seg segs ih =>
    unfold walk at ih ⊢
    rw [List.foldlM_cons, List.foldlM_cons, walkSegment_perturb]
    cases walkSegment v seg with
    | none => rfl
    | some u => exact ih u

/-- The outputs, with that of `X` perturbed. -/
def perturbAt (X : String) (outputs : StepOutputs) : StepOutputs :=
  fun id => if id = X then (outputs id).map Value.perturb else outputs id

theorem perturbAt_of_some {X id : String} {outputs : StepOutputs} {v : Value}
    (h : outputs id = some v) :
    perturbAt X outputs id = some (if id = X then v.perturb else v) := by
  unfold perturbAt
  split <;> simp [h]

theorem perturbAt_update (X id : String) (outputs : StepOutputs) (v : Value) :
    perturbAt X (Function.update outputs id (some v)) =
      Function.update (perturbAt X outputs) id (some (if id = X then v.perturb else v)) := by
  funext i
  by_cases hi : i = id
  · subst hi
    rw [Function.update_self]
    exact perturbAt_of_some (Function.update_self ..)
  · simp [perturbAt, Function.update_of_ne hi]

theorem readsPath_eq_some {segs : List String} {X : String} (h : readsPath segs = some X) :
    ∃ rest, segs = "steps" :: X :: "output" :: rest := by
  unfold readsPath at h
  split at h
  · next stepId rest =>
    obtain rfl := Option.some.inj h
    exact ⟨rest, rfl⟩
  · cases h

theorem bind_eq_ok {ε α β : Type} {x : Except ε α} {f : α → Except ε β} {b : β}
    (h : x >>= f = .ok b) : ∃ a, x = .ok a ∧ f a = .ok b := by
  cases x with
  | error e => cases h
  | ok a => exact ⟨a, rfl, h⟩

variable {X : String}

theorem resolvePath_perturbAt {segs : List String} {r : Value}
    (h : resolvePath segs initial outputs = some r) :
    resolvePath segs initial (perturbAt X outputs) =
      if readsPath segs = some X then some r.perturb else some r := by
  by_cases hX : readsPath segs = some X
  · obtain ⟨rest, rfl⟩ := readsPath_eq_some hX
    simp only [resolvePath, ne_eq, not_true_eq_false, if_false] at h ⊢
    cases ho : outputs X with
    | none => simp [ho] at h
    | some base =>
      simp only [ho, Option.bind_some] at h
      simp [perturbAt, ho, walk_perturb, h, hX]
  · rw [if_neg hX, ← h]
    refine resolvePath_congr fun Y hY => if_neg ?_
    rintro rfl
    exact hX hY

theorem resolveString_perturbAt {s : String} {r : Value}
    (h : resolveString s initial outputs stepId = (.ok r : Except (WorkflowError E) Value)) :
    ∃ r', resolveString s initial (perturbAt X outputs) stepId =
      (.ok r' : Except (WorkflowError E) Value) ∧ (X ∈ reads (.string s) → r' ≠ r) := by
  cases hp : wholePlaceholder s with
  | none => exact ⟨r, by simpa [resolveString, hp] using h, by simp [reads, hp]⟩
  | some path =>
    cases hr : resolvePath (splitPath path) initial outputs with
    | none => simp [resolveString, hp, hr] at h
    | some u =>
      obtain rfl : u = r := by simpa [resolveString, hp, hr] using h
      have hnew := resolvePath_perturbAt (X := X) hr
      by_cases hX : readsPath (splitPath path) = some X
      · rw [if_pos hX] at hnew
        exact ⟨u.perturb, by simp [resolveString, hp, hnew], fun _ => perturb_ne u⟩
      · rw [if_neg hX] at hnew
        exact ⟨u, by simp [resolveString, hp, hnew], by simp [reads, hp, hX]⟩

mutual

/-- A template that resolves still does, and to something else if it points at `X`. -/
theorem resolveMapping_perturbAt : ∀ {mapping r : Value},
    resolveMapping mapping initial outputs stepId = (.ok r : Except (WorkflowError E) Value) →
    ∃ r', resolveMapping mapping initial (perturbAt X outputs) stepId =
      (.ok r' : Except (WorkflowError E) Value) ∧ (X ∈ reads mapping → r' ≠ r)
  | .string s, r, h => by
    simp only [resolveMapping] at h ⊢
    exact resolveString_perturbAt h
  | .array items, r, h => by
    simp only [resolveMapping, reads] at h ⊢
    obtain ⟨out, hout, h⟩ := bind_eq_ok h
    obtain rfl := Except.ok.inj h
    obtain ⟨out', hout', hne⟩ := resolveItems_perturbAt hout
    refine ⟨.array out', ?_, by simpa using hne⟩
    rw [hout']
    rfl
  | .object fields, r, h => by
    simp only [resolveMapping, reads] at h ⊢
    obtain ⟨out, hout, h⟩ := bind_eq_ok h
    obtain rfl := Except.ok.inj h
    obtain ⟨out', hout', hne⟩ := resolveFields_perturbAt hout
    refine ⟨.object out', ?_, by simpa using hne⟩
    rw [hout']
    rfl
  | .null, r, h => ⟨r, by simpa only [resolveMapping] using h, by simp [reads]⟩
  | .bool b, r, h => ⟨r, by simpa only [resolveMapping] using h, by simp [reads]⟩
  | .number n, r, h => ⟨r, by simpa only [resolveMapping] using h, by simp [reads]⟩

theorem resolveItems_perturbAt : ∀ {items out : List Value},
    resolveItems items initial outputs stepId = (.ok out : Except (WorkflowError E) _) →
    ∃ out', resolveItems items initial (perturbAt X outputs) stepId =
      (.ok out' : Except (WorkflowError E) _) ∧ (X ∈ readsItems items → out' ≠ out)
  | [], out, h => ⟨out, by simpa only [resolveItems] using h, by simp [readsItems]⟩
  | v :: items, out, h => by
    simp only [resolveItems, readsItems, List.mem_append] at h ⊢
    obtain ⟨a, ha, h⟩ := bind_eq_ok h
    obtain ⟨as, has, h⟩ := bind_eq_ok h
    obtain rfl := Except.ok.inj h
    obtain ⟨a', ha', hne⟩ := resolveMapping_perturbAt ha
    obtain ⟨as', has', hnes⟩ := resolveItems_perturbAt has
    refine ⟨a' :: as', ?_, ?_⟩
    · rw [ha', has']
      rfl
    · rintro (hX | hX) heq
      · exact hne hX (List.cons.inj heq).1
      · exact hnes hX (List.cons.inj heq).2

theorem resolveFields_perturbAt : ∀ {fields out : List (String × Value)},
    resolveFields fields initial outputs stepId = (.ok out : Except (WorkflowError E) _) →
    ∃ out', resolveFields fields initial (perturbAt X outputs) stepId =
      (.ok out' : Except (WorkflowError E) _) ∧ (X ∈ readsFields fields → out' ≠ out)
  | [], out, h => ⟨out, by simpa only [resolveFields] using h, by simp [readsFields]⟩
  | (k, v) :: fields, out, h => by
    simp only [resolveFields, readsFields, List.mem_append] at h ⊢
    obtain ⟨a, ha, h⟩ := bind_eq_ok h
    obtain ⟨as, has, h⟩ := bind_eq_ok h
    obtain rfl := Except.ok.inj h
    obtain ⟨a', ha', hne⟩ := resolveMapping_perturbAt ha
    obtain ⟨as', has', hnes⟩ := resolveFields_perturbAt has
    refine ⟨(k, a') :: as', ?_, ?_⟩
    · rw [ha', has']
      rfl
    · rintro (hX | hX) heq
      · exact hne hX (Prod.mk.inj (List.cons.inj heq).1).2
      · exact hnes hX (List.cons.inj heq).2

end

end Parseh.Agent
