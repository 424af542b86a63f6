import Parseh.Agent.Prompt

/-!
# What a mapping leaves alone (`parseh-agent-runtime`, `workflow.rs`)

The module's documentation promises that strings of the exact form
`{{steps.<id>.output[.path]}}` or `{{initial[.path]}}` are replaced and that every other
string passes through.  The code recognises a placeholder by its ends alone, after
trimming.

* `exactPath`: the documented form;
* `Value.Rel`: a template and a value of the same shape, with a relation between the
  strings of the one and what stands there in the other;
* `resolveMapping_eq_ok_iff`: what the resolver does is such a relation;
* `literals_pass_iff`: it does what is documented exactly on the templates without a
  string that only has the ends of a placeholder, or that are to fail anyway.
-/

namespace Parseh.Agent

/-! ## Templates and values of the same shape -/

mutual

/-- `r` has the shape and the keys of `mapping`, and `P` relates each string of it to
what stands in its place. -/
def Value.Rel (P : String → Value → Prop) (mapping r : Value) : Prop :=
  match mapping with
  | .string s => P s r
  | .array items => ∃ out, r = .array out ∧ RelItems P items out
  | .object fields => ∃ out, r = .object out ∧ RelFields P fields out
  | other => r = other

def RelItems (P : String → Value → Prop) (items out : List Value) : Prop :=
  match items with
  | [] => out = []
  | v :: items => ∃ u us, out = u :: us ∧ v.Rel P u ∧ RelItems P items us

def RelFields (P : String → Value → Prop) (fields out : List (String × Value)) : Prop :=
  match fields with
  | [] => out = []
  | (k, v) :: fields => ∃ u us, out = (k, u) :: us ∧ v.Rel P u ∧ RelFields P fields us

end

mutual

/-- The strings of a template. -/
def strings (mapping : Value) : List String :=
  match mapping with
  | .string s => [s]
  | .array items => stringsItems items
  | .object fields => stringsFields fields
  | _ => []

def stringsItems (items : List Value) : List String :=
  match items with
  | [] => []
  | v :: items => strings v ++ stringsItems items

def stringsFields (fields : List (String × Value)) : List String :=
  match fields with
  | [] => []
  | (_, v) :: fields => strings v ++ stringsFields fields

end

variable {P Q : String → Value → Prop}

mutual

/-- There is a value for a template exactly if there is one for each of its strings. -/
theorem exists_rel_iff : ∀ mapping : Value,
    (∃ r, mapping.Rel P r) ↔ ∀ s ∈ strings mapping, ∃ v, P s v
  | .string s => by simp [Value.Rel, strings]
  | .array items => by
    have ih := exists_relItems_iff items
    simp only [Value.Rel, strings]
    rw [← ih]
    constructor
    · rintro ⟨r, out, rfl, hout⟩
      exact ⟨out, hout⟩
    · rintro ⟨out, hout⟩
      exact ⟨.array out, out, rfl, hout⟩
  | .object fields => by
    have ih := exists_relFields_iff fields
    simp only [Value.Rel, strings]
    rw [← ih]
    constructor
    · rintro ⟨r, out, rfl, hout⟩
      exact ⟨out, hout⟩
    · rintro ⟨out, hout⟩
      exact ⟨.object out, out, rfl, hout⟩
  | .null => by simp [Value.Rel, strings]
  | .bool b => by simp [Value.Rel, strings]
  | .number n => by simp [Value.Rel, strings]

theorem exists_relItems_iff : ∀ items : List Value,
    (∃ out, RelItems P items out) ↔ ∀ s ∈ stringsItems items, ∃ v, P s v
  | [] => by simp [RelItems, stringsItems]
  | v :: items => by
    have hv := exists_rel_iff v
    have ih := exists_relItems_iff items
    simp only [RelItems, stringsItems, List.mem_append, or_imp, forall_and]
    rw [← hv, ← ih]
    constructor
    · rintro ⟨_, u, us, rfl, hu, hus⟩
      exact ⟨⟨u, hu⟩, us, hus⟩
    · rintro ⟨⟨u, hu⟩, us, hus⟩
      exact ⟨u :: us, u, us, rfl, hu, hus⟩

theorem exists_relFields_iff : ∀ fields : List (String × Value),
    (∃ out, RelFields P fields out) ↔ ∀ s ∈ stringsFields fields, ∃ v, P s v
  | [] => by simp [RelFields, stringsFields]
  | (k, v) :: fields => by
    have hv := exists_rel_iff v
    have ih := exists_relFields_iff fields
    simp only [RelFields, stringsFields, List.mem_append, or_imp, forall_and]
    rw [← hv, ← ih]
    constructor
    · rintro ⟨_, u, us, rfl, hu, hus⟩
      exact ⟨⟨u, hu⟩, us, hus⟩
    · rintro ⟨⟨u, hu⟩, us, hus⟩
      exact ⟨(k, u) :: us, u, us, rfl, hu, hus⟩

end

mutual

theorem rel_and : ∀ {mapping r : Value},
    mapping.Rel (fun s v => P s v ∧ Q s v) r ↔ mapping.Rel P r ∧ mapping.Rel Q r
  | .string s, r => by simp [Value.Rel]
  | .array items, r => by
    simp only [Value.Rel]
    constructor
    · rintro ⟨out, rfl, hout⟩
      obtain ⟨hP, hQ⟩ := relItems_and.mp hout
      exact ⟨⟨out, rfl, hP⟩, out, rfl, hQ⟩
    · rintro ⟨⟨out, rfl, hP⟩, out', heq, hQ⟩
      obtain rfl := Value.array.inj heq
      exact ⟨out, rfl, relItems_and.mpr ⟨hP, hQ⟩⟩
  | .object fields, r => by
    simp only [Value.Rel]
    constructor
    · rintro ⟨out, rfl, hout⟩
      obtain ⟨hP, hQ⟩ := relFields_and.mp hout
      exact ⟨⟨out, rfl, hP⟩, out, rfl, hQ⟩
    · rintro ⟨⟨out, rfl, hP⟩, out', heq, hQ⟩
      obtain rfl := Value.object.inj heq
      exact ⟨out, rfl, relFields_and.mpr ⟨hP, hQ⟩⟩
  | .null, r => by simp [Value.Rel]
  | .bool b, r => by simp [Value.Rel]
  | .number n, r => by simp [Value.Rel]

theorem relItems_and : ∀ {items out : List Value},
    RelItems (fun s v => P s v ∧ Q s v) items out ↔ RelItems P items out ∧ RelItems Q items out
  | [], out => by simp [RelItems]
  | v :: items, out => by
    simp only [RelItems]
    constructor
    · rintro ⟨u, us, rfl, hu, hus⟩
      obtain ⟨hPu, hQu⟩ := rel_and.mp hu
      obtain ⟨hP, hQ⟩ := relItems_and.mp hus
      exact ⟨⟨u, us, rfl, hPu, hP⟩, u, us, rfl, hQu, hQ⟩
    · rintro ⟨⟨u, us, rfl, hPu, hP⟩, u', us', heq, hQu, hQ⟩
      obtain ⟨rfl, rfl⟩ := List.cons.inj heq
      exact ⟨u, us, rfl, rel_and.mpr ⟨hPu, hQu⟩, relItems_and.mpr ⟨hP, hQ⟩⟩

theorem relFields_and : ∀ {fields out : List (String × Value)},
    RelFields (fun s v => P s v ∧ Q s v) fields out ↔
      RelFields P fields out ∧ RelFields Q fields out
  | [], out => by simp [RelFields]
  | (k, v) :: fields, out => by
    simp only [RelFields]
    constructor
    · rintro ⟨u, us, rfl, hu, hus⟩
      obtain ⟨hPu, hQu⟩ := rel_and.mp hu
      obtain ⟨hP, hQ⟩ := relFields_and.mp hus
      exact ⟨⟨u, us, rfl, hPu, hP⟩, u, us, rfl, hQu, hQ⟩
    · rintro ⟨⟨u, us, rfl, hPu, hP⟩, u', us', heq, hQu, hQ⟩
      obtain ⟨hhead, rfl⟩ := List.cons.inj heq
      obtain rfl := (Prod.mk.inj hhead).2
      exact ⟨u, us, rfl, rel_and.mpr ⟨hPu, hQu⟩, relFields_and.mpr ⟨hP, hQ⟩⟩

end

/-! ## The resolver -/

variable {E : Type} {initial : Value} {outputs : StepOutputs} {stepId : String}

mutual

/-- The resolver returns `r` exactly if it returns for each string what stands in its
place. -/
theorem resolveMapping_eq_ok_iff : ∀ {mapping r : Value},
    (resolveMapping mapping initial outputs stepId : Except (WorkflowError E) Value) = .ok r ↔
      mapping.Rel (fun s v =>
        (resolveString s initial outputs stepId : Except (WorkflowError E) Value) = .ok v) r
  | .string s, r => by simp only [resolveMapping, Value.Rel]
  | .array items, r => by
    simp only [resolveMapping, Value.Rel]
    constructor
    · intro h
      obtain ⟨out, hout, h⟩ := bind_eq_ok h
      exact ⟨out, (Except.ok.inj h).symm, resolveItems_eq_ok_iff.mp hout⟩
    · rintro ⟨out, rfl, hout⟩
      rw [resolveItems_eq_ok_iff.mpr hout]
      rfl
  | .object fields, r => by
    simp only [resolveMapping, Value.Rel]
    constructor
    · intro h
      obtain ⟨out, hout, h⟩ := bind_eq_ok h
      exact ⟨out, (Except.ok.inj h).symm, resolveFields_eq_ok_iff.mp hout⟩
    · rintro ⟨out, rfl, hout⟩
      rw [resolveFields_eq_ok_iff.mpr hout]
      rfl
  | .null, r => by simp [resolveMapping, Value.Rel, eq_comm]
  | .bool b, r => by simp [resolveMapping, Value.Rel, eq_comm]
  | .number n, r => by simp [resolveMapping, Value.Rel, eq_comm]

theorem resolveItems_eq_ok_iff : ∀ {items out : List Value},
    (resolveItems items initial outputs stepId : Except (WorkflowError E) _) = .ok out ↔
      RelItems (fun s v =>
        (resolveString s initial outputs stepId : Except (WorkflowError E) Value) = .ok v)
        items out
  | [], out => by simp [resolveItems, RelItems, eq_comm]
  | v :: items, out => by
    simp only [resolveItems, RelItems]
    constructor
    · intro h
      obtain ⟨u, hu, h⟩ := bind_eq_ok h
      obtain ⟨us, hus, h⟩ := bind_eq_ok h
      exact ⟨u, us, (Except.ok.inj h).symm, resolveMapping_eq_ok_iff.mp hu,
        resolveItems_eq_ok_iff.mp hus⟩
    · rintro ⟨u, us, rfl, hu, hus⟩
      rw [resolveMapping_eq_ok_iff.mpr hu, resolveItems_eq_ok_iff.mpr hus]
      rfl

theorem resolveFields_eq_ok_iff : ∀ {fields out : List (String × Value)},
    (resolveFields fields initial outputs stepId : Except (WorkflowError E) _) = .ok out ↔
      RelFields (fun s v =>
        (resolveString s initial outputs stepId : Except (WorkflowError E) Value) = .ok v)
        fields out
  | [], out => by simp [resolveFields, RelFields, eq_comm]
  | (k, v) :: fields, out => by
    simp only [resolveFields, RelFields]
    constructor
    · intro h
      obtain ⟨u, hu, h⟩ := bind_eq_ok h
      obtain ⟨us, hus, h⟩ := bind_eq_ok h
      exact ⟨u, us, (Except.ok.inj h).symm, resolveMapping_eq_ok_iff.mp hu,
        resolveFields_eq_ok_iff.mp hus⟩
    · rintro ⟨u, us, rfl, hu, hus⟩
      rw [resolveMapping_eq_ok_iff.mpr hu, resolveFields_eq_ok_iff.mpr hus]
      rfl

end

/-! ## The documented form -/

/-- `initial[.path]` or `steps.<id>.output[.path]`. -/
def isRecognised (segs : List String) : Bool :=
  match segs with
  | "initial" :: _ => true
  | "steps" :: _ :: "output" :: _ => true
  | _ => false

/-- The path of a string of the exact form: one placeholder, which ends where the
string does, without blanks, and with a path that is recognised. -/
def exactPath (s : String) : Option (List String) :=
  match s.toList with
  | '{' :: '{' :: rest =>
    match findClose rest with
    | some (body, []) =>
      if trim body = body ∧ isRecognised (splitPath body) then some (splitPath body) else none
    | _ => none
  | _ => none

/-- What is documented for a string: the value that a placeholder points at, and the
string itself if it is none. -/
def Stands (initial : Value) (outputs : StepOutputs) (s : String) (v : Value) : Prop :=
  match exactPath s with
  | some segs => resolvePath segs initial outputs = some v
  | none => v = .string s

/-- A placeholder of the exact form without a value. -/
def Undefined (initial : Value) (outputs : StepOutputs) (s : String) : Prop :=
  ∃ segs, exactPath s = some segs ∧ resolvePath segs initial outputs = none

/-- What is documented for a template: a value has the shape of the template and in the
place of each string what the string stands for, and there is an error only if some
placeholder of the exact form has no value. -/
def LiteralsPass (E : Type) (mapping initial : Value) (outputs : StepOutputs) (stepId : String) :
    Prop :=
  match (resolveMapping mapping initial outputs stepId : Except (WorkflowError E) Value) with
  | .ok r => mapping.Rel (Stands initial outputs) r
  | .error _ => ∃ s ∈ strings mapping, Undefined initial outputs s

/-- A string that has the ends of a placeholder is of the exact form, unless it points
at its own text. -/
def Harmless (initial : Value) (outputs : StepOutputs) (s : String) : Prop :=
  ∀ path, wholePlaceholder s = some path →
    (exactPath s).isSome ∨ resolvePath (splitPath path) initial outputs = some (.string s)

/-- The code recognises what is of the exact form, and reads the same path. -/
theorem wholePlaceholder_of_exactPath {s : String} {segs : List String}
    (h : exactPath s = some segs) :
    ∃ path, wholePlaceholder s = some path ∧ splitPath path = segs := by
  unfold exactPath at h
  split at h
  · next rest hs =>
    split at h
    · next body hclose =>
      split at h
      · next hbody =>
        refine ⟨body, ?_, Option.some.inj h⟩
        have hrest : rest = body ++ ['}', '}'] := eq_of_findClose hclose
        have hsplit : s.toList = '{' :: (('{' :: (body ++ ['}'])) ++ ['}']) := by
          simp [hs, hrest]
        have htrim : trim s.toList = s.toList := by
          rw [hsplit]
          exact trim_of_ends (by decide) (by decide) _
        rw [wholePlaceholder, htrim, hs, hrest]
        simp only [stripClosing_append, Option.map_some, hbody.1]
      · cases h
    · cases h
  · cases h

/-- What the code does with a string is what is documented exactly if the string is
harmless, as long as it is not a placeholder without a value. -/
theorem exists_stands_iff {s : String} (hdef : ¬ Undefined initial outputs s) :
    (∃ v, (resolveString s initial outputs stepId : Except (WorkflowError E) Value) = .ok v ∧
      Stands initial outputs s v) ↔ Harmless initial outputs s := by
  cases hexact : exactPath s with
  | some segs =>
    obtain ⟨path, hpath, rfl⟩ := wholePlaceholder_of_exactPath hexact
    cases hv : resolvePath (splitPath path) initial outputs with
    | none => exact absurd ⟨_, hexact, hv⟩ hdef
    | some v =>
      refine iff_of_true ⟨v, ?_, ?_⟩ ?_
      · simp [resolveString, hpath, hv]
      · simp [Stands, hexact, hv]
      · intro _ _
        exact .inl (by simp [hexact])
  | none =>
    simp only [Stands, hexact, Harmless, Option.isSome_none, Bool.false_eq_true, false_or]
    cases hpath : wholePlaceholder s with
    | none => simp [resolveString, hpath]
    | some path =>
      cases hv : resolvePath (splitPath path) initial outputs with
      | none => simp [resolveString, hpath, hv]
      | some v => simp [resolveString, hpath, hv]

/-- A placeholder without a value is an error. -/
theorem resolveString_ne_ok_of_undefined {s : String} (h : Undefined initial outputs s)
    (v : Value) :
    (resolveString s initial outputs stepId : Except (WorkflowError E) Value) ≠ .ok v := by
  obtain ⟨segs, hexact, hnone⟩ := h
  obtain ⟨path, hpath, rfl⟩ := wholePlaceholder_of_exactPath hexact
  simp [resolveString, hpath, hnone]

/-- A template with such a placeholder is an error. -/
theorem resolveMapping_ne_ok_of_undefined {mapping : Value} {s : String}
    (hs : s ∈ strings mapping) (h : Undefined initial outputs s) (r : Value) :
    (resolveMapping mapping initial outputs stepId : Except (WorkflowError E) Value) ≠ .ok r := by
  intro hr
  obtain ⟨v, hv⟩ := (exists_rel_iff mapping).mp ⟨r, resolveMapping_eq_ok_iff.mp hr⟩ s hs
  exact resolveString_ne_ok_of_undefined h v hv

/-- The resolver does what is documented exactly if the template is to fail, or has no
string that is taken for a placeholder by its ends alone. -/
theorem literals_pass_iff (E : Type) (mapping initial : Value) (outputs : StepOutputs)
    (stepId : String) :
    LiteralsPass E mapping initial outputs stepId ↔
      (∃ s ∈ strings mapping, Undefined initial outputs s) ∨
        ∀ s ∈ strings mapping, Harmless initial outputs s := by
  by_cases hund : ∃ s ∈ strings mapping, Undefined initial outputs s
  · refine iff_of_true ?_ (.inl hund)
    obtain ⟨s, hs, hdef⟩ := hund
    unfold LiteralsPass
    split
    · next r hr => exact absurd hr (resolveMapping_ne_ok_of_undefined hs hdef r)
    · exact ⟨s, hs, hdef⟩
  · have hpass : LiteralsPass E mapping initial outputs stepId ↔
        ∃ r, (resolveMapping mapping initial outputs stepId : Except (WorkflowError E) Value) =
          .ok r ∧ mapping.Rel (Stands initial outputs) r := by
      unfold LiteralsPass
      split
      · next r hr => simp [hr]
      · next e he => simp [he, hund]
    have hdef : ∀ s ∈ strings mapping, ¬ Undefined initial outputs s :=
      fun s hs h => hund ⟨s, hs, h⟩
    rw [hpass, or_iff_right hund]
    -- string by string
    simp only [resolveMapping_eq_ok_iff, ← rel_and]
    rw [exists_rel_iff]
    exact forall₂_congr fun s hs => exists_stands_iff (hdef s hs)

/-- A template that is one string, taken for a placeholder without a value and not of
the exact form. -/
theorem not_literalsPass_string {s : String} {path : List Char} (hexact : exactPath s = none)
    (hpath : wholePlaceholder s = some path)
    (hnone : resolvePath (splitPath path) initial outputs = none) :
    ¬ LiteralsPass E (.string s) initial outputs stepId := by
  simp [LiteralsPass, resolveMapping, resolveString, strings, Undefined, hexact, hpath, hnone]

/-- A text that mentions two placeholders is an error, and so is one that only has
their ends. -/
theorem text_between_braces_fails :
    ¬ LiteralsPass Unit
        (.string "\x7b\x7binitial.a\x7d\x7d and \x7b\x7binitial.b\x7d\x7d")
        (.object [("a", .null), ("b", .null)]) (fun _ => none) "s" ∧
      ¬ LiteralsPass Unit (.string "\x7b\x7byour name\x7d\x7d") (.object []) (fun _ => none) "s" := by
  constructor
  · have hpath : wholePlaceholder
        "\x7b\x7binitial.a\x7d\x7d and \x7b\x7binitial.b\x7d\x7d" =
        some "initial.a\x7d\x7d and \x7b\x7binitial.b".toList := by decide +kernel
    have hsplit : splitPath "initial.a\x7d\x7d and \x7b\x7binitial.b".toList =
        ["initial", "a\x7d\x7d and \x7b\x7binitial", "b"] := by decide +kernel
    refine not_literalsPass_string (by decide +kernel) hpath ?_
    rw [hsplit]
    rfl
  · have hpath : wholePlaceholder "\x7b\x7byour name\x7d\x7d" = some "your name".toList := by
      decide +kernel
    have hsplit : splitPath "your name".toList = ["your name"] := by decide +kernel
    refine not_literalsPass_string (by decide +kernel) hpath ?_
    rw [hsplit]
    rfl

end Parseh.Agent
