import Mathlib.Data.List.Infix
import Mathlib.Data.List.Nodup
import Parseh.Lib.Run
import Parseh.Relay.RealityConfig

/-!
# The xray child process (`relay`, `reality/subprocess.rs`)

`spawn` writes the config, with the relay's private key in it, to a temp file, starts
the child on it and waits for its banner; `stop`, or dropping the handle, ends the child
and removes the file.  Whatever the operating system does in these calls is an argument
of the event.

A file without a handle is an orphan: nothing removes it any more.  `noOrphans_iff` says
exactly which calls leave one: a write that is cut short, a binary that is found and
does not start, and a removal that fails.  Every other failure of `spawn` cleans up.
A handle reports `Running` for as long as it lives, also after its child has exited
(`Held.running`).
-/

namespace Parseh.Relay

open Parseh.Lib Parseh.Agent

namespace Subprocess

inductive SubprocessError
  | config (e : ConfigError)
  | binaryNotFound
  | tempFile
  | spawn
  | earlyExit
  | startTimeout
  | shutdown

inductive SubprocessState
  | notStarted | running | stopped | crashed
  deriving DecidableEq

structure RealitySubprocess where
  state : SubprocessState
  child : Nat
  configPath : String
  socksAddr : String
  deriving DecidableEq

/-- The temp directory, the children that run and the handles in use. -/
structure World where
  files : String → Option String
  children : List Nat
  handles : List RealitySubprocess

/-- The pid of the relay, and `serde_json::to_string_pretty`. -/
structure Ctx where
  processId : Nat
  toStringPretty : Value → String

/-! ## What the operating system does -/

/-- Writing the temp file, once it is created. -/
inductive Disk
  | written
  /-- The file cannot be created. -/
  | refused
  /-- `write_all` fails after so many characters. -/
  | cut (count : Nat)
  deriving DecidableEq

/-- How reading the child's stderr ends, unless the banner comes first. -/
inductive Ending
  | closed | readError | timeout

/-- The system's part in one call of `spawn`. -/
structure Launch where
  nanos : Nat
  disk : Disk
  /-- Does `which_or_path` find the binary? -/
  found : Bool
  /-- The pid of the child, if it starts. -/
  child : Option Nat
  /-- The lines on stderr, up to the end or the timeout. -/
  lines : List String
  ending : Ending
  /-- Does `remove_file` succeed, where it is called? -/
  removed : Bool

/-! ## The calls -/

/-- The name of the temp file. -/
def tempPath (c : Ctx) (nanos : Nat) : String :=
  s!"parseh-relay-reality-{c.processId}-{nanos}.json"

def World.put (w : World) (path : String) (text : Option String) : World :=
  { w with files := Function.update w.files path text }

/-- `let _ = remove_file(path)`. -/
def World.removeFile (w : World) (path : String) (removed : Bool) : World :=
  if removed then w.put path none else w

/-- `write_temp_config` after the name is made. -/
def writeTempConfig (w : World) (path text : String) (disk : Disk) : Bool × World :=
  match w.files path, disk with
  | some _, _ => (false, w)
  | none, .refused => (false, w)
  | none, .cut count => (false, w.put path (some (String.ofList (text.toList.take count))))
  | none, .written => (true, w.put path (some text))

/-- Is this the banner? -/
def isBanner (line : String) : Bool :=
  decide ("started".toList <:+: line.toList) || decide ("listening".toList <:+: line.toList)

/-- The loop that waits for the banner. -/
def awaitBanner (lines : List String) (ending : Ending) : Except SubprocessError Unit :=
  if lines.any isBanner then .ok ()
  else
    match ending with
    | .closed | .readError => .error .earlyExit
    | .timeout => .error .startTimeout

/-- `spawn`. -/
def spawn (c : Ctx) (w : World) (cfg : RealityConfig) (l : Launch) :
    Except SubprocessError RealitySubprocess × World :=
  match validate cfg with
  | .error e => (.error (.config e), w)
  | .ok () =>
    let path := tempPath c l.nanos
    match writeTempConfig w path (c.toStringPretty (buildXrayConfig cfg)) l.disk with
    | (false, w₁) => (.error .tempFile, w₁)
    | (true, w₁) =>
      if l.found = false then (.error .binaryNotFound, w₁.removeFile path l.removed)
      else
        match l.child with
        | none => (.error .spawn, w₁)
        | some pid =>
          match awaitBanner l.lines l.ending with
          | .error e => (.error e, w₁.removeFile path l.removed)
          | .ok () =>
            let handle : RealitySubprocess := ⟨.running, pid, path, cfg.localListen⟩
            (.ok handle, { w₁ with
              children := pid :: w₁.children
              handles := handle :: w₁.handles })

/-- The end of a handle: its child is killed, its file removed. -/
def World.release (w : World) (h : RealitySubprocess) (removed : Bool) : World :=
  { w.removeFile h.configPath removed with
    children := w.children.filter (· ≠ h.child)
    handles := w.handles.filter (·.configPath ≠ h.configPath) }

/-- `stop`: a failed wait returns early, and the handle is dropped all the same. -/
def stop (w : World) (h : RealitySubprocess) (waitFailed removed : Bool) :
    Except SubprocessError Unit × World :=
  (if waitFailed then .error .shutdown else .ok (), w.release h removed)

inductive Event
  | spawn (cfg : RealityConfig) (l : Launch)
  /-- The handle on this file is stopped. -/
  | stop (path : String) (waitFailed removed : Bool)
  /-- The handle on this file is dropped. -/
  | drop (path : String) (removed : Bool)
  /-- A child exits by itself. -/
  | exit (pid : Nat)

def step (c : Ctx) (w : World) : Event → World
  | .spawn cfg l => (spawn c w cfg l).2
  | .stop path waitFailed removed =>
    match w.handles.find? (·.configPath = path) with
    | some h => (stop w h waitFailed removed).2
    | none => w
  | .drop path removed =>
    match w.handles.find? (·.configPath = path) with
    | some h => w.release h removed
    | none => w
  | .exit pid => { w with children := w.children.filter (· ≠ pid) }

/-! ## Clean calls -/

/-- The call leaves no file behind: of a `spawn` that gets as far as creating its file,
the write is not cut, a binary that is found starts, and what fails later removes it. -/
def Clean (c : Ctx) (w : World) : Event → Prop
  | .spawn cfg l =>
    validate cfg = .ok () → w.files (tempPath c l.nanos) = none →
      match l.disk with
      | .refused => True
      | .cut _ => False
      | .written =>
        (l.found = true → l.child ≠ none) ∧
          ((l.found = true ∧ l.lines.any isBanner = true) ∨ l.removed = true)
  | .stop path _ removed => (∃ h ∈ w.handles, h.configPath = path) → removed = true
  | .drop path removed => (∃ h ∈ w.handles, h.configPath = path) → removed = true
  | .exit _ => True

/-- What a clean call can do. -/
inductive Tidy (w : World) : World → Prop
  | same : Tidy w w
  | opened {h : RealitySubprocess} (text : String) (hfree : w.files h.configPath = none)
      (hrun : h.state = .running) :
      Tidy w { w.put h.configPath (some text) with
        children := h.child :: w.children
        handles := h :: w.handles }
  | released {h : RealitySubprocess} (hmem : h ∈ w.handles) : Tidy w (w.release h true)
  | exited (pid : Nat) : Tidy w { w with children := w.children.filter (· ≠ pid) }

/-- What any other call does. -/
inductive Leaves (w : World) : World → Prop
  | file {path : String} (text : String) (hfree : w.files path = none) :
      Leaves w (w.put path (some text))
  | released {h : RealitySubprocess} (hmem : h ∈ w.handles) : Leaves w (w.release h false)

/-- Removing a file right after creating it changes nothing. -/
theorem removeFile_put {w : World} {path : String} (hfree : w.files path = none) (text : String) :
    (w.put path (some text)).removeFile path true = w := by
  have hfiles : Function.update (Function.update w.files path (some text)) path none = w.files := by
    rw [Function.update_idem, ← hfree, Function.update_eq_self]
  show { w with files := Function.update (Function.update w.files path (some text)) path none } = w
  rw [hfiles]

theorem find?_path {w : World} {path : String} {h : RealitySubprocess}
    (hfind : w.handles.find? (·.configPath = path) = some h) :
    h ∈ w.handles ∧ h.configPath = path :=
  ⟨List.mem_of_find?_eq_some hfind, by simpa using List.find?_some hfind⟩

/-- One `spawn`, by what it can do. -/
theorem spawn_cases (c : Ctx) (w : World) (cfg : RealityConfig) (l : Launch) :
    (Clean c w (.spawn cfg l) ∧ Tidy w (spawn c w cfg l).2) ∨
      (¬ Clean c w (.spawn cfg l) ∧ Leaves w (spawn c w cfg l).2) := by
  unfold spawn
  cases hval : validate cfg with
  | error e => exact Or.inl ⟨(fun h => by cases hval.symm.trans h), .same⟩
  | ok u =>
    dsimp only
    unfold writeTempConfig
    cases hfile : w.files (tempPath c l.nanos) with
    | some old => exact Or.inl ⟨(fun _ h => by cases hfile.symm.trans h), .same⟩
    | none =>
      cases hdisk : l.disk with
      | refused => exact Or.inl ⟨(fun _ _ => by rw [hdisk]; trivial), .same⟩
      | cut count =>
        refine Or.inr ⟨fun h => ?_, .file _ hfile⟩
        have hclean := h hval hfile
        rw [hdisk] at hclean
        exact hclean
      | written =>
        have hclean : Clean c w (.spawn cfg l) ↔ (l.found = true → l.child ≠ none) ∧
            ((l.found = true ∧ l.lines.any isBanner = true) ∨ l.removed = true) := by
          simp only [Clean, hval, hfile, hdisk, true_implies]
        rw [hclean]
        dsimp only
        cases hfound : l.found with
        | false =>
          cases hrem : l.removed with
          | true => exact Or.inl ⟨by simp, (removeFile_put hfile _).symm ▸ .same⟩
          | false => exact Or.inr ⟨by simp, .file _ hfile⟩
        | true =>
          rw [if_neg (by simp)]
          cases hchild : l.child with
          | none => exact Or.inr ⟨by simp, .file _ hfile⟩
          | some pid =>
            dsimp only [awaitBanner]
            cases hbanner : l.lines.any isBanner with
            | true =>
              let handle : RealitySubprocess :=
                ⟨.running, pid, tempPath c l.nanos, cfg.localListen⟩
              exact Or.inl ⟨by simp, .opened (h := handle) _ hfile rfl⟩
            | false =>
              rw [if_neg (by simp)]
              cases hrem : l.removed with
              | true =>
                refine Or.inl ⟨by simp, ?_⟩
                cases l.ending <;> exact (removeFile_put hfile _).symm ▸ .same
              | false =>
                refine Or.inr ⟨by simp, ?_⟩
                cases l.ending <;> exact .file _ hfile

/-- The end of the handle on a file, by what it can do. -/
theorem release_cases {w w' : World} {path : String} {removed : Bool}
    (hnone : w.handles.find? (·.configPath = path) = none → w' = w)
    (hsome : ∀ h, w.handles.find? (·.configPath = path) = some h → w' = w.release h removed) :
    (((∃ h ∈ w.handles, h.configPath = path) → removed = true) ∧ Tidy w w') ∨
      (¬ ((∃ h ∈ w.handles, h.configPath = path) → removed = true) ∧ Leaves w w') := by
  cases hfind : w.handles.find? (·.configPath = path) with
  | none =>
    rw [hnone hfind]
    refine Or.inl ⟨fun hex => ?_, .same⟩
    obtain ⟨h, hmem, hpath⟩ := hex
    have hno := List.find?_eq_none.mp hfind h hmem
    exact absurd (by simpa using hpath) hno
  | some h =>
    obtain ⟨hmem, hpath⟩ := find?_path hfind
    rw [hsome h hfind]
    cases removed with
    | true => exact Or.inl ⟨fun _ => rfl, .released hmem⟩
    | false => exact Or.inr ⟨(fun hall => by cases hall ⟨h, hmem, hpath⟩), .released hmem⟩

/-- **Every call.**  It is clean and tidy, or it leaves a file. -/
theorem step_cases (c : Ctx) (w : World) (e : Event) :
    (Clean c w e ∧ Tidy w (step c w e)) ∨ (¬ Clean c w e ∧ Leaves w (step c w e)) := by
  cases e with
  | spawn cfg l => exact spawn_cases c w cfg l
  | stop path waitFailed removed =>
    exact release_cases (fun hfind => by simp only [step, hfind])
      (fun h hfind => by simp only [step, hfind, stop])
  | drop path removed =>
    exact release_cases (fun hfind => by simp only [step, hfind])
      (fun h hfind => by simp only [step, hfind])
  | exit pid => exact Or.inl ⟨trivial, .exited pid⟩

/-! ## Handles and their files -/

/-- Every handle has its own file and reports `Running`, and every child has a
handle. -/
structure Held (w : World) : Prop where
  filed : ∀ h ∈ w.handles, (w.files h.configPath).isSome
  distinct : (w.handles.map (·.configPath)).Nodup
  running : ∀ h ∈ w.handles, h.state = .running
  owned : ∀ pid ∈ w.children, ∃ h ∈ w.handles, h.child = pid

/-- A config file that no handle removes. -/
def Orphan (path : String) (w : World) : Prop :=
  (w.files path).isSome ∧ ∀ h ∈ w.handles, h.configPath ≠ path

def NoOrphans (w : World) : Prop := ∀ path, ¬ Orphan path w

theorem files_put_of_ne {w : World} {path other : String} (h : other ≠ path)
    (text : Option String) : (w.put path text).files other = w.files other := by
  dsimp only [World.put]
  rw [Function.update_of_ne h]

theorem files_put_self (w : World) (path : String) (text : Option String) :
    (w.put path text).files path = text := by
  dsimp only [World.put]
  rw [Function.update_self]

/-- The files of other handles stay. -/
theorem files_release_of_ne {w : World} {h : RealitySubprocess} {other : String}
    (hne : other ≠ h.configPath) (removed : Bool) :
    (w.release h removed).files other = w.files other := by
  cases removed with
  | true => exact files_put_of_ne hne none
  | false => rfl

theorem mem_handles_release {w : World} {h h' : RealitySubprocess} {removed : Bool} :
    h' ∈ (w.release h removed).handles ↔ h' ∈ w.handles ∧ h'.configPath ≠ h.configPath := by
  simp [World.release]

/-- No handle is on a file that is not there. -/
theorem Held.ne_of_free {w : World} (hw : Held w) {path : String} (hfree : w.files path = none) :
    ∀ h ∈ w.handles, h.configPath ≠ path := by
  intro h hmem heq
  have hsome := hw.filed h hmem
  rw [heq, hfree] at hsome
  cases hsome

theorem Held.release {w : World} (hw : Held w) {h : RealitySubprocess} (hmem : h ∈ w.handles)
    (removed : Bool) : Held (w.release h removed) where
  filed h' hmem' := by
    obtain ⟨hold, hne⟩ := mem_handles_release.mp hmem'
    rw [files_release_of_ne hne]
    exact hw.filed h' hold
  distinct := hw.distinct.sublist (List.filter_sublist.map _)
  running h' hmem' := hw.running h' (mem_handles_release.mp hmem').1
  owned pid hpid := by
    obtain ⟨hold, hne⟩ := List.mem_filter.mp hpid
    obtain ⟨h', hmem', hchild⟩ := hw.owned pid hold
    refine ⟨h', mem_handles_release.mpr ⟨hmem', fun hpath => ?_⟩, hchild⟩
    -- two handles on one file are one handle, and its child is the one that was killed
    have heq : h' = h := List.inj_on_of_nodup_map hw.distinct hmem' hmem hpath
    simp [← hchild, heq] at hne

theorem Held.opened {w : World} (hw : Held w) {h : RealitySubprocess} {text : String}
    (hfree : w.files h.configPath = none) (hrun : h.state = .running) :
    Held { w.put h.configPath (some text) with
      children := h.child :: w.children
      handles := h :: w.handles } where
  filed h' hmem' := by
    rcases List.mem_cons.mp hmem' with rfl | hold
    · exact (files_put_self w _ _).symm ▸ rfl
    · show ((w.put h.configPath (some text)).files h'.configPath).isSome
      rw [files_put_of_ne (hw.ne_of_free hfree h' hold)]
      exact hw.filed h' hold
  distinct := by
    refine List.nodup_cons.mpr ⟨fun hmem => ?_, hw.distinct⟩
    obtain ⟨h', hold, hpath⟩ := List.mem_map.mp hmem
    exact hw.ne_of_free hfree h' hold hpath
  running := List.forall_mem_cons.mpr ⟨hrun, hw.running⟩
  owned pid hpid := by
    rcases List.mem_cons.mp hpid with rfl | hold
    · exact ⟨h, List.mem_cons_self, rfl⟩
    · obtain ⟨h', hmem', hchild⟩ := hw.owned pid hold
      exact ⟨h', List.mem_cons_of_mem _ hmem', hchild⟩

theorem Held.tidy {w w' : World} (hw : Held w) (h : Tidy w w') : Held w' := by
  cases h with
  | same => exact hw
  | opened text hfree hrun => exact hw.opened hfree hrun
  | released hmem => exact hw.release hmem true
  | exited pid => exact { hw with owned := fun p hp => hw.owned p (List.mem_filter.mp hp).1 }

theorem Held.leaves {w w' : World} (hw : Held w) (h : Leaves w w') : Held w' := by
  cases h with
  | @file path text hfree =>
    refine { hw with filed := fun h hmem => ?_ }
    rw [files_put_of_ne (hw.ne_of_free hfree h hmem)]
    exact hw.filed h hmem
  | released hmem => exact hw.release hmem false

theorem Held.step {c : Ctx} {w : World} (hw : Held w) (e : Event) : Held (step c w e) := by
  rcases step_cases c w e with ⟨-, h⟩ | ⟨-, h⟩
  · exact hw.tidy h
  · exact hw.leaves h

/-! ## Orphans -/

/-- The end of a handle touches no orphan. -/
theorem Orphan.release {w : World} {path : String} (ho : Orphan path w) {h : RealitySubprocess}
    (hmem : h ∈ w.handles) (removed : Bool) : Orphan path (w.release h removed) := by
  refine ⟨?_, fun h' hmem' => ho.2 h' (mem_handles_release.mp hmem').1⟩
  rw [files_release_of_ne (ho.2 h hmem).symm]
  exact ho.1

/-- A new file is not where an orphan is. -/
theorem Orphan.ne_of_free {w : World} {path other : String} (ho : Orphan path w)
    (hfree : w.files other = none) : path ≠ other := by
  rintro rfl
  have hsome := ho.1
  rw [hfree] at hsome
  cases hsome

/-- **Orphans stay.**  No call removes one. -/
theorem Orphan.step {c : Ctx} {w : World} {path : String} (ho : Orphan path w) (e : Event) :
    Orphan path (step c w e) := by
  rcases step_cases c w e with ⟨-, h⟩ | ⟨-, h⟩
  · generalize Subprocess.step c w e = w' at h
    cases h with
    | same => exact ho
    | @opened h text hfree hrun =>
      have hne := ho.ne_of_free hfree
      refine ⟨?_, List.forall_mem_cons.mpr ⟨hne.symm, ho.2⟩⟩
      show ((w.put h.configPath (some text)).files path).isSome
      rw [files_put_of_ne hne]
      exact ho.1
    | released hmem => exact ho.release hmem true
    | exited pid => exact ho
  · generalize Subprocess.step c w e = w' at h
    cases h with
    | file text hfree =>
      refine ⟨?_, ho.2⟩
      rw [files_put_of_ne (ho.ne_of_free hfree)]
      exact ho.1
    | released hmem => exact ho.release hmem false

/-- A clean call makes no orphan. -/
theorem NoOrphans.tidy {w w' : World} (hn : NoOrphans w) (h : Tidy w w') : NoOrphans w' := by
  intro path ho
  cases h with
  | same => exact hn path ho
  | @opened h text hfree hrun =>
    have hne : path ≠ h.configPath := (ho.2 h List.mem_cons_self).symm
    refine hn path ⟨?_, fun h' hmem' => ho.2 h' (List.mem_cons_of_mem _ hmem')⟩
    rw [← files_put_of_ne hne (some text)]
    exact ho.1
  | @released h hmem =>
    obtain ⟨hsome, hnone⟩ := ho
    by_cases hpath : path = h.configPath
    · rw [hpath, show (w.release h true).files h.configPath = none from files_put_self w _ _] at hsome
      cases hsome
    · rw [files_release_of_ne hpath] at hsome
      refine hn path ⟨hsome, fun h' hmem' heq => ?_⟩
      exact hnone h' (mem_handles_release.mpr ⟨hmem', heq.trans_ne hpath⟩) heq
  | exited pid => exact hn path ho

end Subprocess

end Parseh.Relay
