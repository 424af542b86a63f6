import Parseh.Lib.Keyed
import Parseh.Lib.Split
import Parseh.Llm.Downloader

/-!
# Finding a model, and fetching one (`llm-detect`, `miner`)

Every start of the miner looks for a local model.  With `--auto-download-llm`, and when
there is none, it downloads one into a directory that the next start looks into.

* `scanRoots_eq`: the scan collects the first thousand GGUF files in the order of the walk;
* `scan_exact`: so the recommended file is the newest of those, which need not be the
  newest there is;
* `first_file_final`: over any number of starts, the first download that opens its file is
  the last one.  A file that broke off counts as a model from then on.
-/

namespace Parseh.Llm

open Parseh.Lib Parseh.Wire

/-! ## The scan -/

def maxFiles : Nat := 1000

structure GgufFile where
  path : String
  sizeMb : UInt64
  modifiedAt : UInt64
  deriving DecidableEq

/-- `Path::extension`: a leading dot begins no extension. -/
def extension (path : String) : Option (List Char) :=
  let name := ((rsplitOnce '/' path.toList).map Prod.snd).getD path.toList
  match rsplitOnce '.' name with
  | some (stem, ext) => if stem = [] ∨ name = ['.', '.'] then none else some ext
  | none => none

def isGguf (path : String) : Bool :=
  (extension path).any fun e => e.map Char.toLower = "gguf".toList

/-- `modified` is none when the file system has no such time, or one before 1970. -/
structure Metadata where
  len : UInt64
  modified : Option UInt64

structure Entry where
  path : String
  isFile : Bool
  metadata : Option Metadata

/-- What `walkdir` yields under each root that exists, at most six levels deep, without the
entries it cannot read. -/
abbrev Walk := String → Option (List Entry)

def ggufFile (path : String) (m : Metadata) : GgufFile :=
  ⟨path, m.len / (1024 * 1024), m.modified.getD 0⟩

/-- The loop over the entries of one root. -/
def scanEntries (out : List GgufFile) : List Entry → List GgufFile
  | [] => out
  | e :: es =>
    if maxFiles ≤ out.length then out
    else if e.isFile = false then scanEntries out es
    else if isGguf e.path = false then scanEntries out es
    else
      match e.metadata with
      | none => scanEntries out es
      | some m => scanEntries (out ++ [ggufFile e.path m]) es

/-- The loop over the roots. -/
def scanRoots (walk : Walk) (out : List GgufFile) : List String → List GgufFile
  | [] => out
  | root :: roots =>
    match walk root with
    | none => scanRoots walk out roots
    | some entries =>
      let out := scanEntries out entries
      if maxFiles ≤ out.length then out else scanRoots walk out roots

/-- `Reverse(f.modified_at)`. -/
def newest (f : GgufFile) : ℕᵒᵈ := OrderDual.toDual f.modifiedAt.toNat

/-- `scan_blocking`: newest first. -/
def scanBlocking (walk : Walk) (roots : List String) : List GgufFile :=
  sortByKey newest (scanRoots walk [] roots)

/-- The file an entry stands for, if it is to be collected. -/
def Entry.gguf? (e : Entry) : Option GgufFile :=
  if e.isFile && isGguf e.path then e.metadata.map (ggufFile e.path) else none

/-- The GGUF files under a root, in the order of the walk. -/
def ggufsIn (walk : Walk) (root : String) : List GgufFile :=
  ((walk root).getD []).filterMap Entry.gguf?

theorem scanEntries_eq (es : List Entry) {out : List GgufFile} (h : out.length ≤ maxFiles) :
    scanEntries out es = (out ++ es.filterMap Entry.gguf?).take maxFiles := by
  induction es generalizing out with
  | nil => simp [scanEntries, List.take_of_length_le h]
  | cons e es ih =>
    rw [scanEntries]
    split
    · next hfull => rw [List.take_append_of_le_length hfull, List.take_of_length_le h]
    · next hroom =>
      split
      · next hfile => rw [ih h, List.filterMap_cons_none (by simp [Entry.gguf?, hfile])]
      · next hfile =>
        split
        · next hname => rw [ih h, List.filterMap_cons_none (by simp [Entry.gguf?, hname])]
        · next hname =>
          simp only [Bool.not_eq_false] at hfile hname
          split
          · next hmeta =>
            rw [ih h, List.filterMap_cons_none (by simp [Entry.gguf?, hmeta])]
          · next m hmeta =>
            have hsome : e.gguf? = some (ggufFile e.path m) := by
              simp [Entry.gguf?, hfile, hname, hmeta]
            have hlen : (out ++ [ggufFile e.path m]).length ≤ maxFiles := by
              rw [List.length_append, List.length_singleton]
              omega
            rw [ih hlen, List.filterMap_cons_some hsome, List.append_assoc, List.singleton_append]

/-- The scan stops at the cap, in the middle of a root or between two. -/
theorem scanRoots_eq (walk : Walk) (roots : List String) {out : List GgufFile}
    (h : out.length ≤ maxFiles) :
    scanRoots walk out roots = (out ++ roots.flatMap (ggufsIn walk)).take maxFiles := by
  induction roots generalizing out with
  | nil => simp [scanRoots, List.take_of_length_le h]
  | cons root roots ih =>
    rw [scanRoots, List.flatMap_cons]
    split
    · next hnone => rw [ih h, ggufsIn, hnone, Option.getD_none, List.filterMap_nil, List.nil_append]
    · next entries hsome =>
      have hroot : ggufsIn walk root = entries.filterMap Entry.gguf? := by
        rw [ggufsIn, hsome, Option.getD_some]
      dsimp only
      rw [scanEntries_eq entries h, hroot, ← List.append_assoc]
      generalize out ++ entries.filterMap Entry.gguf? = found
      split
      · next hfull =>
        rw [List.length_take] at hfull
        rw [List.take_append_of_le_length (by omega)]
      · next hroom =>
        rw [List.length_take] at hroom
        rw [List.take_of_length_le (by omega)]
        exact ih (by omega)

/-! ## The recommendation -/

structure OllamaInfo where
  endpoint : String
  models : List String

structure DetectionResult where
  ollama : Option OllamaInfo
  ggufFiles : List GgufFile

inductive RecommendedRuntime
  | ollama (endpoint model : String)
  | localGguf (path : String) (sizeMb : UInt64)
  deriving DecidableEq

/-- `recommended_runtime`. -/
def recommendedRuntime (d : DetectionResult) : Option RecommendedRuntime :=
  match d.ollama with
  | some ⟨endpoint, model :: _⟩ => some (.ollama endpoint model)
  | _ =>
    match d.ggufFiles with
    | f :: _ => some (.localGguf f.path f.sizeMb)
    | [] => none

theorem isSome_recommendedRuntime {d : DetectionResult} (h : d.ggufFiles ≠ []) :
    (recommendedRuntime d).isSome = true := by
  unfold recommendedRuntime
  split
  · rfl
  · split
    · rfl
    · next hnil => exact absurd hnil h

theorem scanBlocking_eq_sort (walk : Walk) (roots : List String) :
    scanBlocking walk roots = sortByKey newest ((roots.flatMap (ggufsIn walk)).take maxFiles) :=
  congrArg (sortByKey newest) (scanRoots_eq walk roots (Nat.zero_le _))

theorem scanBlocking_eq_nil_iff {walk : Walk} {roots : List String} :
    scanBlocking walk roots = [] ↔ roots.flatMap (ggufsIn walk) = [] := by
  rw [scanBlocking_eq_sort, ← List.length_eq_zero_iff, (sortByKey_perm_self newest _).length_eq,
    List.length_take, ← List.length_eq_zero_iff]
  simp [maxFiles]

structure Host where
  home : Option String
  cacheDir : Option String
  dataLocalDir : Option String

def join (base : String) (parts : List String) : String :=
  parts.foldl (fun path part => path ++ "/" ++ part) base

def standardRoots (host : Host) : List String :=
  (host.home.toList.flatMap fun home =>
    [join home [".ollama", "models", "blobs"], join home [".parseh", "models"]]) ++
  (host.cacheDir.toList.flatMap fun cache =>
    [join cache ["lm-studio", "models"], join cache ["huggingface", "hub"]]) ++
  host.dataLocalDir.toList.map (join · ["Programs", "Ollama", "models"])

/-- `default_models_dir`. -/
def defaultModelsDir (host : Host) : Option String := host.home.map (join · [".parseh", "models"])

def defaultRecommended : ModelSpec := tinyllama11bQ4KM

/-- One start: the flag, what the probes find and what the network does. -/
structure Launch where
  autoDownloadLlm : Bool
  ollama : Option OllamaInfo
  walk : Walk
  sys : Sys

/-- `detect_all`; a probe that fails has found nothing. -/
def detectAll (host : Host) (l : Launch) : DetectionResult :=
  ⟨l.ollama, scanBlocking l.walk (standardRoots host)⟩

/-- `handle_llm_detection`.  An error ends the start. -/
def handleLlmDetection (host : Host) (sha256 : Bytes → Array32) (w : World) (l : Launch) :
    Except DownloadError Unit × World :=
  match recommendedRuntime (detectAll host l) with
  | some _ => (.ok (), w)
  | none =>
    if l.autoDownloadLlm then
      match defaultModelsDir host with
      | none => (.error .noModelsDir, w)
      | some dir => (downloadModel ⟨sha256, dir⟩ w defaultRecommended l.sys).map (·.map fun _ => ()) id
    else (.ok (), w)

/-- The miner is started, or another program changes a file. -/
inductive Boot
  | launch (l : Launch)
  | outside (path : String) (content : Option Bytes)

def boot (host : Host) (sha256 : Bytes → Array32) (w : World) : Boot → World
  | .launch l => (handleLlmDetection host sha256 w l).2
  | .outside path content => { w with files := Function.update w.files path content }

/-- Where the model goes. -/
def modelFile (home : String) : String :=
  join home [".parseh", "models"] ++ "/" ++ defaultRecommended.filename

/-- The walk of a start shows the model file if there is one. -/
def Sees (home : String) (w : World) : Boot → Prop
  | .launch l => ∀ content, w.files (modelFile home) = some content →
      ∃ entries, l.walk (join home [".parseh", "models"]) = some entries ∧
        ∃ e ∈ entries, e.path = modelFile home ∧ e.isFile = true ∧ e.metadata.isSome = true
  | .outside .. => True

/-- The start downloads. -/
structure Asks (host : Host) (l : Launch) : Prop where
  nothing : recommendedRuntime (detectAll host l) = none
  auto : l.autoDownloadLlm = true
  dir : l.sys.dir = true

/-- The server has answered and the file is there to be written. -/
def Net.opens : Net → Bool
  | .body .. => true
  | _ => false

theorem isGguf_modelFile (home : String) : isGguf (modelFile home) = true := by
  have hname : '/' ∉ defaultRecommended.filename.toList := by decide
  have hext : rsplitOnce '.' defaultRecommended.filename.toList =
    some ("tinyllama-1.1b-chat-v1.0.Q4_K_M".toList, "gguf".toList) := by decide
  have hpath : (modelFile home).toList = (join home [".parseh", "models"]).toList ++
      '/' :: defaultRecommended.filename.toList := by
    simp [modelFile]
  unfold isGguf extension
  rw [hpath, rsplitOnce_append_cons _ hname]
  dsimp only [Option.map_some, Option.getD_some]
  rw [hext]
  decide

/-- Another program leaves the model file alone. -/
def Spares (home : String) : Boot → Prop
  | .launch _ => True
  | .outside path _ => path ≠ modelFile home

section Starts

variable {host : Host} {home : String} {sha256 : Bytes → Array32} {w : World} {l : Launch}

/-- Where there is a model file, the start recommends something. -/
theorem isSome_recommended_of_file (hhome : host.home = some home)
    (hsees : Sees home w (.launch l)) {content : Bytes}
    (hfile : w.files (modelFile home) = some content) :
    (recommendedRuntime (detectAll host l)).isSome = true := by
  obtain ⟨entries, hwalk, e, he, hpath, hisFile, hmeta⟩ := hsees content hfile
  obtain ⟨m, hm⟩ := Option.isSome_iff_exists.mp hmeta
  have hroot : join home [".parseh", "models"] ∈ standardRoots host := by
    simp [standardRoots, hhome]
  have hgguf : e.gguf? = some (ggufFile e.path m) := by
    simp [Entry.gguf?, hisFile, hpath, isGguf_modelFile, hm]
  have hfound : ggufFile e.path m ∈ (standardRoots host).flatMap (ggufsIn l.walk) := by
    refine List.mem_flatMap.mpr ⟨_, hroot, ?_⟩
    rw [ggufsIn, hwalk, Option.getD_some]
    exact List.mem_filterMap.mpr ⟨e, he, hgguf⟩
  refine isSome_recommendedRuntime fun hnil => ?_
  rw [scanBlocking_eq_nil_iff.mp hnil] at hfound
  cases hfound

theorem handle_of_recommended (h : (recommendedRuntime (detectAll host l)).isSome = true) :
    handleLlmDetection host sha256 w l = (.ok (), w) := by
  obtain ⟨rt, hrt⟩ := Option.isSome_iff_exists.mp h
  unfold handleLlmDetection
  rw [hrt]

/-- A start that does not download changes nothing. -/
theorem boot_of_not_asks (hhome : host.home = some home) (h : ¬ Asks host l) :
    boot host sha256 w (.launch l) = w := by
  show (handleLlmDetection host sha256 w l).2 = w
  unfold handleLlmDetection
  split
  · rfl
  · next hnothing =>
    split
    · next hauto =>
      have hdir : l.sys.dir = false := by
        cases hd : l.sys.dir with
        | false => rfl
        | true => exact absurd ⟨hnothing, hauto, hd⟩ h
      rw [defaultModelsDir, hhome, Option.map_some]
      show (downloadModel _ w defaultRecommended l.sys).2 = w
      unfold downloadModel
      dsimp only
      rw [if_pos hdir]
    · rfl

/-- A start that downloads has found no model file. -/
theorem Asks.missing (h : Asks host l) (hhome : host.home = some home)
    (hsees : Sees home w (.launch l)) : w.files (modelFile home) = none := by
  cases hfile : w.files (modelFile home) with
  | none => rfl
  | some content =>
    have hsome := isSome_recommended_of_file hhome hsees hfile
    rw [h.nothing] at hsome
    cases hsome

theorem Asks.boot_eq (h : Asks host l) (hhome : host.home = some home)
    (hmissing : w.files (modelFile home) = none) :
    boot host sha256 w (.launch l) =
      (downloadToPath ⟨sha256, join home [".parseh", "models"]⟩ w defaultRecommended
        (modelFile home) l.sys.net).2 := by
  have hfile : w.files (modelPath ⟨sha256, join home [".parseh", "models"]⟩ defaultRecommended) =
      none := hmissing
  show (handleLlmDetection host sha256 w l).2 = _
  unfold handleLlmDetection
  rw [h.nothing, defaultModelsDir, hhome, Option.map_some]
  dsimp only
  rw [if_pos h.auto, downloadModel_other (by rw [hfile]; nofun), downloadModelTo,
    if_neg (by rw [h.dir]; decide)]
  rfl

/-- The file is there as soon as it is opened, whatever becomes of the download. -/
theorem isSome_downloadToPath (c : Ctx) (w : World) (m : ModelSpec) (dest : String) (net : Net) :
    ((downloadToPath c w m dest net).2.files dest).isSome =
      ((w.files dest).isSome || net.opens) := by
  cases net with
  | body contentLength items unflushed =>
    rw [Net.opens, Bool.or_true]
    unfold downloadToPath
    dsimp only
    split
    · rw [files_put, Option.isSome_some]
    · split
      · rw [files_put, Option.isSome_some]
      · rw [files_put, Option.isSome_some]
  | _ => exact (Bool.or_false _).symm

/-- Where there is a model file, the later starts leave everything as it is. -/
theorem boot_of_file (hhome : host.home = some home) {b : Boot} (hsees : Sees home w b)
    (hspares : Spares home b) (hfile : (w.files (modelFile home)).isSome = true) :
    (boot host sha256 w b).files (modelFile home) = w.files (modelFile home) ∧
      (boot host sha256 w b).requests = w.requests := by
  cases b with
  | launch l =>
    obtain ⟨content, hcontent⟩ := Option.isSome_iff_exists.mp hfile
    have hsome := isSome_recommended_of_file hhome hsees hcontent
    show (handleLlmDetection host sha256 w l).2.files _ = _ ∧
      (handleLlmDetection host sha256 w l).2.requests = _
    rw [handle_of_recommended hsome]
    exact ⟨rfl, rfl⟩
  | outside path content =>
    show Function.update w.files path content (modelFile home) = _ ∧ _
    exact ⟨Function.update_of_ne (Ne.symm hspares) content w.files, rfl⟩

/-- **The later starts.** -/
theorem run_boot_of_file (hhome : host.home = some home) {later : List Boot}
    (hsees : Guarded (boot host sha256) (Sees home) w later)
    (hspares : ∀ b ∈ later, Spares home b) (hfile : (w.files (modelFile home)).isSome = true) :
    (run (boot host sha256) w later).files (modelFile home) = w.files (modelFile home) ∧
      (run (boot host sha256) w later).requests = w.requests := by
  have hguard := hsees.and ((guarded_const w later).mpr hspares)
  exact hguard.invariant
    (I := fun w' => w'.files (modelFile home) = w.files (modelFile home) ∧ w'.requests = w.requests)
    (fun w' b hb hw => by
      obtain ⟨hsame, hreq⟩ := boot_of_file hhome hb.1 hb.2 (hw.1 ▸ hfile)
      exact ⟨hsame.trans hw.1, hreq.trans hw.2⟩) ⟨rfl, rfl⟩

/-- For every host with a home directory and every history of starts and of changes by other
programs, if every scan shows the model file where there is one: a start asks the network,
once, only if there was no model file, and else changes nothing; after it there is one exactly
if there was one, or its download opened it, with a prefix of what the server sent.  From then
on the file stays, nobody is asked again, and every start goes on without an error. -/
theorem first_file_final (hhome : host.home = some home) (sha256 : Bytes → Array32) (w : World)
    (past later : List Boot) (l : Launch)
    (hsees : Guarded (boot host sha256) (Sees home) w (past ++ .launch l :: later))
    (hspares : ∀ b ∈ later, Spares home b) :
    let before := run (boot host sha256) w past
    let after := boot host sha256 before (.launch l)
    (Asks host l → before.files (modelFile home) = none ∧
      after.requests = before.requests ++ [defaultRecommended.url] ∧
      ∀ bytes, after.files (modelFile home) = some bytes → bytes <+: l.sys.net.sent) ∧
    (¬ Asks host l → after = before) ∧
    ((after.files (modelFile home)).isSome = true ↔
      (before.files (modelFile home)).isSome = true ∨ Asks host l ∧ l.sys.net.opens = true) ∧
    ((after.files (modelFile home)).isSome = true → ∀ pre, pre <+: later →
      (run (boot host sha256) after pre).files (modelFile home) =
          after.files (modelFile home) ∧
        (run (boot host sha256) after pre).requests = after.requests ∧
        ∀ l', pre ++ [.launch l'] <+: later →
          handleLlmDetection host sha256 (run (boot host sha256) after pre) l' =
            (.ok (), run (boot host sha256) after pre)) := by
  intro before after
  obtain ⟨-, hnow, hlater⟩ := (guarded_append _ _ _).mp hsees
  refine ⟨fun hasks => ?_, boot_of_not_asks hhome, ?_, fun hfile pre hpre => ?_⟩
  · have hmissing := hasks.missing hhome hnow
    have hboot : after = _ := hasks.boot_eq hhome hmissing
    have hfetched := fetched_downloadToPath ⟨sha256, join home [".parseh", "models"]⟩ before
      defaultRecommended (modelFile home) l.sys.net
    refine ⟨hmissing, hboot ▸ hfetched.requests, fun bytes hbytes => ?_⟩
    rw [hboot] at hbytes
    rcases hfetched.prefixed with hsame | ⟨bytes', hbytes', hprefix⟩
    · rw [hsame, hmissing] at hbytes
      cases hbytes
    · rw [hbytes'] at hbytes
      exact Option.some.inj hbytes ▸ hprefix
  · by_cases hasks : Asks host l
    · have hboot : after = _ := hasks.boot_eq hhome (hasks.missing hhome hnow)
      rw [hboot, isSome_downloadToPath, Bool.or_eq_true, and_iff_right hasks]
    · have hsame : after = before := boot_of_not_asks hhome hasks
      rw [hsame, or_iff_left fun h => hasks h.1]
  · have hspared : ∀ b ∈ pre, Spares home b := fun b hb => hspares b (hpre.subset hb)
    obtain ⟨hkept, hrequests⟩ := run_boot_of_file hhome (hlater.of_prefix hpre) hspared hfile
    refine ⟨hkept, hrequests, fun l' hl' => ?_⟩
    have hsees' := (guarded_iff_forall _ _).mp hlater pre _ hl'
    obtain ⟨content, hcontent⟩ := Option.isSome_iff_exists.mp hfile
    exact handle_of_recommended (isSome_recommended_of_file hhome hsees' (hkept.trans hcontent))

end Starts

/-- A host with a home directory and nothing else. -/
def smallHost : Host := ⟨some "home", none, none⟩

/-- The scan of a host whose models directory has the model file, or is not there. -/
def walkOf (present : Bool) : Walk := fun root =>
  if present ∧ root = "home/.parseh/models" then
    some [⟨modelFile "home", true, some ⟨2, some 100⟩⟩]
  else none

/-- The download breaks off after two bytes. -/
def brokenStart : Launch :=
  ⟨true, none, walkOf false, ⟨true, true, .body none [.chunk [1, 2], .chunk [3], .broken 2] none⟩⟩

/-- The server would send the whole body now. -/
def secondStart : Launch :=
  ⟨true, none, walkOf true, ⟨true, true, .body none [.chunk [1, 2], .chunk [3]] none⟩⟩

def noFiles : World := ⟨fun _ => none, []⟩

/-- The next start finds the two bytes, and asks nobody. -/
theorem broken_download_stays :
    let after := boot smallHost (fun _ => Array32.replicate 0) noFiles (.launch brokenStart)
    let last := boot smallHost (fun _ => Array32.replicate 0) after (.launch secondStart)
    last.files (modelFile "home") = some [1, 2] ∧ last.requests = [defaultRecommended.url] := by
  intro after last
  have hwrote : after.files (modelFile "home") = some [1, 2] := by decide +kernel
  have hsees : Guarded (boot smallHost fun _ => Array32.replicate 0) (Sees "home") noFiles
      ([] ++ .launch brokenStart :: [.launch secondStart]) := by
    refine ⟨nofun, fun _ _ => ?_, trivial⟩
    exact ⟨_, rfl, _, List.mem_singleton_self _, rfl, rfl, rfl⟩
  obtain ⟨hasks, -, -, hlater⟩ := first_file_final (rfl : smallHost.home = some "home")
    (fun _ => Array32.replicate 0) noFiles [] [.launch secondStart] brokenStart hsees
    (fun b hb => List.mem_singleton.mp hb ▸ trivial)
  have hthere : (after.files (modelFile "home")).isSome = true := by rw [hwrote]; rfl
  obtain ⟨hkept, hrequests, -⟩ := hlater hthere _ List.prefix_rfl
  obtain ⟨-, hfirst, -⟩ := hasks ⟨by decide +kernel, rfl, rfl⟩
  exact ⟨hkept.trans hwrote, hrequests.trans hfirst⟩

end Parseh.Llm
