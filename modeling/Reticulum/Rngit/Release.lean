import Reticulum.Os
import Reticulum.Rngit.Node
import Mathlib.Data.List.Sort

/-! # Releases of a repository (cmd/gorngit/release.go)

The releases of the repository at `path` are kept in the directory `path.releases`, one directory for each tag. The file
`latest` of that directory holds the tag of the latest release. -/

namespace Reticulum.Rngit
open Text Filepath Os

inductive Value where
  | string (s : Str)
  | binary (b : Bytes)
  | nil
  | other

/-- The request map: what it has for the index of the repository, and its entries with text keys. -/
structure Request where
  repository : Option Value
  entries : Table Value

/-- The text of an entry; empty if there is none. -/
def Request.text (r : Request) (key : String) : Str :=
  match r.entries.lookup (ascii key) with
  | some (.string s) => s
  | _ => []

inductive Code where
  | disallowed
  | invalidReq
  | notFound
  | remoteFail
deriving DecidableEq, Repr

structure Artifact where
  name : Path
  size : Nat

structure ReleaseSummary where
  tag : Str
  hash : Str
  created : Int
  status : Str
  createdBy : Str
  preview : Str
  format : Str
  artifacts : Nat

structure ReleaseInfo where
  tag : Str
  hash : Str
  created : Int
  status : Str
  createdBy : Str
  notes : Str
  notesFormat : Str
  artifacts : List Artifact
  /-- The content of `THANKS`, which the count is read from. -/
  thanks : Option Bytes

/-- An error carries its text. Maps are packed before they are sent. -/
inductive Response where
  | error (code : Code) (message : Str)
  | ok
  | file (content : Bytes)
  | noReleases
  | releases (releases : List ReleaseSummary) (latest : Str)
  | release (info : ReleaseInfo)

def fail (code : Code) (message : String) : Program Response := return .error code (ascii message)

def isDir (p : Path) : Program Bool := do
  let info ← stat p
  return info.any (·.isDir)

def isFile (p : Path) : Program Bool := do
  let info ← stat p
  return info.any (!·.isDir)

def countFiles (dir : Path) : Program Nat := do
  let entries ← readDir dir
  return (entries.getD []).countP (!·.isDir)

/-- The entries of a `META` file. -/
abbrev Meta := Table Str

def Meta.get (m : Meta) (key : String) : Str := (m.lookup (ascii key)).getD []

def parseLine (m : Meta) (line : Str) : Meta :=
  let line := trimSpace line
  if line = [] ∨ ascii "#" <+: line then m
  else
    match cut 61 line with
    | none => m
    | some (key, value) => m.insert (trimSpace key) (trimSpace value)

def parseMETA (data : Bytes) : Meta := (lines data).foldl parseLine ∅

def readReleaseMETA (p : Path) : Program (Option Meta) := do
  let data ← readFile p
  return data.map parseMETA

/-- The order of the lines is that of a walk through a map, which is not fixed. -/
def metaText (m : Meta) : Bytes := m.entries.flatMap fun e => e.1 ++ ascii " = " ++ e.2 ++ [10]

def writeReleaseMETA (p : Path) (m : Meta) : Program Bool := writeFile p (metaText m)

section

variable (releasesPath : Path) (data : Request)

def latestPath : Path := join [releasesPath, ascii "latest"]

def latestTmpPath : Path := latestPath releasesPath ++ ascii ".tmp"

def readLatestTag : Program (Option Str) := do
  let data ← readFile (latestPath releasesPath)
  return (data.map trimSpace).filter (· ≠ [])

def writeLatestTag (tag : Str) : Program Bool := do
  if ← writeFile (latestTmpPath releasesPath) tag then rename (latestTmpPath releasesPath) (latestPath releasesPath)
  else return false

def firstNotes (releaseDir : Path) : List String → Program (Option (String × Option Bytes))
  | [] => return none
  | file :: rest => do
    let notesPath := join [releaseDir, ascii file]
    if ← isFile notesPath then
      let content ← readFile notesPath
      return some (file, content)
    else firstNotes releaseDir rest

def previewText (content : Bytes) : Str :=
  trimSpace (((lines content).filter fun line => ¬(ascii "#" <+: line ∨ ascii ">" <+: line)).flatMap (· ++ [10]))

def previewOf (notes : Option (String × Option Bytes)) : Str × Str :=
  match notes with
  | some (file, some content) =>
    (previewText content,
      if file = "RELEASE.mu" then ascii "micron" else if file = "RELEASE.txt" then ascii "text" else ascii "markdown")
  | _ => ([], ascii "markdown")

def orElse (s other : Str) : Str := if s = [] then other else s

def releaseSummary (entry : DirEntry) : Program (Option ReleaseSummary) := do
  if entry.isDir then
    let releaseDir := join [releasesPath, entry.name]
    let metaPath := join [releaseDir, ascii "META"]
    if ← isFile metaPath then
      match ← readReleaseMETA metaPath with
      | none => return none
      | some m =>
        let notes ← firstNotes releaseDir ["RELEASE.md", "RELEASE.mu", "RELEASE.txt"]
        let artifacts ← countFiles (join [releaseDir, ascii "artifacts"])
        return some {
          tag := orElse (m.get "tag") entry.name
          hash := m.get "hash"
          created := parseInt (m.get "created")
          status := orElse (m.get "status") (ascii "unknown")
          createdBy := m.get "created_by"
          preview := (previewOf notes).1
          format := (previewOf notes).2
          artifacts }
    else return none
  else return none

def releaseSummaries (releasesPath : Path) : List DirEntry → Program (List ReleaseSummary)
  | [] => return []
  | entry :: rest => do
    let summary ← releaseSummary releasesPath entry
    let summaries ← releaseSummaries releasesPath rest
    return summary.toList ++ summaries

/-- The tag in `latest` counts only if published; of two releases with the tag the second decides. -/
def publishedTag (releases : List ReleaseSummary) (latest : Option Bytes) : Str :=
  match latest with
  | none => []
  | some data =>
    let tag := trimSpace data
    if (releases.reverse.find? (·.tag = tag)).any (·.status = ascii "published") then tag else []

def releasesListData : Program (List ReleaseSummary × Str) := do
  if ← isDir releasesPath then
    match ← readDir releasesPath with
    | none => return ([], [])
    | some entries =>
      let releases ← releaseSummaries releasesPath entries
      let latest ← readFile (latestPath releasesPath)
      return (releases.insertionSort fun a b => b.created ≤ a.created, publishedTag releases latest)
  else return ([], [])

def releaseList : Program Response := do
  if ← isDir releasesPath then
    let (releases, latest) ← releasesListData releasesPath
    return .releases releases latest
  else return .noReleases

def artifactList (artifactsDir : Path) : List DirEntry → Program (List Artifact)
  | [] => return []
  | entry :: rest => do
    let artifactPath := join [artifactsDir, entry.name]
    if ← isFile artifactPath then
      let info ← stat artifactPath
      let artifacts ← artifactList artifactsDir rest
      return (info.map fun info => ⟨entry.name, info.size⟩).toList ++ artifacts
    else artifactList artifactsDir rest

def notesOf (notes : Option (String × Option Bytes)) : Str × Str :=
  match notes with
  | some (file, some content) => (content, if file = "RELEASE.mu" then ascii "micron" else ascii "markdown")
  | _ => ([], ascii "text")

def readThanks (releaseDir : Path) : Program (Option Bytes) := do
  let thanksPath := join [releaseDir, ascii "THANKS"]
  if ← isFile thanksPath then readFile thanksPath else return none

def releaseData (releaseDir : Path) (tag : Str) : Program (Option ReleaseInfo) := do
  let metaPath := join [releaseDir, ascii "META"]
  if ← isFile metaPath then
    match ← readReleaseMETA metaPath with
    | none => return none
    | some m =>
      let notes ← firstNotes releaseDir ["RELEASE.md", "RELEASE.mu"]
      let artifactsDir := join [releaseDir, ascii "artifacts"]
      let entries ← readDir artifactsDir
      let artifacts ← artifactList artifactsDir (entries.getD [])
      let thanks ← readThanks releaseDir
      return some {
        tag := orElse (m.get "tag") tag
        hash := m.get "hash"
        created := parseInt (m.get "created")
        status := orElse (m.get "status") (ascii "unknown")
        createdBy := m.get "created_by"
        notes := (notesOf notes).1
        notesFormat := (notesOf notes).2
        artifacts
        thanks }
  else return none

/-- The tag that `latest` stands for. -/
def resolveTag (tag : Str) : Program (Option Str) :=
  if tag = ascii "latest" then readLatestTag releasesPath else return some tag

def releaseView : Program Response := do
  let tag := data.text "tag"
  if separator ∈ tag ∨ tag = [] then fail .invalidReq "Invalid tag specified"
  else
    match ← resolveTag releasesPath (base tag) with
    | none => fail .notFound "No latest release found"
    | some tag =>
      let releaseDir := join [releasesPath, tag]
      if ← isDir releaseDir then
        match ← releaseData releaseDir tag with
        | none => fail .remoteFail "Error getting release data"
        | some info => return .release info
      else fail .notFound "Release not found"

def releaseFetch : Program Response := do
  let tag := data.text "tag"
  let artifact := data.text "artifact"
  if separator ∈ tag ∨ tag = [] then fail .invalidReq "Invalid tag specified"
  else if separator ∈ artifact ∨ artifact = [] then fail .invalidReq "Invalid artifact specified"
  else
    match ← resolveTag releasesPath (base tag) with
    | none => fail .notFound "No latest release found"
    | some tag =>
      let releaseDir := join [releasesPath, tag]
      if ← isDir releaseDir then
        let artifactPath := join [releaseDir, ascii "artifacts", base artifact]
        if ← isFile artifactPath then
          match ← readFile artifactPath with
          | none => fail .remoteFail "Remote error"
          | some content => return .file content
        else fail .notFound "Artifact not found"
      else fail .notFound "Release not found"

def noThanks : Bytes := [0x81, 0xA5] ++ ascii "count" ++ [0x00]

def initialMeta (tag commitHash remoteHash : Bytes) (time : Int) : Meta :=
  let m : Meta := ((((∅ : Meta).insert (ascii "created_by") (hexEncode remoteHash)).insert (ascii "status")
    (ascii "draft")).insert (ascii "created") (formatInt time)).insert (ascii "tag") tag
  if commitHash = [] then m else m.insert (ascii "hash") commitHash

def writeNotes (releaseDir : Path) (notes notesFormat : Str) : Program Bool :=
  let notesFilename := if notesFormat = ascii "micron" then ascii "RELEASE.mu" else ascii "RELEASE.md"
  if notes = [] then return true else writeFile (join [releaseDir, notesFilename]) notes

def writeRelease (releaseDir : Path) (m : Meta) (notes notesFormat : Str) : Program Response := do
  if ← writeReleaseMETA (join [releaseDir, ascii "META"]) m then
    if ← writeNotes releaseDir notes notesFormat then
      if ← writeFile (join [releaseDir, ascii "THANKS"]) noThanks then return .ok
      else fail .remoteFail "Remote error"
    else fail .remoteFail "Remote error"
  else fail .remoteFail "Remote error"

def releaseCreateInit (releasesPath repositoryPath : Path) (data : Request) (remoteHash : Bytes) :
    Program Response := do
  let tag := data.text "tag"
  if tag = [] ∨ separator ∈ tag then fail .invalidReq "Invalid tag specified"
  else
    let tag := base tag
    if tag = [] ∨ tag = dot ∨ tag = dotDot then fail .invalidReq "Invalid tag name"
    else
      let verified ← command repositoryPath
        [ascii "git", ascii "rev-parse", ascii "--verify", ascii "refs/tags/" ++ tag]
      if verified then
        if ← mkdirAll releasesPath then
          let releaseDir := join [releasesPath, tag]
          if ← isDir releaseDir then fail .disallowed "Release already exists"
          else if ← mkdir releaseDir then
            if ← mkdir (join [releaseDir, ascii "artifacts"]) then
              let time ← now
              writeRelease releaseDir (initialMeta tag (data.text "hash") remoteHash time) (data.text "notes")
                (data.text "notes_format")
            else fail .remoteFail "Remote error"
          else fail .remoteFail "Remote error"
        else fail .remoteFail "Remote error"
      else return .error .invalidReq (ascii "Tag '" ++ tag ++ ascii "' does not exist in repository")

def parseBundleData : Value → Option Bytes
  | .string s => some s
  | .binary b => some b
  | _ => none

def draftMeta (releaseDir : Path) (change : Meta → Program Response) : Program Response := do
  if ← isDir releaseDir then
    match ← readReleaseMETA (join [releaseDir, ascii "META"]) with
    | none => fail .remoteFail "Remote error"
    | some m =>
      if m.get "status" = ascii "draft" then change m
      else fail .disallowed "Release was finalized and is not writable"
  else fail .notFound "Release not found"

def writeArtifact (releaseDir : Path) (artifactName : Str) (value : Value) : Program Response := do
  let artifactsDir := join [releaseDir, ascii "artifacts"]
  if ← mkdirAll artifactsDir then
    match parseBundleData value with
    | none => fail .invalidReq "No artifact data"
    | some artifactBytes =>
      if ← writeFile (join [artifactsDir, base artifactName]) artifactBytes then return .ok
      else fail .remoteFail "Remote error"
  else fail .remoteFail "Remote error"

def releaseCreateArtifact : Program Response :=
  let tag := data.text "tag"
  let artifactName := data.text "artifact_name"
  if tag = [] ∨ artifactName = [] then fail .invalidReq "Missing tag or artifact name"
  else if separator ∈ tag then fail .invalidReq "Invalid tag specified"
  else
    match data.entries.lookup (ascii "artifact_data") with
    | none | some .nil => fail .invalidReq "No artifact data"
    | some value =>
      let releaseDir := join [releasesPath, base tag]
      draftMeta releaseDir fun _ => writeArtifact releaseDir artifactName value

def withTag (act : Str → Program Response) : Program Response :=
  let tag := data.text "tag"
  if tag = [] ∨ separator ∈ tag then fail .invalidReq "Invalid tag specified" else act (base tag)

def releaseCreateFinalize : Program Response :=
  withTag data fun tag => do
    let releaseDir := join [releasesPath, tag]
    draftMeta releaseDir fun m => do
      let time ← now
      let m := (m.insert (ascii "status") (ascii "published")).insert (ascii "published_at") (formatInt time)
      if ← writeReleaseMETA (join [releaseDir, ascii "META"]) m then
        -- An error is ignored here.
        let _ ← writeLatestTag releasesPath tag
        return .ok
      else fail .remoteFail "Remote error"

def releaseDelete : Program Response :=
  withTag data fun tag => do
    let releaseDir := join [releasesPath, tag]
    if ← isDir releaseDir then
      if ← removeAll releaseDir then return .ok else fail .remoteFail "Remote error"
    else fail .notFound "Release not found"

def releaseLatest : Program Response :=
  withTag data fun tag => do
    if ← isDir (join [releasesPath, tag]) then
      if ← writeLatestTag releasesPath tag then return .ok else fail .remoteFail "Remote error"
    else fail .notFound "Release not found"

def releaseCreate (releasesPath repositoryPath : Path) (data : Request) (remoteHash : Bytes) : Program Response :=
  let step := data.text "step"
  if step = ascii "init" then releaseCreateInit releasesPath repositoryPath data remoteHash
  else if step = ascii "artifact" then releaseCreateArtifact releasesPath data
  else if step = ascii "finalize" then releaseCreateFinalize releasesPath data
  else fail .invalidReq "Invalid request"

end

inductive Operation where
  | list
  | view
  | fetch
  | create
  | delete
  | latest
deriving DecidableEq, Repr

def Operation.ofText (s : Str) : Option Operation :=
  if s = ascii "list" then some .list
  else if s = ascii "view" then some .view
  else if s = ascii "fetch" then some .fetch
  else if s = ascii "create" then some .create
  else if s = ascii "delete" then some .delete
  else if s = ascii "latest" then some .latest
  else none

def RepositoryInfo.releasesPath (repo : RepositoryInfo) : Path := repo.path ++ ascii ".releases"

def dispatch (repo : RepositoryInfo) (data : Request) (remoteHash : Bytes) : Operation → Program Response
  | .list => releaseList repo.releasesPath
  | .view => releaseView repo.releasesPath data
  | .fetch => releaseFetch repo.releasesPath data
  | .create => releaseCreate repo.releasesPath repo.path data remoteHash
  | .delete => releaseDelete repo.releasesPath data
  | .latest => releaseLatest repo.releasesPath data

end Reticulum.Rngit
