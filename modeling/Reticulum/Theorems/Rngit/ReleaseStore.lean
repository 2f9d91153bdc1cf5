import Reticulum.Rngit.Release

/-! # The paths that release requests touch

A request relies on the file `latest`, which other requests write. -/

namespace Reticulum.Rngit
open Text Filepath Os Calls

/-- What a `latest` file can hold: the name of a directory entry, or nothing. -/
def LatestText (content : Bytes) : Prop := trimSpace content ≠ [] → Plain (trimSpace content)

/-- The directory itself is looked at and made, everything else is below it; git runs in the repository. -/
def InStore (repositoryPath store : Path) : Op → Prop
  | .stat p | .readDir p | .mkdirAll p => Within store p
  | .readFile p | .writeFile p _ | .mkdir p | .removeAll p => Below store p
  | .rename p q => Below store p ∧ Below store q
  | .command dir _ => dir = repositoryPath
  | .now => True

/-- A request stays in the store and writes nothing but names to `latest`, if it finds nothing else there. -/
def wellWritten (repositoryPath store : Path) : Contract os where
  calls
    | .writeFile p data => Below store p ∧ (Deep store p ∨ p = latestTmpPath store ∧ LatestText data)
    | .rename p q => p = latestTmpPath store ∧ q = latestPath store
    | op => InStore repositoryPath store op
  answers
    | .readFile p, answer => p = latestPath store → ∀ content, answer = some content → LatestText content
    | .readDir _, answer => ∀ entries, answer = some entries → ∀ e ∈ entries, Plain e.name
    | _, _ => True

variable {repositoryPath repo store dir : Path} {α : Type}

section Helpers

variable (repositoryPath store)
variable {p : Path} {tag : Str} {data : Request}

abbrev Safe (p : Program α) : Prop := p.Meets (wellWritten repositoryPath store) fun _ => True

variable {repositoryPath store}

section

variable (h : Within store p)
include h

end

section

variable (h : Below store dir)
include h

end

/-- Names that do not turn into `.` or `..` anywhere. -/
structure Request.Tidy (data : Request) : Prop where
  tag : trimSpace (data.text "tag") ∉ [dot, dotDot]
  artifactName : base (data.text "artifact_name") ≠ dotDot

variable (hs : store ≠ [])
include hs

variable (htidy : data.Tidy)
include htidy

end Helpers

/-- The repository `r` of the group `g`, which everybody may read and release. -/
def sampleRepository : RepositoryInfo where
  path := ascii "/g/r"
  perms := { read := [permTargetAll], release := [permTargetAll] }

def sampleNode : Node where
  groups := AList.singleton (ascii "g") { repositories := AList.singleton (ascii "r") sampleRepository }

def sampleRequest (operation tag : String) : Request where
  repository := some (.string (ascii "g/r"))
  entries := (AList.singleton (ascii "operation") (.string (ascii operation))).insert (ascii "tag") (.string (ascii tag))

end Reticulum.Rngit
