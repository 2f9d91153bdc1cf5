import Reticulum.Text
import Reticulum.Table

/-! The repositories of a git node, and who may do what with them (cmd/gorngit/server.go, permissions.go). -/

namespace Reticulum.Rngit
open Text

inductive Perm where
  | read
  | write
  | create
  | stats
  | release
  | interact
  | propose
  | admin
deriving DecidableEq, Repr

structure PermissionLists where
  read : List Bytes := []
  write : List Bytes := []
  create : List Bytes := []
  stats : List Bytes := []
  release : List Bytes := []
  interact : List Bytes := []
  propose : List Bytes := []
  admin : List Bytes := []

def permTargetAll : Bytes := [0x02]

structure RepositoryInfo where
  path : Bytes
  perms : PermissionLists := {}

structure GroupInfo where
  repositories : Table RepositoryInfo := ∅
  perms : PermissionLists := {}

structure Node where
  groups : Table GroupInfo := ∅
  /-- The blocked identities, in hex. -/
  blockedIdentities : List Bytes := []

namespace Node

end Node

end Reticulum.Rngit
