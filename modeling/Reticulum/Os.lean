import Reticulum.Calls
import Reticulum.Filepath

/-! # Files, subprocesses and the clock

The calls of Go's `os` and `os/exec` packages, and what a file system without symbolic links can answer. -/

namespace Os
open Filepath Calls

structure FileInfo where
  isDir : Bool
  size : Nat
deriving DecidableEq

structure DirEntry where
  name : Path
  isDir : Bool
deriving DecidableEq

inductive Op where
  | stat (path : Path)
  | readFile (path : Path)
  | readDir (path : Path)
  | writeFile (path : Path) (data : List UInt8)
  | rename (old new : Path)
  | mkdir (path : Path)
  | mkdirAll (path : Path)
  | removeAll (path : Path)
  /-- A subprocess that runs in the directory. -/
  | command (dir : Path) (args : List Path)
  | now
deriving DecidableEq

/-- Calls that return nothing but an error answer whether they succeeded. -/
def Op.Answer : Op → Type
  | stat _ => Option FileInfo
  | readFile _ => Option (List UInt8)
  | readDir _ => Option (List DirEntry)
  | now => Int
  | _ => Bool

def os : Interface := ⟨Op, Op.Answer⟩

abbrev Program (α : Type) := Prog os α

def stat (p : Path) : Program (Option FileInfo) := Prog.perform (I := os) (.stat p)
def readFile (p : Path) : Program (Option (List UInt8)) := Prog.perform (I := os) (.readFile p)
def readDir (p : Path) : Program (Option (List DirEntry)) := Prog.perform (I := os) (.readDir p)
def writeFile (p : Path) (data : List UInt8) : Program Bool := Prog.perform (I := os) (.writeFile p data)
def rename (old new : Path) : Program Bool := Prog.perform (I := os) (.rename old new)
def mkdir (p : Path) : Program Bool := Prog.perform (I := os) (.mkdir p)
def mkdirAll (p : Path) : Program Bool := Prog.perform (I := os) (.mkdirAll p)
def removeAll (p : Path) : Program Bool := Prog.perform (I := os) (.removeAll p)
def command (dir : Path) (args : List Path) : Program Bool := Prog.perform (I := os) (.command dir args)
def now : Program Int := Prog.perform (I := os) .now

/-- Where a path leads: from the root or from the working directory, and through which names. -/
abbrev Place := Bool × List Path

def place (p : Path) : Place := (isAbs p, names p)

end Os
