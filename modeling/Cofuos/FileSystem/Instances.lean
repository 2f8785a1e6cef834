import Cofuos.Lib.Fault
import Cofuos.Lib.HashSet
import Cofuos.FileSystem.Names

/-!
# Instances of files and folders

A file that is in use has an instance, and a folder finds the instances of its children in a hash
table. An instance is shared by everyone who has opened the file, and counts its references. A
child is one more reference of its folder, and when the last reference of a child is gone, it
leaves the table of its folder and the reference with it. The definitions follow
`kernel/filesystem/instance.cpp`, with the functions called one at a time.

Instances are identified by numbers. A number is not used again, and what belongs to it is gone
after the instance has been deleted. The records that a folder has on the disk are given with
each call: of those that can be read we keep the name, its hash, and what `open` looks at.
-/

namespace UOS

open Exfat

/-- A record of a folder. -/
structure Record where
  name : Name
  nameHash : BitVec 16
  isFolder : Bool
  validSize : ℕ
  allocSize : ℕ

/-- The sizes of a record are in order. -/
def Record.intact (r : Record) : Bool :=
  if r.isFolder = true then r.validSize = r.allocSize else r.validSize ≤ r.allocSize

/-- An instance of a file or a folder. -/
structure FileInstance where
  /-- A `dword` in the source. Every reference is held by an object of the kernel, and the 48 GB
  that the physical memory manager admits have no room for `2 ^ 32` of them. -/
  refCount : ℕ := 1
  parent : Option ℕ
  name : Name
  nameHash : BitVec 16
  isFolder : Bool
  /-- The instances of the children. -/
  fileTable : HashSet ℕ := HashSet.empty 0x10

/-- All instances. -/
structure Instances where
  inst : ℕ → Option FileInstance
  /-- The number of instances that have been made. -/
  made : ℕ

namespace Instances

def ALLOW_FILE : BitVec 8 := 8
def ALLOW_FOLDER : BitVec 8 := 0x10

/-- The mode admits a folder, or a file. -/
def allows (mode : BitVec 8) (isFolder : Bool) : Bool :=
  if isFolder = true then mode &&& ALLOW_FOLDER ≠ 0 else mode &&& ALLOW_FILE ≠ 0

/-- An instance. It is an error to use one that has been deleted. -/
def deref (s : Instances) (i : ℕ) : Except Fault FileInstance :=
  match s.inst i with
  | none => .error (.bugcheck "deleted instance")
  | some f => .ok f

/-- Replaces an instance. -/
def set (s : Instances) (i : ℕ) (f : FileInstance) : Instances :=
  { s with inst := Function.update s.inst i (some f) }

/-- Frees an instance. -/
def free (s : Instances) (i : ℕ) : Instances :=
  { s with inst := Function.update s.inst i none }

/-- The instance has the name. -/
def named (s : Instances) (str : Name) (i : ℕ) : Bool :=
  match s.inst i with
  | none => false
  | some f => nameEqual f.name str

/-- Looks up a name in the table of a folder. -/
def find (s : Instances) (f : FileInstance) (str : Name) : Option ℕ :=
  f.fileTable.find (nameHash str).toNat (s.named str)

def acquire (s : Instances) (i : ℕ) : Except Fault Instances := do
  let f ← s.deref i
  return s.set i { f with refCount := f.refCount + 1 }

/-- The record that is found for a name. Records are read with the mode and the hash of the name,
and are passed over until one has the name. -/
def lookUp (dir : List Record) (str : Name) (mode : BitVec 8) : Option Record :=
  (dir.filter fun r => allows mode r.isFolder && r.nameHash = nameHash str).find?
    fun r => nameEqual r.name str

/-- Opens a child of a folder. -/
def openChild (s : Instances) (folder : ℕ) (str : Name) (mode : BitVec 8) (dir : List Record) :
    Except Fault (Option ℕ × Instances) := do
  let f ← s.deref folder
  match s.find f str with
  | some i =>
    let child ← s.deref i
    if allows mode child.isFolder = false then
      return (none, s)
    else
      return (some i, ← s.acquire i)
  | none =>
    match lookUp dir str mode with
    | none => return (none, s)
    | some r =>
      if r.intact = false then
        -- the sizes are corrupted
        return (none, s)
      else
        let i := s.made
        let child : FileInstance :=
          { parent := some folder, name := r.name, nameHash := r.nameHash, isFolder := r.isFolder }
        let f := { f with
          fileTable := f.fileTable.insert r.nameHash.toNat i
          refCount := f.refCount + 1 }
        return (some i, { (s.set folder f).set i child with made := i + 1 })

/-- Deletes an instance, which leaves the table of its folder. The folder is deleted as well when
this was its last reference. The memory of an instance is freed after the folder has been deleted,
but nothing reads it any more. -/
def delete (debug : Bool) : ℕ → Instances → ℕ → Except Fault Instances
  | 0, _, _ => .error .outOfFuel
  | n + 1, s, i => do
    let f ← s.deref i
    Fault.assert debug (f.fileTable.count = 0)
    Fault.assert debug (f.refCount = 0)
    match f.parent with
    | none =>
      Fault.assert debug False
      .error (.bugcheck "no parent")
    | some p =>
      -- `close` of the folder
      let g ← s.deref p
      Fault.assert debug (s.find g f.name = some i)
      if s.find g f.name = none then
        .error (.bugcheck "invalid iterator")
      else
        Fault.assert debug (g.refCount ≠ 0)
        let g := { g with
          fileTable := g.fileTable.erase (nameHash f.name).toNat (s.named f.name)
          refCount := g.refCount - 1 }
        let s := (s.set p g).free i
        if g.refCount ≠ 0 then
          return s
        else
          delete debug n s p

/-- Gives a reference back. -/
def relax (debug : Bool) (s : Instances) (i : ℕ) : Except Fault Instances := do
  let f ← s.deref i
  Fault.assert debug (f.refCount ≠ 0)
  let s := s.set i { f with refCount := f.refCount - 1 }
  if f.refCount - 1 ≠ 0 then
    return s
  else
    delete debug (i + 1) s i

/-! ### Runs -/

/-- The instances, and the references that have been given out for each of them. -/
structure State where
  all : Instances
  refs : ℕ → ℕ

/-- The root folder, to which the file system has a reference. -/
def start : State where
  all :=
    { inst := fun i => if i = 0 then
        some { parent := none, name := [], nameHash := 0, isFolder := true } else none
      made := 1 }
  refs := fun i => if i = 0 then 1 else 0

/-- A call. A child of a folder is opened, the reference of an instance is given out once more, a
reference to the folder of an instance is given out, or a reference is given back. Whoever calls
has a reference, and the file system keeps the one that it has to the root. -/
inductive Step (debug : Bool) (x : State) : State → Prop
  | opened (folder : ℕ) (str : Name) (mode : BitVec 8) (dir : List Record) {res : Option ℕ}
      {s' : Instances} : 0 < x.refs folder → x.all.openChild folder str mode dir = .ok (res, s') →
      Step debug x
        { all := s', refs := fun i => x.refs i + if res = some i then 1 else 0 }
  | acquire (i : ℕ) {s' : Instances} : 0 < x.refs i → x.all.acquire i = .ok s' →
      Step debug x { all := s', refs := Function.update x.refs i (x.refs i + 1) }
  | parent (i p : ℕ) {f : FileInstance} {s' : Instances} : 0 < x.refs i → x.all.inst i = some f →
      f.parent = some p → x.all.acquire p = .ok s' →
      Step debug x { all := s', refs := Function.update x.refs p (x.refs p + 1) }
  | relax (i : ℕ) {s' : Instances} : (if i = 0 then 1 else 0) < x.refs i →
      x.all.relax debug i = .ok s' →
      Step debug x { all := s', refs := Function.update x.refs i (x.refs i - 1) }

/-- The states that are reached by calls. -/
def Reachable (debug : Bool) (x : State) : Prop :=
  Relation.ReflTransGen (Step debug) start x

end Instances

end UOS
