import Cofuos.Memory.Kinds
import Cofuos.Process.Image

/-!
# Loading a program

The first thread of a process runs `process_loader` of `kernel/interface/bridge.cpp`. It reserves the
pages of the image, reads the header and every section of the file into them, and leaves for user
code. If anything fails it is killed.
-/

namespace UOS

open Boot PE64

/-- How a read of a file ends: how many bytes it can deliver at most, and whether the state of the
file is `0`. -/
structure Transfer where
  count : ℕ
  ok : Bool
  deriving DecidableEq, Repr

/-- `literal`: its length is stored in a `word` with one more for the terminator. -/
structure Literal where
  chars : List UInt8
  length_lt : chars.length + 1 < 2 ^ 16

/-- What the frames contain, and what the address space and the file answer. -/
structure Answers where
  mem : Bytes
  imageReserved : Bool
  headerCommitted : Bool
  headerRead : Transfer
  stackBase : ℕ
  stackCommitted : Bool
  committed : ℕ → Bool
  sought : ℕ → Bool
  read : ℕ → Transfer
  attributesSet : ℕ → Bool
  envPage : ℕ
  envCommitted : Bool

/-- What is done to the pages of a section. -/
inductive Action where
  | commit
  | read
  | zero
  | protect (attrib : ℕ)
  deriving DecidableEq, Repr

/-- A range of the memory that is accessed for a section. -/
structure Access where
  index : ℕ
  action : Action
  addr : ℕ
  len : ℕ
  deriving DecidableEq, Repr

/-- The last thing that is done for a section is to set the attributes of its pages. -/
def Access.last (a : Access) : Bool :=
  match a.action with
  | .protect _ => true
  | _ => false

/-- The address space of the process while a program is loaded, and the accesses to it. -/
structure Loader where
  kinds : Kinds
  mem : Bytes
  accesses : List Access := []

/-- The thread leaves for user code. -/
structure Entry where
  entrypoint : ℕ
  imageBase : ℕ
  envPage : ℕ
  userStkTop : ℕ
  userStkReserved : ℕ

/-- The number of bytes that a read delivers. -/
def ImageFile.delivered (f : ImageFile) (pos len : ℕ) (t : Transfer) : ℕ :=
  min t.count (min len (f.length - pos))

def PAGE_WRITE : ℕ := 2

def PAGE_XD : ℕ := 0x8000000000000000

/-- The attributes of the pages of a section. -/
def PE64.Section.pageAttrib (sec : Section) : ℕ :=
  (if sec.attrib &&& 0x80000000 ≠ 0 then PAGE_WRITE else 0) |||
    (if sec.attrib &&& 0x20000000 = 0 then PAGE_XD else 0)

namespace Loader

variable (f : ImageFile) (env : Literal) (ans : Answers) (imageBase imagePages pe : ℕ)

/-- Records an access for a section. -/
def access (st : Loader) (index : ℕ) (action : Action) (addr len : ℕ) : Loader :=
  { st with accesses := ⟨index, action, addr, len⟩ :: st.accesses }

/-- Reserves the region of the image. If it is to be at `0` the pages are reserved somewhere else;
the answer is `0` only if there are none. -/
def reserveImage (st : Loader) : Except Loader Loader :=
  if imageBase = 0 then
    if ans.imageReserved = true then .error st else .ok st
  else
    match st.kinds.reserve imageBase imagePages ans.imageReserved with
    | none => .error st
    | some m => .ok { st with kinds := m }

/-- Reads the full header. -/
def readHeader (hdrSize : ℕ) (st : Loader) : Except Loader Loader :=
  match st.kinds.commit imageBase (pagesFor 64 hdrSize) ans.headerCommitted with
  | none => .error st
  | some m =>
      let n := f.delivered 0 hdrSize ans.headerRead
      let st := { st with kinds := m, mem := st.mem.fill imageBase n f.byte }
      if ans.headerRead.ok = false ∨ n ≠ hdrSize then .error st else .ok st

/-- Prepares the user stack. Returns its number of pages and its base. -/
def userStack (st : Loader) : Except Loader (Loader × ℕ × ℕ) :=
  let stackPages := pagesFor 64 (stkReserve st.mem pe)
  if stackPages = 0 then .error st
  else
    match st.kinds.reserveAny ans.stackBase (1 + stackPages) with
    | none => .error st
    | some (base, m) =>
        match m.commit ((base + stackPages * 0x1000) % 2 ^ 64) 1 ans.stackCommitted with
        | none => .error { st with kinds := m }
        | some m => .ok ({ st with kinds := m }, stackPages, base)

/-- Reads the data of a section to an address. -/
def readSection (index : ℕ) (sec : Section) (base : ℕ) (st : Loader) : Except Loader Loader :=
  if sec.datasize = 0 then .ok st
  else if ans.sought index = false then .error st
  else
    let n := f.delivered sec.fileoffset sec.datasize (ans.read index)
    let mem := st.mem.fill base n fun j => f.byte (sec.fileoffset + j)
    let st := { st with mem := mem }.access index .read base sec.datasize
    if (ans.read index).ok = false ∨ n ≠ sec.datasize then .error st else .ok st

/-- Clears what follows the data of a section in its pages. -/
def zeroSection (index : ℕ) (sec : Section) (base : ℕ) (st : Loader) : Loader :=
  let n := sec.pageCount * 0x1000 - sec.datasize
  { st with mem := st.mem.fill (base + sec.datasize) n fun _ => 0 }.access index .zero
    (base + sec.datasize) n

/-- Sets the attributes of the pages of a section. -/
def protectSection (index : ℕ) (sec : Section) (base : ℕ) (st : Loader) : Except Loader Loader :=
  match st.kinds.protect base sec.pageCount (ans.attributesSet index) with
  | none => .error st
  | some m => .ok ({ st with kinds := m }.access index (.protect sec.pageAttrib) base
      (sec.pageCount * 0x1000))

/-- Commits the pages of a section and loads it. -/
def fillSection (index : ℕ) (sec : Section) (base : ℕ) (st : Loader) : Except Loader Loader :=
  match st.kinds.commit base sec.pageCount (ans.committed index) with
  | none => .error st
  | some m => do
      let st := { st with kinds := m }.access index .commit base (sec.pageCount * 0x1000)
      let st ← readSection f ans index sec base st
      protectSection ans index sec base (zeroSection index sec base st)

/-- The body of the loop over the sections. An error is a `break`, the other ends are a
`continue`. -/
def loadSection (index : ℕ) (st : Loader) : Except Loader Loader :=
  match getSection st.mem pe index with
  | none => .error st
  | some sec =>
      if sec.offset % 0x1000 ≠ 0 then .error st
      else if sec.fileoffset % 0x200 ≠ 0 ∨ sec.datasize % 0x200 ≠ 0 then .error st
      else if sec.pageCount = 0 then .ok st
      else if imagePages < sec.offset / 0x1000 + sec.pageCount then .error st
      else fillSection f ans index sec (imageBase + sec.offset) st

/-- The loop over the sections, with the number of values that the index has left before it is `0`
again. Returns the index at the end. -/
def sectionLoop : ℕ → ℕ → Loader → Loader × ℕ
  | 0, _, st => (st, 0)
  | n + 1, index, st =>
      match loadSection f ans imageBase imagePages pe index st with
      | .error st => (st, index)
      | .ok st => sectionLoop n (index + 1) st

/-- Loads every section. -/
def loadSections (st : Loader) : Except Loader Loader :=
  let (st, index) := sectionLoop f ans imageBase imagePages pe (2 ^ 32) 0 st
  if index ≠ sectionCount st.mem pe then .error st else .ok st

/-- Copies the environment to user space. Returns its page. -/
def copyEnvironment (st : Loader) : Except Loader (Loader × ℕ) :=
  if env.chars = [] then .ok (st, 0)
  else
    let envCount := pagesFor 64 (env.chars.length + 1)
    match st.kinds.reserveAny ans.envPage envCount with
    | none => .error st
    | some (page, m) =>
        match m.commit page (envCount % 2 ^ 32) ans.envCommitted with
        | none => .error { st with kinds := m }
        | some m => .ok ({ st with kinds := m, mem := st.mem.store page (env.chars ++ [0]) }, page)

/-- `process_loader`. An error is the end of the thread. -/
def processLoader (imageSize hdrSize : ℕ) (m : Kinds) : Except Loader (Loader × Entry) :=
  let st : Loader := { kinds := m, mem := ans.mem }
  let imagePages := pagesFor 64 imageSize
  if imagePages = 0 then .error st
  else do
    let st ← reserveImage ans imageBase imagePages st
    let st ← readHeader f ans imageBase hdrSize st
    match construct st.mem imageBase hdrSize with
    | none => .error st
    | some pe =>
        let (st, stackPages, stackBase) ← userStack ans pe st
        let st ← loadSections f ans imageBase imagePages pe st
        let (st, envPage) ← copyEnvironment env ans st
        let entrypoint := (imgbase st.mem pe + entrance st.mem pe) % 2 ^ 64
        if 2 ^ 47 ≤ entrypoint then .error st
        else .ok (st,
          { entrypoint := entrypoint
            imageBase := imgbase st.mem pe
            envPage := envPage
            userStkTop := (stackBase + (1 + stackPages) * 0x1000) % 2 ^ 64
            userStkReserved := stackPages * 0x1000 })

@[simp]
theorem access_mem (st : Loader) (index : ℕ) (action : Action) (addr len : ℕ) :
  (st.access index action addr len).mem = st.mem
  := rfl

@[simp]
theorem access_kinds (st : Loader) (index : ℕ) (action : Action) (addr len : ℕ) :
  (st.access index action addr len).kinds = st.kinds
  := rfl

@[simp]
theorem access_accesses (st : Loader) (index : ℕ) (action : Action) (addr len : ℕ) :
  (st.access index action addr len).accesses = ⟨index, action, addr, len⟩ :: st.accesses
  := rfl

theorem zeroSection_mem (index : ℕ) (sec : Section) (base : ℕ) (st : Loader) :
  (zeroSection index sec base st).mem =
    st.mem.fill (base + sec.datasize) (sec.pageCount * 0x1000 - sec.datasize) fun _ => 0
  := rfl

end Loader

end UOS
