import Cofuos.Lib.Fault

/-!
# Page tables and their free lists

A page table has 512 entries. The entries that map no page and are not reserved form runs,
and the runs are linked into a list, ordered by size, whose head and whose largest size are
kept in the directory entry of the table. The links are packed into spare bits of the free
entries: the first entry of a run holds the link to the next run, the second the link to
the previous one, the third the size of the run, and every further entry its distance from
the first.

The definitions follow `kernel/memory/vm.cpp`. A pointer into a table is the index of the
entry it points at, so the tests for the end of the page are tests of the index against
`0x200`.
-/

namespace UOS

open Fault

/-! ### Entries -/

/-- What the spare bits of a free entry hold. -/
inductive PTE.Tag where
  | OFF
  | SIZE
  | PREV
  | NEXT
  deriving DecidableEq, Repr

/-- An entry of a page table. -/
structure PTE where
  present : Bool := false
  write : Bool := false
  user : Bool := false
  wt : Bool := false
  cd : Bool := false
  accessed : Bool := false
  dirty : Bool := false
  pat : Bool := false
  global : Bool := false
  type : PTE.Tag := .OFF
  valid : Bool := false
  pageAddr : ℕ := 0
  data : ℕ := 0
  preserve : Bool := false
  bypass : Bool := false
  xd : Bool := false
  deriving DecidableEq, Repr

/-- An entry of a page directory. -/
structure PDTE where
  present : Bool := false
  write : Bool := false
  user : Bool := false
  wt : Bool := false
  cd : Bool := false
  accessed : Bool := false
  ps : Bool := false
  remain : ℕ := 0
  ptAddr : ℕ := 0
  head : ℕ := 0
  bypass : Bool := false
  xd : Bool := false
  deriving DecidableEq, Repr

/-- The entries of a page table. Those from `0x200` on lie outside of the table. -/
abbrev Table := ℕ → PTE

/-- An entry is free when it maps no page and is not reserved. -/
def PTE.isFree (pt : PTE) : Bool := !pt.present && !pt.preserve

/-- A run of free entries, with its links. -/
structure BLOCK where
  self : ℕ := 0
  next : ℕ := 0
  prev : ℕ := 0
  size : ℕ := 0
  nextValid : Bool := false
  prevValid : Bool := false
  deriving DecidableEq, Repr

namespace BLOCK

/-- The first entry of the run of the entry `i`, from the tag of the entry: the switch of
`BLOCK::get`. -/
def first (debug : Bool) (table : Table) (i : ℕ) : Except Fault ℕ := do
  let pt := table i
  assert debug (pt.isFree = true)
  match pt.type with
  | .OFF =>
      assert debug (pt.valid = true)
      assert debug (pt.data > 2 ∧ pt.data ≤ i)
      return i - pt.data
  | .SIZE =>
      assert debug (pt.valid = true)
      assert debug (pt.data = 3 ∧ i ≥ 2)
      return i - 2
  | .PREV =>
      assert debug (i ≥ 1)
      return i - 1
  | .NEXT =>
      return i

/-- The block that starts at the entry `self`: the part of `BLOCK::get` after the switch.
The field `prev` keeps its former value when the run is a single entry. -/
def read (debug : Bool) (table : Table) (self : ℕ) (block : BLOCK) : Except Fault BLOCK := do
  let pt := table self
  assert debug (pt.isFree = true)
  assert debug (pt.type = .NEXT)
  let block := { block with
    self := self, next := pt.data, nextValid := pt.valid, prevValid := false, size := 1 }
  let pt := table (self + 1)
  if self + 1 = 0x200 ∨ pt.isFree = false then
    return block
  assert debug (pt.type = .PREV)
  let block := { block with prev := pt.data, prevValid := pt.valid, size := 2 }
  let pt := table (self + 2)
  if self + 2 = 0x200 ∨ pt.isFree = false then
    return block
  assert debug (pt.type = .SIZE ∧ pt.valid = true)
  let block := { block with size := pt.data + 1 }
  assert debug (block.size > 2)
  -- the loop over the remaining entries is there in a debug build only
  (List.range' 3 (block.size - 3)).forM fun i => do
    assert debug (self + i ≠ 0x200)
    assert debug ((table (self + i)).isFree = true)
    assert debug ((table (self + i)).type = .OFF)
    assert debug ((table (self + i)).valid = true ∧ (table (self + i)).data = i)
  return block

/-- The block of the run of the entry `i`. -/
def get (debug : Bool) (table : Table) (i : ℕ) (block : BLOCK) : Except Fault BLOCK := do
  let self ← first debug table i
  read debug table self block

/-- Stores a tag with its data and its valid bit in the entry `i`. -/
def setTag (table : Table) (i : ℕ) (type : PTE.Tag) (data : ℕ) (valid : Bool) : Table :=
  Function.update table i { table i with type := type, data := data % 0x200, valid := valid }

/-- Stores the links and the size of a block in the entries of its run, from the entry `i`
on. -/
def put (debug : Bool) (block : BLOCK) (table : Table) (i : ℕ) : Except Fault Table := do
  assert debug (block.self = i)
  assert debug (block.size ≠ 0)
  assert debug ((table i).isFree = true)
  let table := setTag table i .NEXT block.next block.nextValid
  if block.size = 1 then
    return table
  assert debug (i + 1 ≠ 0x200)
  assert debug ((table (i + 1)).isFree = true)
  let table := setTag table (i + 1) .PREV block.prev block.prevValid
  if block.size = 2 then
    return table
  assert debug (i + 2 ≠ 0x200)
  assert debug ((table (i + 2)).isFree = true)
  let table := setTag table (i + 2) .SIZE (block.size - 1) true
  let table ← (List.range' 3 (block.size - 3)).foldlM (fun table k => do
    assert debug (i + k ≠ 0x200)
    assert debug ((table (i + k)).isFree = true)
    return setTag table (i + k) .OFF k true) table
  assert debug (i + block.size = 0x200 ∨ (table (i + block.size)).isFree = false)
  return table

end BLOCK

/-! ### The largest size -/

/-- The number of significant bits of a number below `2 ^ fuel`: the loop of
`put_max_size`. -/
def shiftCount : ℕ → ℕ → ℕ
  | 0, _ => 0
  | fuel + 1, maxSize => if maxSize = 0 then 0 else shiftCount fuel (maxSize / 2) + 1

/-- The size the four bits `remain` stand for. -/
def decodeSize (remain : ℕ) : ℕ :=
  if remain < 8 then
    if remain = 0 then 0 else 2 ^ (remain - 1)
  else
    64 + 56 * (remain - 7)

/-- The four bits that stand for a size. -/
def encodeSize (maxSize : ℕ) : ℕ :=
  if maxSize ≥ 64 + 56 then
    7 + (maxSize - 64) / 56
  else
    shiftCount 16 maxSize

/-- A lower bound of the size of the largest free run. -/
def getMaxSize (pdt : PDTE) : ℕ := decodeSize pdt.remain

/-- Records the size of the largest free run. -/
def putMaxSize (pdt : PDTE) (maxSize : ℕ) : PDTE :=
  { pdt with remain := encodeSize maxSize }

/-! ### The free list -/

/-- The walk of `resolve_prior` from the head of the list to the block before `block`. The
entry `cur` is the next one to be read. -/
def resolveWalk (debug : Bool) (table : Table) (block : BLOCK) :
    ℕ → ℕ → BLOCK → Except Fault BLOCK
  | 0, _, _ => .error .outOfFuel
  | fuel + 1, cur, prevBlock => do
      let prevBlock ← BLOCK.get debug table cur prevBlock
      assert debug (prevBlock.size = 1)
      if prevBlock.nextValid = true ∧ prevBlock.next = block.self then
        return { block with prev := prevBlock.self, prevValid := true }
      if prevBlock.nextValid = true then
        resolveWalk debug table block fuel prevBlock.next prevBlock
      else
        .error (.bugcheck "virtual_space::resolve_prior failed @ %p")

/-- Finds the link to the previous block, which a block of one entry does not hold. -/
def resolvePrior (debug : Bool) (pdt : PDTE) (table : Table) (block : BLOCK) :
    Except Fault BLOCK := do
  assert debug (block.size ≠ 0)
  assert debug (getMaxSize pdt ≠ 0)
  if pdt.head = block.self then
    assert debug (block.prevValid = false)
    return block
  if block.size > 1 then
    assert debug (block.prevValid = true)
    return block
  resolveWalk debug table block 0x200 pdt.head {}

/-- The first half of `erase`: the block before `block`, or the head of the list, is linked
to the block after it. Returns the size of the block before. -/
def unlinkPrev (debug : Bool) (pdt : PDTE) (table : Table) (block : BLOCK) :
    Except Fault (PDTE × Table × ℕ) :=
  if block.prevValid = true then do
    let prevBlock ← BLOCK.get debug table block.prev {}
    assert debug (prevBlock.nextValid = true ∧ prevBlock.next = block.self)
    let prevBlock := { prevBlock with next := block.next, nextValid := block.nextValid }
    let table ← prevBlock.put debug table prevBlock.self
    return (pdt, table, prevBlock.size)
  else do
    assert debug (pdt.head = block.self)
    return ({ pdt with head := block.next % 0x200 }, table, 0)

/-- The second half of `erase`: the block after `block` is linked to the block before it.
Returns the size to be recorded as the largest one. -/
def unlinkNext (debug : Bool) (pdt : PDTE) (table : Table) (block : BLOCK) (maxSize : ℕ) :
    Except Fault (Table × ℕ) :=
  if block.nextValid = true then do
    let nextBlock ← BLOCK.get debug table block.next {}
    let maxSize := max nextBlock.size (getMaxSize pdt)
    if nextBlock.size > 1 then
      assert debug (nextBlock.prevValid = true ∧ nextBlock.prev = block.self)
      let nextBlock := { nextBlock with prev := block.prev, prevValid := block.prevValid }
      let table ← nextBlock.put debug table nextBlock.self
      return (table, maxSize)
    else
      return (table, maxSize)
  else
    return (table, maxSize)

/-- Unlinks a block. -/
def erase (debug : Bool) (pdt : PDTE) (table : Table) (block : BLOCK) :
    Except Fault (PDTE × Table) := do
  let (pdt, table, maxSize) ← unlinkPrev debug pdt table block
  let (table, maxSize) ← unlinkNext debug pdt table block maxSize
  return (putMaxSize pdt maxSize, table)

/-- The two blocks between which a block is to be inserted. A block of size `0` stands for
the end of the list. -/
structure Gap where
  prevBlock : BLOCK
  nextBlock : BLOCK

/-- Both ends of the gap are in the order of the list: the assertion of the loop of
`insert`. -/
def Gap.check (debug : Bool) (gap : Gap) : Except Fault Unit :=
  assert debug (gap.prevBlock.size ≠ 0 → gap.nextBlock.size ≠ 0 →
    gap.prevBlock.size ≤ gap.nextBlock.size)

/-- Moves the gap to the left while the block before it is larger than `block`. -/
def shiftLeft (debug : Bool) (table : Table) (block : BLOCK) : ℕ → Gap → Except Fault Gap
  | 0, _ => .error .outOfFuel
  | fuel + 1, gap => do
      gap.check debug
      if gap.prevBlock.size ≠ 0 ∧ gap.prevBlock.size > block.size then
        let nextBlock := gap.prevBlock
        if nextBlock.prevValid = false then
          return ⟨{ gap.prevBlock with size := 0 }, nextBlock⟩
        let prevBlock ← BLOCK.get debug table nextBlock.prev gap.prevBlock
        shiftLeft debug table block fuel ⟨prevBlock, nextBlock⟩
      else
        return gap

/-- Moves the gap to the right while the block after it is smaller than `block`. -/
def shiftRight (debug : Bool) (table : Table) (block : BLOCK) : ℕ → Gap → Except Fault Gap
  | 0, _ => .error .outOfFuel
  | fuel + 1, gap => do
      gap.check debug
      if gap.nextBlock.size ≠ 0 ∧ gap.nextBlock.size < block.size then
        let prevBlock := gap.nextBlock
        if prevBlock.nextValid = false then
          return ⟨prevBlock, { gap.nextBlock with size := 0 }⟩
        let nextBlock ← BLOCK.get debug table prevBlock.next gap.nextBlock
        shiftRight debug table block fuel ⟨prevBlock, nextBlock⟩
      else
        return gap

/-- Moves the gap to the place of a block: the loop of `insert`. The blocks next to the gap
it starts from decide on the direction. -/
def findGap (debug : Bool) (table : Table) (block : BLOCK) (gap : Gap) : Except Fault Gap :=
  if gap.prevBlock.size ≠ 0 ∧ gap.prevBlock.size > block.size then
    shiftLeft debug table block 0x201 gap
  else
    shiftRight debug table block 0x201 gap

/-- Reads the block a valid link leads to. -/
def getLink (debug : Bool) (table : Table) (valid : Bool) (link : ℕ) : Except Fault BLOCK :=
  if valid = true then BLOCK.get debug table link {} else .ok { size := 0 }

/-- Links a block to the block after the gap. -/
def linkNext (debug : Bool) (pdt : PDTE) (table : Table) (block : BLOCK) (gap : Gap) :
    Except Fault (PDTE × Table × BLOCK) :=
  if gap.nextBlock.size ≠ 0 then do
    assert debug (gap.nextBlock.size ≥ block.size)
    let block := { block with next := gap.nextBlock.self, nextValid := true }
    let nextBlock := { gap.nextBlock with prev := block.self, prevValid := true }
    let table ← nextBlock.put debug table nextBlock.self
    return (pdt, table, block)
  else
    return (putMaxSize pdt block.size, table, { block with nextValid := false })

/-- Links a block to the block before the gap, or to the head of the list. -/
def linkPrev (debug : Bool) (pdt : PDTE) (table : Table) (block : BLOCK) (gap : Gap) :
    Except Fault (PDTE × Table × BLOCK) :=
  if gap.prevBlock.size ≠ 0 then do
    assert debug (gap.prevBlock.size ≤ block.size)
    let block := { block with prev := gap.prevBlock.self, prevValid := true }
    let prevBlock := { gap.prevBlock with next := block.self, nextValid := true }
    let table ← prevBlock.put debug table prevBlock.self
    return (pdt, table, block)
  else do
    assert debug (gap.nextBlock.size = 0 ∨ pdt.head = gap.nextBlock.self)
    return ({ pdt with head := block.self % 0x200 }, table, { block with prevValid := false })

/-- Links a block into the gap: the part of `insert` after its loop. -/
def insertAt (debug : Bool) (pdt : PDTE) (table : Table) (block : BLOCK) (gap : Gap) :
    Except Fault (PDTE × Table) := do
  let (pdt, table, block) ← linkNext debug pdt table block gap
  let (pdt, table, block) ← linkPrev debug pdt table block gap
  let table ← block.put debug table block.self
  return (pdt, table)

/-- Links a block, at the place its size gives it. The links of the block say where the
search for the place starts. -/
def insert (debug : Bool) (pdt : PDTE) (table : Table) (block : BLOCK) :
    Except Fault (PDTE × Table) := do
  if block.size = 0 then
    return (pdt, table)
  let block :=
    if block.prevValid = false ∧ block.nextValid = false ∧ getMaxSize pdt ≠ 0 then
      { block with next := pdt.head, nextValid := true }
    else
      block
  let prevBlock ← getLink debug table block.prevValid block.prev
  let nextBlock ← getLink debug table block.nextValid block.next
  let gap ← findGap debug table block ⟨prevBlock, nextBlock⟩
  insertAt debug pdt table block gap

/-! ### New tables -/

/-- Fills a new table and its directory entry: `new_pt` from the frame of the table on. -/
def initPt (debug : Bool) (ptAddr : ℕ) : Except Fault (PDTE × Table) := do
  let table : Table := fun _ => {}
  let pdt := putMaxSize { ptAddr := ptAddr, user := true, write := true } 0x200
  let pdt := { pdt with present := true }
  let table ← BLOCK.put debug { size := 0x200 } table 0
  return (pdt, table)

/-! ### Reserving and releasing entries -/

/-- Reserves the free entries from `index` on. -/
def preserveRange (debug : Bool) (table : Table) (index count : ℕ) : Except Fault Table :=
  (List.range count).foldlM (fun table i => do
    assert debug ((table (index + i)).isFree = true)
    return Function.update table (index + i) { table (index + i) with preserve := true }) table

/-- The walk of `imp_reserve_any` to the first block of at least `count` entries. -/
def findBlock (debug : Bool) (table : Table) (count : ℕ) : ℕ → ℕ → BLOCK → Except Fault BLOCK
  | 0, _, _ => .error .outOfFuel
  | fuel + 1, cur, block => do
      let block ← BLOCK.get debug table cur block
      assert debug (block.self = cur)
      if block.size ≥ count then
        return block
      if block.nextValid = true then
        findBlock debug table count fuel block.next block
      else
        .error (.bugcheck "virtual_space corrupted %p")

/-- Reserves `count` entries anywhere in the table. Returns the address of the first of
them, or `0`. -/
def impReserveAny (debug locked : Bool) (pdt : PDTE) (table : Table) (baseAddr count : ℕ) :
    Except Fault (ℕ × PDTE × Table) := do
  assert debug (locked = true)
  assert debug (count ≠ 0)
  assert debug (pdt.present = true ∧ pdt.bypass = false)
  if getMaxSize pdt < count then
    return (0, pdt, table)
  let block ← findBlock debug table count 0x200 pdt.head {}
  let block ← resolvePrior debug pdt table block
  let (pdt, table) ← erase debug pdt table block
  let allocatedBlock := block.self + block.size - count
  assert debug (allocatedBlock + count ≤ 0x200)
  let table ← preserveRange debug table allocatedBlock count
  let block := { block with size := block.size - count }
  let (pdt, table) ← insert debug pdt table block
  return ((baseAddr + allocatedBlock * 0x1000) % 2 ^ 64, pdt, table)

/-- The parts of a block before and after the `count` entries from `index` on. The larger part
comes first and keeps the links of the block, the other one has none. -/
def splitBlock (block : BLOCK) (index count : ℕ) : BLOCK × BLOCK :=
  let before := { block with size := index - block.self }
  let after : BLOCK :=
    { self := index + count, size := block.size + block.self - (index + count) }
  if after.size > before.size then
    ({ before with self := after.self, size := after.size },
      { after with
        self := before.self, size := before.size, prevValid := false, nextValid := false })
  else
    (before, { after with prevValid := false, nextValid := false })

/-- Reserves the `count` entries from `index` on, if they are all free. -/
def impReserveFixed (debug locked : Bool) (pdt : PDTE) (table : Table) (index count : ℕ) :
    Except Fault (Bool × PDTE × Table) := do
  assert debug (locked = true)
  assert debug (count ≠ 0 ∧ index + count ≤ 0x200)
  assert debug (pdt.present = true ∧ pdt.bypass = false ∧ getMaxSize pdt > 0)
  if (table index).isFree = false then
    return (false, pdt, table)
  let block ← BLOCK.get debug table index {}
  assert debug (index ≥ block.self)
  if index + count > block.self + block.size then
    return (false, pdt, table)
  let block ← resolvePrior debug pdt table block
  let (pdt, table) ← erase debug pdt table block
  let table ← preserveRange debug table index count
  let (large, small) := splitBlock block index count
  let (pdt, table) ← insert debug pdt table large
  let (pdt, table) ← insert debug pdt table small
  return (true, pdt, table)

/-- Frees the entry of one page: the body of the loop of `imp_release`. Returns the frame
that goes back to the physical memory manager, if there is one. -/
def releaseEntry (debug : Bool) (pt : PTE) : Except Fault (PTE × Option ℕ) := do
  assert debug (pt.bypass = false)
  if pt.present = true ∧ pt.pageAddr ≠ 0 then
    return ({ pt with present := false, pageAddr := 0, preserve := false }, some pt.pageAddr)
  else if pt.preserve = false then
    .error (.bugcheck "double release %p")
  else
    return ({ pt with preserve := false }, none)

/-- Frees the entries from `index` on, and collects the frames that go back to the physical
memory manager. -/
def releaseRange (debug : Bool) (table : Table) (index count : ℕ) :
    Except Fault (Table × List ℕ) :=
  (List.range count).foldlM (fun (table, frames) i => do
    let (pt, frame) ← releaseEntry debug (table (index + i))
    return (Function.update table (index + i) pt, frames ++ frame.toList)) (table, [])

/-- Takes the free runs next to the entries from `index` on out of the list, and returns the
block that joins them with these entries. -/
def eraseNeighbours (debug : Bool) (pdt : PDTE) (table : Table) (index count : ℕ) :
    Except Fault (PDTE × Table × BLOCK) :=
  if index ≠ 0 ∧ (table (index - 1)).isFree = true then
    if index + count < 0x200 ∧ (table (index + count)).isFree = true then do
      let block ← BLOCK.get debug table (index + count) {}
      let block ← resolvePrior debug pdt table block
      let removedSize := block.size
      let (pdt, table) ← erase debug pdt table block
      let block ← BLOCK.get debug table (index - 1) block
      let block ← resolvePrior debug pdt table block
      let (pdt, table) ← erase debug pdt table block
      return (pdt, table, { block with size := block.size + (removedSize + count) })
    else do
      let block ← BLOCK.get debug table (index - 1) {}
      let block ← resolvePrior debug pdt table block
      let (pdt, table) ← erase debug pdt table block
      return (pdt, table, { block with size := block.size + count })
  else
    if index + count < 0x200 ∧ (table (index + count)).isFree = true then do
      let block ← BLOCK.get debug table (index + count) {}
      let block ← resolvePrior debug pdt table block
      let (pdt, table) ← erase debug pdt table block
      return (pdt, table, { block with self := index, size := count + block.size })
    else
      return (pdt, table, { self := index, size := count })

/-- Releases the `count` entries from the entry of `baseAddr` on. Returns the frames passed
to `pm.release`; the count of used pages decreases by one for each of them. -/
def impRelease (debug locked : Bool) (pdt : PDTE) (table : Table) (baseAddr count : ℕ) :
    Except Fault (PDTE × Table × List ℕ) := do
  assert debug (locked = true)
  assert debug (count ≠ 0 ∧ baseAddr ≠ 0)
  let index := baseAddr / 0x1000 % 0x200
  assert debug (index + count ≤ 0x200)
  assert debug (pdt.present = true ∧ pdt.bypass = false)
  let (pdt, table, block) ← eraseNeighbours debug pdt table index count
  let (table, frames) ← releaseRange debug table index count
  let (pdt, table) ← insert debug pdt table block
  return (pdt, table, frames)

end UOS
