import Cofuos.Memory.PageTable

/-!
# User address spaces

A user address space covers 512 GB: 512 directories of 512 page tables of 512 pages each.
Directories and tables are created when a reservation first needs them. The definitions follow
`kernel/memory/vm.cpp` and `kernel/memory/user_vspace.cpp`.

Tables are numbered through all directories, and pages through all tables. The table `t` is
the entry `t % 0x200` of the directory `t / 0x200`, and the page `q` is the entry `q % 0x200`
of the table `q / 0x200`. The nested loops of the source over directories and tables are loops
over the numbers of the tables; a test that the source makes on entering a directory is made
for every table of it. The physical memory manager is what its clients see of it: it hands out
frames that are not in use, and may refuse.
-/

namespace UOS

open Fault

/-! ### Frames -/

/-- The modes of an allocation. -/
inductive FramePool.MODE where
  | NONE
  | MUST_SUCCEED
  | TAKE
  deriving DecidableEq, Repr

/-- The physical memory manager, as its clients see it. Frames are given by their numbers. -/
structure FramePool where
  /-- The frames in use. -/
  used : Finset ℕ
  /-- The number of frames set aside for allocations of the mode `TAKE`. -/
  reserved : ℕ := 0
  /-- The answers to the calls to come: `0` is a refusal, any other number the frame that is
  handed out unless it is in use. -/
  answers : ℕ → ℕ
  /-- The number of calls answered. -/
  calls : ℕ := 0
  /-- The number of calls refused. -/
  refusals : ℕ := 0

namespace FramePool

/-- The answer to the next call. -/
def answer (pm : FramePool) : ℕ := pm.answers pm.calls

/-- The frame that is handed out next. -/
def next (pm : FramePool) : ℕ :=
  if pm.answer ≠ 0 ∧ pm.answer ∉ pm.used then pm.answer else pm.used.sup id + 1

/-- Allocates a frame. Only an allocation of the mode `NONE` may be refused, with `0`. -/
def allocate (pm : FramePool) (mode : MODE) : ℕ × FramePool :=
  if mode = .NONE ∧ pm.answer = 0 then
    (0, { pm with calls := pm.calls + 1, refusals := pm.refusals + 1 })
  else
    (pm.next, { pm with
      used := Insert.insert pm.next pm.used
      reserved := if mode = .TAKE then pm.reserved - 1 else pm.reserved
      calls := pm.calls + 1 })

/-- Sets frames aside, unless this is refused. -/
def reserve (pm : FramePool) (pageCount : ℕ) : Bool × FramePool :=
  if pm.answer = 0 then
    (false, { pm with calls := pm.calls + 1, refusals := pm.refusals + 1 })
  else
    (true, { pm with reserved := pm.reserved + pageCount, calls := pm.calls + 1 })

/-- Takes a frame back. -/
def release (pm : FramePool) (frame : ℕ) : Except Fault FramePool :=
  if frame ∈ pm.used then
    .ok { pm with used := pm.used.erase frame }
  else
    .error (.bugcheck "double release %p")

end FramePool

/-! ### Address spaces -/

/-- An entry of the directory of directories. -/
structure PDPTE where
  present : Bool := false
  write : Bool := false
  user : Bool := false
  pdtAddr : ℕ := 0
  deriving DecidableEq, Repr

/-- An address space, with the physical memory manager. -/
structure Vspace where
  cr3 : ℕ
  pl4te : ℕ
  pdpt : ℕ → PDPTE
  pdt : ℕ → PDTE
  pt : ℕ → Table
  usedPages : ℕ
  locked : Bool
  pm : FramePool

namespace Vspace

/-- Replaces a table and its directory entry. -/
def setTable (vs : Vspace) (t : ℕ) (pdt : PDTE) (table : Table) : Vspace :=
  { vs with pdt := Function.update vs.pdt t pdt, pt := Function.update vs.pt t table }

/-- A new address space. Its lowest 2 MB are bypassed. -/
def create (pm : FramePool) : Vspace :=
  let (cr3, pm) := pm.allocate .MUST_SUCCEED
  let (pl4te, pm) := pm.allocate .MUST_SUCCEED
  let (pdtAddr, pm) := pm.allocate .MUST_SUCCEED
  { cr3 := cr3
    pl4te := pl4te
    pdpt := Function.update (fun _ => {}) 0
      { pdtAddr := pdtAddr, user := true, write := true, present := true }
    pdt := Function.update (fun _ => {}) 0 { bypass := true }
    pt := fun _ _ => {}
    usedPages := 3
    locked := false
    pm := pm }

/-- Creates a directory, all of whose entries are clear. -/
def newPdt (debug : Bool) (vs : Vspace) (i : ℕ) : Except Fault (Bool × Vspace) := do
  assert debug ((vs.pdpt i).present = false)
  let (phyAddr, pm) := vs.pm.allocate .NONE
  if phyAddr = 0 then
    return (false, { vs with pm := pm })
  return (true, { vs with
    pdpt := Function.update vs.pdpt i
      { pdtAddr := phyAddr, user := true, write := true, present := true }
    pdt := fun t => if t / 0x200 = i then {} else vs.pdt t
    usedPages := vs.usedPages + 1
    pm := pm })

/-- Creates a table, all of whose entries are free. -/
def newPt (debug : Bool) (vs : Vspace) (t : ℕ) (take : Bool) : Except Fault (Bool × Vspace) := do
  assert debug ((vs.pdt t).present = false ∧ (vs.pdt t).bypass = false)
  let (phyAddr, pm) := vs.pm.allocate (if take = true then .TAKE else .NONE)
  if phyAddr = 0 then
    return (false, { vs with pm := pm })
  let (pdt, table) ← initPt debug phyAddr
  return (true, { vs.setTable t pdt table with usedPages := vs.usedPages + 1, pm := pm })

/-- Enters a directory, which is created if it is not present. -/
def enterPdt (debug : Bool) (vs : Vspace) (i : ℕ) : Except Fault (Bool × Vspace) :=
  if (vs.pdpt i).present = true then .ok (true, vs) else newPdt debug vs i

/-- Enters a table, which is created if it is not present. -/
def enterPt (debug : Bool) (vs : Vspace) (t : ℕ) : Except Fault (Bool × Vspace) :=
  if (vs.pdt t).present = true then .ok (true, vs) else newPt debug vs t false

/-- An address the space covers: `LOWADDR(addr) >> 39` is `0`. -/
def covers (addr : ℕ) : Bool := addr % 2 ^ 47 / 2 ^ 39 = 0

/-! ### Releasing -/

/-- Gives frames back. -/
def releaseFrames (vs : Vspace) (frames : List ℕ) : Except Fault Vspace :=
  frames.foldlM (fun vs frame => do
    let pm ← vs.pm.release frame
    return { vs with pm := pm, usedPages := vs.usedPages - 1 }) vs

/-- The loop of `safe_release` over the tables from `t` on. Returns the number of released
pages. -/
def releaseTables (debug : Bool) (pageCount : ℕ) :
    ℕ → ℕ → ℕ → ℕ → Vspace → Except Fault (ℕ × Vspace)
  | 0, _, _, count, vs => return (count, vs)
  | tables + 1, t, addr, count, vs => do
      if count < pageCount then
        if (vs.pdpt (t / 0x200)).present = false then
          .error (.bugcheck "PDTE not present %x")
        else if (vs.pdt t).bypass = true ∨ (vs.pdt t).present = false then
          .error (.bugcheck "cannot release page %x")
        else
          let off := addr / 0x1000 % 0x200
          let size := min (pageCount - count) (0x200 - off)
          let (pdt, table, frames) ← impRelease debug vs.locked (vs.pdt t) (vs.pt t) addr size
          let vs ← (vs.setTable t pdt table).releaseFrames frames
          releaseTables debug pageCount tables (t + 1) (addr + 0x1000 * size) (count + size) vs
      else
        return (count, vs)

/-- Releases pages that are known to be reserved. -/
def safeRelease (debug : Bool) (vs : Vspace) (baseAddr pageCount : ℕ) :
    Except Fault (Bool × Vspace) := do
  assert debug (vs.locked = true)
  assert debug (baseAddr ≠ 0 ∧ pageCount ≠ 0)
  assert debug (baseAddr % 0x1000 = 0)
  if covers baseAddr = false then
    return (false, vs)
  let t := baseAddr / 0x200000
  let (count, vs) ← releaseTables debug pageCount (0x40000 - t) t baseAddr 0 vs
  return (count = pageCount, vs)

/-! ### Reserving -/

/-- The loop of `reserve_fixed` over the tables from `t` on. Returns the number of reserved
pages, which is smaller than `pageCount` when the reservation has to be rolled back. -/
def reserveTables (debug : Bool) (pageCount : ℕ) :
    ℕ → ℕ → ℕ → ℕ → Vspace → Except Fault (ℕ × Vspace)
  | 0, _, _, count, vs => return (count, vs)
  | tables + 1, t, addr, count, vs => do
      if count < pageCount then
        let (res, vs) ← enterPdt debug vs (t / 0x200)
        if res = false then
          return (count, vs)
        if (vs.pdt t).bypass = true then
          return (count, vs)
        let (res, vs) ← enterPt debug vs t
        if res = false then
          return (count, vs)
        let off := addr / 0x1000 % 0x200
        let size := min (pageCount - count) (0x200 - off)
        let (res, pdt, table) ← impReserveFixed debug vs.locked (vs.pdt t) (vs.pt t) off size
        let vs := vs.setTable t pdt table
        if res = false then
          return (count, vs)
        reserveTables debug pageCount tables (t + 1) (addr + 0x1000 * size) (count + size) vs
      else
        return (count, vs)

/-- Reserves pages at a fixed address. -/
def reserveFixed (debug : Bool) (vs : Vspace) (baseAddr pageCount : ℕ) :
    Except Fault (Bool × Vspace) := do
  assert debug (vs.locked = true)
  assert debug (baseAddr ≠ 0 ∧ pageCount ≠ 0)
  assert debug (baseAddr % 0x1000 = 0)
  if covers baseAddr = false then
    return (false, vs)
  let t := baseAddr / 0x200000
  let (count, vs) ← reserveTables debug pageCount (0x40000 - t) t baseAddr 0 vs
  if count = pageCount then
    return (true, vs)
  if count ≠ 0 then
    let (_, vs) ← safeRelease debug vs baseAddr count
    return (false, vs)
  return (false, vs)

/-- The loop of `reserve_any` over the tables from `t` on. The base address of a table is
computed in 32 bits. -/
def reserveAnyTables (debug : Bool) (pageCount : ℕ) : ℕ → ℕ → Vspace → Except Fault (ℕ × Vspace)
  | 0, _, vs => return (0, vs)
  | tables + 1, t, vs => do
      let (res, vs) ← enterPdt debug vs (t / 0x200)
      if res = false then
        return (0, vs)
      if (vs.pdt t).bypass = true then
        reserveAnyTables debug pageCount tables (t + 1) vs
      else
        let (res, vs) ← enterPt debug vs t
        if res = false then
          reserveAnyTables debug pageCount tables (t + 1) vs
        else
          let baseAddr := t * 0x200000 % 2 ^ 32
          let (res, pdt, table) ←
            impReserveAny debug vs.locked (vs.pdt t) (vs.pt t) baseAddr pageCount
          let vs := vs.setTable t pdt table
          if res ≠ 0 then
            return (res, vs)
          reserveAnyTables debug pageCount tables (t + 1) vs

/-- Reserves pages anywhere, all of them in one table. -/
def reserveAny (debug : Bool) (vs : Vspace) (pageCount : ℕ) : Except Fault (ℕ × Vspace) := do
  assert debug (vs.locked = true)
  assert debug (pageCount ≤ 0x200)
  reserveAnyTables debug pageCount 0x40000 0 vs

/-- What `reserve_big` knows of a directory while it looks for free tables in a row: the first
of them, their number, and the number of those that are not present. -/
structure Available where
  base : ℕ := 0
  pages : ℕ := 0
  reserveCount : ℕ := 0

/-- The loop of `reserve_big` over the entries of a directory from `i` on. It ends at
`alignedCount` free tables in a row. -/
def scanDirectory (pdt : ℕ → PDTE) (alignedCount : ℕ) : ℕ → ℕ → Available → Available
  | 0, _, avl => avl
  | rest + 1, i, avl =>
      let cur := pdt i
      if cur.bypass = true ∨ (cur.present = true ∧ getMaxSize cur ≠ 0x200) then
        scanDirectory pdt alignedCount rest (i + 1) { base := i + 1 }
      else
        let avl := { avl with
          pages := avl.pages + 1
          reserveCount := if cur.present = true then avl.reserveCount else avl.reserveCount + 1 }
        if avl.pages = alignedCount then
          avl
        else
          scanDirectory pdt alignedCount rest (i + 1) avl

/-- Enters a table that `reserve_big` has found free. A frame has been set aside for it if it
is not present. -/
def takePt (debug : Bool) (vs : Vspace) (t reserveCount : ℕ) : Except Fault (ℕ × Vspace) :=
  if (vs.pdt t).present = true then do
    assert debug (getMaxSize (vs.pdt t) = 0x200)
    return (reserveCount, vs)
  else do
    assert debug (reserveCount ≠ 0)
    let (_, vs) ← newPt debug vs t true
    return (reserveCount - 1, vs)

/-- The loop of `reserve_big` over the tables it has found, from `t` on. -/
def takeTables (debug : Bool) : ℕ → ℕ → ℕ → ℕ → Vspace → Except Fault (ℕ × Vspace)
  | 0, _, _, reserveCount, vs => return (reserveCount, vs)
  | tables + 1, t, pagecount, reserveCount, vs => do
      assert debug (pagecount ≠ 0)
      assert debug ((vs.pdt t).bypass = false)
      let (reserveCount, vs) ← takePt debug vs t reserveCount
      let size := min 0x200 pagecount
      let (res, pdt, table) ← impReserveFixed debug vs.locked (vs.pdt t) (vs.pt t) 0 size
      if res = false then
        .error (.bugcheck "imp_reserve_fixed failed @ %p")
      else
        takeTables debug tables (t + 1) (pagecount - size) reserveCount (vs.setTable t pdt table)

/-- The loop of `reserve_big` over the directories from `d` on. -/
def reserveBigDirectories (debug : Bool) (pagecount : ℕ) :
    ℕ → ℕ → Vspace → Except Fault (ℕ × Vspace)
  | 0, _, vs => return (0, vs)
  | directories + 1, d, vs => do
      let alignedCount := (pagecount + 0x1FF) / 0x200
      let (res, vs) ← enterPdt debug vs d
      if res = false then
        return (0, vs)
      let avl := scanDirectory (fun i => vs.pdt (d * 0x200 + i)) alignedCount 0x200 0 {}
      if avl.pages = alignedCount then
        assert debug (avl.base + avl.pages ≤ 0x200)
        let (res, pm) := vs.pm.reserve avl.reserveCount
        let vs := { vs with pm := pm }
        if res = false then
          reserveBigDirectories debug pagecount directories (d + 1) vs
        else
          let baseAddr := (d * 0x40000000 + avl.base * 0x200000) % 2 ^ 32
          let (reserveCount, vs) ←
            takeTables debug avl.pages (d * 0x200 + avl.base) pagecount avl.reserveCount vs
          assert debug (reserveCount = 0)
          return (baseAddr, vs)
      else
        reserveBigDirectories debug pagecount directories (d + 1) vs

/-- Reserves pages in whole tables of one directory. -/
def reserveBig (debug : Bool) (vs : Vspace) (pagecount : ℕ) : Except Fault (ℕ × Vspace) := do
  assert debug (vs.locked = true)
  reserveBigDirectories debug pagecount 0x200 0 vs

/-! ### Visiting the entries of pages -/

/-- What is done with the entry of a page. It may use the physical memory manager, and says
whether to go on. -/
abbrev Callback := PTE → FramePool → Except Fault (Bool × PTE × FramePool)

/-- The loop of `imp_iterate` over `n` pages from the page `q` on. Returns the number of pages
that were visited. -/
def iteratePages (callback : Callback) : ℕ → ℕ → Vspace → Except Fault (ℕ × Vspace)
  | 0, _, vs => return (0, vs)
  | n + 1, q, vs => do
      let t := q / 0x200
      if t / 0x200 ≥ 0x200 then
        return (0, vs)
      else if (vs.pdpt (t / 0x200)).present = false then
        return (0, vs)
      else if (vs.pdt t).bypass = true ∨ (vs.pdt t).present = false then
        return (0, vs)
      else
        let (res, pt, pm) ← callback (vs.pt t (q % 0x200)) vs.pm
        let vs := { vs with
          pt := Function.update vs.pt t (Function.update (vs.pt t) (q % 0x200) pt)
          pm := pm }
        if res = false then
          return (0, vs)
        let (count, vs) ← iteratePages callback n (q + 1) vs
        return (count + 1, vs)

/-- Visits the entries of pages. -/
def impIterate (debug : Bool) (vs : Vspace) (baseAddr pageCount : ℕ) (callback : Callback) :
    Except Fault (ℕ × Vspace) := do
  assert debug (vs.locked = true)
  assert debug (pageCount ≠ 0)
  assert debug (baseAddr ≠ 0 ∧ baseAddr % 0x1000 = 0)
  if covers baseAddr = false then
    return (0, vs)
  iteratePages callback pageCount (baseAddr / 0x1000) vs

/-- A callback that only looks at the entry. -/
def check (p : PTE → Bool) : Callback := fun pt pm => .ok (p pt, pt, pm)

/-! ### The requests -/

/-- The checks made of the arguments of every request. -/
def commonCheck (addr pageCount : ℕ) : Bool :=
  addr ≠ 0 ∧ pageCount ≠ 0 ∧ addr % 0x1000 = 0 ∧ addr < 2 ^ 47 ∧
    (addr + pageCount * 0x1000) % 2 ^ 64 ≤ 0x8000000000

/-- Runs a request with the lock of the space held. -/
def withLock {α : Type} (vs : Vspace) (f : Vspace → Except Fault (α × Vspace)) :
    Except Fault (α × Vspace) := do
  let (res, vs) ← f { vs with locked := true }
  return (res, { vs with locked := false })

/-- Reserves pages, anywhere if the address is `0`. Returns the address of the first one, or
`0`. -/
def reserve (debug : Bool) (vs : Vspace) (addr pageCount : ℕ) : Except Fault (ℕ × Vspace) :=
  if addr ≠ 0 then
    if commonCheck addr pageCount = false then
      .ok (0, vs)
    else
      vs.withLock fun vs => do
        let (res, vs) ← reserveFixed debug vs addr pageCount
        return (if res = true then addr else 0, vs)
  else
    if pageCount = 0 ∨ pageCount > 0x40000 then
      .ok (0, vs)
    else
      vs.withLock fun vs =>
        if pageCount < 0x200 then reserveAny debug vs pageCount else reserveBig debug vs pageCount

/-- The entries that may be released. -/
def releaseCheck (pt : PTE) : Bool :=
  if pt.bypass = true then
    false
  else if pt.present = true then
    pt.pageAddr ≠ 0 ∧ pt.user = true
  else
    pt.preserve

/-- Releases pages, if all of them are reserved or committed. -/
def release (debug : Bool) (vs : Vspace) (addr pageCount : ℕ) : Except Fault (Bool × Vspace) :=
  if commonCheck addr pageCount = false then
    .ok (false, vs)
  else
    vs.withLock fun vs => do
      let (res, vs) ← impIterate debug vs addr pageCount (check releaseCheck)
      if res ≠ pageCount then
        return (false, vs)
      safeRelease debug vs addr pageCount

/-- The entries that may be committed. -/
def commitCheck (pt : PTE) : Bool := pt.preserve && !pt.bypass && !pt.present

/-- Maps a frame at a reserved entry. -/
def commitEntry (debug : Bool) : Callback := fun pt pm => do
  assert debug (commitCheck pt = true)
  let (pageAddr, pm) := pm.allocate .TAKE
  return (true, { pt with
    pageAddr := pageAddr, xd := true, pat := false, user := true, write := true,
    present := true }, pm)

/-- Commits pages, if all of them are reserved and none is committed. -/
def commit (debug : Bool) (vs : Vspace) (baseAddr pageCount : ℕ) :
    Except Fault (Bool × Vspace) :=
  if commonCheck baseAddr pageCount = false then
    .ok (false, vs)
  else
    vs.withLock fun vs => do
      let (res, vs) ← impIterate debug vs baseAddr pageCount (check commitCheck)
      if res ≠ pageCount then
        return (false, vs)
      let (granted, pm) := vs.pm.reserve pageCount
      let vs := { vs with pm := pm }
      if granted = false then
        return (false, vs)
      let (res, vs) ← impIterate debug vs baseAddr pageCount (commitEntry debug)
      if res ≠ pageCount then
        .error (.bugcheck "page count mismatch (%x,%x)")
      else
        return (true, { vs with usedPages := vs.usedPages + pageCount })

/-- The bits of the attributes of a page. -/
def PAGE_XD : UInt64 := 0x8000000000000000
def PAGE_GLOBAL : UInt64 := 0x100
def PAGE_CD : UInt64 := 0x10
def PAGE_WT : UInt64 := 0x08
def PAGE_USER : UInt64 := 0x04
def PAGE_WRITE : UInt64 := 0x02
def PAGE_PRESENT : UInt64 := 0x01

/-- The attributes a request may set. -/
def protectMask : UInt64 :=
  PAGE_XD ||| PAGE_GLOBAL ||| PAGE_CD ||| PAGE_WT ||| PAGE_USER ||| PAGE_WRITE ||| PAGE_PRESENT

/-- The entries whose attributes may be changed. -/
def protectCheck (pt : PTE) : Bool :=
  pt.present && !pt.bypass && pt.user && decide (pt.pageAddr ≠ 0)

/-- Changes the attributes of an entry. -/
def protectEntry (debug : Bool) (attrib : UInt64) : Callback := fun pt pm => do
  assert debug (protectCheck pt = true)
  return (true, { pt with
    xd := attrib &&& PAGE_XD ≠ 0
    global := attrib &&& PAGE_GLOBAL ≠ 0
    cd := attrib &&& PAGE_CD ≠ 0
    wt := attrib &&& PAGE_WT ≠ 0
    write := attrib &&& PAGE_WRITE ≠ 0 }, pm)

/-- Changes the attributes of pages, if all of them are committed. -/
def protect (debug : Bool) (vs : Vspace) (baseAddr pageCount : ℕ) (attrib : UInt64) :
    Except Fault (Bool × Vspace) :=
  if commonCheck baseAddr pageCount = false then
    .ok (false, vs)
  else if attrib &&& ~~~protectMask ≠ 0 then
    .ok (false, vs)
  else
    vs.withLock fun vs => do
      let (res, vs) ← impIterate debug vs baseAddr pageCount (check protectCheck)
      if res ≠ pageCount then
        return (false, vs)
      let (res, vs) ← impIterate debug vs baseAddr pageCount (protectEntry debug attrib)
      if res ≠ pageCount then
        .error (.bugcheck "page count mismatch (%x,%x)")
      else
        return (true, vs)

/-! ### The end of a space -/

/-- Gives back the frames of a table and of its pages. -/
def destroyTable (debug : Bool) (vs : Vspace) (t : ℕ) (pm : FramePool) :
    Except Fault FramePool := do
  if (vs.pdt t).present = true then
    let pm ← (List.range 0x200).foldlM (fun pm i => do
      if (vs.pt t i).present = true then
        assert debug ((vs.pt t i).user = true)
        pm.release (vs.pt t i).pageAddr
      else
        return pm) pm
    pm.release (vs.pdt t).ptAddr
  else
    return pm

/-- Gives back the frames of a directory and of its tables. -/
def destroyDirectory (debug : Bool) (vs : Vspace) (i : ℕ) (pm : FramePool) :
    Except Fault FramePool := do
  if (vs.pdpt i).present = true then
    let pm ← (List.range 0x200).foldlM (fun pm j => destroyTable debug vs (i * 0x200 + j) pm) pm
    pm.release (vs.pdpt i).pdtAddr
  else
    return pm

/-- The destructor of a space. Its tables are gone afterwards. -/
def destroy (debug : Bool) (vs : Vspace) : Except Fault FramePool := do
  let pm ← (List.range 0x200).foldlM (fun pm i => destroyDirectory debug vs i pm) vs.pm
  let pm ← pm.release vs.pl4te
  pm.release vs.cr3

end Vspace

end UOS
