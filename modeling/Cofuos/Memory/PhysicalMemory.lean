import Cofuos.Lib.Bisect
import Cofuos.Memory.Vspace

/-!
# The physical memory manager

Every frame of physical memory has an entry in a bitmap, which is kept in groups of as many
entries as a page has bytes. An entry is marked `solid` when no entry after it in its group is
free, so that the last free entry of a group is found by bisection. The definitions follow
`kernel/memory/pm.cpp`.

The counters are kept modulo `2 ^ 64`. The callback for critical situations is never
registered, so the critical check does nothing. `findGroup`, `findFrame` and `countUsed` are
the parts of `PM::allocate`, and the addresses of frames are their numbers times the size of
a page.
-/

namespace UOS

open Fault

/-- The number of bytes of a page. -/
def PAGE_SIZE : ℕ := 0x1000

/-- The entry of the bitmap for a frame. -/
structure PM.BLOCK where
  solid : Bool := false
  free : Bool := false
  deriving DecidableEq, Repr

/-- The physical memory manager. -/
structure PM where
  /-- The bitmap. -/
  bmp : ℕ → PM.BLOCK
  bmpSize : ℕ
  total : ℕ
  used : ℕ
  reserved : ℕ := 0
  next : ℕ := 0
  hardCriticalLimit : ℕ := 0

namespace PM

/-- The modes of an allocation. -/
abbrev MODE := FramePool.MODE

/-- A bitmap with the mark of an entry changed. -/
def setSolid (bmp : ℕ → BLOCK) (k : ℕ) (solid : Bool) : ℕ → BLOCK :=
  Function.update bmp k { bmp k with solid := solid }

/-- A bitmap with a frame declared free or used. -/
def setFree (bmp : ℕ → BLOCK) (k : ℕ) (free : Bool) : ℕ → BLOCK :=
  Function.update bmp k { bmp k with free := free }

/-- The number of groups of the bitmap. -/
def pageCount (pm : PM) : ℕ := (pm.bmpSize + (PAGE_SIZE - 1)) / PAGE_SIZE

/-- Limits the share of the processors, once. -/
def setMpCount (pm : PM) (count : ℕ) : Except Fault PM :=
  if pm.hardCriticalLimit ≠ 0 then
    .error (.bugcheck "invalid PM::set_mp_count call from %p")
  else
    .ok { pm with hardCriticalLimit := 4 * count % 2 ^ 16 }

/-- Looks for a group with a free frame, from the group `page` on and around to the hint. -/
def findGroup (debug : Bool) (pm : PM) : ℕ → ℕ → Except Fault ℕ
  | 0, _ => .error .outOfFuel
  | fuel + 1, page => do
    assert debug (page < pm.pageCount)
    let cur := pm.bmp (page * PAGE_SIZE)
    if cur.solid = true ∧ cur.free = false then
      let page := if page + 1 = pm.pageCount then 0 else page + 1
      if page = pm.next then
        .error (.bugcheck "physical memory used up (%x,%x,%x)")
      else
        findGroup debug pm fuel page
    else
      return page

/-- Marks the entries before `head` in the group at `base`, down to the next free one. -/
def markSolid (debug : Bool) (base : ℕ) : ℕ → (ℕ → BLOCK) → Except Fault (ℕ → BLOCK)
  | 0, bmp => return bmp
  | head + 1, bmp => do
    assert debug ((bmp (base + head)).solid = false)
    let bmp := setSolid bmp (base + head) true
    if (bmp (base + head)).free = true then
      return bmp
    else
      markSolid debug base head bmp

/-- Looks for the last free frame of a group by its marks. -/
def findFrame (debug : Bool) (pm : PM) (page : ℕ) : Except Fault ℕ := do
  let (head, tail) := bisect (fun mid => (pm.bmp (page * PAGE_SIZE + mid)).solid) 0 PAGE_SIZE
  assert debug (head + 1 = tail)
  assert debug (tail < PAGE_SIZE)
  let head := if (pm.bmp (page * PAGE_SIZE + head)).solid = false then head + 1 else head
  assert debug (head < PAGE_SIZE)
  return head

/-- Counts a frame that is handed out. -/
def countUsed (debug : Bool) (mode : MODE) (pm : PM) : Except Fault PM := do
  assert debug ((pm.used + pm.reserved) % 2 ^ 64 < pm.total)
  if mode = .TAKE then
    assert debug (pm.reserved ≠ 0)
    return { pm with
      reserved := (pm.reserved + (2 ^ 64 - 1)) % 2 ^ 64, used := (pm.used + 1) % 2 ^ 64 }
  return { pm with used := (pm.used + 1) % 2 ^ 64 }

/-- Hands out a frame. Only an allocation of the mode `NONE` may be refused, with `0`. -/
def allocate (debug : Bool) (mode : MODE) (pm : PM) : Except Fault (ℕ × PM) := do
  if mode = .NONE ∧ pm.total ≤ (pm.used + pm.reserved + pm.hardCriticalLimit) % 2 ^ 64 then
    return (0, pm)
  let page ← findGroup debug pm pm.pageCount pm.next
  let head ← findFrame debug pm page
  let resPage := page * PAGE_SIZE + head
  assert debug (resPage < pm.bmpSize)
  assert debug ((pm.bmp resPage).solid = true ∧ (pm.bmp resPage).free = true)
  let bmp ← markSolid debug (page * PAGE_SIZE) head (setFree pm.bmp resPage false)
  let pm ← countUsed debug mode { pm with bmp := bmp, next := page }
  return (resPage * PAGE_SIZE, pm)

/-- Sets frames aside, unless too few would be left. -/
def reserve (pm : PM) (pageCount : ℕ) : Bool × PM :=
  if (pm.used + pm.reserved + pageCount + pm.hardCriticalLimit) % 2 ^ 64 < pm.total then
    (true, { pm with reserved := (pm.reserved + pageCount) % 2 ^ 64 })
  else
    (false, pm)

/-- Clears the marks of the entries before `off` in the group at `base`, down to the next
entry without one. -/
def clearSolid (base : ℕ) : ℕ → (ℕ → BLOCK) → (ℕ → BLOCK)
  | 0, bmp => bmp
  | off + 1, bmp =>
    if (bmp (base + off)).solid = false then
      bmp
    else
      clearSolid base off (setSolid bmp (base + off) false)

/-- Takes a frame back. -/
def release (debug : Bool) (pa : ℕ) (pm : PM) : Except Fault PM := do
  assert debug (pa % PAGE_SIZE = 0)
  let page := pa / PAGE_SIZE
  assert debug (page < pm.bmpSize)
  if (pm.bmp page).free = true then
    throw (.bugcheck "double release %p")
  let bmp := setFree pm.bmp page true
  if page + 1 = PAGE_SIZE then
    assert debug ((bmp page).solid = true)
  let bmp := clearSolid (page - page % PAGE_SIZE) (page % PAGE_SIZE) bmp
  assert debug (pm.used ≠ 0)
  return { pm with bmp := bmp, used := (pm.used + (2 ^ 64 - 1)) % 2 ^ 64 }

/-- Marks the entries of a group from its end down to its last free entry. -/
def buildSolid (base : ℕ) : ℕ → (ℕ → BLOCK) → (ℕ → BLOCK)
  | 0, bmp => bmp
  | off + 1, bmp =>
    let bmp := setSolid bmp (base + off) true
    if (bmp (base + off)).free = true then bmp else buildSolid base off bmp

end PM

end UOS
