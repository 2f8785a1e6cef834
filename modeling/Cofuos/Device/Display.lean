import Cofuos.Interface.UserBuffer
import Cofuos.Memory.KernelSpace
import Cofuos.Memory.Reachable
import Cofuos.Lib.Align

/-!
# The display

The kernel maps the frame buffer that the boot loader has found, and draws into it for the shell.
A rectangle is packed into a `qword`; `display_fill` fills it with one colour, and `display_draw`
copies it from a buffer of the caller, whose lines are `advance` pixels apart. The definitions
follow `kernel/dev/display.cpp` and the services of `kernel/interface/service.cpp`.

Neither service writes a pixel outside of its rectangle, nor a byte outside of the pages that are
mapped. But the length of the buffer is computed in an `int`, and `check` takes it as a `dword`. A
rectangle with more than 16 thousand lines may reach 4 GB, and then the pages that are looked at
are not those that are read.
-/

namespace UOS

/-- What `sysinfo` says about the video mode. -/
structure VideoMode where
  addr : UInt32
  scanline : UInt16
  width : UInt16
  height : UInt16
  bpp : UInt16

/-- Pages that `kernel_vspace::assign` has mapped to consecutive frames. -/
structure Mapping where
  vbase : ℕ
  pbase : ℕ
  pageCount : ℕ

/-- The four bytes at an address are mapped to those at a physical address. -/
def Mapping.Maps (m : Mapping) (a phys : ℕ) : Prop :=
  m.vbase ≤ a ∧ a + 4 ≤ m.vbase + m.pageCount * 0x1000 ∧ phys = m.pbase + (a - m.vbase)

/-- `rectangle` -/
structure Rectangle where
  left : UInt16
  top : UInt16
  right : UInt16
  bottom : UInt16

/-- `video_memory`, with the pages that its constructor has mapped. -/
structure VideoMemory where
  vbeMemory : ℕ
  width : UInt16
  height : UInt16
  lineSize : UInt16
  mapping : Mapping

/-- A pixel that is written, with its colour. -/
structure PixelWrite where
  dst : ℕ
  color : UInt32

/-- A pixel that is read and written. -/
structure PixelCopy where
  sor : ℕ
  dst : ℕ

/-- `kernel_vspace::assign`. Whether the pages are reserved and not present is for the page tables
to say. -/
def Vspace.assignKernel (reserved : ℕ → ℕ → Bool) (base phy pageCount : ℕ) : Bool :=
  if kernelCheck base pageCount = false ∨ phy = 0 then false
  else reserved base pageCount

namespace VideoMemory

/-- The number of pages that are mapped. The size is an `int`, everything else is a `dword`. -/
def pageCount (mode : VideoMode) : ℕ :=
  let size := mode.scanline.toNat * mode.height.toNat % 2 ^ 32
  let alignedPbase := alignDown mode.addr.toNat 0x1000
  (alignUp 32 ((mode.addr.toNat + size) % 2 ^ 32) 0x1000 + 2 ^ 32 - alignedPbase) % 2 ^ 32 / 0x1000

/-- The constructor of `video_memory`. -/
def new (reserve : ℕ → ℕ) (reserved : ℕ → ℕ → Bool) (mode : VideoMode) :
    Except Fault VideoMemory :=
  if mode.bpp ≠ 32 then .error (.bugcheck "bpp = %d not implemented")
  else
    let alignedPbase := alignDown mode.addr.toNat 0x1000
    if mode.width.toNat * mode.bpp.toNat / 8 > mode.scanline.toNat then
      .error (.bugcheck "invalid line size %d")
    else if mode.scanline &&& 3 ≠ 0 then .error (.bugcheck "line size %d not DWORD aligned")
    else
      let vbase := reserve (pageCount mode)
      if vbase = 0 then .error (.bugcheck "vm.reserve failed with 0x%x pages")
      else if Vspace.assignKernel reserved vbase alignedPbase (pageCount mode) = false then
        .error (.bugcheck "vm.assign failed @ %p")
      else
        .ok
          { vbeMemory := vbase + (mode.addr.toNat - alignedPbase)
            width := mode.width
            height := mode.height
            lineSize := mode.scanline
            mapping := ⟨vbase, alignedPbase, pageCount mode⟩ }

/-- The loop over the lines. After each line both pointers advance by a line. -/
def lines {α : Type} (line : ℕ → ℕ → List α) (stride advance : ℕ) : ℕ → ℕ → ℕ → List α
  | 0, _, _ => []
  | n + 1, dst, sor =>
      line dst sor ++ lines line stride advance n (dst + 4 * stride) (sor + 4 * advance)

/-- A line of `fill`. -/
def fillLine (color : UInt32) (n dst _sor : ℕ) : List PixelWrite :=
  (List.range n).map fun i => ⟨dst + 4 * i, color⟩

/-- A line of `draw`. The pointer of the user may wrap around. -/
def drawLine (n dst sor : ℕ) : List PixelCopy :=
  (List.range n).map fun i => ⟨(sor + 4 * i) % 2 ^ 64, dst + 4 * i⟩

variable (vm : VideoMemory) (rect : Rectangle)

/-- The first pixel of a rectangle. -/
def first : ℕ :=
  vm.vbeMemory + 4 * (vm.lineSize.toNat / 4 * rect.top.toNat + rect.left.toNat)

/-- `video_memory::fill`: the pixels that it writes, unless it fails. -/
def fill (color : UInt32) : Option (List PixelWrite) :=
  if rect.left ≥ rect.right ∨ rect.top ≥ rect.bottom then none
  else if rect.right > vm.width ∨ rect.bottom > vm.height then none
  else
    some (lines (fillLine (color &&& 0x00FFFFFF) (rect.right.toNat - rect.left.toNat))
      (vm.lineSize.toNat / 4) 0 (rect.bottom.toNat - rect.top.toNat) (vm.first rect) 0)

/-- `video_memory::draw`: the pixels that it copies, unless it fails. -/
def draw (sor : UInt64) (advance : UInt16) : Option (List PixelCopy) :=
  if sor = 0 then none
  else if rect.left ≥ rect.right ∨ rect.top ≥ rect.bottom then none
  else if rect.right > vm.width ∨ rect.bottom > vm.height then none
  else if rect.right.toNat - rect.left.toNat > advance.toNat then none
  else
    some (lines (drawLine (rect.right.toNat - rect.left.toNat)) (vm.lineSize.toNat / 4)
      advance.toNat (rect.bottom.toNat - rect.top.toNat) (vm.first rect) sor.toNat)

end VideoMemory

/-! ### The services -/

/-- `unpack_rect` -/
def unpackRect (val : UInt64) : Rectangle where
  left := val.toUInt16
  top := (val >>> 16).toUInt16
  right := (val >>> 32).toUInt16
  bottom := (val >>> 48).toUInt16

/-- The privilege of the shell. Smaller numbers are more privileged. -/
def SHELL : UInt8 := 0x20

/-- `STATUS`, as far as the two services return it. -/
inductive DrawStatus where
  | success
  | denied
  | badParam
  | badBuffer
  deriving DecidableEq

/-- What a service has done: the length of the buffer that `check` has approved, and the pixels
that have been copied. -/
structure Drawn where
  status : DrawStatus
  approved : Option UInt32 := none
  copies : List PixelCopy := []

/-- `service_provider::display_fill` -/
def displayFill (privilege : UInt8) (vm : VideoMemory) (color : UInt32) (val : UInt64) :
    DrawStatus × List PixelWrite :=
  if privilege > SHELL then (.denied, [])
  else
    match vm.fill (unpackRect val) color with
    | some writes => (.success, writes)
    | none => (.badParam, [])

/-- The number of pixels from the first one that `draw` reads to the last one. -/
def Rectangle.extent (rect : Rectangle) (advance : UInt16) : ℕ :=
  rect.right.toNat - rect.left.toNat + advance.toNat * (rect.bottom.toNat - rect.top.toNat - 1)

/-- The length of the buffer, which is computed from an `int` and passed as a `dword`. -/
def Rectangle.length (rect : Rectangle) (advance : UInt16) : UInt32 :=
  ⟨((BitVec.ofNat 32 (rect.extent advance)).signExtend 64 * 4#64).setWidth 32⟩

/-- `service_provider::display_draw` -/
def displayDraw (debug : Bool) (vs : Vspace) (privilege : UInt8) (vm : VideoMemory)
    (buffer val : UInt64) (advance : UInt16) : Except Fault Drawn :=
  if privilege > SHELL then .ok { status := .denied }
  else
    let rect := unpackRect val
    if rect.right ≤ rect.left ∨ rect.bottom ≤ rect.top ∨
        advance.toNat < rect.right.toNat - rect.left.toNat then
      .ok { status := .badParam }
    else do
      let length := rect.length advance
      let res ← vs.checkBuffer debug buffer length false
      if res = false then .ok { status := .badBuffer }
      else
        match vm.draw rect buffer advance with
        | some copies => .ok { status := .success, approved := some length, copies := copies }
        | none => .ok { status := .badParam, approved := some length }

/-! ### The geometry -/

namespace VideoMemory

/-- What the constructor establishes. -/
structure Fits (mode : VideoMode) (vm : VideoMemory) : Prop where
  width : 4 * vm.width.toNat ≤ vm.lineSize.toNat
  lineSize : vm.lineSize.toNat % 4 = 0
  same : vm.width = mode.width ∧ vm.height = mode.height ∧ vm.lineSize = mode.scanline
  phys : vm.mapping.pbase + (vm.vbeMemory - vm.mapping.vbase) = mode.addr.toNat
  le : vm.mapping.vbase ≤ vm.vbeMemory
  pages : vm.vbeMemory + vm.lineSize.toNat * vm.height.toNat
    ≤ vm.mapping.vbase + vm.mapping.pageCount * 0x1000

/-- The sums may wrap around, but the number of pages is right, because it is below `2 ^ 20`. -/
theorem pageCount_eq (mode : VideoMode) :
  pageCount mode
    = (mode.addr.toNat % 0x1000 + mode.scanline.toNat * mode.height.toNat + 0xFFF) / 0x1000
  := by
  have haddr := mode.addr.toNat_lt
  have hscan : mode.scanline.toNat < 2 ^ 16 := mode.scanline.toNat_lt
  have hheight : mode.height.toNat < 2 ^ 16 := mode.height.toNat_lt
  have hsize : mode.scanline.toNat * mode.height.toNat ≤ 65535 * 65535 :=
    Nat.mul_le_mul (by lia) (by lia)
  rw [pageCount, alignUp, alignDown, alignDown]
  generalize mode.scanline.toNat * mode.height.toNat = size at *
  generalize mode.addr.toNat = addr at *
  lia

/-- A screen that the constructor accepts is mapped as a whole. -/
theorem fits_of_new {reserve : ℕ → ℕ} {reserved : ℕ → ℕ → Bool} {mode : VideoMode} {vm : VideoMemory}
    (h : new reserve reserved mode = .ok vm) :
  Fits mode vm
  := by
  simp only [new] at h
  split_ifs at h with hbpp hwidth halign hreserve hassign
  cases h
  have haddr : alignDown mode.addr.toNat 0x1000 ≤ mode.addr.toNat := alignDown_le
  have hbpp' : mode.bpp = 32 := not_not.mp hbpp
  constructor
  · rw [hbpp'] at hwidth
    change ¬ mode.width.toNat * 32 / 8 > mode.scanline.toNat at hwidth
    dsimp only
    lia
  · have hand : (mode.scanline &&& 3).toNat = mode.scanline.toNat % 4 := by
      rw [UInt16.toNat_and]
      apply Nat.and_two_pow_sub_one_eq_mod _ 2
    rw [← hand, not_not.mp halign]
    rfl
  · exact ⟨rfl, rfl, rfl⟩
  · dsimp only
    lia
  · apply Nat.le_add_right
  · dsimp only
    rw [pageCount_eq, alignDown]
    lia

variable {mode : VideoMode} {vm : VideoMemory} {rect : Rectangle}

/-- An address of a pixel of a rectangle: the pixel is in the frame buffer, and is mapped. -/
def IsPixel (mode : VideoMode) (vm : VideoMemory) (rect : Rectangle) (a : ℕ) : Prop :=
  ∃ x y, rect.left.toNat ≤ x ∧ x < rect.right.toNat ∧ rect.top.toNat ≤ y ∧ y < rect.bottom.toNat ∧
    x < mode.width.toNat ∧ y < mode.height.toNat ∧
    mode.scanline.toNat * y + 4 * x + 4 ≤ mode.scanline.toNat * mode.height.toNat ∧
    vm.mapping.Maps a (mode.addr.toNat + mode.scanline.toNat * y + 4 * x)

/-- What is written line by line. -/
theorem mem_lines {α : Type} {line : ℕ → ℕ → List α} {stride advance n dst sor : ℕ} {x : α} :
  x ∈ lines line stride advance n dst sor ↔
    ∃ k < n, x ∈ line (dst + 4 * stride * k) (sor + 4 * advance * k)
  := by
  induction n generalizing dst sor with
  | zero =>
      constructor
      · nofun
      · rintro ⟨k, hk, -⟩
        omega
  | succ n ih =>
      rw [lines, List.mem_append, ih]
      constructor
      · rintro (h | ⟨k, hk, h⟩)
        · exact ⟨0, Nat.succ_pos n, h⟩
        · refine ⟨k + 1, by omega, ?_⟩
          rwa [Nat.mul_succ, Nat.mul_succ, Nat.add_comm _ (4 * stride), Nat.add_comm _ (4 * advance),
            ← Nat.add_assoc, ← Nat.add_assoc]
      · rintro ⟨k, hk, h⟩
        cases k with
        | zero => exact .inl h
        | succ k =>
            refine .inr ⟨k, by omega, ?_⟩
            rwa [Nat.mul_succ, Nat.mul_succ, Nat.add_comm _ (4 * stride),
              Nat.add_comm _ (4 * advance), ← Nat.add_assoc, ← Nat.add_assoc] at h

/-- The pixels of a rectangle within the screen, counted from its first one. -/
theorem Fits.isPixel (h : Fits mode vm) {i k : ℕ} (hright : ¬ rect.right > vm.width)
    (hbottom : ¬ rect.bottom > vm.height) (hi : i < rect.right.toNat - rect.left.toNat)
    (hk : k < rect.bottom.toNat - rect.top.toNat) :
  IsPixel mode vm rect (vm.first rect + 4 * (vm.lineSize.toNat / 4) * k + 4 * i)
  := by
  obtain ⟨hwidth, hheight, hscan⟩ := h.same
  have hright' : rect.right.toNat ≤ mode.width.toNat := by
    rw [← hwidth]
    exact UInt16.le_iff_toNat_le.mp (UInt16.not_lt.mp hright)
  have hbottom' : rect.bottom.toNat ≤ mode.height.toNat := by
    rw [← hheight]
    exact UInt16.le_iff_toNat_le.mp (UInt16.not_lt.mp hbottom)
  have hfits := h.width
  have hlines := h.pages
  have hphys := h.phys
  have hle := h.le
  have hquarter : vm.lineSize.toNat = 4 * (vm.lineSize.toNat / 4) := by
    have := h.lineSize
    lia
  rw [hwidth, hscan] at hfits
  rw [hheight, hscan] at hlines
  rw [hscan] at hquarter
  rw [first, hscan]
  generalize mode.scanline.toNat / 4 = stride at hquarter ⊢
  rw [hquarter] at hfits hlines
  -- the line of the pixel ends within the screen
  have hend : stride * (rect.top.toNat + k + 1) ≤ stride * mode.height.toNat :=
    Nat.mul_le_mul_left stride (by lia)
  have hsplit : stride * (rect.top.toNat + k + 1)
      = stride * rect.top.toNat + stride * k + stride := by
    ring
  have hline : 4 * stride * (rect.top.toNat + k)
      = 4 * (stride * rect.top.toNat) + 4 * (stride * k) := by
    ring
  have htotal : 4 * stride * mode.height.toNat = 4 * (stride * mode.height.toNat) := by ring
  have hskip : 4 * stride * k = 4 * (stride * k) := by ring
  refine ⟨rect.left.toNat + i, rect.top.toNat + k, by lia, by lia, by lia, by lia, by lia,
    by lia, ?_, ?_, ?_, ?_⟩
  · rw [hquarter, hline, htotal]
    lia
  · rw [hskip]
    lia
  · rw [hskip]
    lia
  · rw [hquarter, hline, hskip]
    lia

/-- Filling writes pixels of the rectangle only. -/
theorem Fits.fill (h : Fits mode vm) {color : UInt32} {writes : List PixelWrite}
    (hfill : vm.fill rect color = some writes) {w : PixelWrite} (hw : w ∈ writes) :
  IsPixel mode vm rect w.dst
  := by
  rw [VideoMemory.fill] at hfill
  split_ifs at hfill with hempty hscreen
  cases hfill
  obtain ⟨k, hk, hmem⟩ := mem_lines.mp hw
  obtain ⟨i, hi, rfl⟩ := List.mem_map.mp hmem
  rw [not_or] at hscreen
  apply h.isPixel hscreen.1 hscreen.2 (List.mem_range.mp hi) hk

/-- What drawing does to a pixel of the rectangle. -/
theorem Fits.draw (h : Fits mode vm) {sor : UInt64} {advance : UInt16} {copies : List PixelCopy}
    (hdraw : vm.draw rect sor advance = some copies) {c : PixelCopy} (hc : c ∈ copies) :
  IsPixel mode vm rect c.dst ∧ ∃ j < rect.extent advance, c.sor = (sor.toNat + 4 * j) % 2 ^ 64
  := by
  rw [VideoMemory.draw] at hdraw
  split_ifs at hdraw with hnull hempty hscreen hadvance
  cases hdraw
  obtain ⟨k, hk, hmem⟩ := mem_lines.mp hc
  obtain ⟨i, hi, rfl⟩ := List.mem_map.mp hmem
  have hi' := List.mem_range.mp hi
  rw [not_or] at hscreen
  refine ⟨h.isPixel hscreen.1 hscreen.2 hi' hk, advance.toNat * k + i, ?_, ?_⟩
  · have hlast : advance.toNat * k ≤ advance.toNat * (rect.bottom.toNat - rect.top.toNat - 1) :=
      Nat.mul_le_mul_left _ (by lia)
    rw [Rectangle.extent]
    lia
  · dsimp only
    rw [Nat.mul_add, Nat.add_assoc, Nat.mul_assoc]

end VideoMemory

/-! ### The length of the buffer -/

/-- The length that `check` is given is the length in bytes, modulo `2 ^ 32`. -/
theorem Rectangle.toNat_length (rect : Rectangle) (advance : UInt16) :
  (rect.length advance).toNat = 4 * rect.extent advance % 2 ^ 32
  := by
  have hlow : ((BitVec.ofNat 32 (rect.extent advance)).signExtend 64).toNat % 2 ^ 32
      = rect.extent advance % 2 ^ 32 := by
    rw [BitVec.toNat_signExtend, BitVec.toNat_setWidth, BitVec.toNat_ofNat]
    split_ifs <;> lia
  change (BitVec.setWidth 32 _).toNat = _
  rw [BitVec.toNat_setWidth, BitVec.toNat_mul, BitVec.toNat_ofNat]
  lia

/-- A screen has at most a quarter as many pixels in a line as the line has bytes. With at most
`0x4001` lines the length of every rectangle fits. -/
theorem VideoMemory.Fits.length_lt {mode : VideoMode} {vm : VideoMemory} (h : Fits mode vm)
    {rect : Rectangle} {advance : UInt16} (hright : rect.right ≤ vm.width)
    (hbottom : rect.bottom ≤ vm.height) (hheight : vm.height ≤ 0x4001) :
  4 * rect.extent advance < 2 ^ 32
  := by
  have hwidth := h.width
  have hsize := h.lineSize
  have hscan : vm.lineSize.toNat < 2 ^ 16 := vm.lineSize.toNat_lt
  have hadvance : advance.toNat < 2 ^ 16 := advance.toNat_lt
  rw [UInt16.le_iff_toNat_le] at hright hbottom hheight
  change vm.height.toNat ≤ 0x4001 at hheight
  have hlines : advance.toNat * (rect.bottom.toNat - rect.top.toNat - 1) ≤ 65535 * 0x4000 :=
    Nat.mul_le_mul (by lia) (by lia)
  rw [Rectangle.extent]
  lia

/-! ### What the services read and write -/

section

variable {debug : Bool} {vs : Vspace} {privilege : UInt8} {mode : VideoMode} {vm : VideoMemory}
  {buffer val : UInt64} {advance : UInt16} {color : UInt32}

/-- Every pixel that is written belongs to the rectangle, and every byte that is read belongs to the
buffer, whose whole length has been approved. -/
structure Drawn.Safe (debug : Bool) (vs : Vspace) (mode : VideoMode) (vm : VideoMemory)
    (buffer : UInt64) (rect : Rectangle) (advance : UInt16) (d : Drawn) : Prop where
  writes : ∀ c ∈ d.copies, VideoMemory.IsPixel mode vm rect c.dst
  approved : ∀ length, d.approved = some length → vs.checkBuffer debug buffer length false = .ok true
  reads : ∀ c ∈ d.copies, ∃ length, d.approved = some length ∧
    length.toNat = 4 * rect.extent advance ∧
    ∀ b < 4, ∃ j < length.toNat, (c.sor + b) % 2 ^ 64 = (buffer.toNat + j) % 2 ^ 64

/-- Both services stay in bounds. -/
def DrawsInBounds (debug : Bool) (vs : Vspace) (privilege : UInt8) (mode : VideoMode)
    (vm : VideoMemory) (color : UInt32) (buffer val : UInt64) (advance : UInt16) : Prop :=
  (∀ w ∈ (displayFill privilege vm color val).2, VideoMemory.IsPixel mode vm (unpackRect val) w.dst) ∧
    ∀ d, displayDraw debug vs privilege vm buffer val advance = .ok d →
      d.Safe debug vs mode vm buffer (unpackRect val) advance

/-- The request is not turned down: the caller may draw, the rectangle is a part of the screen and
not wider than a line of the buffer, and `check` approves the length that it is given. -/
structure DrawAccepted (debug : Bool) (vs : Vspace) (privilege : UInt8) (vm : VideoMemory)
    (buffer : UInt64) (rect : Rectangle) (advance : UInt16) : Prop where
  privilege : privilege ≤ SHELL
  columns : rect.left < rect.right
  rows : rect.top < rect.bottom
  line : rect.right.toNat - rect.left.toNat ≤ advance.toNat
  check : vs.checkBuffer debug buffer (rect.length advance) false = .ok true
  buffer : buffer ≠ 0
  width : rect.right ≤ vm.width
  height : rect.bottom ≤ vm.height

/-- A request that is not turned down copies at least one pixel. -/
theorem DrawAccepted.draws (h : DrawAccepted debug vs privilege vm buffer (unpackRect val) advance) :
  ∃ copies, copies ≠ [] ∧ displayDraw debug vs privilege vm buffer val advance =
    .ok ⟨.success, some ((unpackRect val).length advance), copies⟩
  := by
  obtain ⟨hprivilege, hcolumns, hrows, hadvance, hcheck, hbuffer, hwidth, hheight⟩ := h
  have hfirst : ¬ ((unpackRect val).right ≤ (unpackRect val).left ∨
      (unpackRect val).bottom ≤ (unpackRect val).top ∨
      advance.toNat < (unpackRect val).right.toNat - (unpackRect val).left.toNat) := by
    rw [not_or, not_or, UInt16.not_le, UInt16.not_le]
    exact ⟨hcolumns, hrows, not_lt.mpr hadvance⟩
  have hempty : ¬ ((unpackRect val).left ≥ (unpackRect val).right ∨
      (unpackRect val).top ≥ (unpackRect val).bottom) := by
    rw [not_or, ge_iff_le, ge_iff_le, UInt16.not_le, UInt16.not_le]
    exact ⟨hcolumns, hrows⟩
  have hscreen : ¬ ((unpackRect val).right > vm.width ∨ (unpackRect val).bottom > vm.height) := by
    rw [not_or, gt_iff_lt, gt_iff_lt, UInt16.not_lt, UInt16.not_lt]
    exact ⟨hwidth, hheight⟩
  obtain ⟨copies, hdraw⟩ : ∃ copies, vm.draw (unpackRect val) buffer advance = some copies := by
    rw [VideoMemory.draw, if_neg hbuffer, if_neg hempty, if_neg hscreen, if_neg (not_lt.mpr hadvance)]
    exact ⟨_, rfl⟩
  refine ⟨copies, ?_, ?_⟩
  · rw [VideoMemory.draw, if_neg hbuffer, if_neg hempty, if_neg hscreen,
      if_neg (not_lt.mpr hadvance), Option.some.injEq] at hdraw
    rw [UInt16.lt_iff_toNat_lt] at hcolumns hrows
    rw [← hdraw]
    apply List.ne_nil_of_mem
    apply VideoMemory.mem_lines.mpr
    refine ⟨0, by lia, ?_⟩
    apply List.mem_map.mpr
    exact ⟨0, List.mem_range.mpr (by lia), rfl⟩
  · rw [displayDraw, if_neg (UInt8.not_lt.mpr hprivilege)]
    simp only [if_neg hfirst, hcheck, Except.ok_bind, Bool.true_eq_false, if_false, hdraw]

/-- A request that is turned down copies nothing. -/
theorem accepted_of_copies {d : Drawn}
    (h : displayDraw debug vs privilege vm buffer val advance = .ok d) (hne : d.copies ≠ []) :
  DrawAccepted debug vs privilege vm buffer (unpackRect val) advance
  := by
  simp only [displayDraw] at h
  split_ifs at h with hprivilege hrect
  · cases h
    exact absurd rfl hne
  · cases h
    exact absurd rfl hne
  obtain ⟨res, hcheck, hres⟩ := Except.bind_eq_ok_iff.mp h
  cases res with
  | false =>
      cases hres
      exact absurd rfl hne
  | true =>
      rw [if_neg (by decide)] at hres
      cases hdraw : vm.draw (unpackRect val) buffer advance with
      | none =>
          simp only [hdraw] at hres
          cases hres
          exact absurd rfl hne
      | some copies =>
          rw [VideoMemory.draw] at hdraw
          split_ifs at hdraw with hbuffer hempty hscreen hadvance
          rw [not_or, ge_iff_le, ge_iff_le, UInt16.not_le, UInt16.not_le] at hempty
          rw [not_or, gt_iff_lt, gt_iff_lt, UInt16.not_lt, UInt16.not_lt] at hscreen
          exact ⟨UInt8.not_lt.mp hprivilege, hempty.1, hempty.2, not_lt.mp hadvance, hcheck, hbuffer,
            hscreen.1, hscreen.2⟩

/-- What `check` has approved, and what has been drawn. -/
theorem displayDraw_approved {d : Drawn}
    (h : displayDraw debug vs privilege vm buffer val advance = .ok d) :
  (∀ length, d.approved = some length → length = (unpackRect val).length advance ∧
    vs.checkBuffer debug buffer length false = .ok true) ∧
  (d.copies ≠ [] → d.approved = some ((unpackRect val).length advance) ∧
    vm.draw (unpackRect val) buffer advance = some d.copies)
  := by
  simp only [displayDraw] at h
  split_ifs at h with hprivilege hrect
  · cases h
    exact ⟨nofun, fun hne => absurd rfl hne⟩
  · cases h
    exact ⟨nofun, fun hne => absurd rfl hne⟩
  obtain ⟨res, hcheck, hres⟩ := Except.bind_eq_ok_iff.mp h
  cases res with
  | false =>
      cases hres
      exact ⟨nofun, fun hne => absurd rfl hne⟩
  | true =>
      rw [if_neg (by decide)] at hres
      have happroved : ∀ length, some ((unpackRect val).length advance) = some length →
          length = (unpackRect val).length advance ∧
          vs.checkBuffer debug buffer length false = .ok true := by
        rintro length ⟨⟩
        exact ⟨rfl, hcheck⟩
      cases hdraw : vm.draw (unpackRect val) buffer advance with
      | none =>
          simp only [hdraw] at hres
          cases hres
          exact ⟨happroved, fun hne => absurd rfl hne⟩
      | some copies =>
          simp only [hdraw] at hres
          cases hres
          exact ⟨happroved, fun _ => ⟨rfl, rfl⟩⟩

/-- A request that reads 4 GB or more is checked for less than it reads. -/
theorem DrawAccepted.not_drawsInBounds
    (h : DrawAccepted debug vs privilege vm buffer (unpackRect val) advance)
    (hlong : 2 ^ 32 ≤ 4 * (unpackRect val).extent advance) :
  ¬ DrawsInBounds debug vs privilege mode vm color buffer val advance
  := by
  rintro ⟨-, hdraw⟩
  obtain ⟨copies, hne, heq⟩ := h.draws
  obtain ⟨c, hc⟩ := List.exists_mem_of_ne_nil copies hne
  obtain ⟨length, hsome, hfull, -⟩ := (hdraw _ heq).reads c hc
  cases hsome
  rw [Rectangle.toNat_length] at hfull
  lia

/-- The services stay in bounds exactly when the length of the buffer is below 4 GB or the request is
turned down. -/
theorem drawsInBounds_iff {reserve : ℕ → ℕ} {reserved : ℕ → ℕ → Bool}
    (h : VideoMemory.new reserve reserved mode = .ok vm) :
  DrawsInBounds debug vs privilege mode vm color buffer val advance ↔
    (4 * (unpackRect val).extent advance < 2 ^ 32 ∨
      ¬ DrawAccepted debug vs privilege vm buffer (unpackRect val) advance)
  := by
  have hfits := VideoMemory.fits_of_new h
  constructor
  · intro hbounds
    rw [or_iff_not_imp_right, not_not]
    intro haccepted
    by_contra hlong
    exact haccepted.not_drawsInBounds (not_lt.mp hlong) hbounds
  · intro hcond
    constructor
    · rw [displayFill]
      split_ifs
      · nofun
      · cases hfill : vm.fill (unpackRect val) color with
        | none => nofun
        | some writes =>
            intro w hw
            apply hfits.fill hfill hw
    · intro d hd
      obtain ⟨happroved, hcopies⟩ := displayDraw_approved hd
      constructor
      · intro c hc
        apply (hfits.draw (hcopies (List.ne_nil_of_mem hc)).2 hc).1
      · intro length hlength
        apply (happroved length hlength).2
      · intro c hc
        have hne := List.ne_nil_of_mem hc
        obtain ⟨hsome, hdraw⟩ := hcopies hne
        obtain ⟨-, j, hj, hsor⟩ := hfits.draw hdraw hc
        have hlt := hcond.resolve_right (not_not.mpr (accepted_of_copies hd hne))
        have hfull : ((unpackRect val).length advance).toNat
            = 4 * (unpackRect val).extent advance := by
          rw [Rectangle.toNat_length, Nat.mod_eq_of_lt hlt]
        refine ⟨_, hsome, hfull, ?_⟩
        intro b hb
        refine ⟨4 * j + b, by omega, ?_⟩
        rw [hsor, Nat.mod_add_mod, Nat.add_assoc]

end

/-! ### Two screens -/

/-- A screen of 1024 by 768 pixels. -/
def usualMode : VideoMode := ⟨0xE0000000, 0x1000, 1024, 768, 32⟩

/-- A screen of a single column, with more lines than a line of a buffer can have pixels. -/
def columnMode : VideoMode := ⟨0xE0000000, 4, 1, 0x8000, 32⟩

/-- What the constructor makes of a mode if pages are reserved at a high address. -/
def mappedAt (vbase : ℕ) (mode : VideoMode) : VideoMemory :=
  ⟨vbase, mode.width, mode.height, mode.scanline,
    ⟨vbase, mode.addr.toNat, VideoMemory.pageCount mode⟩⟩

theorem new_mappedAt {vbase : ℕ} {mode : VideoMode} (hbpp : mode.bpp = 32)
    (hwidth : mode.width.toNat * mode.bpp.toNat / 8 ≤ mode.scanline.toNat)
    (hline : mode.scanline &&& 3 = 0) (halign : alignDown mode.addr.toNat 0x1000 = mode.addr.toNat)
    (haddr : mode.addr.toNat ≠ 0)
    (hcheck : Vspace.kernelCheck vbase (VideoMemory.pageCount mode) = true) :
  VideoMemory.new (fun _ => vbase) (fun _ _ => true) mode = .ok (mappedAt vbase mode)
  := by
  have hvbase : vbase ≠ 0 := by
    rintro rfl
    simp [Vspace.kernelCheck] at hcheck
  have hassign :
      Vspace.assignKernel (fun _ _ => true) vbase mode.addr.toNat (VideoMemory.pageCount mode)
        = true := by
    rw [Vspace.assignKernel, if_neg]
    rw [hcheck, not_or]
    exact ⟨by decide, haddr⟩
  simp only [VideoMemory.new, if_neg (not_not.mpr hbpp), if_neg (not_lt.mpr hwidth),
    if_neg (not_not.mpr hline), halign, if_neg hvbase, hassign, Bool.true_eq_false, if_false,
    Nat.sub_self, Nat.add_zero, mappedAt]

theorem new_usualMode :
  VideoMemory.new (fun _ => HIGHADDR 0x40000000) (fun _ _ => true) usualMode
    = .ok (mappedAt (HIGHADDR 0x40000000) usualMode)
  := by
  apply new_mappedAt rfl (by decide) rfl rfl (by decide)
  decide

theorem new_columnMode :
  VideoMemory.new (fun _ => HIGHADDR 0x40000000) (fun _ _ => true) columnMode
    = .ok (mappedAt (HIGHADDR 0x40000000) columnMode)
  := by
  apply new_mappedAt rfl (by decide) rfl rfl (by decide)
  decide

/-- A rectangle of 16 by 32 pixels is drawn on the usual screen from a buffer in a committed page. -/
theorem drawsInBounds_usual :
  ∃ vs : Vspace, DrawAccepted true vs 0 (mappedAt (HIGHADDR 0x40000000) usualMode) 0x200000
      (unpackRect 0x0030002000100010) 16 ∧
    DrawsInBounds true vs 0 usualMode (mappedAt (HIGHADDR 0x40000000) usualMode) 0 0x200000
      0x0030002000100010 16
  := by
  obtain ⟨vs₁, vs, -, -, -, hentry, -⟩ := Vspace.commit_create
  refine ⟨vs, ?_, (drawsInBounds_iff new_usualMode).mpr (.inl (by decide))⟩
  obtain ⟨res, hcheck, hres⟩ := vs.checkBuffer_eq true 0x200000 0x800 false (by decide) (by decide)
  have hpasses : res = true := by
    have haddr : (0x200000 : UInt64).toNat = 0x200000 := rfl
    have hlength : (0x800 : UInt32).toNat = 0x800 := rfl
    rw [hres, haddr, hlength]
    intro a hle hlt
    have hpage : a / 0x1000 = 0x200 := by lia
    obtain ⟨pt, f, hpt⟩ := hentry 0x200 (by decide)
    refine ⟨by lia, ?_⟩
    rw [hpage, hpt]
    exact ⟨rfl, rfl, fun _ => rfl⟩
  have hlength : (unpackRect 0x0030002000100010).length 16 = 0x800 := by decide
  constructor
  · decide
  · decide
  · decide
  · decide
  · rw [hlength, hcheck, hpasses]
  · decide
  · decide
  · decide

/-- On the screen of a single column, the length of a buffer of 4 GB is taken for `0`. -/
theorem column_not_drawsInBounds :
  ¬ ∀ (debug : Bool) (vs : Vspace) (privilege : UInt8) (mode : VideoMode) (vm : VideoMemory)
      (reserve : ℕ → ℕ) (reserved : ℕ → ℕ → Bool) (color : UInt32) (buffer val : UInt64)
      (advance : UInt16), VideoMemory.new reserve reserved mode = .ok vm →
    DrawsInBounds debug vs privilege mode vm color buffer val advance
  := by
  intro h
  obtain ⟨res, hcheck, hres⟩ := Vspace.checkBuffer_eq true
    (Vspace.create { used := ∅, answers := fun i => i + 1 }) 0x400000 0 false (by decide) (by decide)
  have hpasses : res = true := by
    rw [hres]
    intro a hle hlt
    exact absurd (hle.trans_lt hlt) (by decide)
  subst hpasses
  have haccepted : DrawAccepted true (Vspace.create { used := ∅, answers := fun i => i + 1 }) 0
      (mappedAt (HIGHADDR 0x40000000) columnMode) 0x400000 (unpackRect 0x53EC000100000000) 0xC33D := by
    have hlength : (unpackRect 0x53EC000100000000).length 0xC33D = 0 := by decide
    constructor
    · decide
    · decide
    · decide
    · decide
    · rw [hlength]
      apply hcheck
    · decide
    · decide
    · decide
  apply haccepted.not_drawsInBounds (by decide) (h _ _ _ _ _ _ _ 0 _ _ _ new_columnMode)

end UOS
