import Cofuos.Boot.Sectors

/-!
# The memory routines

`memset`, `zeromemory` and `memcpy` of `util/mem.asm`, instruction by instruction. A label is a function
of the registers, the flags and the memory; what comes behind it is applied at the end. The direction
flag is clear, and the 32 bytes above the return address belong to the routine that is called, which
keeps `rsi`, `rdi` and its arguments there.
-/

namespace UOS

namespace MemAsm

open Boot

/-- The registers and flags that are used, and the memory. -/
structure Cpu where
  rax : ℕ := 0
  rcx : ℕ := 0
  rdx : ℕ := 0
  rsi : ℕ := 0
  rdi : ℕ := 0
  r8 : ℕ := 0
  r9 : ℕ := 0
  rsp : ℕ := 0
  zf : Bool := false
  sf : Bool := false
  cf : Bool := false
  memory : Bytes := fun _ => 0

/-! ### Instructions -/

/-- A register of which the lowest byte is replaced. -/
def setLow (r v : ℕ) : ℕ := r / 0x100 * 0x100 + v % 0x100

/-- The difference of numbers of so many bits. -/
def minus (bits a b : ℕ) : ℕ := (a + (2 ^ bits - b)) % 2 ^ bits

/-- The flags of `cmp` and `sub`. -/
def Cpu.cmp (c : Cpu) (bits a b : ℕ) : Cpu :=
  { c with zf := a = b, sf := 2 ^ (bits - 1) ≤ minus bits a b, cf := a < b }

/-- The flags of `test` and `and`, by the result. -/
def Cpu.test (c : Cpu) (bits r : ℕ) : Cpu :=
  { c with zf := r = 0, sf := 2 ^ (bits - 1) ≤ r, cf := false }

/-- The flags of `shr` by `k`. -/
def Cpu.shr (c : Cpu) (k r : ℕ) : Cpu :=
  { c with zf := r / 2 ^ k = 0, sf := 2 ^ 63 ≤ r / 2 ^ k, cf := r / 2 ^ (k - 1) % 2 = 1 }

/-- A `qword` that is moved to the memory. -/
def Cpu.spill (c : Cpu) (off v : ℕ) : Cpu :=
  { c with memory := c.memory.store (c.rsp + off) (qwordBytes v) }

/-- A `qword` of the memory. -/
def Cpu.home (c : Cpu) (off : ℕ) : ℕ := c.memory.qword (c.rsp + off)

/-- `movsb`, `movsw`, `movsd` and `movsq`, for so many bytes -/
def movs (width : ℕ) (c : Cpu) : Cpu :=
  { c with
    memory := c.memory.fill c.rdi width fun i => c.memory (c.rsi + i)
    rsi := (c.rsi + width) % 2 ^ 64
    rdi := (c.rdi + width) % 2 ^ 64 }

/-- `stosb` and `stosq` -/
def stos (width : ℕ) (c : Cpu) : Cpu :=
  { c with
    memory := c.memory.fill c.rdi width fun i => (c.rax / 0x100 ^ i).toUInt8
    rdi := (c.rdi + width) % 2 ^ 64 }

/-- `rep` -/
def Cpu.rep (c : Cpu) (instruction : Cpu → Cpu) : Cpu := { instruction^[c.rcx] c with rcx := 0 }

/-! ### `memset` and `zeromemory` -/

/-- The end of `memset_val`. -/
def leaveSet (c : Cpu) : Cpu :=
  let c := { c with rdi := c.home 8 }
  { c with rax := c.home 0x10 }

/-- `memset_val` -/
def memsetVal (c : Cpu) : Cpu :=
  let c := c.test 64 c.r8
  let c := c.spill 8 c.rdi
  let c := c.spill 0x10 c.rcx
  bif c.zf then { c with rax := c.home 0x10 }
  else
    let c := { c with rax := setLow c.rax c.rdx }
    let c := { c with rdi := c.rcx }
    let c := { c with rcx := c.r8 }
    leaveSet (c.rep (stos 1))

/-- The end of `zeromemory`. -/
def leaveZero (c : Cpu) : Cpu :=
  let c := { c with rdi := c.home 8 }
  { c with rax := c.r9 }

/-- `.tail_misalign` -/
def tailMisalign (c : Cpu) : Cpu :=
  let c := { c with rcx := c.rdx % 0x100 }
  leaveZero (c.rep (stos 1))

/-- `.small` of `zeromemory` -/
def smallZero (c : Cpu) : Cpu := tailMisalign { c with rdx := c.home 0x10 }

/-- `.head_aligned` -/
def headAligned (c : Cpu) : Cpu :=
  let c := c.cmp 64 c.rdx 8
  let c := { c with rcx := c.rdx }
  bif c.sf then tailMisalign c
  else
    let c := { c with rcx := c.rcx / 2 ^ 3 }.shr 3 c.rcx
    let c := { c with rdx := setLow c.rdx (c.rdx % 0x100 &&& 7) }.test 8 (c.rdx % 0x100 &&& 7)
    let c := c.rep (stos 8)
    bif !c.zf then tailMisalign c else leaveZero c

/-- `zeromemory` -/
def zeromemory (c : Cpu) : Cpu :=
  let c := c.test 64 c.rdx
  let c := { c with r9 := c.rcx }
  let c := { c with r8 := c.rcx % 2 ^ 32 }
  bif c.zf then { c with rax := c.r9 }
  else
    let c := c.spill 8 c.rdi
    let c := c.spill 0x10 c.rdx
    let c := { c with rcx := 8 }
    let c := { c with rax := 0 }.test 64 0
    let c := { c with r8 := c.r8 &&& 7 }.test 32 (c.r8 &&& 7)
    let c := { c with rdi := c.r9 }
    bif c.zf then headAligned c
    else
      let c := { c with rcx := setLow c.rcx (minus 8 (c.rcx % 0x100) (c.r8 % 0x100)) }
      let c := { c with rdx := minus 64 c.rdx c.rcx }.cmp 64 c.rdx c.rcx
      bif c.sf then smallZero c else headAligned (c.rep (stos 1))

/-- `memset` -/
def memset (c : Cpu) : Cpu :=
  let c := c.test 8 (c.rdx % 0x100)
  bif !c.zf then memsetVal c else zeromemory { c with rdx := c.r8 }

/-! ### `memcpy` -/

/-- The end of `memcpy`. -/
def leave (c : Cpu) : Cpu :=
  let c := { c with rsi := c.home 8 }
  let c := { c with rdi := c.home 0x10 }
  { c with rax := c.home 0x18 }

/-- `.align_def` -/
def alignDef (c : Cpu) : Cpu :=
  let c := { c with rcx := c.r8 }
  leave (c.rep (movs 1))

/-- `.small` of `memcpy` -/
def small (c : Cpu) : Cpu := alignDef { c with r8 := c.home 0x20 }

/-- `.align_2_once` -/
def align2Once (c : Cpu) : Cpu := leave (movs 1 c)

/-- `.align_2_skip` -/
def align2Skip (c : Cpu) : Cpu :=
  let c := c.cmp 64 c.r8 2
  let c := { c with rcx := c.r8 }
  bif c.sf then align2Once c
  else
    let c := { c with rcx := c.rcx / 2 ^ 1 }.shr 1 c.rcx
    let c := c.rep (movs 2)
    bif c.cf then align2Once c else leave c

/-- `.align_2` -/
def align2 (c : Cpu) : Cpu :=
  let c := { c with cf := c.rcx % 2 = 1 }
  bif !c.cf then align2Skip c
  else
    let c := { c with
      r8 := minus 64 c.r8 1
      zf := minus 64 c.r8 1 = 0
      sf := 2 ^ 63 ≤ minus 64 c.r8 1 }
    bif c.zf then small c else align2Skip (movs 1 c)

/-- `.align_8_skip` and `.align_4_skip`, for `2 ^ k` bytes -/
def alignSkip (k : ℕ) (c : Cpu) : Cpu :=
  let c := c.cmp 64 c.r8 (2 ^ k)
  let c := { c with rcx := c.r8 }
  bif c.sf then alignDef c
  else
    let c := { c with rcx := c.rcx / 2 ^ k }.shr k c.rcx
    let c := { c with r8 := c.r8 &&& (2 ^ k - 1) }.test 64 (c.r8 &&& (2 ^ k - 1))
    let c := c.rep (movs (2 ^ k))
    bif !c.zf then alignDef c else leave c

/-- `.align_8` and `.align_4`, for `2 ^ k` bytes -/
def align (k : ℕ) (c : Cpu) : Cpu :=
  let c := { c with rcx := 2 ^ k }
  let c := { c with r9 := setLow c.r9 (c.r9 % 0x100 &&& (2 ^ k - 1)) }.test 8
    (c.r9 % 0x100 &&& (2 ^ k - 1))
  bif c.zf then alignSkip k c
  else
    let c := { c with rcx := setLow c.rcx (minus 8 (c.rcx % 0x100) (c.r9 % 0x100)) }
    let c := { c with r8 := minus 64 c.r8 c.rcx }.cmp 64 c.r8 c.rcx
    bif c.cf || c.zf then small c else alignSkip k (c.rep (movs 1))

/-- `.align_8` -/
def align8 : Cpu → Cpu := align 3

/-- `.align_4` -/
def align4 : Cpu → Cpu := align 2

/-- `.align_table` -/
def alignTable : ℕ → Cpu → Cpu
  | 0 => align8
  | 2 => align2
  | 4 => align4
  | 6 => align2
  | _ => alignDef

/-- `memcpy` -/
def memcpy (c : Cpu) : Cpu :=
  let c := c.test 64 c.r8
  let c := c.spill 8 c.rsi
  let c := c.spill 0x10 c.rdi
  bif c.zf then { c with rax := c.rcx }
  else
    let c := c.spill 0x18 c.rcx
    let c := c.spill 0x20 c.r8
    let c := { c with rsi := c.rdx }
    let c := { c with rdx := c.rdx ^^^ c.rcx }.test 64 (c.rdx ^^^ c.rcx)
    let c := { c with rdi := c.rcx }
    let c := { c with rdx := c.rdx &&& 7 }.test 64 (c.rdx &&& 7)
    let c := { c with r9 := c.rcx % 2 ^ 32 }
    alignTable c.rdx c

/-! ### What is wanted of the routines -/

/-- So many bytes at an address neither wrap around nor meet the stack above the return address. -/
structure Region (c : Cpu) (addr n : ℕ) : Prop where
  fits : addr + n ≤ 2 ^ 64
  apart : addr + n ≤ c.rsp + 8 ∨ c.rsp + 0x28 ≤ addr

/-- The bytes at `dst` are those of `data`, the others stay, and so do `rsi` and `rdi`. -/
structure Returns (c c' : Cpu) (dst n : ℕ) (data : Bytes) : Prop where
  rax : c'.rax = dst
  rsi : c'.rsi = c.rsi
  rdi : c'.rdi = c.rdi
  rsp : c'.rsp = c.rsp
  data : ∀ i < n, c'.memory (dst + i) = data i
  rest : ∀ a, ¬ (dst ≤ a ∧ a < dst + n) → ¬ (c.rsp + 8 ≤ a ∧ a < c.rsp + 0x28) →
    c'.memory a = c.memory a

variable {c c₀ : Cpu} {m : Bytes} {dst src size k n width : ℕ}

/-! ### Instructions that are repeated -/

/-- What an instruction keeps is kept when it is repeated. -/
theorem iterate_keeps {α : Type} {f : Cpu → Cpu} (p : Cpu → α) (hf : ∀ c, p (f c) = p c) (n : ℕ)
    (c : Cpu) :
  p (f^[n] c) = p c
  := by
  induction n generalizing c with
  | zero => rfl
  | succ n ih => rw [Function.iterate_succ_apply, ih, hf]

@[simp]
theorem rep_movs_r8 (c : Cpu) : (c.rep (movs width)).r8 = c.r8 :=
  iterate_keeps (f := movs width) Cpu.r8 (fun _ => rfl) c.rcx c

@[simp]
theorem rep_movs_zf (c : Cpu) : (c.rep (movs width)).zf = c.zf :=
  iterate_keeps (f := movs width) Cpu.zf (fun _ => rfl) c.rcx c

@[simp]
theorem rep_movs_cf (c : Cpu) : (c.rep (movs width)).cf = c.cf :=
  iterate_keeps (f := movs width) Cpu.cf (fun _ => rfl) c.rcx c

/-- The sign of a difference of numbers that are not too large. -/
theorem minus_sign {a b : ℕ} (ha : a < 2 ^ 63) (hb : b ≤ 8) :
  2 ^ 63 ≤ minus 64 a b ↔ a < b
  := by
  rw [minus]
  lia

theorem minus_of_le {a b : ℕ} (hab : b ≤ a) (ha : a < 2 ^ 64) : minus 64 a b = a - b := by
  rw [minus]
  lia

/-! ### `memcpy` -/

/-- A call of `memcpy` that has saved its registers and arguments in `m`. -/
structure Copy (c₀ : Cpu) (m : Bytes) (dst src size : ℕ) : Prop where
  target : Region c₀ dst size
  source : Region c₀ src size
  apart : dst + size ≤ src ∨ src + size ≤ dst
  bounded : size < 2 ^ 63
  rsi : m.qword (c₀.rsp + 8) = c₀.rsi
  rdi : m.qword (c₀.rsp + 0x10) = c₀.rdi
  saved : m.qword (c₀.rsp + 0x18) = dst
  length : m.qword (c₀.rsp + 0x20) = size

/-- So many bytes have been copied. -/
structure Copied (c₀ : Cpu) (m : Bytes) (dst src k : ℕ) (c : Cpu) : Prop where
  memory : c.memory = m.fill dst k fun i => m (src + i)
  rdi : c.rdi = (dst + k) % 2 ^ 64
  rsi : c.rsi = (src + k) % 2 ^ 64
  rsp : c.rsp = c₀.rsp

/-- The bytes have been copied, and the registers are as they were. -/
structure Finished (c₀ : Cpu) (m : Bytes) (dst n : ℕ) (data : Bytes) (c : Cpu) : Prop where
  memory : c.memory = m.fill dst n data
  rax : c.rax = dst
  rsi : c.rsi = c₀.rsi
  rdi : c.rdi = c₀.rdi
  rsp : c.rsp = c₀.rsp

/-- Only the memory and three registers count. -/
theorem Copied.congr {c' : Cpu} (hc : Copied c₀ m dst src k c) (hmemory : c'.memory = c.memory)
    (hrdi : c'.rdi = c.rdi) (hrsi : c'.rsi = c.rsi) (hrsp : c'.rsp = c.rsp) :
  Copied c₀ m dst src k c'
  := ⟨hmemory.trans hc.memory, hrdi.trans hc.rdi, hrsi.trans hc.rsi, hrsp.trans hc.rsp⟩

/-- What has been saved is not changed. -/
theorem Region.qword_fill (h : Region c₀ dst size) (hn : n ≤ size) {off : ℕ}
    (hoff : 8 ≤ off ∧ off ≤ 0x20) (data : Bytes) :
  (m.fill dst n data).qword (c₀.rsp + off) = m.qword (c₀.rsp + off)
  := by
  apply Bytes.qword_congr
  intro j hj
  apply Bytes.fill_of_not_mem
  have hapart := h.apart
  lia

/-- One instruction copies the next bytes. -/
theorem Copied.movs (h : Copy c₀ m dst src size) (hc : Copied c₀ m dst src k c) (hw : 0 < width)
    (hk : k + width ≤ size) :
  Copied c₀ m dst src (k + width) (MemAsm.movs width c)
  := by
  have hdst := h.target.fits
  have hsrc := h.source.fits
  have hapart := h.apart
  have hrdi := hc.rdi
  have hrsi := hc.rsi
  rw [Nat.mod_eq_of_lt (by lia)] at hrdi hrsi
  constructor
  · rw [MemAsm.movs, hrdi, hrsi, hc.memory, ← Bytes.fill_fill]
    dsimp only
    apply Bytes.fill_congr
    intro i hi
    rw [Nat.add_assoc]
    apply Bytes.fill_of_not_mem
    lia
  · rw [MemAsm.movs, hrdi, Nat.add_assoc]
  · rw [MemAsm.movs, hrsi, Nat.add_assoc]
  · apply hc.rsp

theorem Copied.iterate (h : Copy c₀ m dst src size) (hw : 0 < width) (n : ℕ) :
    ∀ {k : ℕ} {c : Cpu}, Copied c₀ m dst src k c → k + width * n ≤ size →
  Copied c₀ m dst src (k + width * n) ((MemAsm.movs width)^[n] c)
  := by
  induction n with
  | zero =>
      intro k c hc _
      apply hc
  | succ n ih =>
      intro k c hc hk
      rw [Nat.mul_succ] at hk ⊢
      rw [Function.iterate_succ_apply, Nat.add_comm (width * n), ← Nat.add_assoc]
      apply ih (hc.movs h hw (by lia))
      omega

/-- `rep` copies as many. -/
theorem Copied.rep (h : Copy c₀ m dst src size) (hw : 0 < width) (hc : Copied c₀ m dst src k c)
    (hn : k + width * c.rcx = n) (hle : n ≤ size) :
  Copied c₀ m dst src n (c.rep (MemAsm.movs width))
  := by
  subst hn
  obtain ⟨hmemory, hrdi, hrsi, hrsp⟩ := Copied.iterate h hw c.rcx hc hle
  exact ⟨hmemory, hrdi, hrsi, hrsp⟩

theorem finished_leave (h : Copy c₀ m dst src size) (hc : Copied c₀ m dst src size c) :
  Finished c₀ m dst size (fun i => m (src + i)) (leave c)
  := by
  have hsaved : ∀ off, 8 ≤ off ∧ off ≤ 0x20 → c.home off = m.qword (c₀.rsp + off) := by
    intro off hoff
    rw [Cpu.home, hc.memory, hc.rsp, h.target.qword_fill le_rfl hoff]
  exact {
    memory := hc.memory
    rax := (hsaved 0x18 (by decide)).trans h.saved
    rsi := (hsaved 8 (by decide)).trans h.rsi
    rdi := (hsaved 0x10 (by decide)).trans h.rdi
    rsp := hc.rsp }

/-- The rest is copied byte by byte. -/
theorem finished_alignDef (h : Copy c₀ m dst src size) (hc : Copied c₀ m dst src k c)
    (hrest : k + c.r8 = size) :
  Finished c₀ m dst size (fun i => m (src + i)) (alignDef c)
  := by
  apply finished_leave h
  apply Copied.rep h Nat.one_pos
  · exact hc.congr rfl rfl rfl rfl
  · rw [Nat.one_mul]
    apply hrest
  · rfl

theorem finished_small (h : Copy c₀ m dst src size) (hc : Copied c₀ m dst src 0 c) :
  Finished c₀ m dst size (fun i => m (src + i)) (small c)
  := by
  have hlength : c.home 0x20 = size := by
    rw [Cpu.home, hc.memory, Bytes.fill_zero, hc.rsp, h.length]
  apply finished_alignDef h
  · exact hc.congr rfl rfl rfl rfl
  · rw [Nat.zero_add]
    apply hlength

/-- Words are copied, and then the rest. -/
theorem finished_alignSkip {b : ℕ} (h : Copy c₀ m dst src size) (hc : Copied c₀ m dst src k c)
    (hrest : k + c.r8 = size) :
  Finished c₀ m dst size (fun i => m (src + i)) (alignSkip b c)
  := by
  have hdiv := Nat.div_add_mod c.r8 (2 ^ b)
  have hmod : c.r8 &&& (2 ^ b - 1) = c.r8 % 2 ^ b := Nat.and_two_pow_sub_one_eq_mod _ _
  have hwords : k + 2 ^ b * (c.r8 / 2 ^ b) ≤ size := by lia
  simp only [alignSkip, Bool.cond_eq_ite, Bool.not_eq_true', Cpu.cmp, Cpu.test, Cpu.shr, rep_movs_zf,
    decide_eq_true_eq, decide_eq_false_iff_not, hmod]
  split_ifs with hsign hzero
  · apply finished_alignDef h
    · exact hc.congr rfl rfl rfl rfl
    · apply hrest
  · apply finished_leave h
    apply Copied.rep h (Nat.two_pow_pos b)
    · exact hc.congr rfl rfl rfl rfl
    · dsimp only
      lia
    · rfl
  · apply finished_alignDef h
    · apply Copied.rep h (Nat.two_pow_pos b)
      · exact hc.congr rfl rfl rfl rfl
      · rfl
      · apply hwords
    · rw [rep_movs_r8]
      dsimp only
      lia

theorem setLow_of_lt {r v : ℕ} (hr : r < 0x100) (hv : v < 0x100) : setLow r v = v := by
  rw [setLow]
  lia

/-- What comes before the words is copied byte by byte. -/
theorem finished_align {b : ℕ} (hb : 2 ^ b ≤ 8) (h : Copy c₀ m dst src size)
    (hc : Copied c₀ m dst src 0 c) (hrest : c.r8 = size) :
  Finished c₀ m dst size (fun i => m (src + i)) (align b c)
  := by
  have hsize := h.bounded
  have hmask : c.r9 % 0x100 &&& (2 ^ b - 1) = c.r9 % 0x100 % 2 ^ b := Nat.and_two_pow_sub_one_eq_mod _ _
  have hoff := Nat.mod_lt (c.r9 % 0x100) (Nat.two_pow_pos b)
  -- The lowest byte of `r9` is the offset in the word, and that of `rcx` what is left of it.
  have hhead : setLow (2 ^ b) (minus 8 (2 ^ b % 0x100) (setLow c.r9 (c.r9 % 0x100 % 2 ^ b) % 0x100)) =
      2 ^ b - c.r9 % 0x100 % 2 ^ b := by
    have hlow : setLow c.r9 (c.r9 % 0x100 % 2 ^ b) % 0x100 = c.r9 % 0x100 % 2 ^ b := by
      rw [setLow]
      lia
    rw [hlow, minus, setLow_of_lt (by omega) (by omega)]
    omega
  simp only [align, Bool.cond_eq_ite, Cpu.cmp, Cpu.test, decide_eq_true_eq, hmask, Bool.or_eq_true,
    hhead]
  split_ifs with hzero hbelow
  · apply finished_alignSkip h
    · exact hc.congr rfl rfl rfl rfl
    · rw [Nat.zero_add]
      apply hrest
  · apply finished_small h
    exact hc.congr rfl rfl rfl rfl
  · apply finished_alignSkip h
    · apply Copied.rep h Nat.one_pos
      · exact hc.congr rfl rfl rfl rfl
      · rfl
      · dsimp only
        lia
    · rw [rep_movs_r8]
      dsimp only
      rw [minus_of_le (by lia) (by lia)]
      lia

/-- Two bytes at a time are copied, and then the last one. -/
theorem finished_align2Skip (h : Copy c₀ m dst src size) (hc : Copied c₀ m dst src k c)
    (hrest : k + c.r8 = size) (hpos : 0 < c.r8) :
  Finished c₀ m dst size (fun i => m (src + i)) (align2Skip c)
  := by
  have hsize := h.bounded
  simp only [align2Skip, Bool.cond_eq_ite, Cpu.cmp, Cpu.shr, rep_movs_cf, decide_eq_true_eq,
    Nat.sub_self, pow_zero, Nat.div_one, pow_one]
  split_ifs with hsign hodd
  · have hone : c.r8 = 1 := by
      have hlt := (minus_sign (a := c.r8) (b := 2) (by omega) (by decide)).1 hsign
      omega
    apply finished_leave h
    rw [← hrest, hone]
    apply Copied.movs h
    · exact hc.congr rfl rfl rfl rfl
    · decide
    · omega
  · apply finished_leave h
    rw [show size = k + 2 * (c.r8 / 2) + 1 by lia]
    apply Copied.movs h
    · apply Copied.rep h Nat.two_pos
      · exact hc.congr rfl rfl rfl rfl
      · rfl
      · lia
    · decide
    · lia
  · apply finished_leave h
    apply Copied.rep h Nat.two_pos
    · exact hc.congr rfl rfl rfl rfl
    · dsimp only
      lia
    · rfl

theorem finished_align2 (h : Copy c₀ m dst src size) (hc : Copied c₀ m dst src 0 c)
    (hrest : c.r8 = size) (hpos : 0 < size) :
  Finished c₀ m dst size (fun i => m (src + i)) (align2 c)
  := by
  have hsize := h.bounded
  have hminus := minus_of_le (a := c.r8) (b := 1) (by lia) (by lia)
  simp only [align2, Bool.cond_eq_ite, Bool.not_eq_true', decide_eq_true_eq, decide_eq_false_iff_not,
    hminus]
  split_ifs with hodd hone
  · apply finished_small h
    exact hc.congr rfl rfl rfl rfl
  · apply finished_align2Skip h
    · apply Copied.movs h
      · exact hc.congr rfl rfl rfl rfl
      · decide
      · omega
    · simp only [movs]
      lia
    · simp only [movs]
      lia
  · apply finished_align2Skip h
    · exact hc.congr rfl rfl rfl rfl
    · rw [Nat.zero_add]
      apply hrest
    · dsimp only
      omega

/-- The bytes at `dst` are in their places once they have been copied from `m`, which differs from the
memory at the call in what has been saved. -/
theorem Finished.returns {c : Cpu} {data data' : Bytes} (h : Finished c₀ m dst n data c)
    (hm : ∀ a, ¬ (c₀.rsp + 8 ≤ a ∧ a < c₀.rsp + 0x28) → m a = c₀.memory a)
    (hdata : ∀ i < n, data i = data' i) :
  Returns c₀ c dst n data'
  := by
  constructor
  · apply h.rax
  · apply h.rsi
  · apply h.rdi
  · apply h.rsp
  · intro i hi
    rw [h.memory, Bytes.fill_of_mem hi, hdata i hi]
  · intro a ha hhome
    rw [h.memory, Bytes.fill_of_not_mem ha, hm a hhome]

/-- Saving changes the stack above the return address. -/
theorem store_qword_of_not_mem {s : Bytes} {rsp off v a : ℕ} (hoff : 8 ≤ off ∧ off ≤ 0x20)
    (ha : ¬ (rsp + 8 ≤ a ∧ a < rsp + 0x28)) :
  s.store (rsp + off) (qwordBytes v) a = s a
  := by
  by_cases hlt : a < rsp + off
  · apply Bytes.store_of_lt hlt
  · apply Bytes.store_of_le
    rw [length_qwordBytes]
    lia

theorem finished_alignTable (h : Copy c₀ m dst src size) (hc : Copied c₀ m dst src 0 c)
    (hrest : c.r8 = size) (hpos : 0 < size) (i : ℕ) :
  Finished c₀ m dst size (fun i => m (src + i)) (alignTable i c)
  := by
  unfold alignTable
  split
  · apply finished_align (by decide) h hc hrest
  · apply finished_align2 h hc hrest hpos
  · apply finished_align (by decide) h hc hrest
  · apply finished_align2 h hc hrest hpos
  · apply finished_alignDef h hc
    rw [Nat.zero_add, hrest]

/-- The memory once `memcpy` has saved its registers and arguments. -/
def saved (c : Cpu) : Bytes :=
  (((c.memory.store (c.rsp + 8) (qwordBytes c.rsi)).store (c.rsp + 0x10) (qwordBytes c.rdi)).store
    (c.rsp + 0x18) (qwordBytes c.rcx)).store (c.rsp + 0x20) (qwordBytes c.r8)

theorem saved_of_not_mem {a : ℕ} (ha : ¬ (c.rsp + 8 ≤ a ∧ a < c.rsp + 0x28)) :
  saved c a = c.memory a
  := by
  rw [saved, store_qword_of_not_mem (by decide) ha, store_qword_of_not_mem (by decide) ha,
    store_qword_of_not_mem (by decide) ha, store_qword_of_not_mem (by decide) ha]

/-- `memcpy` copies, for regions that do not meet. -/
theorem memcpy_returns (c : Cpu) (hsize : c.r8 < 2 ^ 63) (htarget : Region c c.rcx c.r8)
    (hsource : Region c c.rdx c.r8) (hapart : c.rcx + c.r8 ≤ c.rdx ∨ c.rdx + c.r8 ≤ c.rcx)
    (hrcx : c.rcx < 2 ^ 64) (hrdx : c.rdx < 2 ^ 64) (hrsi : c.rsi < 2 ^ 64) (hrdi : c.rdi < 2 ^ 64) :
  Returns c (memcpy c) c.rcx c.r8 fun i => c.memory (c.rdx + i)
  := by
  by_cases hzero : c.r8 = 0
  · simp only [memcpy, Cpu.test, Cpu.spill, hzero, decide_true, cond_true]
    constructor
    · rfl
    · rfl
    · rfl
    · rfl
    · intro i hi
      exact absurd hi (Nat.not_lt_zero i)
    · intro a _ ha
      dsimp only
      rw [store_qword_of_not_mem (by decide) ha, store_qword_of_not_mem (by decide) ha]
  · have hcopy : Copy c (saved c) c.rcx c.rdx c.r8 := by
      constructor
      · apply htarget
      · apply hsource
      · apply hapart
      · apply hsize
      · rw [saved, qword_store_of_ne _ (by lia), qword_store_of_ne _ (by lia),
          qword_store_of_ne _ (by omega), qword_store _ _ hrsi]
      · rw [saved, qword_store_of_ne _ (by lia), qword_store_of_ne _ (by lia),
          qword_store _ _ hrdi]
      · rw [saved, qword_store_of_ne _ (by omega), qword_store _ _ hrcx]
      · rw [saved, qword_store _ _ (by omega)]
    simp only [memcpy, Cpu.test, Cpu.spill, hzero, decide_false, cond_false]
    apply Finished.returns _ (fun _ => saved_of_not_mem)
    · intro i hi
      apply saved_of_not_mem
      have happ := hsource.apart
      lia
    · apply finished_alignTable hcopy
      · constructor
        · rw [Bytes.fill_zero]
          rfl
        · dsimp only
          lia
        · dsimp only
          lia
        · rfl
      · rfl
      · lia

/-! ### `memset` and `zeromemory` -/

/-- So many bytes have been filled. -/
structure Filled (c₀ : Cpu) (m : Bytes) (dst : ℕ) (v : UInt8) (k : ℕ) (c : Cpu) : Prop where
  memory : c.memory = m.fill dst k fun _ => v
  rdi : c.rdi = (dst + k) % 2 ^ 64
  rsi : c.rsi = c₀.rsi
  rsp : c.rsp = c₀.rsp

variable {v : UInt8}

theorem Filled.congr {c' : Cpu} (hc : Filled c₀ m dst v k c) (hmemory : c'.memory = c.memory)
    (hrdi : c'.rdi = c.rdi) (hrsi : c'.rsi = c.rsi) (hrsp : c'.rsp = c.rsp) :
  Filled c₀ m dst v k c'
  := ⟨hmemory.trans hc.memory, hrdi.trans hc.rdi, hrsi.trans hc.rsi, hrsp.trans hc.rsp⟩

@[simp]
theorem rep_stos_rdx (c : Cpu) : (c.rep (stos width)).rdx = c.rdx :=
  iterate_keeps (f := stos width) Cpu.rdx (fun _ => rfl) c.rcx c

@[simp]
theorem rep_stos_rax (c : Cpu) : (c.rep (stos width)).rax = c.rax :=
  iterate_keeps (f := stos width) Cpu.rax (fun _ => rfl) c.rcx c

@[simp]
theorem rep_stos_r9 (c : Cpu) : (c.rep (stos width)).r9 = c.r9 :=
  iterate_keeps (f := stos width) Cpu.r9 (fun _ => rfl) c.rcx c

@[simp]
theorem rep_stos_zf (c : Cpu) : (c.rep (stos width)).zf = c.zf :=
  iterate_keeps (f := stos width) Cpu.zf (fun _ => rfl) c.rcx c

/-- One instruction fills the next bytes, if all its bytes are the same. -/
theorem Filled.stos (hc : Filled c₀ m dst v k c) (hw : 0 < width) (hk : dst + (k + width) ≤ 2 ^ 64)
    (hv : ∀ i < width, (c.rax / 0x100 ^ i).toUInt8 = v) :
  Filled c₀ m dst v (k + width) (MemAsm.stos width c)
  := by
  have hrdi := hc.rdi
  rw [Nat.mod_eq_of_lt (by lia)] at hrdi
  constructor
  · rw [MemAsm.stos, hrdi, hc.memory, ← Bytes.fill_fill]
    dsimp only
    apply Bytes.fill_congr hv
  · rw [MemAsm.stos, hrdi, Nat.add_assoc]
  · apply hc.rsi
  · apply hc.rsp

theorem Filled.iterate (hw : 0 < width) (n : ℕ) : ∀ {k : ℕ} {c : Cpu}, Filled c₀ m dst v k c →
    dst + (k + width * n) ≤ 2 ^ 64 → (∀ i < width, (c.rax / 0x100 ^ i).toUInt8 = v) →
  Filled c₀ m dst v (k + width * n) ((MemAsm.stos width)^[n] c)
  := by
  induction n with
  | zero =>
      intro k c hc _ _
      apply hc
  | succ n ih =>
      intro k c hc hk hv
      rw [Nat.mul_succ] at hk ⊢
      rw [Function.iterate_succ_apply, Nat.add_comm (width * n), ← Nat.add_assoc]
      apply ih (hc.stos hw (by lia) hv) _ hv
      lia

/-- `rep` fills as many. -/
theorem Filled.rep (hw : 0 < width) (hc : Filled c₀ m dst v k c) (hn : k + width * c.rcx = n)
    (hle : dst + n ≤ 2 ^ 64) (hv : ∀ i < width, (c.rax / 0x100 ^ i).toUInt8 = v) :
  Filled c₀ m dst v n (c.rep (MemAsm.stos width))
  := by
  subst hn
  obtain ⟨hmemory, hrdi, hrsi, hrsp⟩ := Filled.iterate hw c.rcx hc hle hv
  exact ⟨hmemory, hrdi, hrsi, hrsp⟩

/-- The register that was saved is restored. -/
theorem Filled.home (hc : Filled c₀ m dst v n c) (h : Region c₀ dst n) {off : ℕ}
    (hoff : 8 ≤ off ∧ off ≤ 0x20) :
  c.home off = m.qword (c₀.rsp + off)
  := by
  rw [Cpu.home, hc.memory, hc.rsp, h.qword_fill le_rfl hoff]

/-- A call of `zeromemory` that has saved `rdi` and the size in `m`. -/
structure Clear (c₀ : Cpu) (m : Bytes) (dst size : ℕ) : Prop where
  target : Region c₀ dst size
  bounded : size < 2 ^ 63
  rdi : m.qword (c₀.rsp + 8) = c₀.rdi
  length : m.qword (c₀.rsp + 0x10) = size

/-- So many bytes have been cleared. -/
structure Cleared (c₀ : Cpu) (m : Bytes) (dst k : ℕ) (c : Cpu) : Prop
    extends Filled c₀ m dst 0 k c where
  rax : c.rax = 0
  r9 : c.r9 = dst

theorem Cleared.congr {c' : Cpu} (hc : Cleared c₀ m dst k c) (hmemory : c'.memory = c.memory)
    (hrdi : c'.rdi = c.rdi) (hrsi : c'.rsi = c.rsi) (hrsp : c'.rsp = c.rsp) (hrax : c'.rax = c.rax)
    (hr9 : c'.r9 = c.r9) :
  Cleared c₀ m dst k c'
  := ⟨hc.toFilled.congr hmemory hrdi hrsi hrsp, hrax.trans hc.rax, hr9.trans hc.r9⟩

/-- `rep` clears as many. -/
theorem Cleared.rep (h : Clear c₀ m dst size) (hw : 0 < width) (hc : Cleared c₀ m dst k c)
    (hn : k + width * c.rcx = n) (hle : n ≤ size) :
  Cleared c₀ m dst n (c.rep (MemAsm.stos width))
  := by
  have hfits := h.target.fits
  constructor
  · apply hc.toFilled.rep hw hn (by lia)
    intro i _
    rw [hc.rax, Nat.zero_div]
    rfl
  · rw [rep_stos_rax, hc.rax]
  · rw [rep_stos_r9, hc.r9]

theorem finished_leaveZero (h : Clear c₀ m dst size) (hc : Cleared c₀ m dst size c) :
  Finished c₀ m dst size (fun _ => 0) (leaveZero c)
  := by
  constructor
  · apply hc.memory
  · apply hc.r9
  · apply hc.rsi
  · apply (hc.home h.target (by decide)).trans h.rdi
  · apply hc.rsp

/-- The rest is cleared byte by byte. -/
theorem finished_tailMisalign (h : Clear c₀ m dst size) (hc : Cleared c₀ m dst k c)
    (hrest : k + c.rdx % 0x100 = size) :
  Finished c₀ m dst size (fun _ => 0) (tailMisalign c)
  := by
  apply finished_leaveZero h
  apply Cleared.rep h Nat.one_pos
  · exact hc.congr rfl rfl rfl rfl rfl rfl
  · rw [Nat.one_mul]
    apply hrest
  · rfl

theorem finished_smallZero (h : Clear c₀ m dst size) (hc : Cleared c₀ m dst 0 c)
    (hlt : size < 0x100) :
  Finished c₀ m dst size (fun _ => 0) (smallZero c)
  := by
  have hlength : c.home 0x10 = size := by
    rw [Cpu.home, hc.memory, Bytes.fill_zero, hc.rsp, h.length]
  apply finished_tailMisalign h
  · exact hc.congr rfl rfl rfl rfl rfl rfl
  · dsimp only
    rw [hlength]
    lia

/-- Words are cleared, and then the rest. -/
theorem finished_headAligned (h : Clear c₀ m dst size) (hc : Cleared c₀ m dst k c)
    (hrest : k + c.rdx = size) :
  Finished c₀ m dst size (fun _ => 0) (headAligned c)
  := by
  have hsize := h.bounded
  have hmask : c.rdx % 0x100 &&& 7 = c.rdx % 8 := by
    rw [Nat.and_two_pow_sub_one_eq_mod (c.rdx % 0x100) 3]
    lia
  have hlow : setLow c.rdx (c.rdx % 8) % 0x100 = c.rdx % 8 := by
    rw [setLow]
    lia
  simp only [headAligned, Bool.cond_eq_ite, Bool.not_eq_true', Cpu.cmp, Cpu.test, Cpu.shr, rep_stos_zf,
    decide_eq_true_eq, decide_eq_false_iff_not, hmask]
  split_ifs with hsign hzero
  · have hlt := (minus_sign (by lia) le_rfl).1 hsign
    apply finished_tailMisalign h
    · exact hc.congr rfl rfl rfl rfl rfl rfl
    · dsimp only
      lia
  · apply finished_leaveZero h
    apply Cleared.rep h (by decide)
    · exact hc.congr rfl rfl rfl rfl rfl rfl
    · dsimp only
      lia
    · rfl
  · apply finished_tailMisalign h
    · apply Cleared.rep h (by decide)
      · exact hc.congr rfl rfl rfl rfl rfl rfl
      · rfl
      · dsimp only
        lia
    · rw [rep_stos_rdx]
      dsimp only
      lia

/-- The memory once `rdi` and another register have been saved. -/
def savedWith (c : Cpu) (r : ℕ) : Bytes :=
  (c.memory.store (c.rsp + 8) (qwordBytes c.rdi)).store (c.rsp + 0x10) (qwordBytes r)

theorem savedWith_of_not_mem {a : ℕ} (r : ℕ) (ha : ¬ (c.rsp + 8 ≤ a ∧ a < c.rsp + 0x28)) :
  savedWith c r a = c.memory a
  := by
  rw [savedWith, store_qword_of_not_mem (by decide) ha, store_qword_of_not_mem (by decide) ha]

theorem savedWith_rdi (hrdi : c.rdi < 2 ^ 64) (r : ℕ) :
  (savedWith c r).qword (c.rsp + 8) = c.rdi
  := by
  rw [savedWith, qword_store_of_ne _ (by omega), qword_store _ _ hrdi]

theorem savedWith_other {r : ℕ} (hr : r < 2 ^ 64) : (savedWith c r).qword (c.rsp + 0x10) = r := by
  rw [savedWith, qword_store _ _ hr]

/-- Nothing has been filled at the start. -/
theorem filled_zero {c' : Cpu} (hdst : dst < 2 ^ 64) (hmemory : c'.memory = m) (hrdi : c'.rdi = dst)
    (hrsi : c'.rsi = c₀.rsi) (hrsp : c'.rsp = c₀.rsp) :
  Filled c₀ m dst v 0 c'
  := by
  refine ⟨?_, ?_, hrsi, hrsp⟩
  · rw [Bytes.fill_zero, hmemory]
  · rw [hrdi, Nat.add_zero, Nat.mod_eq_of_lt hdst]

/-- `zeromemory` clears. -/
theorem zeromemory_returns (c : Cpu) (hsize : c.rdx < 2 ^ 63) (htarget : Region c c.rcx c.rdx)
    (hrcx : c.rcx < 2 ^ 64) (hrdi : c.rdi < 2 ^ 64) :
  Returns c (zeromemory c) c.rcx c.rdx fun _ => 0
  := by
  by_cases hzero : c.rdx = 0
  · simp only [zeromemory, Cpu.test, hzero, decide_true, cond_true]
    constructor
    · rfl
    · rfl
    · rfl
    · rfl
    · intro i hi
      exact absurd hi (Nat.not_lt_zero i)
    · intro _ _ _
      rfl
  · have hclear : Clear c (savedWith c c.rdx) c.rcx c.rdx :=
      ⟨htarget, hsize, savedWith_rdi hrdi _, savedWith_other (by omega)⟩
    have hoff : c.rcx % 2 ^ 32 &&& 7 = c.rcx % 8 := by
      rw [Nat.and_two_pow_sub_one_eq_mod (c.rcx % 2 ^ 32) 3]
      lia
    have hhead : setLow 8 (minus 8 (8 % 0x100) (c.rcx % 8 % 0x100)) = 8 - c.rcx % 8 := by
      rw [setLow, minus]
      lia
    have hlt := minus_sign (a := c.rdx) (b := 8 - c.rcx % 8) hsize (by lia)
    simp only [zeromemory, Cpu.test, Cpu.spill, Cpu.cmp, hzero, decide_false, Bool.cond_eq_ite,
      Bool.false_eq_true, if_false, hoff, hhead, decide_eq_true_eq]
    apply Finished.returns (m := savedWith c c.rdx) _ (fun _ => savedWith_of_not_mem _) (fun _ _ => rfl)
    split_ifs with haligned hsign
    · apply finished_headAligned hclear
      · exact ⟨filled_zero hrcx rfl rfl rfl rfl, rfl, rfl⟩
      · rw [Nat.zero_add]
    · apply finished_smallZero hclear
      · exact ⟨filled_zero hrcx rfl rfl rfl rfl, rfl, rfl⟩
      · have hsmall := hlt.1 hsign
        lia
    · have hle : ¬ c.rdx < 8 - c.rcx % 8 := fun h => hsign (hlt.2 h)
      apply finished_headAligned hclear
      · apply Cleared.rep hclear Nat.one_pos
        · exact ⟨filled_zero hrcx rfl rfl rfl rfl, rfl, rfl⟩
        · rfl
        · dsimp only
          lia
      · rw [rep_stos_rdx]
        dsimp only
        rw [minus_of_le (by lia) (by lia)]
        lia

theorem finished_leaveSet (h : Region c₀ dst n) (hrdi : m.qword (c₀.rsp + 8) = c₀.rdi)
    (hdst : m.qword (c₀.rsp + 0x10) = dst) (hc : Filled c₀ m dst v n c) :
  Finished c₀ m dst n (fun _ => v) (leaveSet c)
  := by
  constructor
  · apply hc.memory
  · apply (hc.home h (by decide)).trans hdst
  · apply hc.rsi
  · apply (hc.home h (by decide)).trans hrdi
  · apply hc.rsp

theorem toUInt8_setLow (r v : ℕ) : (setLow r v).toUInt8 = v.toUInt8 := by
  apply UInt8.toNat.inj
  change (UInt8.ofNat _).toNat = (UInt8.ofNat _).toNat
  rw [UInt8.toNat_ofNat', UInt8.toNat_ofNat', setLow]
  lia

/-- `memset_val` fills with the lowest byte. -/
theorem memsetVal_returns (c : Cpu) (htarget : Region c c.rcx c.r8) (hrcx : c.rcx < 2 ^ 64)
    (hrdi : c.rdi < 2 ^ 64) :
  Returns c (memsetVal c) c.rcx c.r8 fun _ => c.rdx.toUInt8
  := by
  by_cases hzero : c.r8 = 0
  · simp only [memsetVal, Cpu.test, Cpu.spill, hzero, decide_true, cond_true]
    constructor
    · apply qword_store _ _ hrcx
    · rfl
    · rfl
    · rfl
    · intro i hi
      exact absurd hi (Nat.not_lt_zero i)
    · intro a _ ha
      apply savedWith_of_not_mem _ ha
  · simp only [memsetVal, Cpu.test, Cpu.spill, hzero, decide_false, cond_false]
    apply Finished.returns (m := savedWith c c.rcx) _ (fun _ => savedWith_of_not_mem _) (fun _ _ => rfl)
    apply finished_leaveSet htarget (savedWith_rdi hrdi _) (savedWith_other hrcx)
    apply Filled.rep Nat.one_pos
    · exact filled_zero hrcx rfl rfl rfl rfl
    · dsimp only
      lia
    · apply htarget.fits
    · intro i hi
      obtain rfl : i = 0 := by omega
      rw [pow_zero, Nat.div_one]
      apply toUInt8_setLow

/-- `memset` fills with the lowest byte. -/
theorem memset_returns (c : Cpu) (hsize : c.r8 < 2 ^ 63) (htarget : Region c c.rcx c.r8)
    (hrcx : c.rcx < 2 ^ 64) (hrdi : c.rdi < 2 ^ 64) :
  Returns c (memset c) c.rcx c.r8 fun _ => c.rdx.toUInt8
  := by
  simp only [memset, Bool.cond_eq_ite, Bool.not_eq_true', Cpu.test, decide_eq_false_iff_not]
  split_ifs with hzero
  · have hbyte : c.rdx.toUInt8 = 0 := by
      apply UInt8.toNat.inj
      rw [Nat.toUInt8, UInt8.toNat_ofNat']
      apply hzero
    rw [hbyte]
    obtain ⟨hrax, hrsi, hdi, hrsp, hdata, hrest⟩ := zeromemory_returns
      { c.test 8 (c.rdx % 0x100) with rdx := c.r8 }
      hsize ⟨htarget.fits, htarget.apart⟩ hrcx hrdi
    exact ⟨hrax, hrsi, hdi, hrsp, hdata, hrest⟩
  · obtain ⟨hrax, hrsi, hdi, hrsp, hdata, hrest⟩ := memsetVal_returns
      (c.test 8 (c.rdx % 0x100))
      ⟨htarget.fits, htarget.apart⟩ hrcx hrdi
    exact ⟨hrax, hrsi, hdi, hrsp, hdata, hrest⟩

/-- The routines do what they would do byte by byte. -/
theorem routines_return (c : Cpu) (dst size : ℕ) (hsize : size < 2 ^ 63) (htarget : Region c dst size)
    (hdst : dst < 2 ^ 64) (hrsi : c.rsi < 2 ^ 64) (hrdi : c.rdi < 2 ^ 64) :
  (∀ src < 2 ^ 64, Region c src size → dst + size ≤ src ∨ src + size ≤ dst →
    Returns c (memcpy { c with rcx := dst, rdx := src, r8 := size }) dst size
      fun i => c.memory (src + i)) ∧
  (∀ value, Returns c (memset { c with rcx := dst, rdx := value, r8 := size }) dst size
    fun _ => value.toUInt8) ∧
  Returns c (zeromemory { c with rcx := dst, rdx := size }) dst size fun _ => 0
  := by
  refine ⟨fun src hsrc hsource hapart => ?_, fun value => ?_, ?_⟩
  · obtain ⟨hrax, hsi, hdi, hrsp, hdata, hrest⟩ := memcpy_returns
      { c with rcx := dst, rdx := src, r8 := size } hsize ⟨htarget.fits, htarget.apart⟩
      ⟨hsource.fits, hsource.apart⟩ hapart hdst hsrc hrsi hrdi
    exact ⟨hrax, hsi, hdi, hrsp, hdata, hrest⟩
  · obtain ⟨hrax, hsi, hdi, hrsp, hdata, hrest⟩ := memset_returns
      { c with rcx := dst, rdx := value, r8 := size } hsize ⟨htarget.fits, htarget.apart⟩ hdst hrdi
    exact ⟨hrax, hsi, hdi, hrsp, hdata, hrest⟩
  · obtain ⟨hrax, hsi, hdi, hrsp, hdata, hrest⟩ := zeromemory_returns
      { c with rcx := dst, rdx := size } hsize ⟨htarget.fits, htarget.apart⟩ hdst hrdi
    exact ⟨hrax, hsi, hdi, hrsp, hdata, hrest⟩

/-- Nine bytes are copied to an address with the same offset in a word. -/
theorem nine_bytes_return :
  Returns { rsp := 0x1000 } (memcpy { rsp := 0x1000, rcx := 0x2003, rdx := 0x300B, r8 := 9 })
    0x2003 9 (fun _ => 0) ∧
  Returns { rsp := 0x1000 } (memset { rsp := 0x1000, rcx := 0x2003, rdx := 7, r8 := 9 })
    0x2003 9 (fun _ => 7) ∧
  Returns { rsp := 0x1000 } (zeromemory { rsp := 0x1000, rcx := 0x2003, rdx := 9 })
    0x2003 9 (fun _ => 0)
  := by
  have h := routines_return { rsp := 0x1000 } 0x2003 9 (by decide) ⟨by decide, .inr (by decide)⟩
    (by decide) (by decide) (by decide)
  exact ⟨h.1 0x300B (by decide) ⟨by decide, .inr (by decide)⟩ (.inl (by decide)), h.2.1 7, h.2.2⟩

end MemAsm

end UOS
