import Cofuos.Interface.UserBuffer
import Cofuos.Interface.UserMemory
import Cofuos.Memory.Reachable
import Cofuos.Process.UserStack

/-!
# Moving data to and from the frames of an address space

`user_vspace::write`, `read` and `zero` of `kernel/memory/user_vspace.cpp` look up the entry of a
page with `peek`, map its frame, and copy the part of the data that lies in the page; then they go
on with the next page. The pages of a range need not have adjacent frames, and the range may end at
a page that is not there, or at 512 GB.

No two pages of a space that can be reached share a frame, so what is written for a page stays when
the next page is written, and the bytes that arrive are those that have been sent. To the process
this is the memory of `UserMemory`.
-/

namespace UOS

open Boot Stacks

namespace Vspace

/-! ### The loops -/

/-- The loop of `write`, `read` and `zero`. `move` is given the physical address, the number of bytes
that have been moved before and the number of bytes to be moved. -/
def transfer {α : Type} (vs : Vspace) (write : Bool) (move : ℕ → ℕ → ℕ → α → α) (length : ℕ) :
    ℕ → ℕ → ℕ → α → ℕ × α
  | 0, _, count, a => (count, a)
  | n + 1, va, count, a =>
      if count < length then
        let pt := vs.peek va
        if pt.present = false ∨ pt.user = false ∨ write = true ∧ pt.write = false then (count, a)
        else
          let off := va % Stacks.PAGE_SIZE
          let len := min (length - count) (Stacks.PAGE_SIZE - off)
          transfer vs write move length n ((va + len) % 2 ^ 64) (count + len)
            (move (pt.pageAddr * 0x1000 + off) count len a)
      else (count, a)

/-- `user_vspace::write`, on the bytes of all frames. `outer` is `virtual_space::write`, which has
the addresses of the kernel. -/
def writeFrames (vs : Vspace) (outer : Bytes → ℕ × Bytes) (mem : Bytes) (va : ℕ) (data : Bytes)
    (length : ℕ) : ℕ × Bytes :=
  if isHighaddr va = true then outer mem
  else vs.transfer true (fun dst count len mem => mem.fill dst len fun i => data (count + i))
    length length va 0 mem

/-- `user_vspace::read`, which leaves the frames alone and changes the buffer. -/
def readFrames (vs : Vspace) (outer : Bytes → ℕ × Bytes) (mem : Bytes) (va : ℕ) (buffer : Bytes)
    (length : ℕ) : ℕ × Bytes :=
  if isHighaddr va = true then outer buffer
  else vs.transfer false (fun sor count len buffer => buffer.fill count len fun i => mem (sor + i))
    length length va 0 buffer

/-- `user_vspace::zero` -/
def zeroFrames (vs : Vspace) (outer : Bytes → ℕ × Bytes) (mem : Bytes) (va length : ℕ) :
    ℕ × Bytes :=
  if isHighaddr va = true then outer mem
  else vs.transfer true (fun dst _ len mem => mem.fill dst len fun _ => 0) length length va 0 mem

/-! ### What they are to do -/

/-- The longest part of a range, from its beginning, that lies in pages of the user, which are
writable if they are to be written. -/
structure LongestPrefix (vs : Vspace) (write : Bool) (va length k : ℕ) : Prop where
  le : k ≤ length
  accessible : ∀ i < k, vs.Accessible write (va + i)
  stops : k < length → ¬ vs.Accessible write (va + k)

/-- Where the byte at an address lies in the frames. -/
def physical (vs : Vspace) (a : ℕ) : ℕ := (vs.entry (a / 0x1000)).pageAddr * 0x1000 + a % 0x1000

/-- The bytes of the frames after those at `k` addresses from `va` on have been set. -/
structure FramesSet (vs : Vspace) (va k : ℕ) (data mem mem' : Bytes) : Prop where
  moved : ∀ i < k, mem' (vs.physical (va + i)) = data i
  other : ∀ b, (∀ i < k, b ≠ vs.physical (va + i)) → mem' b = mem b

/-- The first `k` bytes of a buffer have been set. -/
structure BufferSet (k : ℕ) (data buffer buffer' : Bytes) : Prop where
  moved : ∀ i < k, buffer' i = data i
  other : ∀ i, k ≤ i → buffer' i = buffer i

variable {debug : Bool} {vs : Vspace} {write : Bool} {va length k n len a a' : ℕ}
  {data mem mem' : Bytes}

/-! ### Pages and frames -/

/-- The byte lies in the frame that `peek` finds. -/
theorem physical_eq (h : a < 0x8000000000) :
  vs.physical a = (vs.peek a).pageAddr * 0x1000 + a % 0x1000
  := by
  rw [physical, ← peek_untagged h]
  rfl

/-- The bytes of a page follow each other in its frame. -/
theorem physical_add (h : va % 0x1000 + n < 0x1000) : vs.physical (va + n) = vs.physical va + n := by
  have hpage : (va + n) / 0x1000 = va / 0x1000 := by lia
  rw [physical, physical, hpage]
  lia

/-- Different pages have different frames. -/
theorem Inv.physical_inj (h : vs.Inv debug) (ha : vs.Accessible write a)
    (ha' : vs.Accessible write a') (heq : vs.physical a = vs.physical a') :
  a = a'
  := by
  have hframe : ∀ {b}, vs.Accessible write b →
      vs.frameOf (.page (b / 0x1000)) = some (vs.entry (b / 0x1000)).pageAddr := by
    intro b hb
    have hmapped := (h.entry (b / 0x1000)).mapped hb.2.1
    rw [frameOf, PTE.frame, if_pos ⟨hb.2.1, hmapped.2.2⟩]
  rw [physical, physical] at heq
  have hpage : (vs.entry (a / 0x1000)).pageAddr = (vs.entry (a' / 0x1000)).pageAddr := by lia
  have howner := h.owned.distinct _ _ _ (hframe ha) (hpage ▸ hframe ha')
  injection howner with hquot
  lia

/-! ### Prefixes -/

/-- Nothing is accessible from here on. -/
theorem LongestPrefix.zero (h : 0 < n → ¬ vs.Accessible write va) : vs.LongestPrefix write va n 0 where
  le := Nat.zero_le n
  accessible _ hi := absurd hi (Nat.not_lt_zero _)
  stops := h

/-- The part of a page, and then the rest. -/
theorem LongestPrefix.add (hpage : ∀ i < len, vs.Accessible write (va + i))
    {k : ℕ} (h : vs.LongestPrefix write (va + len) n k) :
  vs.LongestPrefix write va (len + n) (len + k)
  := by
  refine ⟨Nat.add_le_add_left h.le len, ?_, ?_⟩
  · intro i hi
    by_cases hfirst : i < len
    · exact hpage i hfirst
    · have hrest := h.accessible (i - len) (by lia)
      rwa [show va + len + (i - len) = va + i by lia] at hrest
  · intro hlt
    have hrest := h.stops (by omega)
    rwa [Nat.add_assoc] at hrest

/-- There is only one. -/
theorem LongestPrefix.unique {k k' : ℕ} (h : vs.LongestPrefix write va n k)
    (h' : vs.LongestPrefix write va n k') :
  k = k'
  := by
  rcases Nat.lt_trichotomy k k' with hlt | heq | hlt
  · exact absurd (h'.accessible k hlt) (h.stops (Nat.lt_of_lt_of_le hlt h'.le))
  · exact heq
  · exact absurd (h.accessible k' hlt) (h'.stops (Nat.lt_of_lt_of_le hlt h.le))

/-- The tests of the loop. -/
theorem denied_iff :
  ((vs.peek va).present = false ∨ (vs.peek va).user = false ∨
      write = true ∧ (vs.peek va).write = false) ↔ ¬ vs.Accessible write va
  := by
  rw [accessible_iff]
  tauto

/-- The bytes of the page that the loop moves at once. -/
theorem page_accessible (h : vs.Accessible write va) (hlen : len ≤ Stacks.PAGE_SIZE - va % Stacks.PAGE_SIZE) :
  ∀ i < len, vs.Accessible write (va + i)
  := by
  intro i hi
  rw [Stacks.PAGE_SIZE] at hlen
  apply (accessible_congr (by lia)).mp h

/-- A round of the loop. The address does not wrap around, as the user ends at 512 GB. -/
theorem transfer_succ {α : Type} {move : ℕ → ℕ → ℕ → α → α} {count : ℕ} (a : α)
    (hlt : count < length) (h : vs.Accessible write va)
    (hlen : len = min (length - count) (Stacks.PAGE_SIZE - va % Stacks.PAGE_SIZE)) :
  vs.transfer write move length (n + 1) va count a =
    vs.transfer write move length n (va + len) (count + len)
      (move (vs.physical va) count len a)
  := by
  have hlow := h.1
  have hwrap : (va + len) % 2 ^ 64 = va + len := by
    rw [Stacks.PAGE_SIZE] at hlen
    apply Nat.mod_eq_of_lt
    lia
  rw [transfer, if_pos hlt]
  dsimp only
  rw [if_neg (denied_iff.not_left.mpr h), ← hlen, hwrap, physical_eq hlow]
  rfl

/-- The bytes that a round moves extend the longest prefix of what is left after it. -/
theorem transfer_round {count : ℕ} (hlt : count < length) (h : vs.Accessible write va) :
  ∃ len, 0 < len ∧ len = min (length - count) (Stacks.PAGE_SIZE - va % Stacks.PAGE_SIZE) ∧
    ∀ k, vs.LongestPrefix write (va + len) (length - (count + len)) k →
      vs.LongestPrefix write va (length - count) (len + k)
  := by
  have hmod := Nat.mod_lt va (show 0 < Stacks.PAGE_SIZE by decide)
  refine ⟨_, by lia, rfl, ?_⟩
  intro k hprefix
  have hwhole := hprefix.add (page_accessible h (Nat.min_le_right _ _))
  rwa [← Nat.sub_sub, Nat.add_sub_cancel' (Nat.min_le_left _ _)] at hwhole

/-- The loop stops at a page that it may not use. -/
theorem transfer_denied {α : Type} {move : ℕ → ℕ → ℕ → α → α} {count : ℕ} (a : α)
    (h : ¬ vs.Accessible write va) :
  vs.transfer write move length (n + 1) va count a = (count, a)
  := by
  rw [transfer]
  split_ifs
  · exact if_pos (denied_iff.mpr h)
  · rfl

/-- The loop stops when everything has been moved. -/
theorem transfer_done {α : Type} {move : ℕ → ℕ → ℕ → α → α} {count : ℕ} (a : α)
    (h : length ≤ count) :
  vs.transfer write move length n va count a = (count, a)
  := by
  cases n with
  | zero => rfl
  | succ n => rw [transfer, if_neg (Nat.not_lt.mpr h)]

/-! ### Writing -/

/-- No byte has been set. -/
theorem FramesSet.zero (vs : Vspace) (va : ℕ) (data mem : Bytes) : vs.FramesSet va 0 data mem mem where
  moved i hi := absurd hi (Nat.not_lt_zero i)
  other _ _ := rfl

/-- The bytes of a page, and then those of the rest. -/
theorem FramesSet.add (hv : vs.Inv debug) {k : ℕ} (hall : ∀ i < len + k, vs.Accessible write (va + i))
    (hlen : len ≤ Stacks.PAGE_SIZE - va % Stacks.PAGE_SIZE)
    (h : vs.FramesSet (va + len) k (fun i => data (len + i)) (mem.fill (vs.physical va) len data)
      mem') :
  vs.FramesSet va (len + k) data mem mem'
  := by
  have hfirst : ∀ i < len, vs.physical (va + i) = vs.physical va + i := by
    intro i hi
    rw [Stacks.PAGE_SIZE] at hlen
    apply physical_add
    lia
  constructor
  · intro i hi
    by_cases hin : i < len
    · -- the pages to come do not share the frame
      rw [h.other, hfirst i hin, Bytes.fill_of_mem hin]
      intro j hj heq
      rw [Nat.add_assoc] at heq
      have hsame := hv.physical_inj (hall i hi) (hall (len + j) (by omega)) heq
      lia
    · have hrest := h.moved (i - len) (by lia)
      rwa [show va + len + (i - len) = va + i by lia, show len + (i - len) = i by lia] at hrest
  · intro b hb
    rw [h.other b, Bytes.fill_of_not_mem]
    · rintro ⟨hge, hlt⟩
      apply hb (b - vs.physical va) (by lia)
      rw [hfirst _ (by lia)]
      lia
    · intro i hi
      rw [Nat.add_assoc]
      exact hb (len + i) (by omega)

/-- The loop of `write` and of `zero`. -/
theorem transfer_framesSet (hv : vs.Inv debug) (data : Bytes) {fuel count : ℕ}
    (hfuel : length ≤ count + fuel) (mem : Bytes) :
  ∃ k mem', vs.transfer write
      (fun dst count len mem => mem.fill dst len fun i => data (count + i)) length fuel va count mem
        = (count + k, mem') ∧
    vs.LongestPrefix write va (length - count) k ∧
    vs.FramesSet va k (fun i => data (count + i)) mem mem'
  := by
  induction fuel generalizing va count mem with
  | zero =>
      refine ⟨0, mem, rfl, LongestPrefix.zero ?_, FramesSet.zero vs va _ mem⟩
      intro hpos
      omega
  | succ fuel ih =>
      by_cases hlt : count < length
      · by_cases haccess : vs.Accessible write va
        · obtain ⟨len, hpos, hlen, hwhole⟩ := transfer_round hlt haccess
          obtain ⟨k, mem', heq, hprefix, hset⟩ :=
            @ih (va + len) (count + len) (by lia)
              (mem.fill (vs.physical va) len fun i => data (count + i))
          specialize hwhole k hprefix
          refine ⟨len + k, mem', ?_, hwhole, ?_⟩
          · rw [transfer_succ mem hlt haccess hlen, heq, Nat.add_assoc]
          · apply FramesSet.add hv hwhole.accessible (by lia)
            simpa only [Nat.add_assoc] using hset
        · exact ⟨0, mem, transfer_denied mem haccess, LongestPrefix.zero fun _ => haccess,
            FramesSet.zero vs va _ mem⟩
      · refine ⟨0, mem, transfer_done mem (Nat.le_of_not_lt hlt), LongestPrefix.zero ?_,
          FramesSet.zero vs va _ mem⟩
        intro hpos
        omega

/-! ### Reading -/

/-- The loop of `read`. -/
theorem transfer_bufferSet (mem : Bytes) {fuel count : ℕ} (hfuel : length ≤ count + fuel)
    (buffer : Bytes) :
  ∃ k buffer', vs.transfer write
      (fun sor count len buffer => buffer.fill count len fun i => mem (sor + i)) length fuel va count
        buffer = (count + k, buffer') ∧
    vs.LongestPrefix write va (length - count) k ∧
    (∀ i < k, buffer' (count + i) = mem (vs.physical (va + i))) ∧
    ∀ i, ¬ (count ≤ i ∧ i < count + k) → buffer' i = buffer i
  := by
  induction fuel generalizing va count buffer with
  | zero =>
      refine ⟨0, buffer, rfl, LongestPrefix.zero (by omega), ?_, fun i _ => rfl⟩
      intro i hi
      cases hi
  | succ fuel ih =>
      by_cases hlt : count < length
      · by_cases haccess : vs.Accessible write va
        · obtain ⟨len, hpos, hlen, hwhole⟩ := transfer_round hlt haccess
          obtain ⟨k, buffer', heq, hprefix, hmoved, hother⟩ :=
            @ih (va + len) (count + len) (by omega)
              (buffer.fill count len fun i => mem (vs.physical va + i))
          specialize hwhole k hprefix
          refine ⟨len + k, buffer', ?_, hwhole, ?_, ?_⟩
          · rw [transfer_succ buffer hlt haccess hlen, heq, Nat.add_assoc]
          · intro i hi
            by_cases hin : i < len
            · rw [hother _ (by lia), Bytes.fill_of_mem hin, physical_add]
              rw [Stacks.PAGE_SIZE] at hlen
              lia
            · have hrest := hmoved (i - len) (by lia)
              rwa [show count + len + (i - len) = count + i by lia,
                show va + len + (i - len) = va + i by lia] at hrest
          · intro i hi
            rw [hother i (by lia), Bytes.fill_of_not_mem (by lia)]
        · refine ⟨0, buffer, transfer_denied buffer haccess, LongestPrefix.zero fun _ => haccess, ?_,
            fun i _ => rfl⟩
          intro i hi
          cases hi
      · refine ⟨0, buffer, transfer_done buffer (Nat.le_of_not_lt hlt),
          LongestPrefix.zero (by omega), ?_, fun i _ => rfl⟩
        intro i hi
        cases hi

/-! ### The operations -/

variable {k : ℕ}

/-- `write` at an address of the user. -/
theorem Inv.writeFrames_prefix (hv : vs.Inv debug) (hva : isHighaddr va = false) (length : ℕ)
    (outer : Bytes → ℕ × Bytes) (mem data : Bytes) :
  ∃ k mem', vs.writeFrames outer mem va data length = (k, mem') ∧
    vs.LongestPrefix true va length k ∧ vs.FramesSet va k data mem mem'
  := by
  have hfuel : length ≤ 0 + length := Nat.le_add_left _ _
  obtain ⟨k, mem', heq, hprefix, hset⟩ :=
    @transfer_framesSet debug vs true va length hv data length 0 hfuel mem
  simp only [Nat.zero_add] at heq hset
  refine ⟨k, mem', ?_, hprefix, hset⟩
  rw [writeFrames, hva, if_neg Bool.false_ne_true]
  simpa only [Nat.zero_add] using heq

/-- `zero` at an address of the user. -/
theorem Inv.zeroFrames_prefix (hv : vs.Inv debug) (hva : isHighaddr va = false) (length : ℕ)
    (outer : Bytes → ℕ × Bytes) (mem : Bytes) :
  ∃ k mem', vs.zeroFrames outer mem va length = (k, mem') ∧
    vs.LongestPrefix true va length k ∧ vs.FramesSet va k (fun _ => 0) mem mem'
  := by
  have hfuel : length ≤ 0 + length := Nat.le_add_left _ _
  obtain ⟨k, mem', heq, hprefix, hset⟩ :=
    @transfer_framesSet debug vs true va length hv (fun _ => 0) length 0 hfuel mem
  rw [Nat.zero_add] at heq
  refine ⟨k, mem', ?_, hprefix, hset⟩
  rw [zeroFrames, hva, if_neg Bool.false_ne_true, heq]

/-- `read` at an address of the user. -/
theorem readFrames_prefix (hva : isHighaddr va = false) (length : ℕ)
    (outer : Bytes → ℕ × Bytes) (mem buffer : Bytes) :
  ∃ k buffer', vs.readFrames outer mem va buffer length = (k, buffer') ∧
    vs.LongestPrefix false va length k ∧
    BufferSet k (fun i => mem (vs.physical (va + i))) buffer buffer'
  := by
  have hfuel : length ≤ 0 + length := Nat.le_add_left _ _
  obtain ⟨k, buffer', heq, hprefix, hmoved, hother⟩ :=
    @transfer_bufferSet vs false va length mem length 0 hfuel buffer
  simp only [Nat.zero_add] at heq hmoved
  refine ⟨k, buffer', ?_, hprefix, hmoved, ?_⟩
  · rw [readFrames, hva, if_neg Bool.false_ne_true, heq]
  · intro i hi
    exact hother i (by omega)

/-- In every space that can be reached, `write`, `read` and `zero` move the longest part of the range
that is accessible, between the buffer and the frames of its pages, and no other byte of a frame or
of the buffer changes. -/
theorem Reachable.transfers_prefix {allowed : Vspace → Request → Prop}
    (h : Reachable debug allowed vs) (hallowed : debug = true → ∀ vs r, allowed vs r → r.Safe vs)
    (hva : isHighaddr va = false) (length : ℕ) (outer : Bytes → ℕ × Bytes) (mem data : Bytes) :
  (∃ k mem', vs.writeFrames outer mem va data length = (k, mem') ∧
    vs.LongestPrefix true va length k ∧ vs.FramesSet va k data mem mem') ∧
  (∃ k buffer', vs.readFrames outer mem va data length = (k, buffer') ∧
    vs.LongestPrefix false va length k ∧
    BufferSet k (fun i => mem (vs.physical (va + i))) data buffer') ∧
  ∃ k mem', vs.zeroFrames outer mem va length = (k, mem') ∧
    vs.LongestPrefix true va length k ∧ vs.FramesSet va k (fun _ => 0) mem mem'
  := by
  have hv := h.inv hallowed
  exact ⟨hv.writeFrames_prefix hva length outer mem data,
    readFrames_prefix hva length outer mem data, hv.zeroFrames_prefix hva length outer mem⟩

/-- There is only one longest part. -/
theorem LongestPrefix.eq (h : vs.LongestPrefix write va length k)
    (h' : vs.LongestPrefix write va length n) :
  k = n
  := by
  rcases lt_trichotomy k n with hlt | heq | hlt
  · exact absurd (h'.accessible k hlt) (h.stops (lt_of_lt_of_le hlt h'.le))
  · exact heq
  · exact absurd (h.accessible n hlt) (h'.stops (lt_of_lt_of_le hlt h.le))

/-- A range that begins in one committed page, goes through the next one and ends in a page that
is only reserved. -/
theorem transfers_prefix_hole :
  ∃ vs : Vspace, Reachable false (fun _ _ => True) vs ∧
    (∃ mem', vs.writeFrames (fun mem => (0, mem)) (fun _ => 0) 0x200FF0 (fun _ => 1) 0x1020 =
      (0x1010, mem') ∧ mem' (vs.physical 0x200FFF) = 1 ∧ mem' (vs.physical 0x201FFF) = 1) ∧
    ∃ buffer', vs.readFrames (fun buffer => (0, buffer)) (fun _ => 0) 0x200FF0 (fun _ => 1) 0x1020 =
      (0x1010, buffer') ∧ buffer' 0x100F = 0 ∧ buffer' 0x1010 = 1
  := by
  obtain ⟨vs₁, vs, heq₁, heq, hv, hentry, hhole⟩ := commit_create
  have hreachable : Reachable false (fun _ _ => True) vs :=
    ((Reachable.create pool).request _ trivial heq₁).request _ trivial heq
  have hlongest : ∀ write, vs.LongestPrefix write 0x200FF0 0x1020 0x1010 := by
    intro write
    refine ⟨by decide, ?_, ?_⟩
    · intro i hi
      have hmem : (0x200FF0 + i) / 0x1000 ∈ Run.mk 0x200 2 := by
        rw [Run.mem_iff]
        lia
      obtain ⟨pt, f, hpt⟩ := hentry _ hmem
      refine ⟨by lia, ?_⟩
      rw [hpt]
      exact ⟨rfl, rfl, fun _ => rfl⟩
    · intro _ hacc
      rw [hv.map_eq_iff (by simp) (by simp), PTE.state, if_pos hacc.2.1] at hhole
      cases hhole
  obtain ⟨⟨k, mem', hwrite, hprefix, hset⟩, ⟨n, buffer', hread, hprefix', hset'⟩, -⟩ :=
    hreachable.transfers_prefix (by simp) (show isHighaddr 0x200FF0 = false by decide) 0x1020
      (fun mem => (0, mem)) (fun _ => 0) (fun _ => 1)
  obtain rfl := hprefix.eq (hlongest true)
  obtain rfl := hprefix'.eq (hlongest false)
  refine ⟨vs, hreachable, ⟨mem', hwrite, ?_, ?_⟩, buffer', hread, ?_, ?_⟩
  · apply hset.moved 0xF (by decide)
  · apply hset.moved 0x100F (by decide)
  · exact hset'.moved 0x100F (by decide)
  · exact hset'.other 0x1010 (le_refl _)

/-! ### The memory of the process -/

/-- The memory of a process that has this address space. -/
def userMemory (vs : Vspace) (mem : Bytes) : UserMemory where
  byte a := if (vs.peek a).present = true ∧ (vs.peek a).user = true then mem (vs.physical a) else 0
  pageUser page := (vs.peek (page * 0x1000)).present && (vs.peek (page * 0x1000)).user
  pageWrite page := (vs.peek (page * 0x1000)).write

theorem pageUser_iff :
  (vs.userMemory mem).pageUser (a / UserMemory.PAGE_SIZE) = true ↔ vs.Accessible false a
  := by
  have hpage : a / 0x1000 * 0x1000 / 0x1000 = a / 0x1000 := by lia
  rw [← accessible_congr hpage, accessible_iff]
  change ((vs.peek (a / 0x1000 * 0x1000)).present && (vs.peek (a / 0x1000 * 0x1000)).user) = true ↔ _
  simp

theorem writable_iff :
  (vs.userMemory mem).writable (a / UserMemory.PAGE_SIZE) = true ↔ vs.Accessible true a
  := by
  have hpage : a / 0x1000 * 0x1000 / 0x1000 = a / 0x1000 := by lia
  rw [← accessible_congr hpage, accessible_iff]
  change (((vs.peek (a / 0x1000 * 0x1000)).present && (vs.peek (a / 0x1000 * 0x1000)).user) &&
    (vs.peek (a / 0x1000 * 0x1000)).write) = true ↔ _
  simp

/-- What can be written can be read. -/
theorem Accessible.readable (h : vs.Accessible write a) : vs.Accessible false a :=
  ⟨h.1, h.2.1, h.2.2.1, fun hfalse => absurd hfalse Bool.false_ne_true⟩

end Vspace

namespace UserMemory

/-- After what is moved comes a page that is not mapped. -/
theorem not_ok_of_accepted {ok : ℕ → Bool} {va n : ℕ} (h : accepted ok va n < n) :
  ¬ ok ((va + accepted ok va n) / Stacks.PAGE_SIZE) = true
  := by
  induction n generalizing va with
  | zero => exact absurd h (Nat.not_lt_zero _)
  | succ n ih =>
      rw [accepted] at h ⊢
      split_ifs at h ⊢ with hok
      · rw [show va + (accepted ok (va + 1) n + 1) = va + 1 + accepted ok (va + 1) n by omega]
        exact ih (by omega)
      · exact hok

end UserMemory

namespace Vspace

variable {debug : Bool} {vs : Vspace} {write : Bool} {va length k : ℕ} {data mem mem' : Bytes}
  {outer : Bytes → ℕ × Bytes}

/-- The memory of the process accepts the longest prefix. -/
theorem LongestPrefix.accepted_eq {ok : ℕ → Bool}
    (hok : ∀ a, ok (a / UserMemory.PAGE_SIZE) = true ↔ vs.Accessible write a)
    (h : vs.LongestPrefix write va length k) :
  UserMemory.accepted ok va length = k
  := by
  have haccepted : vs.LongestPrefix write va length (UserMemory.accepted ok va length) := by
    refine ⟨UserMemory.accepted_le _ _ _, ?_, ?_⟩
    · intro i hi
      exact (hok _).mp (UserMemory.ok_of_lt_accepted hi)
    · intro hlt
      rw [← hok]
      exact UserMemory.not_ok_of_accepted hlt
  exact haccepted.unique h

/-- Setting bytes of the frames sets the bytes of the process. -/
theorem FramesSet.userMemory_eq (hv : vs.Inv debug)
    (hall : ∀ i < k, vs.Accessible write (va + i)) (h : vs.FramesSet va k data mem mem') :
  vs.userMemory mem' = (vs.userMemory mem).fill va k data
  := by
  have hbyte : (vs.userMemory mem').byte = (vs.userMemory mem).byte.fill va k data := by
    funext a
    have hpeek : ((vs.peek a).present = true ∧ (vs.peek a).user = true) ↔ vs.Accessible false a := by
      rw [accessible_iff]
      simp
    change (if _ then _ else _) = (vs.userMemory mem).byte.fill va k data a
    by_cases hin : va ≤ a ∧ a < va + k
    · obtain ⟨i, rfl⟩ : ∃ i, a = va + i := ⟨a - va, by omega⟩
      have haccess := hall i (by omega)
      rw [if_pos (hpeek.mpr haccess.readable), h.moved i (by omega), Bytes.fill_of_mem (by omega)]
    · rw [Bytes.fill_of_not_mem hin]
      change _ = if _ then _ else _
      by_cases haccess : vs.Accessible false a
      · rw [if_pos (hpeek.mpr haccess), if_pos (hpeek.mpr haccess), h.other]
        intro i hi heq
        have hsame := hv.physical_inj haccess (hall i hi).readable heq
        lia
      · rw [if_neg (mt hpeek.mp haccess), if_neg (mt hpeek.mp haccess)]
  rw [UserMemory.fill, ← hbyte]
  rfl

/-- Writing to the frames is writing to the memory of the process. -/
theorem Inv.write_userMemory (hv : vs.Inv debug) (hva : isHighaddr va = false)
    (outer : Bytes → ℕ × Bytes) (mem data : Bytes) (length : ℕ) :
  (vs.userMemory mem).write va data length =
    ((vs.writeFrames outer mem va data length).1,
      vs.userMemory (vs.writeFrames outer mem va data length).2)
  := by
  obtain ⟨k, mem', heq, hprefix, hset⟩ :=
    hv.writeFrames_prefix hva length outer mem data
  rw [UserMemory.write_eq, hprefix.accepted_eq (fun _ => writable_iff), heq,
    hset.userMemory_eq hv hprefix.accessible]

/-- Clearing bytes of the frames is clearing bytes of the process. -/
theorem Inv.zero_userMemory (hv : vs.Inv debug) (hva : isHighaddr va = false)
    (outer : Bytes → ℕ × Bytes) (mem : Bytes) (length : ℕ) :
  (vs.userMemory mem).zero va length =
    ((vs.zeroFrames outer mem va length).1,
      vs.userMemory (vs.zeroFrames outer mem va length).2)
  := by
  obtain ⟨k, mem', heq, hprefix, hset⟩ := hv.zeroFrames_prefix hva length outer mem
  rw [UserMemory.zero_eq, hprefix.accepted_eq (fun _ => writable_iff), heq,
    hset.userMemory_eq hv hprefix.accessible]

end Vspace

end UOS
