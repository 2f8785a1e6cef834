import Cofuos.Util.BuddyHeap

/-!
# The growth of a heap

A request that the free blocks do not serve makes the heap grow: `allocate` asks its callback for a
region, as large as the heap or larger, adds it, and tries again. The callbacks of the kernel and of
`libuos` reserve and commit whole pages. If there are not enough of them, they try again with a single
page, and if there is none they return null.

A page begins with a block of the largest size, so that one region of any number of pages is enough:
the second try finds a block. The callbacks follow `kernel/global.cpp` and
`app/libuos/crt_heap.cpp`, which differ in the names of what they call.
-/

namespace UOS

open Fault

/-! ### Pages -/

/-- Where a heap gets its pages from. The calls of the expander are numbered, as there are other
pages every time. -/
structure PageSource where
  /-- `reserve` of so many pages at any address. There are none if the result is 0. -/
  reserve : ℕ → ℕ → ℕ
  /-- `commit` of the pages from an address on. -/
  commit : ℕ → ℕ → ℕ → Bool
  reserve_zero : ∀ i, reserve i 0 = 0
  reserve_lt : ∀ i n, reserve i n < 2 ^ 64
  aligned : ∀ i n, reserve i n % 2 ^ 12 = 0

namespace PageSource

variable (src : PageSource)

/-- The number of pages of a size, as `reserve` takes it. -/
def pages (size : ℕ) : ℕ := size / 2 ^ 12 % 2 ^ 32

/-- One round of the loop of the expander. What has been reserved and cannot be committed is
released. -/
def round (i size : ℕ) : Option ℕ :=
  let ptr := src.reserve i (pages size)
  if ptr ≠ 0 ∧ src.commit i ptr (pages size) = true then some ptr else none

/-- The expander of a heap. There is a second round only if more than one page has been asked for,
and it is the last one. -/
def expander (i reqSize : ℕ) : Option ℕ × ℕ :=
  let size := alignUp 64 (max reqSize (2 ^ 12)) (2 ^ 12)
  match src.round i size with
  | some ptr => (some ptr, size)
  | none =>
      if size / 2 ^ 12 ≤ 1 then (none, size)
      else (src.round i (2 ^ 12), 2 ^ 12)

variable {src} {i size ptr reqSize : ℕ}

theorem round_eq_some (h : src.round i size = some ptr) :
  ptr ≠ 0 ∧ ptr < 2 ^ 64 ∧ ptr % 2 ^ 12 = 0 ∧ 2 ^ 12 ≤ size
  := by
  rw [round] at h
  split_ifs at h with hptr
  cases h
  refine ⟨hptr.1, src.reserve_lt _ _, src.aligned _ _, ?_⟩
  by_contra hlt
  have hzero : pages size = 0 := by
    rw [pages, Nat.div_eq_of_lt (by omega), Nat.zero_mod]
  rw [hzero, src.reserve_zero] at hptr
  exact hptr.1 rfl

/-- A region is one of whole pages. -/
theorem expander_eq_some (h : (src.expander i reqSize).1 = some ptr) :
  ptr ≠ 0 ∧ ptr < 2 ^ 64 ∧ ptr % 2 ^ 12 = 0 ∧ 2 ^ 12 ≤ (src.expander i reqSize).2
  := by
  rw [expander] at h ⊢
  cases hround : src.round i (alignUp 64 (max reqSize (2 ^ 12)) (2 ^ 12)) with
  | some p =>
      rw [hround] at h
      cases h
      exact round_eq_some hround
  | none =>
      rw [hround] at h
      dsimp only at h ⊢
      split_ifs at h ⊢ with hone
      exact ⟨(round_eq_some h).1, (round_eq_some h).2.1, (round_eq_some h).2.2.1, le_rfl⟩

end PageSource

namespace BuddyHeap

variable {bot top : ℕ} {debug : Bool} {h h' : BuddyHeap bot top} {sh n a ptr cur len : ℕ}

/-! ### Alignment -/

/-- Free blocks are aligned to their size, and none of them lies at null. -/
def Aligned (h : BuddyHeap bot top) : Prop :=
  ∀ sh, ∀ a ∈ h.pool sh, a % 2 ^ sh = 0 ∧ a ≠ 0

theorem pool_setPool (h : BuddyHeap bot top) (sh : ℕ) (l : List ℕ) (i : ℕ) :
  (h.setPool sh l).pool i = if i = sh then l else h.pool i
  := by
  rw [setPool]
  apply Function.update_apply

theorem Aligned.setPool (ha : h.Aligned) {l : List ℕ} (hl : ∀ a ∈ l, a % 2 ^ sh = 0 ∧ a ≠ 0) :
  (h.setPool sh l).Aligned
  := by
  intro i a hmem
  rw [pool_setPool] at hmem
  split_ifs at hmem with hi
  · rw [hi]
    exact hl a hmem
  · exact ha i a hmem

/-- A block that is put is accepted, and the largest blocks stay where they are. -/
theorem Aligned.put (ha : h.Aligned) (hn : sh + n = top) (hlt : sh < top)
    (hptr : ptr % 2 ^ sh = 0) (hne : ptr ≠ 0) :
  ∃ h', BuddyHeap.put n h ptr sh = (true, h') ∧ h'.Aligned ∧
    (∀ a ∈ h.pool (top - 1), a ∈ h'.pool (top - 1)) ∧ (sh + 1 = top → ptr ∈ h'.pool (top - 1))
  := by
  induction n generalizing h ptr sh with
  | zero => lia
  | succ n ih =>
      rw [BuddyHeap.put, if_neg (not_not.2 hptr)]
      dsimp only
      have hlist : (h.pool sh).takeWhile (· < ptr) ++ (h.pool sh).dropWhile (· < ptr) = h.pool sh :=
        List.takeWhile_append_dropWhile
      generalize (h.pool sh).takeWhile (· < ptr) = before at hlist ⊢
      generalize (h.pool sh).dropWhile (· < ptr) = after at hlist ⊢
      cases hbuddy : if sh + 1 < top then buddy sh ptr before after else none with
      | some r =>
          -- the block joins its buddy
          obtain ⟨b, rest⟩ := r
          have hsh : sh + 1 < top := by
            by_contra hge
            rw [if_neg hge] at hbuddy
            cases hbuddy
          rw [if_pos hsh] at hbuddy
          obtain ⟨hxor, l₁, l₂, hsplit, rfl⟩ := buddy_eq_some hbuddy
          rw [hlist] at hsplit
          have hrest : (h.setPool sh (l₁ ++ l₂)).Aligned := by
            apply ha.setPool
            intro a hmem
            apply ha sh a
            rw [hsplit]
            rw [List.mem_append] at hmem
            rw [List.mem_append, List.mem_cons]
            tauto
          have hb : b ≠ 0 := by
            apply (ha sh b _).2
            rw [hsplit]
            exact List.mem_append_right _ List.mem_cons_self
          obtain ⟨h', heq, hal, hkeep, -⟩ := ih hrest (by lia) hsh (halves_of_xor hxor hptr).1
            (by lia)
          refine ⟨h', heq, hal, ?_, fun hlast => absurd hlast (by lia)⟩
          intro a hmem
          apply hkeep
          rw [pool_setPool, if_neg (by lia)]
          exact hmem
      | none =>
          refine ⟨_, rfl, ?_, ?_, ?_⟩
          · apply ha.setPool
            intro a hmem
            rw [List.mem_append, List.mem_cons] at hmem
            rcases hmem with hmem | rfl | hmem
            · exact ha sh a (by rw [← hlist]; exact List.mem_append_left _ hmem)
            · exact ⟨hptr, hne⟩
            · exact ha sh a (by rw [← hlist]; exact List.mem_append_right _ hmem)
          · intro a hmem
            rw [pool_setPool]
            split_ifs with htop
            · rw [htop, ← hlist, List.mem_append] at hmem
              rw [List.mem_append, List.mem_cons]
              tauto
            · exact hmem
          · intro hlast
            rw [pool_setPool, if_pos (by lia)]
            exact List.mem_append_right _ List.mem_cons_self

/-- A block is found exactly if there is one of its size or a larger size. -/
theorem Aligned.get (ha : h.Aligned) (debug : Bool) (hn : sh + n = top) :
  ∃ r h', BuddyHeap.get debug n h sh = .ok (r, h') ∧ h'.Aligned ∧ (∀ a, r = some a → a % 2 ^ sh = 0 ∧ a ≠ 0) ∧
    (r = none → ∀ i, sh ≤ i → i < top → h.pool i = [])
  := by
  induction n generalizing sh with
  | zero =>
      refine ⟨none, h, rfl, ha, fun a hr => (by cases hr), ?_⟩
      intro _ i hle hlt
      omega
  | succ n ih =>
      rw [BuddyHeap.get]
      cases hpool : h.pool sh with
      | cons cur rest =>
          have hcur : cur % 2 ^ sh = 0 ∧ cur ≠ 0 := by
            apply ha sh cur
            rw [hpool]
            exact List.mem_cons_self
          dsimp only
          rw [assert_eq_ok fun _ => hcur.1]
          refine ⟨some cur, h.setPool sh rest, rfl, ?_, ?_, fun hr => (by cases hr)⟩
          · apply ha.setPool
            intro a hmem
            apply ha sh a
            rw [hpool]
            exact List.mem_cons_of_mem _ hmem
          · intro a hr
            cases hr
            exact hcur
      | nil =>
          obtain ⟨r, h₁, heq, hal, hsome, hnone⟩ := ih (show sh + 1 + n = top by omega)
          dsimp only
          rw [heq, Except.ok_bind]
          cases r with
          | none =>
              refine ⟨none, h₁, rfl, hal, fun a hr => (by cases hr), ?_⟩
              intro _ i hle hlt
              rcases hle.eq_or_lt with rfl | hgt
              · exact hpool
              · exact hnone rfl i hgt hlt
          | some cur =>
              obtain ⟨hmod, hne⟩ := hsome cur rfl
              have hdvd : 2 ^ sh ∣ cur :=
                (pow_dvd_pow 2 (Nat.le_succ sh)).trans (Nat.dvd_of_mod_eq_zero hmod)
              have hhalf : (cur + 2 ^ sh) % 2 ^ sh = 0 := by
                rw [Nat.add_mod_right]
                exact Nat.mod_eq_zero_of_dvd hdvd
              obtain ⟨h₂, hput, hal', -⟩ := hal.put hn (by lia) hhalf (by lia)
              dsimp only
              rw [hput]
              refine ⟨some cur, h₂, rfl, hal', ?_, fun hr => (by cases hr)⟩
              intro a hr
              cases hr
              exact ⟨Nat.mod_eq_zero_of_dvd hdvd, hne⟩

/-- The rounds of `expand` end. A region that begins with a block of the largest size leaves a block of
this size in the heap. -/
theorem Aligned.expandLoop (ha : h.Aligned) (debug : Bool) (hbot : bot < top) (res : Bool)
    (hn : len < n) (hcur : cur % 2 ^ bot = 0) (hne : cur ≠ 0) :
  ∃ res' h', BuddyHeap.expandLoop debug n h cur len res = .ok (res', h') ∧ h'.Aligned ∧
    (∀ a ∈ h.pool (top - 1), a ∈ h'.pool (top - 1)) ∧ (res = true → res' = true) ∧
    (cur % 2 ^ (top - 1) = 0 → 2 ^ (top - 1) ≤ len → res' = true ∧ cur ∈ h'.pool (top - 1))
  := by
  induction n generalizing h cur len res with
  | zero => lia
  | succ n ih =>
      have hle : 2 ^ bot ≤ 2 ^ (top - 1) := Nat.pow_le_pow_right (by decide) (by lia)
      rw [BuddyHeap.expandLoop]
      by_cases hsmall : len < 2 ^ bot
      · rw [if_pos hsmall]
        refine ⟨res, h, rfl, ha, fun a hmem => hmem, id, ?_⟩
        intro _ hlen
        lia
      rw [if_neg hsmall]
      obtain ⟨sh, hcat, hbotsh, hsh, hmod, hsize, hmax⟩ := categoryRange_eq debug hbot hne hcur
        (Nat.le_of_not_lt hsmall)
      rw [hcat, Except.ok_bind, if_neg (Nat.not_le.2 hsh), assert_eq_ok fun _ => hsize,
        Except.ok_bind, assert_eq_ok fun _ => hmod, Except.ok_bind]
      obtain ⟨h₁, hput, hal, hkeep, hlast⟩ := ha.put (Nat.add_sub_cancel' hsh.le) hsh hmod hne
      rw [hput]
      dsimp only
      rw [if_pos rfl]
      have hpos := Nat.two_pow_pos sh
      have hnext : (cur + 2 ^ sh) % 2 ^ bot = 0 := by
        apply Nat.mod_eq_zero_of_dvd
        exact (Nat.dvd_of_mod_eq_zero hcur).add (pow_dvd_pow 2 hbotsh)
      have hal₁ : ({ h₁ with capSize := (h₁.capSize + 2 ^ sh) % 2 ^ 64 }
        : BuddyHeap bot top).Aligned := hal
      obtain ⟨res', h', heq, hal', hkeep', hres, -⟩ :=
        ih hal₁ true (show len - 2 ^ sh < n by lia) hnext (by lia)
      refine ⟨res', h', heq, hal', fun a hmem => hkeep' a (hkeep a hmem), fun _ => hres rfl, ?_⟩
      intro hcur' hlen
      refine ⟨hres rfl, hkeep' cur (hlast ?_)⟩
      -- there is no larger block than that of the largest size
      rcases hmax with htop | hmod' | hlt
      · exact htop
      · by_contra hne'
        apply hmod'
        apply Nat.mod_eq_zero_of_dvd
        exact (pow_dvd_pow 2 (by lia)).trans (Nat.dvd_of_mod_eq_zero hcur')
      · by_contra hne'
        have hpow : 2 ^ (sh + 1) ≤ 2 ^ (top - 1) := Nat.pow_le_pow_right (by decide) (by lia)
        lia

/-- A region is added without an assertion that fails. -/
theorem Aligned.expand (ha : h.Aligned) (debug : Bool) (hbot : bot < top) {base : ℕ}
    (hbase : base ≠ 0) (hend : base + len ≤ 2 ^ 64) :
  ∃ res h', BuddyHeap.expand debug h (some base) len = .ok (res, h') ∧ h'.Aligned
  := by
  rw [BuddyHeap.expand]
  split_ifs with hsmall
  · exact ⟨false, h, rfl, ha⟩
  rw [not_or] at hsmall
  have hpow := Nat.two_pow_pos bot
  have hne : alignUp 64 base (2 ^ bot) ≠ 0 := by
    intro hzero
    rw [hzero] at hsmall
    lia
  obtain ⟨res, h', heq, hal, -⟩ := ha.expandLoop debug hbot false
    (show len - (alignUp 64 base (2 ^ bot) + 2 ^ 64 - base) % 2 ^ 64 < len + 1 by lia)
    alignDown_mod hne
  exact ⟨res, h', heq, hal⟩

/-- Pages are added, and leave a block of the largest size in the heap. -/
theorem Aligned.expand_pages (ha : h.Aligned) (debug : Bool) (hbot : bot < top) (htop : top ≤ 13)
    {base : ℕ} (hbase : base ≠ 0) (hlt : base < 2 ^ 64) (hpage : base % 2 ^ 12 = 0)
    (hlen : 2 ^ 12 ≤ len) :
  ∃ h', BuddyHeap.expand debug h (some base) len = .ok (true, h') ∧ h'.Aligned ∧ h'.pool (top - 1) ≠ []
  := by
  have hdvd : ∀ i ≤ 12, base % 2 ^ i = 0 := by
    intro i hi
    apply Nat.mod_eq_zero_of_dvd
    exact (pow_dvd_pow 2 hi).trans (Nat.dvd_of_mod_eq_zero hpage)
  have halign : alignUp 64 base (2 ^ bot) = base := by
    have hpow := Nat.two_pow_pos bot
    have hbot12 : 2 ^ bot ≤ 2 ^ 12 := Nat.pow_le_pow_right (by decide) (by lia)
    obtain ⟨k, hk⟩ := Nat.dvd_of_mod_eq_zero (hdvd bot (by omega))
    have hwrap : base + 2 ^ bot - 1 < 2 ^ 64 := by
      lia
    rw [alignUp, alignDown, Nat.mod_eq_of_lt hwrap, hk, Nat.add_sub_assoc hpow,
      Nat.mul_add_div hpow, Nat.div_eq_of_lt (by lia : 2 ^ bot - 1 < 2 ^ bot), Nat.add_zero,
      Nat.mul_comm]
  have hgap : (base + 2 ^ 64 - base) % 2 ^ 64 = 0 := by
    rw [Nat.add_sub_cancel_left, Nat.mod_self]
  rw [BuddyHeap.expand]
  rw [halign, hgap, if_neg (by lia), Nat.sub_zero]
  obtain ⟨res, h', heq, hal, -, -, hlast⟩ := ha.expandLoop debug hbot false
    (Nat.lt_succ_self len) (hdvd bot (by omega)) hbase
  have hpow : 2 ^ (top - 1) ≤ 2 ^ 12 := Nat.pow_le_pow_right (by decide) (by lia)
  obtain ⟨rfl, hmem⟩ := hlast (hdvd (top - 1) (by lia)) (by lia)
  exact ⟨h', heq, hal, List.ne_nil_of_mem hmem⟩

/-! ### Requests -/

/-- What is returned by an expander can be added to a heap whose blocks are aligned. -/
def Addable (debug : Bool) (bot top : ℕ) (ptr : Option ℕ) (len : ℕ) : Prop :=
  ∀ h : BuddyHeap bot top, h.Aligned →
    ∃ res h', BuddyHeap.expand debug h ptr len = .ok (res, h') ∧ h'.Aligned

theorem addable_none (debug : Bool) (bot top len : ℕ) : Addable debug bot top none len := by
  intro h ha
  exact ⟨false, h, rfl, ha⟩

/-- A request keeps the alignment of the free blocks, whatever the callback is. -/
theorem Aligned.allocate_of (ha : h.Aligned) {callback : Option Expander}
    (hadd : ∀ ex ∈ callback, ∀ i size, Addable debug bot top (ex i size).1 (ex i size).2)
    {rounds i req : ℕ} {r : Option ℕ × BuddyHeap bot top × List Growth}
    (heq : BuddyHeap.allocate debug callback rounds i h req = .ok r) :
  r.2.1.Aligned
  := by
  induction rounds generalizing h i r with
  | zero => cases heq
  | succ n ih =>
      rw [BuddyHeap.allocate] at heq
      obtain ⟨sh, -, heq⟩ := Except.bind_eq_ok_iff.1 heq
      split_ifs at heq with hsh
      · cases heq
        exact ha
      obtain ⟨found, h₁, hget, hal, -⟩ :=
        ha.get debug (Nat.add_sub_cancel' (Nat.le_of_not_le hsh))
      rw [hget, Except.ok_bind] at heq
      cases found with
      | some p =>
          cases heq
          exact hal
      | none =>
          cases callback with
          | none =>
              cases heq
              exact hal
          | some ex =>
              dsimp only at heq
              obtain ⟨ok, h₂, hexpand, hal₂⟩ :=
                hadd ex rfl i (max req (max h₁.capSize 0x4000)) h₁ hal
              rw [hexpand, Except.ok_bind] at heq
              dsimp only at heq
              split_ifs at heq with hok
              · obtain ⟨⟨p, h₃, rest⟩, hrest, heq⟩ := Except.bind_eq_ok_iff.1 heq
                have hal₃ := ih hal₂ hrest
                cases heq
                exact hal₃
              · cases heq
                exact hal₂

/-- A request keeps the alignment of the free blocks, where the callback is an expander of pages. -/
theorem Aligned.allocate (ha : h.Aligned) (hbot : bot < top) (htop : top ≤ 13) {src : PageSource}
    {rounds i req : ℕ} {r : Option ℕ × BuddyHeap bot top × List Growth}
    (heq : allocate debug (some src.expander) rounds i h req = .ok r) :
  r.2.1.Aligned
  := by
  apply ha.allocate_of _ heq
  rintro ex ⟨⟩ i size
  cases hblock : (src.expander i size).1 with
  | none => exact addable_none debug bot top _
  | some base =>
      obtain ⟨hbase, hlt, hpage, hlen⟩ := PageSource.expander_eq_some hblock
      intro h₁ hal
      obtain ⟨h₂, hexpand, hal₂, -⟩ := hal.expand_pages debug hbot htop hbase hlt hpage hlen
      exact ⟨true, h₂, hexpand, hal₂⟩

/-- A block that is released keeps the alignment of the free blocks. -/
theorem Aligned.release (ha : h.Aligned) {sz : ℕ} (hne : ptr ≠ 0) {r : Bool × BuddyHeap bot top}
    (heq : release debug h ptr sz = .ok r) :
  r.2.Aligned
  := by
  rw [BuddyHeap.release] at heq
  obtain ⟨sh, -, heq⟩ := Except.bind_eq_ok_iff.1 heq
  split_ifs at heq with hsh
  · cases heq
    exact ha
  by_cases hptr : ptr % 2 ^ sh = 0
  · obtain ⟨h', hput, hal, -⟩ := ha.put (Nat.add_sub_cancel' (Nat.le_of_not_le hsh))
      (Nat.lt_of_not_le hsh) hptr hne
    rw [hput] at heq
    cases heq
    exact hal
  · obtain ⟨n, hn⟩ : ∃ n, top - sh = n + 1 := ⟨top - sh - 1, by lia⟩
    rw [hn, BuddyHeap.put, if_pos hptr] at heq
    cases heq
    exact ha

/-- A call of a heap whose callback is an expander of pages. -/
inductive Call where
  /-- A request, of which so many calls of itself are carried out. -/
  | allocate (src : PageSource) (rounds i req : ℕ)
  /-- A block is given back. -/
  | release (ptr sz : ℕ)
  /-- A region is added from outside. -/
  | expand (base len : ℕ)

/-- A heap and its calls. A call that stops the machine is not possible. -/
def machine (debug : Bool) (bot top : ℕ) : Machine (BuddyHeap bot top) Call where
  Start h := h = {}
  step h
    | .allocate src rounds i req =>
        (allocate debug (some src.expander) rounds i h req).toOption.map fun r => r.2.1
    | .release ptr sz => (release debug h ptr sz).toOption.map Prod.snd
    | .expand base len => (expand debug h (some base) len).toOption.map Prod.snd

/-- Pointers are not null, and regions lie in the address space. -/
def Legal (_ : BuddyHeap bot top) : Call → Prop
  | .allocate _ _ _ _ => True
  | .release ptr _ => ptr ≠ 0
  | .expand base len => base ≠ 0 ∧ base + len ≤ 2 ^ 64

theorem toOption_eq_some {ε α : Type} {x : Except ε α} {y : α} (h : x.toOption = some y) :
  x = .ok y
  := by
  cases x with
  | error e => cases h
  | ok a =>
      cases h
      rfl

/-- The free blocks of a heap are aligned. -/
theorem aligned_of_reachable (hbot : bot < top) (htop : top ≤ 13)
    (hreach : (machine debug bot top).Reachable Legal h) :
  h.Aligned
  := by
  apply hreach.invariant
  · rintro s rfl sh a hmem
    cases hmem
  · intro s c s' ha hlegal hstep
    cases c with
    | allocate src rounds i req =>
        obtain ⟨r, heq, rfl⟩ := Option.map_eq_some_iff.1 hstep
        exact ha.allocate hbot htop (toOption_eq_some heq)
    | release p sz =>
        obtain ⟨r, heq, rfl⟩ := Option.map_eq_some_iff.1 hstep
        exact ha.release hlegal (toOption_eq_some heq)
    | expand base len =>
        obtain ⟨r, heq, rfl⟩ := Option.map_eq_some_iff.1 hstep
        obtain ⟨res, h', hexpand, hal⟩ := ha.expand debug hbot hlegal.1 hlegal.2
        rw [toOption_eq_some heq] at hexpand
        cases hexpand
        exact hal

/-- A request is served at once if a block of the largest size is free. -/
theorem Aligned.allocate_of_pool (ha : h.Aligned) (debug : Bool) (hbot : bot < top) {req : ℕ}
    (hreq : 1 ≤ req) (hle : req ≤ 2 ^ (top - 1)) (hpool : h.pool (top - 1) ≠ [])
    (callback : Option Expander) (n i : ℕ) :
  ∃ p h', BuddyHeap.allocate debug callback (n + 1) i h req = .ok (some p, h', [])
  := by
  obtain ⟨sh, hcat, -, hsh, -⟩ := category_eq debug hbot (by omega) hle
  obtain ⟨r, h', hget, -, -, hnone⟩ := ha.get debug (Nat.add_sub_cancel' hsh.le)
  rw [BuddyHeap.allocate, hcat, Except.ok_bind, if_neg (Nat.not_le.2 hsh), hget, Except.ok_bind]
  cases r with
  | none => exact absurd (hnone rfl (top - 1) (by lia) (by lia)) hpool
  | some p => exact ⟨p, h', rfl⟩

/-- A request of a heap whose blocks are aligned is served, where the heap grows once if it has to, or
the expander has no pages. -/
theorem Aligned.allocate_grows (ha : h.Aligned) (debug : Bool) (hbot : bot < top) (htop : top ≤ 13)
    {req : ℕ} (hreq : 1 ≤ req) (hle : req ≤ 2 ^ (top - 1)) (src : PageSource) (n i : ℕ) :
  (∃ p h', BuddyHeap.allocate debug (some src.expander) (n + 2) i h req = .ok (some p, h', [])) ∨
  (∃ p h' base, BuddyHeap.allocate debug (some src.expander) (n + 2) i h req =
    .ok (some p, h', [⟨some base, true⟩])) ∨
  (∃ h', BuddyHeap.allocate debug (some src.expander) (n + 2) i h req =
    .ok (none, h', [⟨none, false⟩]))
  := by
  obtain ⟨sh, hcat, -, hsh, -⟩ := category_eq debug hbot (by omega) hle
  obtain ⟨r, h₁, hget, hal, -⟩ := ha.get debug (Nat.add_sub_cancel' hsh.le)
  rw [BuddyHeap.allocate, hcat, Except.ok_bind, if_neg (Nat.not_le.2 hsh), hget, Except.ok_bind]
  cases r with
  | some p => exact .inl ⟨p, h₁, rfl⟩
  | none =>
      right
      dsimp only
      generalize hblock : src.expander i (max req (max h₁.capSize 0x4000)) = block
      obtain ⟨block, size⟩ := block
      cases block with
      | none => exact .inr ⟨h₁, rfl⟩
      | some base =>
          left
          have hsome : (src.expander i (max req (max h₁.capSize 0x4000))).1 = some base := by
            rw [hblock]
          have hpages := PageSource.expander_eq_some hsome
          rw [hblock] at hpages
          obtain ⟨h₂, hexpand, hal₂, hpool⟩ := hal.expand_pages debug hbot htop hpages.1 hpages.2.1
            hpages.2.2.1 hpages.2.2.2
          obtain ⟨p, h₃, hagain⟩ := hal₂.allocate_of_pool debug hbot hreq hle hpool
            (some src.expander) n (i + 1)
          refine ⟨p, h₃, base, ?_⟩
          dsimp only
          rw [hexpand, Except.ok_bind]
          dsimp only
          rw [if_pos rfl, hagain]
          rfl

/-- Every request of up to 2048 bytes ends, with no more than one growth that succeeds, and returns
null only if the expander has returned null. -/
theorem allocate_ends (debug : Bool) (h : BuddyHeap 4 12)
    (hreach : (machine debug 4 12).Reachable Legal h) (src : PageSource) (i rounds req : ℕ)
    (hrounds : 2 ≤ rounds) (hreq : 1 ≤ req) (hle : req ≤ 2048) :
  ∃ ptr h' growths, h.allocate debug (some src.expander) rounds i req = .ok (ptr, h', growths) ∧
    (growths.filter Growth.expanded).length ≤ 1 ∧
    (ptr = none → ∃ g ∈ growths, g.block = none)
  := by
  have ha := aligned_of_reachable (by decide) (by decide) hreach
  obtain ⟨n, rfl⟩ : ∃ n, rounds = n + 2 := ⟨rounds - 2, by omega⟩
  rcases ha.allocate_grows debug (by decide) (by decide) hreq hle src n i with
    ⟨p, h', heq⟩ | ⟨p, h', base, heq⟩ | ⟨h', heq⟩
  · exact ⟨_, _, _, heq, Nat.zero_le _, fun hnone => (by cases hnone)⟩
  · exact ⟨_, _, _, heq, le_rfl, fun hnone => (by cases hnone)⟩
  · exact ⟨_, _, _, heq, Nat.zero_le _, fun _ => ⟨_, List.mem_cons_self, rfl⟩⟩

/-- There are pages whenever more than none are asked for, but only one at a time. -/
def singlePages : PageSource where
  reserve i n := if n = 1 then (i + 1) * 2 ^ 12 % 2 ^ 64 else 0
  commit _ _ _ := true
  reserve_zero _ := rfl
  reserve_lt i n := by
    split_ifs
    · exact Nat.mod_lt _ (by decide)
    · decide
  aligned i n := by
    split_ifs
    · omega
    · rfl

/-- The first request of a heap that gets a single page instead of four. -/
theorem allocate_ends_first :
  ∃ ptr h' growths, allocate true (some singlePages.expander) 2 0 ({} : BuddyHeap 4 12) 24 =
    .ok (ptr, h', growths) ∧ (growths.filter Growth.expanded).length ≤ 1 ∧
    (ptr = none → ∃ g ∈ growths, g.block = none)
  := allocate_ends true {} (.start rfl) singlePages 0 2 24 le_rfl (by decide) (by decide)

end BuddyHeap

end UOS
