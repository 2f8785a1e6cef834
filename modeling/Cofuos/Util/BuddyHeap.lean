import Mathlib.Data.Nat.Bitwise
import Cofuos.Lib.Align
import Cofuos.Lib.Fault
import Cofuos.Lib.Machine

/-!
# The buddy heap

A `buddy_heap` keeps free blocks of `2 ^ sh` bytes, for every `sh` from `bot` to `top - 1`, in a
list that is ordered by address. A request is served by a block of the least size that suffices. If
there is none, a larger one is split, and the half that is left over is put into the list of its
size. A block that is put joins its buddy, which is next to it in the list if it is there.

The heap grows by regions, which are cut into aligned blocks. The definitions follow
`util/include/buddy_heap.hpp`. A list stands for the nodes in the blocks, each of which has the
addresses of the ones before and after it. Addresses are not null, and what would be null is `none`.
-/

namespace UOS

open Fault

/-- `buddy_heap` -/
structure BuddyHeap (bot top : ℕ) where
  /-- The free blocks of `2 ^ sh` bytes. -/
  pool : ℕ → List ℕ := fun _ => []
  capSize : ℕ := 0

namespace BuddyHeap

variable {bot top : ℕ}

/-! ### Sizes -/

/-- The loop of `category` of a size, from the exponents below one on. -/
def categoryFrom (debug : Bool) (bot top sz : ℕ) : ℕ → Except Fault ℕ
  | 0 => .ok 0
  | res + 1 =>
      if sz / 2 ^ res ≠ 0 then do
        let res := if sz % 2 ^ res ≠ 0 then res + 1 else res
        assert debug (res < top)
        return res
      else if bot < res then categoryFrom debug bot top sz res
      else do
        assert debug (res = bot)
        return res

/-- `category` of a size: the exponent of the least block that suffices. -/
def category (debug : Bool) (bot top sz : ℕ) : Except Fault ℕ := do
  assert debug (sz ≠ 0)
  if 2 ^ (top - 1) < sz then return top else categoryFrom debug bot top sz top

/-- The loop of `category` of a region, over so many exponents from `cur` on. -/
def rangeFrom (base sz : ℕ) : ℕ → ℕ → ℕ → ℕ
  | 0, _, res => res
  | n + 1, cur, res =>
      if base % 2 ^ cur ≠ 0 then res
      else if sz < 2 ^ cur then res
      else rangeFrom base sz n (cur + 1) cur

/-- `category` of a region: the exponent of the largest block at its beginning. -/
def categoryRange (debug : Bool) (bot top ptr sz : ℕ) : Except Fault ℕ := do
  assert debug (ptr ≠ 0 ∧ sz ≠ 0)
  return rangeFrom ptr sz (top - bot) bot top

/-! ### Blocks -/

/-- The list of the blocks of one size is replaced. -/
def setPool (h : BuddyHeap bot top) (sh : ℕ) (l : List ℕ) : BuddyHeap bot top :=
  { h with pool := Function.update h.pool sh l }

/-- The buddy of a block, if it is next to the place of the block, and the list without it. -/
def buddy (sh block : ℕ) (before after : List ℕ) : Option (ℕ × List ℕ) :=
  match before.getLast?.filter fun prev => prev ^^^ block = 2 ^ sh with
  | some prev => some (prev, before.dropLast ++ after)
  | none => (after.head?.filter fun cur => cur ^^^ block = 2 ^ sh).map fun cur =>
      (cur, before ++ after.tail)

/-- `put`, where there are so many sizes from that of the block on. -/
def put : ℕ → BuddyHeap bot top → ℕ → ℕ → Bool × BuddyHeap bot top
  | 0, h, _, _ => (false, h)
  | n + 1, h, ptr, sh =>
      if ptr % 2 ^ sh ≠ 0 then (false, h)
      else
        let before := (h.pool sh).takeWhile (· < ptr)
        let after := (h.pool sh).dropWhile (· < ptr)
        match if sh + 1 < top then buddy sh ptr before after else none with
        | some (b, rest) => put n (h.setPool sh rest) (min ptr b) (sh + 1)
        | none => (true, h.setPool sh (before ++ ptr :: after))

/-- `get`, where there are so many sizes from that of the block on. -/
def get (debug : Bool) : ℕ → BuddyHeap bot top → ℕ → Except Fault (Option ℕ × BuddyHeap bot top)
  | 0, h, _ => .ok (none, h)
  | n + 1, h, sh => match h.pool sh with
      | cur :: rest => do
          assert debug (cur % 2 ^ sh = 0)
          return (some cur, h.setPool sh rest)
      | [] => do
          let (cur, h) ← get debug n h (sh + 1)
          match cur with
          | none => return (none, h)
          | some cur => return (some cur, (put (n + 1) h (cur + 2 ^ sh) sh).2)

/-! ### Regions -/

/-- The loop of `expand`, which makes at most so many rounds. -/
def expandLoop (debug : Bool) : ℕ → BuddyHeap bot top → ℕ → ℕ → Bool →
    Except Fault (Bool × BuddyHeap bot top)
  | 0, _, _, _, _ => .error .outOfFuel
  | n + 1, h, cur, len, res =>
      if len < 2 ^ bot then .ok (res, h)
      else do
        let sh ← categoryRange debug bot top cur len
        if top ≤ sh then return (res, h)
        else
          assert debug (2 ^ sh ≤ len)
          assert debug (cur % 2 ^ sh = 0)
          let (ok, h) := put (top - sh) h cur sh
          if ok then
            expandLoop debug n { h with capSize := (h.capSize + 2 ^ sh) % 2 ^ 64 } (cur + 2 ^ sh)
              (len - 2 ^ sh) true
          else return (false, h)

/-- `expand` -/
def expand (debug : Bool) (h : BuddyHeap bot top) (ptr : Option ℕ) (len : ℕ) :
    Except Fault (Bool × BuddyHeap bot top) :=
  match ptr with
  | none => .ok (false, h)
  | some base =>
      let alignedBase := alignUp 64 base (2 ^ bot)
      let gap := (alignedBase + 2 ^ 64 - base) % 2 ^ 64
      if len = 0 ∨ len ≤ gap then .ok (false, h)
      else expandLoop debug (len + 1) h alignedBase (len - gap) false

/-! ### Requests -/

/-- The callback by which a heap grows. Its calls are numbered, and each takes a size and returns a
region, if there is one, and its size. -/
abbrev Expander : Type := ℕ → ℕ → Option ℕ × ℕ

/-- One call of the expander in `allocate`. -/
structure Growth where
  /-- What the expander has returned. -/
  block : Option ℕ
  /-- What `expand` has returned. -/
  expanded : Bool
  deriving DecidableEq, Repr

/-- `allocate`, which calls itself at most so often. The calls of the expander have numbers from `i`
on. Returns them as well. -/
def allocate (debug : Bool) (callback : Option Expander) : ℕ → ℕ → BuddyHeap bot top → ℕ →
    Except Fault (Option ℕ × BuddyHeap bot top × List Growth)
  | 0, _, _, _ => .error .outOfFuel
  | n + 1, i, h, req => do
      let sh ← category debug bot top req
      if top ≤ sh then return (none, h, [])
      else
        let (ptr, h) ← get debug (top - sh) h sh
        match ptr, callback with
        | some ptr, _ => return (some ptr, h, [])
        | none, none => return (none, h, [])
        | none, some ex => do
            let (block, size) := ex i (max req (max h.capSize 0x4000))
            let (ok, h) ← expand debug h block size
            if ok then
              let (ptr, h, rest) ← allocate debug callback n (i + 1) h req
              return (ptr, h, ⟨block, true⟩ :: rest)
            else return (none, h, [⟨block, false⟩])

/-- `release` of a pointer that is not null. -/
def release (debug : Bool) (h : BuddyHeap bot top) (ptr sz : ℕ) :
    Except Fault (Bool × BuddyHeap bot top) := do
  let sh ← category debug bot top sz
  if top ≤ sh then return (false, h) else return put (top - sh) h ptr sh

variable {debug : Bool} {h h' : BuddyHeap bot top} {sh n ptr sz cur len : ℕ} {a b : ℕ}

/-! ### Sizes of requests -/

/-- The loop finds the least exponent that suffices. -/
theorem categoryFrom_eq {res : ℕ} (hbot : bot < res) (hres : res ≤ top)
    (hsz : sz ≤ 2 ^ (res - 1) ∨ sz < 2 ^ res ∧ res < top) :
  ∃ sh, categoryFrom debug bot top sz res = .ok sh ∧ bot ≤ sh ∧ sh < top ∧ sz ≤ 2 ^ sh ∧
    (bot < sh → 2 ^ (sh - 1) < sz)
  := by
  induction res with
  | zero => omega
  | succ res ih =>
      rw [Nat.add_sub_cancel] at hsz
      rw [categoryFrom]
      have hpow : 0 < 2 ^ res := Nat.two_pow_pos res
      by_cases hge : 2 ^ res ≤ sz
      · -- the bit of the exponent is set
        have hdiv : sz / 2 ^ res ≠ 0 := by
          rw [Nat.div_ne_zero_iff]
          exact ⟨hpow.ne', hge⟩
        rw [if_pos hdiv]
        by_cases hmod : sz % 2 ^ res ≠ 0
        · have hlt : sz < 2 ^ (res + 1) ∧ res + 1 < top := by
            rcases hsz with hle | hlt
            · have heq : sz = 2 ^ res := le_antisymm hle hge
              rw [heq, Nat.mod_self] at hmod
              exact absurd rfl hmod
            · exact hlt
          have hpred : 2 ^ res < sz := by
            apply lt_of_le_of_ne hge
            intro heq
            rw [← heq, Nat.mod_self] at hmod
            exact hmod rfl
          refine ⟨res + 1, ?_, by omega, hlt.2, hlt.1.le, fun _ => hpred⟩
          rw [if_pos hmod]
          dsimp only
          rw [assert_eq_ok fun _ => hlt.2]
          rfl
        · have heq : sz = 2 ^ res := by
            rcases hsz with hle | ⟨hlt, -⟩
            · exact le_antisymm hle hge
            · rw [not_not] at hmod
              have hdvd := Nat.dvd_of_mod_eq_zero hmod
              obtain ⟨k, rfl⟩ := hdvd
              rw [pow_succ] at hlt
              have hk : k = 1 := by
                have hk2 : k < 2 := Nat.lt_of_mul_lt_mul_left hlt
                rcases Nat.eq_zero_or_pos k with rfl | hpos
                · lia
                · lia
              rw [hk, mul_one]
          have hlast : res < top := by omega
          refine ⟨res, ?_, by omega, hlast, heq.le, ?_⟩
          · rw [if_neg hmod]
            dsimp only
            rw [assert_eq_ok fun _ => hlast]
            rfl
          · intro hlt
            rw [heq]
            exact Nat.pow_lt_pow_right (by decide) (by lia)
      · -- the loop goes on
        have hdiv : ¬ sz / 2 ^ res ≠ 0 := by
          rw [not_not]
          exact Nat.div_eq_of_lt (Nat.lt_of_not_le hge)
        rw [if_neg hdiv]
        by_cases hlt : bot < res
        · rw [if_pos hlt]
          exact ih hlt (by omega) (.inr ⟨Nat.lt_of_not_le hge, by omega⟩)
        · obtain rfl : res = bot := by lia
          refine ⟨res, ?_, le_rfl, by omega, (Nat.lt_of_not_le hge).le, fun h => absurd h hlt⟩
          rw [if_neg hlt, assert_eq_ok fun _ => rfl]
          rfl

variable (debug) in
/-- The size of a block for a request. -/
theorem category_eq (hbot : bot < top) (hpos : sz ≠ 0) (hle : sz ≤ 2 ^ (top - 1)) :
  ∃ sh, category debug bot top sz = .ok sh ∧ bot ≤ sh ∧ sh < top ∧ sz ≤ 2 ^ sh ∧
    (bot < sh → 2 ^ (sh - 1) < sz)
  := by
  rw [category, assert_eq_ok fun _ => hpos, Except.ok_bind, if_neg (Nat.not_lt.2 hle)]
  exact categoryFrom_eq hbot le_rfl (.inl hle)

/-- Requests that are too large are not served. -/
theorem category_of_lt (hlt : 2 ^ (top - 1) < sz) : category debug bot top sz = .ok top := by
  rw [category, assert_eq_ok fun _ => (Nat.zero_lt_of_lt hlt).ne', Except.ok_bind, if_pos hlt]
  rfl

/-! ### Sizes of regions -/

/-- The loop finds the largest exponent such that the region begins with an aligned block. -/
theorem rangeFrom_eq {base res : ℕ} (hn : cur + n = top) :
  (rangeFrom base sz n cur res = res ∧ (n = 0 ∨ base % 2 ^ cur ≠ 0 ∨ sz < 2 ^ cur)) ∨
  ∃ sh, rangeFrom base sz n cur res = sh ∧ cur ≤ sh ∧ sh < top ∧ base % 2 ^ sh = 0 ∧ 2 ^ sh ≤ sz ∧
    (sh + 1 = top ∨ base % 2 ^ (sh + 1) ≠ 0 ∨ sz < 2 ^ (sh + 1))
  := by
  induction n generalizing cur res with
  | zero => exact .inl ⟨rfl, .inl rfl⟩
  | succ n ih =>
      rw [rangeFrom]
      by_cases hbase : base % 2 ^ cur = 0
      · rw [if_neg (not_not.2 hbase)]
        by_cases hsz : sz < 2 ^ cur
        · rw [if_pos hsz]
          exact .inl ⟨rfl, .inr (.inr hsz)⟩
        · rw [if_neg hsz]
          right
          rcases @ih (cur + 1) cur (by lia) with ⟨heq, hend⟩ | ⟨sh, heq, hle, h⟩
          · refine ⟨cur, heq, le_rfl, by lia, hbase, Nat.le_of_not_lt hsz, ?_⟩
            rcases hend with rfl | hend
            · left
              omega
            · exact .inr hend
          · exact ⟨sh, heq, by lia, h⟩
      · rw [if_pos hbase]
        exact .inl ⟨rfl, .inr (.inl hbase)⟩

variable (debug) in
/-- The size of the first block of a region that begins at a multiple of the least size. -/
theorem categoryRange_eq (hbot : bot < top) (hptr : ptr ≠ 0) (hbase : ptr % 2 ^ bot = 0)
    (hsz : 2 ^ bot ≤ sz) :
  ∃ sh, categoryRange debug bot top ptr sz = .ok sh ∧ bot ≤ sh ∧ sh < top ∧ ptr % 2 ^ sh = 0 ∧
    2 ^ sh ≤ sz ∧ (sh + 1 = top ∨ ptr % 2 ^ (sh + 1) ≠ 0 ∨ sz < 2 ^ (sh + 1))
  := by
  have hpow := Nat.two_pow_pos bot
  rw [categoryRange, assert_eq_ok fun _ => ⟨hptr, by lia⟩]
  have hrange : (rangeFrom ptr sz (top - bot) bot top = top ∧ _) ∨ _ :=
    rangeFrom_eq (Nat.add_sub_cancel' hbot.le)
  rcases hrange with ⟨-, hend⟩ | ⟨sh, heq, h⟩
  · lia
  · exact ⟨sh, by rw [heq]; rfl, h⟩

/-! ### Buddies -/

/-- Addresses that differ in one bit are those of the halves of a block of twice the size. -/
theorem halves_of_xor (h : b ^^^ a = 2 ^ sh) (ha : a % 2 ^ sh = 0) :
  min a b % 2 ^ (sh + 1) = 0 ∧ (b = a + 2 ^ sh ∨ a = b + 2 ^ sh)
  := by
  have hmod := congrArg (· % 2 ^ sh) h
  have hdiv := congrArg (· / 2 ^ sh) h
  simp only [Nat.xor_mod_two_pow, Nat.xor_div_two_pow, Nat.mod_self, ha, Nat.xor_zero,
    Nat.div_self (Nat.two_pow_pos sh)] at hmod hdiv
  have ha' := Nat.div_add_mod a (2 ^ sh)
  have hb' := Nat.div_add_mod b (2 ^ sh)
  have hquot : b / 2 ^ sh = a / 2 ^ sh ^^^ 1 := by
    rw [← hdiv, Nat.xor_comm, Nat.xor_assoc, Nat.xor_self, Nat.xor_zero]
  rw [ha, Nat.add_zero] at ha'
  rw [hmod, Nat.add_zero] at hb'
  rcases Nat.even_or_odd (a / 2 ^ sh) with heven | hodd
  · rw [Nat.xor_one_of_even heven] at hquot
    obtain ⟨k, hk⟩ := heven.two_dvd
    have hb : b = a + 2 ^ sh := by
      rw [← hb', hquot, mul_add, ha', mul_one]
    refine ⟨?_, .inl hb⟩
    rw [min_eq_left (by lia), ← ha', hk, ← mul_assoc, ← pow_succ, Nat.mul_mod_right]
  · rw [Nat.xor_one_of_odd hodd] at hquot
    obtain ⟨k, hk⟩ := hodd
    have hb : a = b + 2 ^ sh := by
      rw [← ha', ← hb', hquot, hk, Nat.add_sub_cancel, mul_add, mul_one]
    refine ⟨?_, .inr hb⟩
    rw [min_eq_right (by lia), ← hb', hquot, hk, Nat.add_sub_cancel, ← mul_assoc, ← pow_succ,
      Nat.mul_mod_right]

/-- A buddy that is found is one of the blocks of the list. -/
theorem buddy_eq_some {before after rest : List ℕ} (h : buddy sh ptr before after = some (b, rest)) :
  b ^^^ ptr = 2 ^ sh ∧ ∃ l₁ l₂, before ++ after = l₁ ++ b :: l₂ ∧ rest = l₁ ++ l₂
  := by
  rw [buddy] at h
  cases hprev : before.getLast?.filter fun prev => prev ^^^ ptr = 2 ^ sh with
  | some prev =>
      rw [hprev] at h
      cases h
      obtain ⟨hlast, hxor⟩ := Option.filter_eq_some_iff.1 hprev
      have hne : before ≠ [] := by
        rintro rfl
        cases hlast
      rw [List.getLast?_eq_some_getLast hne] at hlast
      refine ⟨of_decide_eq_true hxor, before.dropLast, after, ?_, rfl⟩
      conv_lhs => rw [← List.dropLast_append_getLast hne, Option.some.inj hlast]
      rw [List.append_assoc]
      rfl
  | none =>
      rw [hprev] at h
      obtain ⟨cur, hcur, heq⟩ := Option.map_eq_some_iff.1 h
      cases heq
      obtain ⟨hhead, hxor⟩ := Option.filter_eq_some_iff.1 hcur
      refine ⟨of_decide_eq_true hxor, before, after.tail, ?_, rfl⟩
      cases after with
      | nil => cases hhead
      | cons c after =>
          cases hhead
          rfl

end BuddyHeap

end UOS
