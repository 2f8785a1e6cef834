import Cofuos.Interface.UserFrames
import Cofuos.Lib.Refinement
import Cofuos.Memory.Addresses

/-!
# The memory of a process

What a process finds in its memory depends on its page tables, on the frames of its pages, and on
the kernel, which moves data to and from the frames with `user_vspace::write`, `read` and `zero` of
`kernel/memory/user_vspace.cpp`. Pages are reserved, committed, protected and released meanwhile, and
the physical memory manager gives the frames that the space does not own to others.

A byte that the process can read stays as it is until something is written to its address or its
page is released. What is written is what is read, however the data lies in the pages.
-/

namespace UOS

open Boot Stacks Fault

/-- A request releases a page. -/
def Request.Frees (p : ℕ) : Request → Prop
  | release addr n => p ∈ (release addr n).pages
  | _ => False

namespace Vspace

variable {debug : Bool} {vs vs' : Vspace} {p f res : ℕ} {a : Attributes}

/-! ### Requests and the other pages -/

/-- Reserving pages anywhere takes free pages only. -/
theorem exec_anywhere (h : Inv debug vs) {addr : UInt64} {n : UInt32} (haddr : addr.toNat = 0)
    (heq : (Request.reserve addr n).exec debug vs = .ok (res, vs')) (p : ℕ) :
  vs'.map p = vs.map p ∨ vs.map p = .free ∧ vs'.map p = .reserved
  := by
  rw [Request.exec, reserve, if_neg (by simpa using haddr)] at heq
  by_cases hn : n.toNat = 0 ∨ n.toNat > 0x40000
  · rw [if_pos hn] at heq
    cases heq
    exact .inl rfl
  rw [if_neg hn] at heq
  rw [not_or] at hn
  have hsearch : ∃ res vs', (if n.toNat < 0x200 then reserveAny debug { vs with locked := true } n.toNat
      else reserveBig debug { vs with locked := true } n.toNat) = .ok (res, vs') ∧
      Searched debug { vs with locked := true } 0 n.toNat res vs' := by
    split_ifs with hsmall
    · rw [reserveAny, assert_eq_ok (fun _ => rfl), assert_eq_ok (fun _ => by omega)]
      apply reserveAnyTables_searched hn.1 _ _ _ (h.lock true).orderly (fun _ => rfl) (le_refl _)
    · rw [reserveBig, assert_eq_ok (fun _ => rfl)]
      apply reserveBigDirectories_searched hn.1 _ 0 _ (h.lock true).orderly (fun _ => rfl) (le_refl _)
  obtain ⟨res', vs₁, heq', hfound⟩ := hsearch
  rw [withLock, heq'] at heq
  cases heq
  have hby : vs₁.bypassed = vs.bypassed := hfound.bypassed
  change vs₁.map p = vs.map p ∨ vs.map p = .free ∧ vs₁.map p = .reserved
  rcases hfound.taken p with hsame | ⟨hvacant, hreserved⟩
  · left
    rw [map, map, hby, hsame]
    rfl
  · right
    have hfree : vs.Vacant p := hvacant
    refine ⟨vacant_iff_map.mp hfree, ?_⟩
    rw [map, hby, hfree.2, if_neg Bool.false_ne_true, hreserved]
    apply PTE.state_reserved hfree.1

/-- A request with an address keeps the frames of the pages it does not release. -/
theorem Outcome.keeps {r : Request} (h : Outcome debug vs r res vs') (hp : vs.map p = .committed f a)
    (hr : res ≠ 0 → ¬ r.Frees p) :
  ∃ a', vs'.map p = .committed f a' ∧ a'.user = a.user
  := by
  by_cases hres : res = 0
  · rw [(h.failure hres).1]
    exact ⟨a, hp, rfl⟩
  obtain ⟨_, hpre, heffect⟩ := h.success hres
  cases r with
  | reserve addr n =>
      have hmem : p ∉ (Request.reserve addr n).pages := by
        intro hmem
        rw [hpre p hmem] at hp
        cases hp
      rw [heffect p, if_neg hmem]
      exact ⟨a, hp, rfl⟩
  | commit addr n =>
      have hmem : p ∉ (Request.commit addr n).pages := by
        intro hmem
        rw [hpre p hmem] at hp
        cases hp
      rw [heffect.1 p hmem]
      exact ⟨a, hp, rfl⟩
  | protect addr n attrib =>
      by_cases hmem : p ∈ (Request.protect addr n attrib).pages
      · exact ⟨a.set attrib, heffect.2 p hmem f a hp, rfl⟩
      · rw [heffect.1 p hmem]
        exact ⟨a, hp, rfl⟩
  | release addr n =>
      rw [heffect p, if_neg (show p ∉ (Request.release addr n).pages from hr hres)]
      exact ⟨a, hp, rfl⟩

/-- A request keeps the frames of the pages it does not release. -/
theorem exec_keeps (h : Inv debug vs) {r : Request} (hsafe : debug = true → r.Safe vs)
    (heq : r.exec debug vs = .ok (res, vs')) (hp : vs.map p = .committed f a)
    (hr : res ≠ 0 → ¬ r.Frees p) :
  ∃ a', vs'.map p = .committed f a' ∧ a'.user = a.user
  := by
  have houtcome : (∃ res vs', r.exec debug vs = .ok (res, vs') ∧ Outcome debug vs r res vs') →
      ∃ a', vs'.map p = .committed f a' ∧ a'.user = a.user := by
    rintro ⟨res', vs₁, heq', hout⟩
    rw [heq'] at heq
    cases heq
    exact Outcome.keeps hout hp hr
  cases r with
  | reserve addr n =>
      by_cases haddr : addr.toNat = 0
      · rcases exec_anywhere h haddr heq p with hsame | ⟨hfree, _⟩
        · rw [hsame]
          exact ⟨a, hp, rfl⟩
        · rw [hfree] at hp
          cases hp
      · apply houtcome (exec_reserve h haddr hsafe)
  | commit addr n => apply houtcome (exec_commit h addr n)
  | protect addr n attrib =>
      obtain ⟨res', vs₁, heq', hout, _⟩ := exec_protect h addr n attrib
      apply houtcome ⟨res', vs₁, heq', hout⟩
  | release addr n =>
      obtain ⟨res', vs₁, heq', hout, _⟩ := exec_release h hsafe
      apply houtcome ⟨res', vs₁, heq', hout⟩

/-- A page is committed for the user exactly if its entry says so. -/
theorem Inv.map_user (h : Inv debug vs) (hp : vs.map p = .committed f a) (huser : a.user = true) :
  (vs.entry p).present = true ∧ (vs.entry p).user = true ∧ (vs.entry p).pageAddr = f
  := by
  rw [h.map_eq_iff (by simp) (by simp), PTE.state] at hp
  split_ifs at hp with hpresent
  cases hp
  exact ⟨hpresent, huser, rfl⟩

theorem Accessible.map_eq (h : Inv debug vs) {write : Bool} {x : ℕ} (hx : vs.Accessible write x) :
  vs.map (x / 0x1000) =
    .committed (vs.entry (x / 0x1000)).pageAddr (vs.entry (x / 0x1000)).attributes
  := by
  rw [h.map_eq_iff (by simp) (by simp), PTE.state, if_pos hx.2.1]

end Vspace

/-- The address space of a process, and the bytes of all frames. -/
structure ProcessMemory where
  vs : Vspace
  mem : Bytes

namespace ProcessMemory

/-- What happens to the memory of a process. -/
inductive Action where
  /-- A request for pages. -/
  | request (r : Request)
  /-- The physical memory manager serves others, and the frames of others change. -/
  | others (pm : FramePool) (mem : Bytes)
  /-- `user_vspace::write` -/
  | write (va length : ℕ) (data : Bytes)
  /-- `user_vspace::zero` -/
  | zero (va length : ℕ)
  /-- The process stores a byte. -/
  | store (x : ℕ) (b : UInt8)

/-- An action, if it is possible. The addresses of the kernel are not those of the process. -/
def step (debug : Bool) (s : ProcessMemory) : Action → Option ProcessMemory
  | .request r =>
      match r.exec debug s.vs with
      | .ok (_, vs) => some { s with vs := vs }
      | .error _ => none
  | .others pm mem => some { vs := { s.vs with pm := pm }, mem := mem }
  | .write va length data =>
      if isHighaddr va = true then none
      else some { s with mem := (s.vs.writeFrames (fun mem => (0, mem)) s.mem va data length).2 }
  | .zero va length =>
      if isHighaddr va = true then none
      else some { s with mem := (s.vs.zeroFrames (fun mem => (0, mem)) s.mem va length).2 }
  | .store x b =>
      let pt := s.vs.entry (x / 0x1000)
      if x < 0x8000000000 ∧ pt.present = true ∧ pt.user = true ∧ pt.write = true then
        some { s with mem := Function.update s.mem (s.vs.physical x) b }
      else none

/-- The memory of a process from the creation of its space on. -/
def machine (debug : Bool) : Machine ProcessMemory Action where
  Start s := ∃ pm, s.vs = Vspace.create pm
  step := step debug

/-- What a debug build asserts of requests, and what others leave alone: the frames of the space stay
in use, and those of its pages keep their bytes. -/
def Allowed (debug : Bool) (s : ProcessMemory) : Action → Prop
  | .request r => debug = true → r.Safe s.vs
  | .others pm mem =>
      (∀ o f, s.vs.frameOf o = some f → f ∈ pm.used) ∧
      ∀ p f, s.vs.frameOf (.page p) = some f → ∀ i < 0x1000, mem (f * 0x1000 + i) = s.mem (f * 0x1000 + i)
  | _ => True

/-- An action writes to an address, or releases its page: the page is named by a release that
succeeds, or the address lies in the part of a range that is written. -/
def Touches (debug : Bool) (x : ℕ) (s : ProcessMemory) : Action → Prop
  | .request r => r.Frees (x / 0x1000) ∧ ∃ res vs', r.exec debug s.vs = .ok (res, vs') ∧ res ≠ 0
  | .others _ _ => False
  | .write va length data =>
      va ≤ x ∧ x < va + (s.vs.writeFrames (fun mem => (0, mem)) s.mem va data length).1
  | .zero va length =>
      va ≤ x ∧ x < va + (s.vs.zeroFrames (fun mem => (0, mem)) s.mem va length).1
  | .store y _ => y = x

/-- An action that is allowed and does not touch an address. -/
def Spares (debug : Bool) (x : ℕ) (s : ProcessMemory) (a : Action) : Prop :=
  s.Allowed debug a ∧ ¬ s.Touches debug x a

/-- The process can read a byte at an address. -/
def HasByte (s : ProcessMemory) (x : ℕ) (b : UInt8) : Prop :=
  s.vs.Accessible false x ∧ s.mem (s.vs.physical x) = b

variable {debug : Bool} {s s' : ProcessMemory} {x : ℕ} {b : UInt8}

/-! ### One action -/

theorem step_inv (h : s.vs.Inv debug) {a : Action} (ha : s.Allowed debug a)
    (hstep : s.step debug a = some s') :
  s'.vs.Inv debug
  := by
  cases a with
  | request r =>
      obtain ⟨res, vs', heq, hinv, _⟩ := Vspace.exec_inv h r ha
      simp only [step, heq, Option.some.injEq] at hstep
      subst hstep
      apply hinv
  | others pm mem =>
      cases hstep
      exact ⟨h.table, h.entry, h.bypass, ha.1, h.owned.distinct⟩
  | write va length data =>
      obtain ⟨_, heq⟩ := Option.ite_none_left_eq_some.mp hstep
      cases heq
      apply h
  | zero va length =>
      obtain ⟨_, heq⟩ := Option.ite_none_left_eq_some.mp hstep
      cases heq
      apply h
  | store y c =>
      obtain ⟨_, heq⟩ := Option.ite_none_right_eq_some.mp hstep
      cases heq
      apply h

/-- Setting bytes of the frames keeps the other bytes of the process. -/
theorem HasByte.framesSet (hb : s.HasByte x b) (h : s.vs.Inv debug) {va k : ℕ} {data mem' : Bytes}
    (hset : s.vs.FramesSet va k data s.mem mem') (haccess : ∀ i < k, s.vs.Accessible true (va + i))
    (hx : ¬ (va ≤ x ∧ x < va + k)) :
  HasByte { s with mem := mem' } x b
  := by
  refine ⟨hb.1, ?_⟩
  rw [← hb.2]
  apply hset.other
  intro i hi heq
  have hsame := h.physical_inj hb.1 (haccess i hi).readable heq
  apply hx
  rw [hsame]
  exact ⟨Nat.le_add_right va i, Nat.add_lt_add_left hi va⟩

/-- A request keeps the bytes of the pages that it does not release. -/
theorem HasByte.request (hb : s.HasByte x b) (h : s.vs.Inv debug) {r : Request} {vs' : Vspace}
    {res : ℕ} (hsafe : debug = true → r.Safe s.vs) (heq : r.exec debug s.vs = .ok (res, vs'))
    (hr : res ≠ 0 → ¬ r.Frees (x / 0x1000)) :
  HasByte { s with vs := vs' } x b
  := by
  obtain ⟨haccess, hbyte⟩ := hb
  obtain ⟨a', hmap, huser⟩ := Vspace.exec_keeps h hsafe heq (haccess.map_eq h) hr
  have hinv : vs'.Inv debug := by
    obtain ⟨res', vs₁, heq', hinv, _⟩ := Vspace.exec_inv h r hsafe
    rw [heq'] at heq
    cases heq
    apply hinv
  obtain ⟨hpresent, huser', hframe⟩ := hinv.map_user hmap (huser.trans haccess.2.2.1)
  refine ⟨⟨haccess.1, hpresent, huser', fun hfalse => absurd hfalse Bool.false_ne_true⟩, ?_⟩
  change s.mem (vs'.physical x) = b
  rw [Vspace.physical, hframe, ← hbyte]
  rfl

/-- An action keeps the bytes that it does not touch. -/
theorem HasByte.step (hb : s.HasByte x b) (h : s.vs.Inv debug) {a : Action}
    (hspares : s.Spares debug x a) (hstep : s.step debug a = some s') :
  s'.HasByte x b
  := by
  obtain ⟨ha, hx⟩ := hspares
  cases a with
  | request r =>
      obtain ⟨res, vs', heq, _⟩ := Vspace.exec_inv h r ha
      simp only [ProcessMemory.step, heq, Option.some.injEq] at hstep
      subst hstep
      apply hb.request h ha heq
      intro hne hfrees
      exact hx ⟨hfrees, res, vs', heq, hne⟩
  | others pm mem =>
      cases hstep
      refine ⟨hb.1, ?_⟩
      have hframe : s.vs.frameOf (.page (x / 0x1000)) =
          some (s.vs.entry (x / 0x1000)).pageAddr := by
        have hmapped := (h.entry (x / 0x1000)).mapped hb.1.2.1
        rw [Vspace.frameOf, PTE.frame, if_pos ⟨hb.1.2.1, hmapped.2.2⟩]
      rw [← hb.2]
      apply ha.2 _ _ hframe
      apply Nat.mod_lt _ (by decide)
  | write va length data =>
      obtain ⟨hva, heq⟩ := Option.ite_none_left_eq_some.mp hstep
      cases heq
      obtain ⟨k, mem', heq, hpart, hset⟩ := h.writeFrames_prefix (Bool.eq_false_iff.mpr hva) length
        (fun mem => (0, mem)) s.mem data
      rw [Touches, heq] at hx
      rw [heq]
      apply hb.framesSet h hset hpart.accessible hx
  | zero va length =>
      obtain ⟨hva, heq⟩ := Option.ite_none_left_eq_some.mp hstep
      cases heq
      obtain ⟨k, mem', heq, hpart, hset⟩ := h.zeroFrames_prefix (Bool.eq_false_iff.mpr hva) length
        (fun mem => (0, mem)) s.mem
      rw [Touches, heq] at hx
      rw [heq]
      apply hb.framesSet h hset hpart.accessible hx
  | store y c =>
      obtain ⟨⟨hlt, hpresent, huser, _⟩, heq⟩ := Option.ite_none_right_eq_some.mp hstep
      cases heq
      refine ⟨hb.1, ?_⟩
      have hy : s.vs.Accessible false y :=
        ⟨hlt, hpresent, huser, fun hfalse => absurd hfalse Bool.false_ne_true⟩
      have hne : s.vs.physical x ≠ s.vs.physical y := by
        intro heq
        apply hx
        exact (h.physical_inj hb.1 hy heq).symm
      dsimp only
      rw [Function.update_of_ne hne, hb.2]

/-! ### Runs -/

theorem reachable_inv (h : (machine debug).Reachable (Allowed debug) s) : s.vs.Inv debug := by
  apply h.invariant
  · rintro s ⟨pm, hpm⟩
    rw [hpm]
    apply Vspace.inv_create
  · intro s a s' hs ha hstep
    apply step_inv hs ha hstep

/-- A byte stays as it is in a run whose actions do not touch it. -/
theorem HasByte.exec (hb : s.HasByte x b) (h : s.vs.Inv debug) {l : List Action}
    (hfollows : (machine debug).Follows (Spares debug x) s l)
    (hl : (machine debug).exec s l = some s') :
  s'.HasByte x b ∧ s'.vs.Inv debug
  := by
  induction l generalizing s with
  | nil =>
      rw [Machine.exec, Option.some.injEq] at hl
      subst hl
      exact ⟨hb, h⟩
  | cons a rest ih =>
      rw [Machine.exec] at hl
      cases hs : (machine debug).step s a with
      | none => simp only [hs, reduceCtorEq] at hl
      | some t =>
          simp only [hs] at hl
          have hkept := hb.step h hfollows.1 hs
          apply ih hkept (step_inv h hfollows.1.1 hs) (hfollows.2 t hs) hl

/-- `user_vspace::read` finds the bytes that the process can read. -/
theorem HasByte.read (hb : s.HasByte x b) {va length j : ℕ} (hva : isHighaddr va = false)
    (hx : va + j = x) (outer : Bytes → ℕ × Bytes) (buffer : Bytes)
    (hj : j < (s.vs.readFrames outer s.mem va buffer length).1) :
  (s.vs.readFrames outer s.mem va buffer length).2 j = b
  := by
  obtain ⟨k, buffer', heq, _, hset⟩ := Vspace.readFrames_prefix hva length outer s.mem buffer
  rw [heq] at hj ⊢
  have hmoved : buffer' j = s.mem (s.vs.physical (va + j)) := hset.moved j hj
  rw [hx, hb.2] at hmoved
  apply hmoved

/-- After a write the process can read what has been written. -/
theorem hasByte_write (h : s.vs.Inv debug) {va length i : ℕ} {data : Bytes}
    (hstep : s.step debug (.write va length data) = some s')
    (hi : i < (s.vs.writeFrames (fun mem => (0, mem)) s.mem va data length).1) :
  s'.HasByte (va + i) (data i)
  := by
  obtain ⟨hva, heq⟩ := Option.ite_none_left_eq_some.mp hstep
  cases heq
  obtain ⟨k, mem', heq, hpart, hset⟩ := h.writeFrames_prefix (Bool.eq_false_iff.mpr hva) length
    (fun mem => (0, mem)) s.mem data
  rw [heq] at hi ⊢
  refine ⟨(hpart.accessible i hi).readable, ?_⟩
  apply hset.moved i hi

/-- In every run, a byte that the kernel writes to the memory of a process is there, for the process
and for the kernel, until something is written to its address or its page is released. -/
theorem write_lasts {s s₁ s₂ : ProcessMemory} {va length : ℕ} {data : Bytes} {l : List Action}
    (h : (machine debug).Reachable (Allowed debug) s)
    (hstep : (machine debug).step s (.write va length data) = some s₁)
    (hl : (machine debug).exec s₁ l = some s₂) {i : ℕ}
    (hi : i < (s.vs.writeFrames (fun mem => (0, mem)) s.mem va data length).1)
    (hspares : (machine debug).Follows (Spares debug (va + i)) s₁ l) :
  s₂.HasByte (va + i) (data i) ∧
    ∀ va' length' j outer buffer, isHighaddr va' = false → va' + j = va + i →
      j < (s₂.vs.readFrames outer s₂.mem va' buffer length').1 →
      (s₂.vs.readFrames outer s₂.mem va' buffer length').2 j = data i
  := by
  have hinv := reachable_inv h
  have hallowed : s.Allowed debug (.write va length data) := trivial
  have hinv₁ := step_inv hinv hallowed hstep
  have hwritten := hasByte_write hinv hstep hi
  obtain ⟨hbyte, _⟩ := hwritten.exec hinv₁ hspares hl
  refine ⟨hbyte, ?_⟩
  intro va' length' j outer buffer hva' hx hj
  apply hbyte.read hva' hx outer buffer hj

theorem step_request {r : Request} {vs' : Vspace} {res : ℕ}
    (heq : r.exec debug s.vs = .ok (res, vs')) :
  (machine debug).step s (.request r) = some { s with vs := vs' }
  := by
  change s.step debug (.request r) = _
  simp only [step, heq]

/-- In some run the process has reserved a page. -/
theorem exists_reserved :
  ∃ (s : ProcessMemory) (q : ℕ), (machine false).Reachable (Allowed false) s ∧ 0 < q ∧
    q < 0x100000 ∧ s.vs.map q = .reserved
  := by
  obtain ⟨vs, hvs⟩ : ∃ vs : Vspace, vs = .create { used := ∅, answers := fun i => i + 1 } := ⟨_, rfl⟩
  have hinv : vs.Inv false := by
    rw [hvs]
    apply Vspace.inv_create
  have hzero : ¬ vs.Vacant 0 := by
    rw [Vspace.vacant_iff_map, hvs]
    intro hfree
    cases hfree
  have hlook : vs.lookBelow 1 = .room := by
    rw [Vspace.lookBelow, if_pos (by decide), hvs]
    rfl
  obtain ⟨res, vs', heq, hplaced, hby, hroom, _⟩ :=
    Vspace.reserve_looked hinv.orderly hzero Nat.one_ne_zero (by decide)
  obtain ⟨hne, hvacant, hentry⟩ := hroom hlook
  obtain ⟨halign, hle⟩ := hplaced hne
  have hmem : res / 0x1000 ∈ Run.mk (res / 0x1000) 1 := ⟨le_refl _, Nat.lt_succ_self _⟩
  obtain ⟨hfree, hnot⟩ := hvacant _ hmem
  refine ⟨⟨vs', fun _ => 0⟩, res / 0x1000, ?_, by lia, by lia, ?_⟩
  · have hstart : (machine false).Reachable (Allowed false) ⟨vs, fun _ => 0⟩ := .start ⟨_, hvs⟩
    have hexec : (Request.reserve 0 1).exec false vs = .ok (res, vs') := heq
    apply hstart.step (.request (.reserve 0 1)) _ (step_request hexec)
    intro hdebug
    exact absurd hdebug Bool.false_ne_true
  · dsimp only
    rw [Vspace.map, hby, hnot, if_neg Bool.false_ne_true, hentry, if_pos hmem]
    apply PTE.state_reserved hfree

/-- In some run the process has a page that it can write to. -/
theorem exists_page :
  ∃ (s : ProcessMemory) (q : ℕ), (machine false).Reachable (Allowed false) s ∧ 0 < q ∧
    q < 0x100000 ∧ ∀ i < 0x1000, s.vs.Accessible true (q * 0x1000 + i)
  := by
  obtain ⟨s, q, hs, hq0, hq, hmap⟩ := exists_reserved
  -- From now on the physical memory manager refuses nothing.
  obtain ⟨pm, hused, hanswer⟩ : ∃ pm : FramePool, pm.used = s.vs.pm.used ∧ pm.answer ≠ 0 :=
    ⟨{ s.vs.pm with answers := fun i => i + 1 }, rfl, Nat.succ_ne_zero _⟩
  have hs' : (machine false).Reachable (Allowed false) ⟨{ s.vs with pm := pm }, s.mem⟩ := by
    apply hs.step (.others pm s.mem) _ rfl
    refine ⟨?_, fun _ _ _ _ _ => rfl⟩
    rw [hused]
    apply (reachable_inv hs).owned.used
  have haddr : (UInt64.ofNat (q * 0x1000)).toNat = q * 0x1000 := by
    rw [UInt64.toNat_ofNat_of_lt']
    simp only [UInt64.size]
    lia
  have hpages : (Request.commit (UInt64.ofNat (q * 0x1000)) 1).pages = ⟨q, 1⟩ := by
    simp only [Request.pages, Request.addr, Request.pageCount, haddr, UInt32.toNat_one]
    rw [Nat.mul_div_cancel q (by decide)]
  have hcheck : Vspace.commonCheck (UInt64.ofNat (q * 0x1000)).toNat (1 : UInt32).toNat = true := by
    simp only [Vspace.commonCheck, haddr, UInt32.toNat_one, Bool.decide_and, Bool.and_eq_true,
      decide_eq_true_eq]
    lia
  have hreserved : ∀ p ∈ (Request.commit (UInt64.ofNat (q * 0x1000)) 1).pages,
      Vspace.map { s.vs with pm := pm } p = .reserved := by
    intro p hp
    rw [hpages, Run.mem_iff] at hp
    obtain rfl : p = q := by
      simp only at hp
      lia
    exact hmap
  obtain ⟨vs', heq, -, hcommitted⟩ :=
    Vspace.exec_commit_of_answer (reachable_inv hs') hcheck hreserved hanswer
  obtain ⟨f, hf⟩ := hcommitted q (by rw [hpages]; exact ⟨le_refl q, Nat.lt_succ_self q⟩)
  refine ⟨⟨vs', s.mem⟩, q, ?_, hq0, hq, ?_⟩
  · apply hs'.step (.request (.commit (UInt64.ofNat (q * 0x1000)) 1)) _ (step_request heq)
    intro hdebug
    exact absurd hdebug Bool.false_ne_true
  · intro i hi
    have hpage : (q * 0x1000 + i) / 0x1000 = q := by lia
    refine ⟨by lia, ?_⟩
    rw [hpage, hf]
    exact ⟨rfl, rfl, fun _ => rfl⟩

/-- A byte that is written in front of one that is cleared. -/
theorem write_lasts_page :
  ∃ (s s₁ s₂ : ProcessMemory) (x : ℕ), (machine false).Reachable (Allowed false) s ∧
    (machine false).step s (.write x 1 fun _ => 7) = some s₁ ∧
    (machine false).exec s₁ [.zero (x + 1) 1] = some s₂ ∧ s₂.HasByte x 7
  := by
  obtain ⟨s, q, hs, hq0, hq, hpage⟩ := exists_page
  have hva : isHighaddr (q * 0x1000) = false := by
    simp only [isHighaddr, decide_eq_false_iff_not]
    lia
  have hva' : isHighaddr (q * 0x1000 + 1) = false := by
    simp only [isHighaddr, decide_eq_false_iff_not]
    lia
  have hone : (s.vs.writeFrames (fun mem => (0, mem)) s.mem (q * 0x1000) (fun _ => 7) 1).1 = 1 := by
    have hinv := reachable_inv hs
    obtain ⟨k, mem', heq, hpart, _⟩ := hinv.writeFrames_prefix hva 1
      (fun mem => (0, mem)) s.mem fun _ => 7
    rw [heq]
    apply le_antisymm hpart.le
    by_contra hlt
    apply hpart.stops (Nat.lt_of_not_le hlt)
    apply hpage
    lia
  obtain ⟨s₁, hs₁⟩ : ∃ s₁, (machine false).step s (.write (q * 0x1000) 1 fun _ => 7) = some s₁ :=
    ⟨_, if_neg (Bool.eq_false_iff.mp hva)⟩
  obtain ⟨s₂, hs₂⟩ : ∃ s₂, (machine false).step s₁ (.zero (q * 0x1000 + 1) 1) = some s₂ :=
    ⟨_, if_neg (Bool.eq_false_iff.mp hva')⟩
  have hexec : (machine false).exec s₁ [.zero (q * 0x1000 + 1) 1] = some s₂ := by
    rw [Machine.exec_cons hs₂, Machine.exec]
  have hfollows : (machine false).Follows (Spares false (q * 0x1000 + 0)) s₁
      [.zero (q * 0x1000 + 1) 1] := by
    refine ⟨⟨trivial, ?_⟩, fun _ _ => trivial⟩
    rintro ⟨hle, _⟩
    lia
  have hfirst : 0 < (s.vs.writeFrames (fun mem => (0, mem)) s.mem (q * 0x1000) (fun _ => 7) 1).1 := by
    rw [hone]
    exact Nat.one_pos
  obtain ⟨hbyte, _⟩ := write_lasts hs hs₁ hexec hfirst hfollows
  rw [Nat.add_zero] at hbyte
  exact ⟨s, s₁, s₂, q * 0x1000, hs, hs₁, hexec, hbyte⟩

end ProcessMemory

end UOS
