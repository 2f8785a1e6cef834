import Cofuos.Process.Sections

/-!
# What is loaded

A program that has passed the checks of `process_manager::spawn` is loaded safely, but for a section
whose size is above `0xFFFFF000`: it is taken for an empty one, as the size is rounded up to `0` pages.
-/

namespace UOS

open Boot PE64

namespace Loader

variable {f : ImageFile} {env : Literal} {ans : Answers} {pe index i : ℕ} {st st' : Loader}

/-! ### Before and after the sections -/

theorem loadSections_spec (ans : Answers) (hs : Spawned f pe) (h : Kept f pe st) :
  Kept f pe (final (loadSections f ans (f.base pe) (f.imagePages pe) (f.base pe + pe) st)) ∧
    ∀ st', loadSections f ans (f.base pe) (f.imagePages pe) (f.base pe + pe) st = .ok st' →
      Passed f pe st' (sectionCount f.byte pe)
  := by
  have hpassed : Passed f pe st 0 := fun i hi => absurd hi (Nat.not_lt_zero i)
  obtain ⟨hkept, hend⟩ := sectionLoop_spec ans hs (2 ^ 32) (Nat.zero_add _) (Nat.zero_le _)
    h hpassed
  have hcount : sectionCount (sectionLoop f ans (f.base pe) (f.imagePages pe) (f.base pe + pe)
      (2 ^ 32) 0 st).1.mem (f.base pe + pe) = sectionCount f.byte pe := hs.word hkept.bytes (by decide)
  rw [loadSections]
  simp only [hcount]
  split_ifs with hne
  · refine ⟨hkept, ?_⟩
    rintro st' ⟨⟩
  · refine ⟨hkept, ?_⟩
    rintro st' ⟨⟩
    exact hend (not_not.mp hne)

/-- Pages may be changed that have not been committed. -/
theorem Kept.outside (hs : Spawned f pe) (h : Kept f pe st) {c : Run} {m : Kinds} {mem : Bytes}
    (hc : ∀ p ∈ c, st.kinds p ≠ .committed) (hm : ∀ p, p ∉ c → m p = st.kinds p)
    (hmem : ∀ x, x / 0x1000 ∉ c → mem x = st.mem x) :
  Kept f pe { st with kinds := m, mem := mem }
  := by
  apply h.change
  · intro p hp
    rw [hm p (fun hpc => hc p hpc hp), hp]
  · intro j hj
    apply hmem
    intro hjc
    apply hc _ hjc
    apply h.header
    have hle := f.header_le pe
    have hself : (f.header pe).self = f.base pe / 0x1000 := rfl
    have hsize : (f.header pe).size = f.headerPages pe := rfl
    have hmod : f.base pe % 0x1000 = 0 := hs.base_mod
    rw [Run.mem_iff, hself, hsize]
    omega
  · intro a ha _ j hj
    apply hmem
    intro hjc
    apply hc _ hjc
    apply (h.placed a ha).committed
    have hsize : (f.run pe a.index).size = (f.sec pe a.index).pageCount := rfl
    have hmod : f.base pe % 0x1000 = 0 := hs.base_mod
    have hal := (h.placed a ha).aligned
    rw [Run.mem_iff, f.run_self hs, hsize]
    omega

/-- The environment is copied to pages of its own. -/
theorem copyEnvironment_spec (env : Literal) (ans : Answers) (hs : Spawned f pe) (h : Kept f pe st) :
  (∀ st', copyEnvironment env ans st = .error st' → Kept f pe st' ∧ st'.accesses = st.accesses) ∧
    ∀ st' page, copyEnvironment env ans st = .ok (st', page) →
      Kept f pe st' ∧ st'.accesses = st.accesses
  := by
  rw [copyEnvironment]
  by_cases henv : env.chars = []
  · rw [if_pos henv]
    constructor
    · rintro st' ⟨⟩
    · rintro st' page ⟨⟩
      exact ⟨h, rfl⟩
  rw [if_neg henv]
  have hlen := env.length_lt
  have hcount : pagesFor 64 (env.chars.length + 1) = (env.chars.length + 0x1000) / 0x1000 := by
    rw [pagesFor_eq]
    omega
  simp only
  cases hr : st.kinds.reserveAny ans.envPage (pagesFor 64 (env.chars.length + 1)) with
  | none =>
      constructor
      · rintro st' ⟨⟩
        exact ⟨h, rfl⟩
      · rintro st' page ⟨⟩
  | some r =>
      obtain ⟨page, m⟩ := r
      obtain ⟨rfl, ⟨-, -, -, hmod, -, hfree⟩, rfl⟩ := Kinds.reserveAny_eq_some hr
      rw [hcount] at hfree ⊢
      rw [Nat.mod_eq_of_lt (by omega)] at hfree ⊢
      have hc : ∀ p ∈ Run.mk (ans.envPage / 0x1000) ((env.chars.length + 0x1000) / 0x1000),
          st.kinds p ≠ .committed := by
        intro p hp heq
        rw [hfree p hp] at heq
        cases heq
      simp only
      cases hm : Kinds.commit _ ans.envPage ((env.chars.length + 0x1000) / 0x1000)
          ans.envCommitted with
      | none =>
          constructor
          · rintro st' ⟨⟩
            refine ⟨?_, rfl⟩
            apply h.outside hs hc
            · intro p hp
              apply Kinds.set_of_not_mem hp
            · intro x _
              rfl
          · rintro st' page ⟨⟩
      | some m =>
          obtain ⟨-, rfl⟩ := Kinds.change_eq_some_iff.mp hm
          constructor
          · rintro st' ⟨⟩
          · rintro st' page ⟨⟩
            refine ⟨?_, rfl⟩
            apply h.outside hs hc
            · intro p hp
              rw [Kinds.set_of_not_mem hp, Kinds.set_of_not_mem hp]
            · intro x hx
              by_cases hlt : x < ans.envPage
              · apply Bytes.store_of_lt hlt
              · apply Bytes.store_of_le
                rw [List.length_append, List.length_singleton]
                simp only [Run.mem_iff] at hx
                omega

/-- What the pages are used for when the header has been read. -/
def headerKinds (f : ImageFile) (pe : ℕ) : Kinds :=
  (Kinds.fresh.set (f.image pe) .reserved).set (f.header pe) .committed

/-- The image can be reserved and the header can be read. -/
structure HeaderFits (f : ImageFile) (pe : ℕ) : Prop where
  check : Vspace.commonCheck (f.base pe) (f.imagePages pe) = true
  low : 0x200 ≤ f.base pe / 0x1000
  pages : f.headerPages pe ≤ f.imagePages pe
  length : headerSize f.byte pe ≤ f.length

theorem fresh_eq_free_iff {p : ℕ} : Kinds.fresh p = .free ↔ 0x200 ≤ p := by
  rw [Kinds.fresh]
  split_ifs with h
  · simpa using h
  · simpa using h

theorem fresh_ne {p : ℕ} : Kinds.fresh p ≠ .reserved ∧ Kinds.fresh p ≠ .committed := by
  rw [Kinds.fresh]
  split_ifs
  · decide
  · decide

/-- The header has been read. -/
theorem readHeader_ok {mem : Bytes} (hpages : f.imagePages pe ≠ 0)
    (himage : reserveImage ans (f.base pe) (f.imagePages pe) { kinds := Kinds.fresh, mem := mem } =
      .ok st)
    (hread : readHeader f ans (f.base pe) (headerSize f.byte pe) st = .ok st') :
  HeaderFits f pe ∧ st' =
    { kinds := headerKinds f pe
      mem := mem.fill (f.base pe) (headerSize f.byte pe) f.byte }
  := by
  rw [readHeader] at hread
  cases hm : st.kinds.commit (f.base pe) (pagesFor 64 (headerSize f.byte pe))
      ans.headerCommitted with
  | none =>
      rw [hm] at hread
      cases hread
  | some m =>
      rw [hm] at hread
      simp only at hread
      split_ifs at hread with hlen
      rw [not_or, not_not] at hlen
      obtain ⟨⟨hcheck, hreserved, -⟩, rfl⟩ := Kinds.change_eq_some_iff.mp hm
      have hbase : f.base pe ≠ 0 := by
        intro heq
        rw [heq] at hcheck
        cases hcheck
      rw [reserveImage, if_neg hbase] at himage
      cases hm' : Kinds.reserve Kinds.fresh (f.base pe) (f.imagePages pe) ans.imageReserved with
      | none =>
          simp only [hm'] at himage
          cases himage
      | some m' =>
          simp only [hm'] at himage
          obtain ⟨⟨hcheck', hfree, -⟩, rfl⟩ := Kinds.change_eq_some_iff.mp hm'
          cases himage
          cases hread
          have hfirst : f.base pe / 0x1000 ∈ Run.mk (f.base pe / 0x1000) (f.imagePages pe) :=
            ⟨le_refl _, by simp only; omega⟩
          refine ⟨⟨hcheck', fresh_eq_free_iff.mp (hfree _ hfirst), ?_, ?_⟩, ?_⟩
          · by_contra hlt
            have hlast : f.base pe / 0x1000 + f.imagePages pe ∈
                Run.mk (f.base pe / 0x1000) (pagesFor 64 (headerSize f.byte pe)) :=
              ⟨Nat.le_add_right _ _, Nat.add_lt_add_left (not_le.mp hlt) _⟩
            have hne : (f.base pe / 0x1000 + f.imagePages pe) ∉
                Run.mk (f.base pe / 0x1000) (f.imagePages pe) := fun hmem => lt_irrefl _ hmem.2
            have heq := hreserved _ hlast
            exact fresh_ne.1 ((Kinds.set_of_not_mem hne).symm.trans heq)
          · have hall := hlen.2
            rw [ImageFile.delivered] at hall
            omega
          · rw [hlen.2]
            rfl

/-- Everything is granted, and the stack is placed at an address. -/
def granting (f : ImageFile) (stackBase : ℕ) : Answers where
  mem := fun _ => 0
  imageReserved := true
  headerCommitted := true
  headerRead := ⟨f.length, true⟩
  stackBase := stackBase
  stackCommitted := true
  committed := fun _ => true
  sought := fun _ => true
  read := fun _ => ⟨f.length, true⟩
  attributesSet := fun _ => true
  envPage := 0
  envCommitted := true

/-- Pages in an image that has been accepted pass the checks of a request. -/
theorem HeaderFits.commonCheck (hs : Spawned f pe) (h : HeaderFits f pe) {off n : ℕ}
    (hoff : off % 0x1000 = 0) (hn : n ≠ 0) (hle : off / 0x1000 + n ≤ f.imagePages pe) :
  Vspace.commonCheck (f.base pe + off) n = true
  := by
  have hc := h.check
  have hpages := f.imagePages_le pe
  have hbase : f.base pe < 2 ^ 47 := hs.base_lt
  have hmod : f.base pe % 0x1000 = 0 := hs.base_mod
  simp only [Vspace.commonCheck, decide_eq_true_eq] at hc ⊢
  obtain ⟨hne, -, -, -, hend⟩ := hc
  rw [Nat.mod_eq_of_lt (by omega)] at hend
  refine ⟨by omega, hn, by omega, by omega, ?_⟩
  rw [Nat.mod_eq_of_lt (by omega)]
  omega

/-- The header can be read if everything is granted. -/
theorem readHeader_of_fits (hs : Spawned f pe) (h : HeaderFits f pe) (stackBase : ℕ) :
  (reserveImage (granting f stackBase) (f.base pe) (f.imagePages pe)
      { kinds := Kinds.fresh, mem := fun _ => 0 } >>=
    readHeader f (granting f stackBase) (f.base pe) (headerSize f.byte pe)) = .ok
    { kinds := headerKinds f pe
      mem := Bytes.fill (fun _ => 0) (f.base pe) (headerSize f.byte pe) f.byte }
  := by
  have hbase : f.base pe ≠ 0 := by
    intro heq
    have hlow := h.low
    omega
  have hhead : f.headerPages pe ≠ 0 := by
    have hle := f.header_le pe
    have hsector := hs.sector_le
    omega
  have hreserve : Kinds.reserve Kinds.fresh (f.base pe) (f.imagePages pe) true =
      some (Kinds.fresh.set (f.image pe) .reserved) := by
    apply Kinds.change_eq_some_iff.mpr ⟨⟨h.check, ?_, rfl⟩, rfl⟩
    intro p hp
    apply fresh_eq_free_iff.mpr (h.low.trans hp.1)
  have hcommit : Kinds.commit (Kinds.fresh.set (f.image pe) .reserved) (f.base pe)
      (f.headerPages pe) true = some (headerKinds f pe) := by
    apply Kinds.change_eq_some_iff.mpr ⟨⟨?_, ?_, rfl⟩, rfl⟩
    · apply h.commonCheck hs (Nat.zero_mod _) hhead
      rw [Nat.zero_div, Nat.zero_add]
      exact h.pages
    · intro p hp
      apply Kinds.set_of_mem
      exact ⟨hp.1, lt_of_lt_of_le hp.2 (Nat.add_le_add_left h.pages _)⟩
  have hlen : f.delivered 0 (headerSize f.byte pe) ⟨f.length, true⟩ = headerSize f.byte pe := by
    have hle := h.length
    rw [ImageFile.delivered]
    simp only
    omega
  have himage : reserveImage (granting f stackBase) (f.base pe) (f.imagePages pe)
      { kinds := Kinds.fresh, mem := fun _ => 0 } =
      .ok { kinds := Kinds.fresh.set (f.image pe) .reserved, mem := fun _ => 0 } := by
    rw [reserveImage, if_neg hbase]
    simp only [granting, hreserve]
  have hheader : pagesFor 64 (headerSize f.byte pe) = f.headerPages pe := rfl
  have hgranted : (granting f stackBase).headerCommitted = true := rfl
  rw [himage, Except.ok_bind, readHeader, hheader, hgranted, hcommit]
  simp only [granting, hlen]
  rw [if_neg (by simp)]

/-- The number of pages of the user stack. -/
def stackPages (f : ImageFile) (pe : ℕ) : ℕ := pagesFor 64 (stkReserve f.byte pe)

/-- The user stack can be at an address. -/
structure StackFits (f : ImageFile) (pe addr : ℕ) : Prop where
  pos : stackPages f pe ≠ 0
  lt : stackPages f pe < 0x40000
  mod : addr % 0x1000 = 0
  low : 0x200 ≤ addr / 0x1000
  le : addr + (1 + stackPages f pe) * 0x1000 ≤ 2 ^ 32
  apart : ∀ p ∈ Run.mk (addr / 0x1000) (1 + stackPages f pe), p ∉ f.image pe

/-- The pages that are free when the header has been read. -/
theorem headerKinds_free {p : ℕ} (hle : f.headerPages pe ≤ f.imagePages pe) :
  headerKinds f pe p = .free ↔ 0x200 ≤ p ∧ p ∉ f.image pe
  := by
  rw [headerKinds]
  by_cases hp : p ∈ f.image pe
  · constructor
    · intro heq
      by_cases hh : p ∈ f.header pe
      · rw [Kinds.set_of_mem hh] at heq
        cases heq
      · rw [Kinds.set_of_not_mem hh, Kinds.set_of_mem hp] at heq
        cases heq
    · rintro ⟨-, hn⟩
      exact absurd hp hn
  · have hh : p ∉ f.header pe :=
      fun hh => hp ⟨hh.1, lt_of_lt_of_le hh.2 (Nat.add_le_add_left hle _)⟩
    rw [Kinds.set_of_not_mem hh, Kinds.set_of_not_mem hp, fresh_eq_free_iff]
    exact (and_iff_left hp).symm

/-- The number of pages that are reserved for the stack is not cut off if its highest page can be
committed. -/
theorem stack_lt {addr n : ℕ} (hn : n < 2 ^ 52) (hne : (1 + n) % 2 ^ 32 ≠ 0)
    (hle : (1 + n) % 2 ^ 32 ≤ 0x40000) (haddr : addr + (1 + n) % 2 ^ 32 * 0x1000 ≤ 2 ^ 32)
    (hcheck : ((addr + n * 0x1000) % 2 ^ 64 + 1 * 0x1000) % 2 ^ 64 ≤ 0x8000000000) :
  n < 0x40000
  := by
  have hdiv := Nat.div_add_mod (1 + n) (2 ^ 32)
  have hk : (1 + n) / 2 ^ 32 < 2 ^ 20 := by omega
  rw [Nat.mod_eq_of_lt (a := addr + n * 0x1000) (by omega), Nat.mod_eq_of_lt (by omega)] at hcheck
  omega

/-- The stack has been prepared. -/
theorem userStack_ok (hs : Spawned f pe) (h : Kept f pe st) (hle : f.headerPages pe ≤ f.imagePages pe)
    (hk : st.kinds = headerKinds f pe) {n b : ℕ}
    (hok : userStack ans (f.base pe + pe) st = .ok (st', n, b)) :
  StackFits f pe b ∧ Kept f pe st' ∧ st'.accesses = st.accesses
  := by
  have hmem : stkReserve st.mem (f.base pe + pe) = stkReserve f.byte pe :=
    hs.qword h.bytes (by decide)
  have hpages : pagesFor 64 (stkReserve f.byte pe) = stackPages f pe := rfl
  have hn : stackPages f pe < 2 ^ 52 := by
    rw [stackPages, pagesFor_eq]
    omega
  simp only [userStack, hmem, hpages] at hok
  split_ifs at hok with hpos
  cases hr : st.kinds.reserveAny ans.stackBase (1 + stackPages f pe) with
  | none =>
      simp only [hr] at hok
      cases hok
  | some r =>
      obtain ⟨base, m⟩ := r
      simp only [hr] at hok
      obtain ⟨rfl, ⟨hne, hle', hbase, hmod, hend, hfree⟩, rfl⟩ := Kinds.reserveAny_eq_some hr
      cases hm : Kinds.commit
          (st.kinds.set ⟨ans.stackBase / 0x1000, (1 + stackPages f pe) % 2 ^ 32⟩ .reserved)
          ((ans.stackBase + stackPages f pe * 0x1000) % 2 ^ 64) 1 ans.stackCommitted with
      | none =>
          simp only [hm] at hok
          cases hok
      | some m =>
          simp only [hm] at hok
          obtain ⟨⟨hcheck, -, -⟩, rfl⟩ := Kinds.change_eq_some_iff.mp hm
          cases hok
          simp only [Vspace.commonCheck, decide_eq_true_eq] at hcheck
          have hlt := stack_lt hn hne hle' hend hcheck.2.2.2.2
          rw [Nat.mod_eq_of_lt (a := 1 + stackPages f pe) (by omega)] at hend hfree ⊢
          have hc : ∀ p ∈ Run.mk (ans.stackBase / 0x1000) (1 + stackPages f pe),
              0x200 ≤ p ∧ p ∉ f.image pe := by
            intro p hp
            rw [← headerKinds_free hle, ← hk]
            exact hfree p hp
          refine ⟨⟨hpos, hlt, hmod, ?_, hend, fun p hp => (hc p hp).2⟩, ?_, rfl⟩
          · apply (hc _ ⟨le_refl _, ?_⟩).1
            simp only
            omega
          · have htop : (ans.stackBase + stackPages f pe * 0x1000) % 2 ^ 64 / 0x1000 =
                ans.stackBase / 0x1000 + stackPages f pe := by
              rw [Nat.mod_eq_of_lt (by omega)]
              omega
            rw [htop]
            have hout : Kept f pe { st with
                kinds := (st.kinds.set ⟨ans.stackBase / 0x1000, 1 + stackPages f pe⟩ .reserved).set
                  ⟨ans.stackBase / 0x1000 + stackPages f pe, 1⟩ .committed
                mem := st.mem } := by
              apply h.outside hs (c := ⟨ans.stackBase / 0x1000, 1 + stackPages f pe⟩)
              · intro p hp heq
                rw [hfree p hp] at heq
                cases heq
              · intro p hp
                have hp' : p ∉ Run.mk (ans.stackBase / 0x1000 + stackPages f pe) 1 := by
                  simp only [Run.mem_iff] at hp ⊢
                  omega
                rw [Kinds.set_of_not_mem hp', Kinds.set_of_not_mem hp]
              · intro x _
                rfl
            exact hout

/-- Where the preparation of the stack fails, nothing has been accessed yet. -/
theorem userStack_error {addr : ℕ} (h : userStack ans addr st = .error st') :
  st'.accesses = st.accesses
  := by
  rw [userStack] at h
  split_ifs at h
  · cases h
    rfl
  · split at h
    · cases h
      rfl
    · split at h
      · cases h
        rfl
      · cases h

/-- The stack is prepared if everything is granted. -/
theorem userStack_of_fits (hs : Spawned f pe) (h : Kept f pe st)
    (hle : f.headerPages pe ≤ f.imagePages pe) (hk : st.kinds = headerKinds f pe) {addr : ℕ}
    (hfits : StackFits f pe addr) :
  ∃ st' n b, userStack (granting f addr) (f.base pe + pe) st = .ok (st', n, b) ∧
    ∀ p ∈ f.image pe, st'.kinds p = headerKinds f pe p
  := by
  have hmem : stkReserve st.mem (f.base pe + pe) = stkReserve f.byte pe :=
    hs.qword h.bytes (by decide)
  have hpages : pagesFor 64 (stkReserve f.byte pe) = stackPages f pe := rfl
  obtain ⟨hpos, hlt, hmod, hlow, hend, hapart⟩ := hfits
  have hfree : ∀ p ∈ Run.mk (addr / 0x1000) (1 + stackPages f pe), headerKinds f pe p = .free :=
    fun p hp => (headerKinds_free hle).mpr ⟨hlow.trans hp.1, hapart p hp⟩
  have hreserve : (headerKinds f pe).reserveAny addr (1 + stackPages f pe) =
      some (addr, (headerKinds f pe).set ⟨addr / 0x1000, 1 + stackPages f pe⟩ .reserved) := by
    simp only [Kinds.reserveAny]
    rw [Nat.mod_eq_of_lt (by omega), if_pos]
    exact ⟨by omega, by omega, by omega, hmod, hend, Kinds.all_iff.mpr hfree⟩
  have htop : (addr + stackPages f pe * 0x1000) % 2 ^ 64 = addr + stackPages f pe * 0x1000 :=
    Nat.mod_eq_of_lt (by omega)
  have hcommit : Kinds.commit ((headerKinds f pe).set ⟨addr / 0x1000, 1 + stackPages f pe⟩ .reserved)
      (addr + stackPages f pe * 0x1000) 1 true = some
      (((headerKinds f pe).set ⟨addr / 0x1000, 1 + stackPages f pe⟩ .reserved).set
        ⟨(addr + stackPages f pe * 0x1000) / 0x1000, 1⟩ .committed) := by
    apply Kinds.change_eq_some_iff.mpr ⟨⟨?_, ?_, rfl⟩, rfl⟩
    · simp only [Vspace.commonCheck, decide_eq_true_eq]
      rw [Nat.mod_eq_of_lt (b := 2 ^ 64) (by omega)]
      omega
    · intro p hp
      apply Kinds.set_of_mem
      simp only [Run.mem_iff] at hp ⊢
      omega
  refine ⟨{ st with
      kinds := ((headerKinds f pe).set ⟨addr / 0x1000, 1 + stackPages f pe⟩ .reserved).set
        ⟨(addr + stackPages f pe * 0x1000) / 0x1000, 1⟩ .committed },
    stackPages f pe, addr, ?_, ?_⟩
  · simp only [userStack, hmem, hpages, granting, hk, hreserve, htop, hcommit]
    rw [if_neg hpos]
  · intro p hp
    have hout : p ∉ Run.mk (addr / 0x1000) (1 + stackPages f pe) := fun hp' => hapart p hp' hp
    have hout' : p ∉ Run.mk ((addr + stackPages f pe * 0x1000) / 0x1000) 1 := by
      simp only [Run.mem_iff] at hout ⊢
      omega
    change Kinds.set _ _ _ p = _
    rw [Kinds.set_of_not_mem hout', Kinds.set_of_not_mem hout]

/-! ### Loading everything -/

/-- The pages of the image that the sections up to one have not taken are reserved. -/
def Reserved (f : ImageFile) (pe : ℕ) (st : Loader) (k : ℕ) : Prop :=
  ∀ p ∈ f.image pe, p ∉ f.header pe → (∀ i < k, p ∉ f.run pe i) → st.kinds p = .reserved

/-- A section can be loaded after those before it. -/
structure SectionFits (f : ImageFile) (pe i : ℕ) : Prop where
  checked : Checked f pe i
  header : (f.sec pe i).pageCount ≠ 0 → f.headerPages pe ≤ (f.sec pe i).offset / 0x1000
  le : (f.sec pe i).pageCount ≠ 0 →
    (f.sec pe i).offset / 0x1000 + (f.sec pe i).pageCount ≤ f.imagePages pe
  apart : ∀ j < i, ∀ p ∈ f.run pe i, p ∉ f.run pe j

/-- A section is loaded if everything is granted. -/
theorem loadSection_of_fits (hs : Spawned f pe) (hfits : HeaderFits f pe) (h : Kept f pe st)
    (hi : index < sectionCount f.byte pe) (hr : Reserved f pe st index)
    (hsec : SectionFits f pe index) (addr : ℕ) :
  ∃ st', loadSection f (granting f addr) (f.base pe) (f.imagePages pe) (f.base pe + pe) index st =
    .ok st' ∧ Reserved f pe st' (index + 1)
  := by
  obtain ⟨⟨hoffset, hfile, hdata, hlen⟩, hheader, hle, hapart⟩ := hsec
  simp only [loadSection, getSection_eq hs h, if_pos hi]
  rw [if_neg (not_not.mpr hoffset), if_neg (by omega)]
  have hsize : (f.run pe index).size = (f.sec pe index).pageCount := rfl
  have hself := f.run_self hs (i := index)
  by_cases hpos : (f.sec pe index).pageCount = 0
  · rw [if_pos hpos]
    refine ⟨st, rfl, ?_⟩
    intro p hp hh hn
    exact hr p hp hh fun i hi => hn i (Nat.lt_succ_of_lt hi)
  rw [if_neg hpos, if_neg (not_lt.mpr (hle hpos))]
  replace hle := hle hpos
  replace hheader := hheader hpos
  replace hlen := hlen hpos
  have hcheck := hfits.commonCheck hs hoffset hpos hle
  have himage : ∀ p ∈ f.run pe index, p ∈ f.image pe ∧ p ∉ f.header pe := by
    intro p hp
    rw [Run.mem_iff, hself, hsize] at hp
    constructor
    · exact ⟨by simp only [ImageFile.image]; omega, by simp only [ImageFile.image]; omega⟩
    · rintro ⟨-, hlt⟩
      simp only [ImageFile.header] at hlt
      omega
  have hcommit : st.kinds.commit (f.base pe + (f.sec pe index).offset) (f.sec pe index).pageCount
      true = some (st.kinds.set (f.run pe index) .committed) := by
    apply Kinds.change_eq_some_iff.mpr ⟨⟨hcheck, ?_, rfl⟩, rfl⟩
    intro p hp
    obtain ⟨hpi, hph⟩ := himage p hp
    exact hr p hpi hph fun j hj => hapart j hj p hp
  have hread : ∀ st₁ : Loader, ∃ st₂, readSection f (granting f addr) index (f.sec pe index)
      (f.base pe + (f.sec pe index).offset) st₁ = .ok st₂ ∧ st₂.kinds = st₁.kinds := by
    intro st₁
    rw [readSection]
    by_cases hzero : (f.sec pe index).datasize = 0
    · rw [if_pos hzero]
      exact ⟨st₁, rfl, rfl⟩
    · have hall : f.delivered (f.sec pe index).fileoffset (f.sec pe index).datasize
          ⟨f.length, true⟩ = (f.sec pe index).datasize := by
        have hend := hlen hzero
        rw [ImageFile.delivered]
        simp only
        omega
      rw [if_neg hzero]
      simp only [granting, hall]
      rw [if_neg (by simp), if_neg (by simp)]
      exact ⟨_, rfl, rfl⟩
  have hprotect : ∀ st₂ : Loader, st₂.kinds = st.kinds.set (f.run pe index) .committed →
      ∃ st₃, protectSection (granting f addr) index (f.sec pe index)
        (f.base pe + (f.sec pe index).offset) st₂ = .ok st₃ ∧
          ∀ p ∉ f.run pe index, st₃.kinds p = st.kinds p := by
    intro st₂ hk
    have hset : st₂.kinds.protect (f.base pe + (f.sec pe index).offset) (f.sec pe index).pageCount
        true = some (st₂.kinds.set (f.run pe index) .committed) := by
      apply Kinds.change_eq_some_iff.mpr ⟨⟨hcheck, ?_, rfl⟩, rfl⟩
      intro p hp
      rw [hk]
      apply Kinds.set_of_mem hp
    rw [protectSection]
    simp only [granting, hset]
    refine ⟨_, rfl, ?_⟩
    intro p hp
    simp only [access_kinds]
    rw [Kinds.set_of_not_mem hp, hk, Kinds.set_of_not_mem hp]
  obtain ⟨st₂, hst₂, hk₂⟩ := hread ({ st with kinds := st.kinds.set (f.run pe index) .committed }.access
    index .commit (f.base pe + (f.sec pe index).offset) ((f.sec pe index).pageCount * 0x1000))
  obtain ⟨st₃, hst₃, hk₃⟩ := hprotect (zeroSection index (f.sec pe index)
    (f.base pe + (f.sec pe index).offset) st₂) hk₂
  refine ⟨st₃, ?_, ?_⟩
  · rw [fillSection]
    have hgranted : (granting f addr).committed index = true := rfl
    rw [hgranted, hcommit]
    change (readSection _ _ _ _ _ _ >>= _) = _
    rw [hst₂]
    exact hst₃
  · intro p hp hh hn
    rw [hk₃ p (hn index (Nat.lt_succ_self _))]
    exact hr p hp hh fun i hi => hn i (Nat.lt_succ_of_lt hi)

/-- All sections are loaded if everything is granted. -/
theorem sectionLoop_of_fits (hs : Spawned f pe) (hfits : HeaderFits f pe)
    (hsec : ∀ i < sectionCount f.byte pe, SectionFits f pe i) (addr n : ℕ) :
    ∀ {index : ℕ} {st : Loader}, index + n = 2 ^ 32 → index ≤ sectionCount f.byte pe →
      Kept f pe st → Reserved f pe st index →
  (sectionLoop f (granting f addr) (f.base pe) (f.imagePages pe) (f.base pe + pe) n index st).2 =
    sectionCount f.byte pe
  := by
  have hcount : sectionCount f.byte pe < 2 ^ 16 := Bytes.word_lt
  induction n with
  | zero =>
      intro index st hn hle h hr
      omega
  | succ n ih =>
      intro index st hn hle h hr
      rw [sectionLoop]
      rcases Nat.lt_or_ge index (sectionCount f.byte pe) with hi | hi
      · obtain ⟨st', heq, hr'⟩ := loadSection_of_fits hs hfits h hi hr (hsec index hi) addr
        have hkept := (loadSection_spec (granting f addr) index hs h).1
        rw [heq] at hkept
        rw [heq]
        apply ih (by omega) hi hkept hr'
      · rw [loadSection_end hs h hi]
        exact le_antisymm hle hi

/-! ### The whole program -/

/-- The accesses for the sections stay in the image and apart from the header and from each other, and
what has been loaded is still there. -/
structure Safe (f : ImageFile) (pe : ℕ) (st : Loader) : Prop where
  image : ∀ a ∈ st.accesses, f.base pe ≤ a.addr ∧
    a.addr + a.len ≤ f.base pe + f.imagePages pe * 0x1000
  header : ∀ a ∈ st.accesses, f.base pe + f.headerPages pe * 0x1000 ≤ a.addr
  bytes : st.accesses ≠ [] → Holds st.mem (f.base pe) f.byte (headerSize f.byte pe)
  apart : ∀ a ∈ st.accesses, ∀ b ∈ st.accesses, a.index ≠ b.index →
    a.addr + a.len ≤ b.addr ∨ b.addr + b.len ≤ a.addr
  contents : ∀ i, Loaded st i → f.Contents pe st.mem i

/-- Whether or not user code is entered the accesses are safe, and if it is entered then something is
true of the final state. -/
def Ends (f : ImageFile) (pe : ℕ) (entered : Loader → Prop) : Except Loader (Loader × Entry) → Prop
  | .error st => Safe f pe st
  | .ok (st, _) => Safe f pe st ∧ entered st

/-- The program has been loaded safely: if user code is entered every section has been loaded, unless
it is empty. -/
def LoadedSafely (f : ImageFile) (pe : ℕ) : Except Loader (Loader × Entry) → Prop :=
  Ends f pe fun st => ∀ i < sectionCount f.byte pe,
    Loaded st i ∨ max (f.sec pe i).datasize (f.sec pe i).size = 0

/-- The file can be loaded, if the address space and the file grant everything. -/
structure Loadable (f : ImageFile) (pe : ℕ) : Prop where
  header : HeaderFits f pe
  stack : ∃ addr, StackFits f pe addr
  sections : ∀ i < sectionCount f.byte pe, SectionFits f pe i
  entry : (imgbase f.byte pe + entrance f.byte pe) % 2 ^ 64 < 2 ^ 47

theorem Safe.of_empty (h : st.accesses = []) : Safe f pe st := by
  refine ⟨?_, ?_, fun hne => absurd h hne, ?_, ?_⟩
  · intro a ha
    rw [h] at ha
    cases ha
  · intro a ha
    rw [h] at ha
    cases ha
  · intro a ha
    rw [h] at ha
    cases ha
  · rintro i ⟨a, ha, -⟩
    rw [h] at ha
    cases ha

theorem Kept.safe (hs : Spawned f pe) (h : Kept f pe st) : Safe f pe st := by
  refine ⟨?_, ?_, fun _ => h.bytes, ?_, ?_⟩
  · intro a ha
    have hp := h.placed a ha
    have hw := h.within a ha
    have hal := hp.aligned
    have hle := hp.le
    have h₁ := hw.le
    have h₂ := hw.le'
    omega
  · intro a ha
    have hp := h.placed a ha
    have hal := hp.aligned
    have hle := hp.header
    have h₁ := (h.within a ha).le
    omega
  · intro a ha b hb hne
    have hpa := h.placed a ha
    have hpb := h.placed b hb
    have horder := Run.before_or_after hpa.pos hpb.pos (h.apart a ha b hb hne)
    rw [f.run_self hs, f.run_self hs, ImageFile.run, ImageFile.run] at horder
    have hala := hpa.aligned
    have halb := hpb.aligned
    have ha₁ := (h.within a ha).le
    have ha₂ := (h.within a ha).le'
    have hb₁ := (h.within b hb).le
    have hb₂ := (h.within b hb).le'
    simp only at horder
    omega
  · rintro i ⟨a, ha, rfl, hlast⟩
    exact h.contents a ha hlast

/-- Sections that have been loaded lie apart. -/
theorem Kept.sectionFits (h : Kept f pe st) {k : ℕ} (hp : Passed f pe st k) (hi : i < k) :
  SectionFits f pe i
  := by
  obtain ⟨hchecked, hloaded⟩ := hp i hi
  have hplaced : (f.sec pe i).pageCount ≠ 0 → Placed f pe st.kinds i := by
    intro hpos
    obtain ⟨a, ha, rfl, -⟩ := hloaded.resolve_left hpos
    exact h.placed a ha
  refine ⟨hchecked, fun hpos => (hplaced hpos).header, fun hpos => (hplaced hpos).le, ?_⟩
  intro j hj p hpi hpj
  have hposi : (f.sec pe i).pageCount ≠ 0 := by
    intro hzero
    have hlt := hpi.2
    have hge := hpi.1
    simp only [ImageFile.run, hzero] at hlt hge
    omega
  have hposj : (f.sec pe j).pageCount ≠ 0 := by
    intro hzero
    have hlt := hpj.2
    have hge := hpj.1
    simp only [ImageFile.run, hzero] at hlt hge
    omega
  obtain ⟨a, ha, hai, -⟩ := hloaded.resolve_left hposi
  obtain ⟨b, hb, hbj, -⟩ := (hp j (by omega)).2.resolve_left hposj
  have hne : a.index ≠ b.index := by omega
  apply h.apart a ha b hb hne p
  · rw [hai]
    exact hpi
  · rw [hbj]
    exact hpj

/-- The state when the header has been read. -/
theorem kept_header (f : ImageFile) (pe : ℕ) (mem : Bytes) : Kept f pe
    { kinds := headerKinds f pe
      mem := mem.fill (f.base pe) (headerSize f.byte pe) f.byte } := by
  have hno : ∀ a : Access, a ∉ ([] : List Access) := fun a ha => by cases ha
  refine ⟨?_, fun p hp => Kinds.set_of_mem hp, fun a ha => absurd ha (hno a),
    fun a ha => absurd ha (hno a), fun a ha => absurd ha (hno a), fun a ha => absurd ha (hno a)⟩
  intro j hj
  apply Bytes.fill_of_mem hj

/-- Before the header has been read nothing has been accessed for a section. -/
theorem reserveImage_accesses {base pages : ℕ} {res : Loader}
    (h : reserveImage ans base pages st = .error res ∨ reserveImage ans base pages st = .ok res) :
  res.accesses = st.accesses
  := by
  rw [reserveImage] at h
  rcases h with h | h
  · split_ifs at h
    · cases h
      rfl
    · split at h
      · cases h
        rfl
      · cases h
  · split_ifs at h
    · cases h
      rfl
    · split at h
      · cases h
      · cases h
        rfl

theorem readHeader_error {base hdrSize : ℕ} (h : readHeader f ans base hdrSize st = .error st') :
  st'.accesses = st.accesses
  := by
  rw [readHeader] at h
  split at h
  · cases h
    rfl
  · simp only at h
    split_ifs at h
    cases h
    rfl

/-- One step of the loader after another. -/
theorem Ends.bind {α : Type} {x : Except Loader α} {g : α → Except Loader (Loader × Entry)}
    {entered : Loader → Prop} (herror : ∀ st, x = .error st → Safe f pe st)
    (hok : ∀ r, x = .ok r → Ends f pe entered (g r)) :
  Ends f pe entered (x >>= g)
  := by
  cases x with
  | error st => exact herror st rfl
  | ok r => exact hok r rfl

/-- Loading is safe but for the sections that are taken for empty ones, and user code is entered only
if the file can be loaded. -/
theorem processLoader_spec (env : Literal) (ans : Answers) (hs : Spawned f pe) :
  Ends f pe (fun st => Loadable f pe ∧
      (∀ i < sectionCount f.byte pe, (f.sec pe i).pageCount = 0 ∨ Loaded st i) ∧
      ∀ i, Loaded st i → (f.sec pe i).pageCount ≠ 0)
    (processLoader f env ans (f.base pe) (imgsize f.byte pe) (headerSize f.byte pe) Kinds.fresh)
  := by
  rw [processLoader]
  have hpages : pagesFor 64 (imgsize f.byte pe) = f.imagePages pe := rfl
  simp only [hpages]
  split_ifs with hpos
  · exact Safe.of_empty rfl
  apply Ends.bind
  · intro st hst
    apply Safe.of_empty (reserveImage_accesses (.inl hst))
  intro st₁ himage
  apply Ends.bind
  · intro st hst
    apply Safe.of_empty
    rw [readHeader_error hst, reserveImage_accesses (.inr himage)]
  intro st₂ hread
  obtain ⟨hheader, rfl⟩ := readHeader_ok hpos himage hread
  have hkept : Kept f pe
      { kinds := headerKinds f pe
        mem := ans.mem.fill (f.base pe) (headerSize f.byte pe) f.byte } := kept_header f pe ans.mem
  rw [hs.construct hkept.bytes]
  apply Ends.bind
  · intro st hst
    apply Safe.of_empty (userStack_error hst)
  rintro ⟨st₃, n, b⟩ hstack
  obtain ⟨hfits, hkept₃, hacc₃⟩ := userStack_ok hs hkept hheader.pages rfl hstack
  obtain ⟨hkept₄, hpassed⟩ := loadSections_spec ans hs hkept₃
  apply Ends.bind
  · intro st hst
    rw [hst] at hkept₄
    exact hkept₄.safe hs
  intro st₄ hst₄
  rw [hst₄] at hkept₄
  obtain ⟨herror, hok⟩ := copyEnvironment_spec env ans hs hkept₄
  apply Ends.bind
  · intro st hst
    exact (herror st hst).1.safe hs
  rintro ⟨st₅, page⟩ hst₅
  obtain ⟨hkept₅, hacc₅⟩ := hok st₅ page hst₅
  have hbase : imgbase st₅.mem (f.base pe + pe) = imgbase f.byte pe :=
    hs.qword hkept₅.bytes (by decide)
  have hentrance : entrance st₅.mem (f.base pe + pe) = entrance f.byte pe :=
    hs.dword hkept₅.bytes (by decide)
  simp only [hbase, hentrance]
  split_ifs with hentry
  · exact hkept₅.safe hs
  have hpassed₄ := hpassed st₄ hst₄
  refine ⟨hkept₅.safe hs, ⟨hheader, ⟨b, hfits⟩, fun i hi => hkept₄.sectionFits hpassed₄ hi,
    not_le.mp hentry⟩, ?_, ?_⟩
  · intro i hi
    apply (hpassed₄ i hi).2.imp_right
    intro hl
    apply hl.mono
    rw [hacc₅]
    apply List.Subset.refl
  · rintro i ⟨a, ha, rfl, -⟩
    exact (hkept₅.placed a ha).pos

/-- No environment. -/
def noEnvironment : Literal := ⟨[], by decide⟩

/-- A file that can be loaded is loaded if everything is granted. -/
theorem processLoader_of_loadable (hs : Spawned f pe) (h : Loadable f pe) :
  ∃ ans st e, processLoader f noEnvironment ans (f.base pe) (imgsize f.byte pe)
    (headerSize f.byte pe) Kinds.fresh = .ok (st, e)
  := by
  obtain ⟨hheader, ⟨addr, hstack⟩, hsections, hentry⟩ := h
  have hpages : pagesFor 64 (imgsize f.byte pe) = f.imagePages pe := rfl
  have hpos : f.imagePages pe ≠ 0 := by
    have hc := hheader.check
    simp only [Vspace.commonCheck, decide_eq_true_eq] at hc
    exact hc.2.1
  have hread := readHeader_of_fits hs hheader addr
  cases himage : reserveImage (granting f addr) (f.base pe) (f.imagePages pe)
      { kinds := Kinds.fresh, mem := fun _ => 0 } with
  | error st =>
      rw [himage] at hread
      cases hread
  | ok st₁ =>
      rw [himage] at hread
      change readHeader _ _ _ _ st₁ = _ at hread
      have hkept := kept_header f pe fun _ => 0
      obtain ⟨st₃, n, b, hst₃, hkinds⟩ := userStack_of_fits hs hkept hheader.pages rfl hstack
      obtain ⟨-, hkept₃, -⟩ := userStack_ok hs hkept hheader.pages rfl hst₃
      have hreserved : Reserved f pe st₃ 0 := by
        intro p hp hh _
        rw [hkinds p hp, headerKinds, Kinds.set_of_not_mem hh, Kinds.set_of_mem hp]
      have hloop := sectionLoop_of_fits hs hheader hsections addr (2 ^ 32) (Nat.zero_add _)
        (Nat.zero_le _) hkept₃ hreserved
      have hkept₄ := (sectionLoop_spec (granting f addr) hs (2 ^ 32) (Nat.zero_add _)
        (Nat.zero_le _) hkept₃ fun i hi => absurd hi (Nat.not_lt_zero i)).1
      generalize hst₄ : sectionLoop f (granting f addr) (f.base pe) (f.imagePages pe)
        (f.base pe + pe) (2 ^ 32) 0 st₃ = r at hloop hkept₄
      have hcount : sectionCount r.1.mem (f.base pe + pe) = sectionCount f.byte pe :=
        hs.word hkept₄.bytes (by decide)
      have hsec : loadSections f (granting f addr) (f.base pe) (f.imagePages pe) (f.base pe + pe)
          st₃ = .ok r.1 := by
        rw [loadSections]
        simp only [hst₄, hcount]
        rw [if_neg (not_not.mpr hloop)]
      have henv : copyEnvironment noEnvironment (granting f addr) r.1 = .ok (r.1, 0) := rfl
      have hbase : imgbase r.1.mem (f.base pe + pe) = imgbase f.byte pe :=
        hs.qword hkept₄.bytes (by decide)
      have hentrance : entrance r.1.mem (f.base pe + pe) = entrance f.byte pe :=
        hs.dword hkept₄.bytes (by decide)
      refine ⟨granting f addr, r.1, ?_⟩
      rw [processLoader]
      simp only [hpages]
      rw [if_neg hpos]
      change ∃ e, (reserveImage (granting f addr) (f.base pe) (f.imagePages pe)
        { kinds := Kinds.fresh, mem := fun _ => 0 } >>= _) = _
      rw [himage]
      change ∃ e, (readHeader f (granting f addr) (f.base pe) (headerSize f.byte pe) st₁ >>= _) = _
      rw [hread]
      simp only [bind, Except.bind, hs.construct hkept.bytes, hst₃, hsec, henv, hbase, hentrance]
      rw [if_neg (not_le.mpr hentry)]
      exact ⟨_, rfl⟩

/-- A file that can be loaded is not loaded safely if the size of a section wraps around. -/
theorem not_loadedSafely (hs : Spawned f pe) (h : Loadable f pe) (hi : i < sectionCount f.byte pe)
    (hround : (f.sec pe i).roundable = false) :
  ∃ env ans, ¬ LoadedSafely f pe (processLoader f env ans (f.base pe) (imgsize f.byte pe)
    (headerSize f.byte pe) Kinds.fresh)
  := by
  obtain ⟨ans, st, e, heq⟩ := processLoader_of_loadable hs h
  refine ⟨noEnvironment, ans, ?_⟩
  have hspec := processLoader_spec noEnvironment ans hs
  rw [heq] at hspec ⊢
  obtain ⟨-, -, -, hpos⟩ := hspec
  obtain ⟨hzero, hne⟩ := Section.pageCount_of_not_roundable (f.size_lt pe i) hround
  rintro ⟨-, hall⟩
  rcases hall i hi with hl | hmax
  · exact hpos i hl hzero
  · exact hne hmax

/-- A file that has passed the checks is loaded safely, whatever the address space and the file answer,
if the sizes of its sections do not wrap around when they are rounded up. If they do it is loaded
safely only because it cannot be loaded at all. -/
theorem loadedSafely_iff (h : spawnHeader f = some pe) :
  (∀ env ans, LoadedSafely f pe (processLoader f env ans (imgbase f.byte pe) (imgsize f.byte pe)
      (headerSize f.byte pe) Kinds.fresh)) ↔
    (∀ i < sectionCount f.byte pe, (f.sec pe i).roundable = true) ∨ ¬ Loadable f pe
  := by
  have hs := spawnHeader_spec h
  constructor
  · intro hall
    by_contra hne
    rw [not_or, not_not] at hne
    obtain ⟨hround, hload⟩ := hne
    apply hround
    intro i hi
    by_contra hi'
    obtain ⟨env, ans, hnot⟩ := not_loadedSafely hs hload hi (Bool.not_eq_true _ ▸ hi')
    exact hnot (hall env ans)
  · intro hor env ans
    have hspec := processLoader_spec env ans hs
    change LoadedSafely f pe (processLoader f env ans (f.base pe) (imgsize f.byte pe)
      (headerSize f.byte pe) Kinds.fresh)
    cases heq : processLoader f env ans (f.base pe) (imgsize f.byte pe) (headerSize f.byte pe)
        Kinds.fresh with
    | error st =>
        rw [heq] at hspec
        exact hspec
    | ok r =>
        rw [heq] at hspec
        obtain ⟨hsafe, hload, hloaded, -⟩ := hspec
        refine ⟨hsafe, ?_⟩
        intro i hi
        have hround := hor.resolve_right (not_not.mpr hload) i hi
        rcases hloaded i hi with hzero | hl
        · exact .inr ((Section.pageCount_eq_zero_iff hround).mp hzero)
        · exact .inl hl

/-- A program file of one sector. Its only section is described by the given bytes. -/
def sampleFile (entry : List (ℕ × UInt8)) : ImageFile where
  length := 0x200
  byte := fun a => ((entry ++ [(0x00, 0x4D), (0x01, 0x5A), (0x3C, 0x40), (0x40, 0x50),
    (0x41, 0x45), (0x44, 0x64), (0x45, 0x86), (0x46, 0x01), (0x54, 0xF0), (0x56, 0x02), (0x58, 0x0B),
    (0x59, 0x02), (0x72, 0x40), (0x91, 0x20), (0x95, 0x02), (0xA1, 0x10)]).lookup a).getD 0

/-- A section of one page is loaded safely. -/
theorem loadedSafely_iff_page :
  spawnHeader (sampleFile [(0xD1, 0x10), (0xD5, 0x10)]) = some 0x40 ∧
    ∀ env ans, LoadedSafely (sampleFile [(0xD1, 0x10), (0xD5, 0x10)]) 0x40
      (processLoader (sampleFile [(0xD1, 0x10), (0xD5, 0x10)]) env ans 0x400000 0x2000 0x200
        Kinds.fresh)
  := by
  have hspawn : spawnHeader (sampleFile [(0xD1, 0x10), (0xD5, 0x10)]) = some 0x40 := by
    rfl
  have hbase : imgbase (sampleFile [(0xD1, 0x10), (0xD5, 0x10)]).byte 0x40 = 0x400000 := by
    rfl
  have hsize : imgsize (sampleFile [(0xD1, 0x10), (0xD5, 0x10)]).byte 0x40 = 0x2000 := by
    rfl
  have hhead : headerSize (sampleFile [(0xD1, 0x10), (0xD5, 0x10)]).byte 0x40 = 0x200 := by
    rfl
  refine ⟨hspawn, ?_⟩
  have hiff := loadedSafely_iff hspawn
  rw [hbase, hsize, hhead] at hiff
  exact hiff.mpr (.inl (by decide))

/-- A file with a section of `0xFFFFF001` bytes, none of which are in the file. -/
def hugeFile : ImageFile := sampleFile [(0xD0, 0x01), (0xD1, 0xF0), (0xD2, 0xFF), (0xD3, 0xFF)]

/-- It can be loaded. -/
theorem loadable_hugeFile : Loadable hugeFile 0x40 := by
  have hbase : hugeFile.base 0x40 = 0x400000 := rfl
  have hpages : hugeFile.imagePages 0x40 = 2 := rfl
  have hheader : hugeFile.headerPages 0x40 = 1 := rfl
  have hstack : stackPages hugeFile 0x40 = 1 := rfl
  have hcount : sectionCount hugeFile.byte 0x40 = 1 := rfl
  refine ⟨⟨?_, ?_, ?_, ?_⟩, ⟨0x200000, ?_⟩, ?_, ?_⟩
  · rw [hbase, hpages]
    decide
  · rw [hbase]
    decide
  · rw [hheader, hpages]
    decide
  · decide
  · refine ⟨by lia, by lia, rfl, le_refl _, by lia, ?_⟩
    intro p hp hp'
    simp only [ImageFile.image, hbase, hpages, hstack, Run.mem_iff] at hp hp'
    lia
  · intro i hi
    obtain rfl : i = 0 := by lia
    have hzero : (hugeFile.sec 0x40 0).pageCount = 0 := rfl
    refine ⟨⟨rfl, rfl, rfl, ?_⟩, ?_, ?_, ?_⟩
    · intro hne
      exact absurd hzero hne
    · intro hne
      exact absurd hzero hne
    · intro hne
      exact absurd hzero hne
    · intro j hj
      exact absurd hj (Nat.not_lt_zero j)
  · decide

/-- The section is taken for an empty one, and user code is entered without it. -/
theorem section_skipped :
  spawnHeader hugeFile = some 0x40 ∧
    ¬ ∀ env ans, LoadedSafely hugeFile 0x40 (processLoader hugeFile env ans (imgbase hugeFile.byte 0x40)
      (imgsize hugeFile.byte 0x40) (headerSize hugeFile.byte 0x40) Kinds.fresh)
  := by
  have hspawn : spawnHeader hugeFile = some 0x40 := rfl
  refine ⟨hspawn, ?_⟩
  have hcount : 0 < sectionCount hugeFile.byte 0x40 := by decide
  have hround : (hugeFile.sec 0x40 0).roundable = false := rfl
  obtain ⟨env, ans, hnot⟩ :=
    not_loadedSafely (spawnHeader_spec hspawn) loadable_hugeFile hcount hround
  intro hall
  exact hnot (hall env ans)

end Loader

end UOS
