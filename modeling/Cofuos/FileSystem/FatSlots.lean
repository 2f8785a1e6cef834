import Cofuos.FileSystem.ClusterCache

/-!
# The slots of a reader of the allocation table

A reader keeps the slot of the last sector of the allocation table that it has read. It has to give
back every slot that it has obtained, once, and not to touch a slot that it has given back. The
definitions follow `fat_reader` of `kernel/filesystem/exfat.cpp`, and keep apart the slots that are
obtained one after the other.

A sector that lies outside of the allocation table is refused after the former slot has been given
back, but the reader does not forget this slot.
-/

namespace UOS

/-! ### The slots -/

/-- What a reader does with the slot that it has obtained by the access `k`. -/
inductive SlotEvent where
  | granted (k : ℕ)
  | used (k : ℕ)
  | relaxed (k : ℕ)
  deriving DecidableEq

/-- What a reader has done, the latest first. -/
structure SlotLog where
  /-- Which of the accesses to the disk succeed. -/
  succeeds : ℕ → Bool
  gets : ℕ := 0
  events : List SlotEvent := []

namespace SlotLog

/-- Asks for a slot. -/
def get (s : SlotLog) : Option ℕ × SlotLog :=
  if s.succeeds s.gets = true then
    (some s.gets, { s with gets := s.gets + 1, events := .granted s.gets :: s.events })
  else
    (none, { s with gets := s.gets + 1 })

/-- Gives a slot back if there is one. -/
def relaxAny (s : SlotLog) : Option ℕ → SlotLog
  | none => s
  | some k => { s with events := .relaxed k :: s.events }

/-- Reads or writes the contents of a slot. -/
def use (s : SlotLog) : Option ℕ → SlotLog
  | none => s
  | some k => { s with events := .used k :: s.events }

/-- Every slot is given back once, and is not used afterwards. -/
structure Balanced (s : SlotLog) : Prop where
  once : ∀ k, .granted k ∈ s.events → s.events.count (.relaxed k) = 1
  live : ∀ k post pre, s.events = post ++ .used k :: pre → .relaxed k ∉ pre

end SlotLog

/-! ### Slots that are held -/

namespace SlotLog

variable {s s' : SlotLog} {held : Option ℕ}

/-- Every slot but the one that is held has been given back once, and none has been used
afterwards. -/
structure Fine (s : SlotLog) (held : Option ℕ) : Prop where
  lt : ∀ k, .granted k ∈ s.events → k < s.gets
  own : ∀ k, .relaxed k ∈ s.events → .granted k ∈ s.events
  once : ∀ k, .granted k ∈ s.events → held ≠ some k → s.events.count (.relaxed k) = 1
  held : ∀ k, held = some k → .granted k ∈ s.events ∧ .relaxed k ∉ s.events
  live : ∀ k post pre, s.events = post ++ .used k :: pre → .relaxed k ∉ pre

theorem fine_init (succeeds : ℕ → Bool) : Fine { succeeds := succeeds } none := by
  constructor
  · intro k h
    cases h
  · intro k h
    cases h
  · intro k h
    cases h
  · intro k h
    cases h
  · intro k post pre h
    cases post <;> cases h

/-- The uses of a slot before the latest event are those before it. -/
theorem live_cons {e : SlotEvent} {events : List SlotEvent}
    (h : ∀ k post pre, events = post ++ .used k :: pre → .relaxed k ∉ pre)
    (he : ∀ k, e = .used k → .relaxed k ∉ events) :
  ∀ k post pre, e :: events = post ++ .used k :: pre → .relaxed k ∉ pre
  := by
  intro k post pre heq
  cases post with
  | nil =>
      cases heq
      apply he k rfl
  | cons e' post =>
      cases heq
      apply h k post pre rfl

namespace Fine

variable (h : s.Fine held)

include h

theorem relaxAny : (s.relaxAny held).Fine none := by
  cases held with
  | none => apply h
  | some k =>
      obtain ⟨hgranted, hnot⟩ := h.held k rfl
      constructor
      · intro j hj
        apply h.lt j (by simpa [SlotLog.relaxAny] using hj)
      · intro j hj
        rw [SlotLog.relaxAny, List.mem_cons] at hj
        apply List.mem_cons_of_mem
        obtain heq | hj := hj
        · cases heq
          apply hgranted
        · apply h.own j hj
      · intro j hj _
        have hj' : .granted j ∈ s.events := by simpa [SlotLog.relaxAny] using hj
        rw [SlotLog.relaxAny, List.count_cons]
        by_cases heq : j = k
        · rw [heq, List.count_eq_zero_of_not_mem hnot, if_pos (by simp)]
        · rw [h.once j hj' (by simpa using Ne.symm heq), if_neg (by simpa using Ne.symm heq)]
      · intro j hj
        cases hj
      · apply live_cons h.live
        intro j heq
        cases heq

theorem use : (s.use held).Fine held := by
  cases held with
  | none => apply h
  | some k =>
      obtain ⟨hgranted, hnot⟩ := h.held k rfl
      constructor
      · intro j hj
        apply h.lt j (by simpa [SlotLog.use] using hj)
      · intro j hj
        apply List.mem_cons_of_mem
        apply h.own j (by simpa [SlotLog.use] using hj)
      · intro j hj hne
        rw [SlotLog.use, List.count_cons_of_ne (by simp)]
        apply h.once j (by simpa [SlotLog.use] using hj) hne
      · intro j hj
        cases hj
        exact ⟨List.mem_cons_of_mem _ hgranted, by simpa [SlotLog.use] using hnot⟩
      · apply live_cons h.live
        intro j heq
        cases heq
        apply hnot

end Fine

/-- A slot that is obtained is a new one. -/
theorem Fine.get {slot : Option ℕ} (h : s.Fine none) (hget : s.get = (slot, s')) :
  s'.Fine slot
  := by
  rw [SlotLog.get] at hget
  split_ifs at hget
  · cases hget
    have hnew : .granted s.gets ∉ s.events := fun hmem => lt_irrefl _ (h.lt _ hmem)
    constructor
    · intro j hj
      obtain heq | hj := List.mem_cons.1 hj
      · cases heq
        apply Nat.lt_succ_self
      · apply Nat.lt_succ_of_lt (h.lt j hj)
    · intro j hj
      apply List.mem_cons_of_mem
      apply h.own j (by simpa using hj)
    · intro j hj hne
      rw [List.count_cons_of_ne (by simp)]
      apply h.once j _ (by simp)
      obtain heq | hj := List.mem_cons.1 hj
      · cases heq
        apply absurd rfl hne
      · apply hj
    · intro j hj
      cases hj
      refine ⟨List.mem_cons_self, ?_⟩
      intro hmem
      apply hnew (h.own _ (by simpa using hmem))
    · apply live_cons h.live
      intro j heq
      cases heq
  · cases hget
    refine ⟨?_, h.own, h.once, h.held, h.live⟩
    intro j hj
    apply Nat.lt_succ_of_lt (h.lt j hj)

/-- When no slot is held, every slot has been given back. -/
theorem Fine.balanced (h : s.Fine none) : s.Balanced :=
  ⟨fun k hk => h.once k hk (by simp), h.live⟩

/-! ### Slots that are given back twice -/

/-- A slot has been given back twice, or used after it has been given back. -/
def Spoilt (s : SlotLog) : Prop :=
  (∃ k, .granted k ∈ s.events ∧ 2 ≤ s.events.count (.relaxed k)) ∨
    ∃ k post pre, s.events = post ++ .used k :: pre ∧ .relaxed k ∈ pre

/-- This has happened, or the slot that is held has been given back. -/
def Doomed (s : SlotLog) (held : Option ℕ) : Prop :=
  s.Spoilt ∨ ∃ k, held = some k ∧ .granted k ∈ s.events ∧ .relaxed k ∈ s.events

theorem Spoilt.not_balanced (h : s.Spoilt) : ¬ s.Balanced := by
  rintro ⟨honce, hlive⟩
  obtain ⟨k, hk, hcount⟩ | ⟨k, post, pre, heq, hmem⟩ := h
  · rw [honce k hk] at hcount
    omega
  · apply hlive k post pre heq hmem

/-- What has happened is not undone by what happens later. -/
theorem Spoilt.mono (h : s.Spoilt) (later : List SlotEvent) (heq : s'.events = later ++ s.events) :
  s'.Spoilt
  := by
  obtain ⟨k, hk, hcount⟩ | ⟨k, post, pre, hevents, hmem⟩ := h
  · left
    refine ⟨k, heq ▸ List.mem_append_right _ hk, ?_⟩
    rw [heq, List.count_append]
    omega
  · right
    refine ⟨k, later ++ post, pre, ?_, hmem⟩
    rw [heq, hevents, List.append_assoc]

theorem Doomed.relaxAny (h : s.Doomed held) : (s.relaxAny held).Spoilt := by
  obtain h | ⟨k, rfl, hgranted, hmem⟩ := h
  · cases held with
    | none => apply h
    | some k => apply h.mono [.relaxed k] rfl
  · left
    refine ⟨k, List.mem_cons_of_mem _ hgranted, ?_⟩
    rw [SlotLog.relaxAny, List.count_cons_self]
    have := List.count_pos_iff.2 hmem
    omega

theorem Doomed.use (h : s.Doomed held) : (s.use held).Doomed held := by
  left
  obtain h | ⟨k, rfl, -, hmem⟩ := h
  · cases held with
    | none => apply h
    | some k => apply h.mono [.used k] rfl
  · right
    exact ⟨k, [], s.events, rfl, hmem⟩

theorem Spoilt.get {slot : Option ℕ} (h : s.Spoilt) (hget : s.get = (slot, s')) : s'.Spoilt := by
  rw [SlotLog.get] at hget
  split_ifs at hget
  · cases hget
    apply h.mono [.granted s.gets] rfl
  · cases hget
    apply h.mono [] rfl

end SlotLog

/-! ### The reader -/

/-- A reader of the allocation table. Its slot is known by the access by which it was obtained. -/
structure SlotReader where
  sectorIndex : ℕ := 0
  sectorLba : ℕ := 0
  fatSector : Option ℕ := none

namespace SlotReader

/-- Obtains the slot of the sector of a cluster. -/
def load (fs : Exfat) (r : SlotReader) (s : SlotLog) (cluster : ℕ) :
    Bool × SlotReader × SlotLog :=
  let sector := cluster / Exfat.elementPerSector
  if r.fatSector = none ∨ r.sectorIndex ≠ sector then
    let s := s.relaxAny r.fatSector
    let lba := fs.lbaOfFat sector
    if lba = 0 then
      -- cluster overflow
      (false, { r with sectorLba := lba }, s)
    else
      match s.get with
      | (none, s) => (false, { r with sectorLba := lba, fatSector := none }, s)
      | (some k, s) => (true, { sectorIndex := sector, sectorLba := lba, fatSector := some k }, s)
  else
    (true, r, s)

/-- The destructor. -/
def close (r : SlotReader) (s : SlotLog) : SlotLog := s.relaxAny r.fatSector

/-- The entry of a cluster, and `0` if it cannot be read. -/
def get (debug : Bool) (fs : Exfat) (r : SlotReader) (s : SlotLog) (cluster : ℕ) :
    Except Fault (ℕ × SlotReader × SlotLog) := do
  Fault.assert debug (2 ≤ cluster)
  match r.load fs s cluster with
  | (false, r, s) => return (0, r, s)
  | (true, r, s) => return (fs.fat cluster, r, s.use r.fatSector)

/-- Makes `next` the last cluster of a chain, and appends it to `tail` if that is not `0`. -/
def put (debug : Bool) (fs : Exfat) (r : SlotReader) (s : SlotLog) (tail next : ℕ) :
    Except Fault (Bool × Exfat × SlotReader × SlotLog) := do
  Fault.assert debug (2 ≤ next)
  match r.load fs s next with
  | (false, r, s) => return (false, fs, r, s)
  | (true, r, s) =>
    let s := s.use r.fatSector
    let fs := fs.setEntry next 0xFFFFFFFF
    if tail = 0 then
      return (true, fs, r, s)
    else
      Fault.assert debug (2 ≤ tail)
      match r.load fs s tail with
      | (false, r, s) => return (false, fs, r, s)
      | (true, r, s) =>
        let s := s.use r.fatSector
        if fs.fat tail < Exfat.END then
          return (false, fs, r, s)
        else
          return (true, fs.setEntry tail next, r, s.use r.fatSector)

end SlotReader

namespace SlotReader

variable {debug : Bool} {fs fs' : Exfat} {r r' : SlotReader} {s s' : SlotLog} {cluster : ℕ}
  {b : Bool}

/-- The sector of a reader that has a slot lies in the allocation table. -/
def Valid (fs : Exfat) (r : SlotReader) : Prop := r.fatSector ≠ none → r.sectorIndex < fs.fatLimit

/-- The entry of a cluster lies in the allocation table, or the reader has no slot. -/
def Within (fs : Exfat) (r : SlotReader) (cluster : ℕ) : Prop :=
  cluster / Exfat.elementPerSector < fs.fatLimit ∨ r.fatSector = none

theorem lbaOfFat_eq_zero_iff {sector : ℕ} : fs.lbaOfFat sector = 0 ↔ ¬ sector < fs.fatLimit := by
  have := fs.table_pos
  rw [Exfat.lbaOfFat]
  split_ifs with h
  · constructor
    · intro h₀
      omega
    · intro hnot
      apply absurd h hnot
  · simp [h]

/-- Loading a sector keeps the slots in order, if its entry lies in the allocation table. -/
theorem load_fine (hfine : s.Fine r.fatSector) (hr : r.Valid fs) (hin : r.Within fs cluster)
    (h : r.load fs s cluster = (b, r', s')) :
  s'.Fine r'.fatSector ∧ r'.Valid fs
  := by
  rw [load] at h
  dsimp only at h
  split_ifs at h with h₁ h₂
  · cases h
    -- no slot has been held
    have hnone := hin.resolve_left (lbaOfFat_eq_zero_iff.1 h₂)
    have hfine' := hfine.relaxAny
    refine ⟨?_, hr⟩
    dsimp only
    rw [hnone] at hfine ⊢
    apply hfine
  · have hlt : cluster / Exfat.elementPerSector < fs.fatLimit := by
      by_contra hout
      apply h₂ (lbaOfFat_eq_zero_iff.2 hout)
    split at h
    · rename_i hget
      cases h
      refine ⟨hfine.relaxAny.get hget, ?_⟩
      intro hne
      apply absurd rfl hne
    · rename_i hget
      cases h
      exact ⟨hfine.relaxAny.get hget, fun _ => hlt⟩
  · cases h
    exact ⟨hfine, hr⟩

/-- When an entry outside of the allocation table is asked for, the slot that was held has been
given back and is still held. -/
theorem load_outside (hfine : s.Fine r.fatSector) (hr : r.Valid fs) (hout : ¬ r.Within fs cluster)
    (h : r.load fs s cluster = (b, r', s')) :
  b = false ∧ s'.Doomed r'.fatSector
  := by
  rw [Within, not_or] at hout
  obtain ⟨hout, hsome⟩ := hout
  rw [load] at h
  dsimp only at h
  have hne : r.sectorIndex ≠ cluster / Exfat.elementPerSector := by
    intro heq
    apply hout
    rw [← heq]
    apply hr hsome
  rw [if_pos (Or.inr hne), if_pos (lbaOfFat_eq_zero_iff.2 hout)] at h
  cases h
  refine ⟨rfl, Or.inr ?_⟩
  obtain ⟨k, hk⟩ := Option.ne_none_iff_exists'.1 hsome
  refine ⟨k, hk, ?_, ?_⟩
  · rw [hk]
    apply List.mem_cons_of_mem
    apply (hfine.held k hk).1
  · rw [hk]
    apply List.mem_cons_self

/-- A reader whose slots are not in order stays so. -/
theorem load_doomed (hdoomed : s.Doomed r.fatSector) (h : r.load fs s cluster = (b, r', s')) :
  s'.Doomed r'.fatSector
  := by
  rw [load] at h
  dsimp only at h
  split_ifs at h
  · cases h
    left
    apply hdoomed.relaxAny
  · left
    split at h
    · rename_i hget
      cases h
      apply hdoomed.relaxAny.get hget
    · rename_i hget
      cases h
      apply hdoomed.relaxAny.get hget
  · cases h
    apply hdoomed

/-- A reader and its slots behave as the reader that is used elsewhere, which knows its slot by the
page. -/
structure Agrees (r : SlotReader) (s : SlotLog) (q : FatReader) (dm : Dm) : Prop where
  sectorIndex : r.sectorIndex = q.sectorIndex
  sectorLba : r.sectorLba = q.sectorLba
  fatSector : r.fatSector = none ↔ q.fatSector = none
  gets : s.gets = dm.gets
  succeeds : s.succeeds = dm.succeeds

theorem Agrees.uses {q : FatReader} {dm : Dm} (h : Agrees r s q dm) (held : Option ℕ) :
  Agrees r (s.use held) q dm
  := by
  cases held with
  | none => apply h
  | some k => exact ⟨h.sectorIndex, h.sectorLba, h.fatSector, h.gets, h.succeeds⟩

/-- Loading a sector succeeds for both readers, or for none. -/
theorem Agrees.load {q : FatReader} {dm : Dm} (h : Agrees r s q dm) (fs : Exfat) (cluster : ℕ) :
  (r.load fs s cluster).1 = (q.load fs dm cluster).1 ∧
    Agrees (r.load fs s cluster).2.1 (r.load fs s cluster).2.2 (q.load fs dm cluster).2.1
      (q.load fs dm cluster).2.2
  := by
  have hrelaxed : (s.relaxAny r.fatSector).gets = (dm.relaxAny q.fatSector).gets ∧
      (s.relaxAny r.fatSector).succeeds = (dm.relaxAny q.fatSector).succeeds := by
    constructor
    · cases r.fatSector <;> cases q.fatSector <;> exact h.gets
    · cases r.fatSector <;> cases q.fatSector <;> exact h.succeeds
  have hiff : (r.fatSector = none ∨ r.sectorIndex ≠ cluster / Exfat.elementPerSector) ↔
      (q.fatSector = none ∨ q.sectorIndex ≠ cluster / Exfat.elementPerSector) := by
    rw [h.fatSector, h.sectorIndex]
  rw [SlotReader.load, FatReader.load]
  dsimp only
  by_cases hnew : r.fatSector = none ∨ r.sectorIndex ≠ cluster / Exfat.elementPerSector
  · rw [if_pos hnew, if_pos (hiff.1 hnew)]
    by_cases hover : fs.lbaOfFat (cluster / Exfat.elementPerSector) = 0
    · rw [if_pos hover, if_pos hover]
      exact ⟨rfl, h.sectorIndex, rfl, h.fatSector, hrelaxed.1, hrelaxed.2⟩
    · rw [if_neg hover, if_neg hover, SlotLog.get, Dm.get, hrelaxed.1, hrelaxed.2]
      dsimp only
      split_ifs
      · exact ⟨rfl, rfl, rfl, by simp, rfl, rfl⟩
      · exact ⟨rfl, h.sectorIndex, rfl, by simp, rfl, rfl⟩
  · rw [if_neg hnew, if_neg (fun hq => hnew (hiff.2 hq))]
    exact ⟨rfl, h⟩

/-- A slot is used up to twice after it has been loaded. -/
def Uses (s s' : SlotLog) (held : Option ℕ) : Prop :=
  s' = s ∨ s' = s.use held ∨ s' = (s.use held).use held

theorem Uses.fine {held : Option ℕ} (h : Uses s s' held) (hfine : s.Fine held) : s'.Fine held := by
  obtain rfl | rfl | rfl := h
  · apply hfine
  · apply hfine.use
  · apply hfine.use.use

theorem Uses.doomed {held : Option ℕ} (h : Uses s s' held) (hdoomed : s.Doomed held) :
  s'.Doomed held
  := by
  obtain rfl | rfl | rfl := h
  · apply hdoomed
  · apply hdoomed.use
  · apply hdoomed.use.use

/-- Both readers read the same. -/
theorem Agrees.get {q : FatReader} {dm : Dm} {v : ℕ} (h : Agrees r s q dm)
    (hget : r.get debug fs s cluster = .ok (v, r', s')) :
  ∃ q' dm', q.get debug fs dm cluster = .ok (v, q', dm') ∧ Agrees r' s' q' dm'
  := by
  rw [SlotReader.get, Except.bind_eq_ok_iff] at hget
  obtain ⟨_, hassert, hget⟩ := hget
  rw [FatReader.get, hassert, Except.ok_bind]
  obtain ⟨hb, hagrees⟩ := h.load fs cluster
  revert hget hb hagrees
  rcases r.load fs s cluster with ⟨b, r₁, s₁⟩
  rcases q.load fs dm cluster with ⟨b', q₁, dm₁⟩
  rintro hget rfl hagrees
  cases b with
  | false =>
      cases hget
      exact ⟨_, _, rfl, hagrees⟩
  | true =>
      cases hget
      exact ⟨_, _, rfl, hagrees.uses _⟩

/-- Both readers append a cluster in the same way. -/
theorem Agrees.put {q : FatReader} {dm : Dm} {tail next : ℕ} {done : Bool} (h : Agrees r s q dm)
    (hput : r.put debug fs s tail next = .ok (done, fs', r', s')) :
  ∃ q' dm', q.put debug fs dm tail next = .ok (done, fs', q', dm') ∧ Agrees r' s' q' dm'
  := by
  rw [SlotReader.put, Except.bind_eq_ok_iff] at hput
  obtain ⟨_, hassert, hput⟩ := hput
  rw [FatReader.put, hassert, Except.ok_bind]
  obtain ⟨hb, hagrees⟩ := h.load fs next
  revert hput hb hagrees
  rcases r.load fs s next with ⟨b, r₁, s₁⟩
  rcases q.load fs dm next with ⟨b', q₁, dm₁⟩
  rintro hput rfl hagrees
  cases b with
  | false =>
      cases hput
      exact ⟨_, _, rfl, hagrees⟩
  | true =>
      dsimp only at hput hagrees ⊢
      by_cases ht : tail = 0
      · rw [if_pos ht] at hput ⊢
        cases hput
        exact ⟨_, _, rfl, hagrees.uses _⟩
      · rw [if_neg ht, Except.bind_eq_ok_iff] at hput
        obtain ⟨_, hassert', hput⟩ := hput
        rw [if_neg ht, hassert', Except.ok_bind]
        obtain ⟨hb₂, hagrees₂⟩ := (hagrees.uses r₁.fatSector).load (fs.setEntry next 0xFFFFFFFF)
          tail
        revert hput hb₂ hagrees₂
        rcases r₁.load (fs.setEntry next 0xFFFFFFFF) (s₁.use r₁.fatSector) tail with ⟨b₂, r₂, s₂⟩
        rcases q₁.load (fs.setEntry next 0xFFFFFFFF) dm₁ tail with ⟨b₂', q₂, dm₂⟩
        rintro hput rfl hagrees₂
        cases b₂ with
        | false =>
            cases hput
            exact ⟨_, _, rfl, hagrees₂⟩
        | true =>
            dsimp only at hput ⊢
            by_cases hend : (fs.setEntry next 0xFFFFFFFF).fat tail < Exfat.END
            · rw [if_pos hend] at hput ⊢
              cases hput
              exact ⟨_, _, rfl, hagrees₂.uses _⟩
            · rw [if_neg hend] at hput ⊢
              cases hput
              exact ⟨_, _, rfl, (hagrees₂.uses _).uses _⟩

/-- Reading an entry loads its sector and uses the slot. -/
theorem get_inv {v : ℕ} (h : r.get debug fs s cluster = .ok (v, r', s')) :
  ∃ b s₁, r.load fs s cluster = (b, r', s₁) ∧ Uses s₁ s' r'.fatSector
  := by
  rw [get, Except.bind_eq_ok_iff] at h
  obtain ⟨-, -, h⟩ := h
  split at h
  · rename_i hload
    cases h
    exact ⟨_, _, hload, Or.inl rfl⟩
  · rename_i hload
    cases h
    exact ⟨_, _, hload, Or.inr (Or.inl rfl)⟩

/-- Appending a cluster loads its sector, and that of the tail if there is one. -/
theorem put_inv {tail next : ℕ} {done : Bool}
    (h : r.put debug fs s tail next = .ok (done, fs', r', s')) :
  fs'.fatLimit = fs.fatLimit ∧ ∃ b r₁ s₁, r.load fs s next = (b, r₁, s₁) ∧
    ((b = false ∨ tail = 0) ∧ r' = r₁ ∧ Uses s₁ s' r₁.fatSector ∨
      b = true ∧ tail ≠ 0 ∧ ∃ b₂ s₂,
        r₁.load (fs.setEntry next 0xFFFFFFFF) (s₁.use r₁.fatSector) tail = (b₂, r', s₂) ∧
        Uses s₂ s' r'.fatSector)
  := by
  rw [put, Except.bind_eq_ok_iff] at h
  obtain ⟨-, -, h⟩ := h
  split at h
  · rename_i hload
    cases h
    exact ⟨rfl, _, _, _, hload, Or.inl ⟨Or.inl rfl, rfl, Or.inl rfl⟩⟩
  · rename_i hload
    dsimp only at h
    by_cases ht : tail = 0
    · rw [if_pos ht] at h
      cases h
      exact ⟨rfl, _, _, _, hload, Or.inl ⟨Or.inr ht, rfl, Or.inr (Or.inl rfl)⟩⟩
    · rw [if_neg ht, Except.bind_eq_ok_iff] at h
      obtain ⟨-, -, h⟩ := h
      split at h
      · rename_i hload'
        cases h
        exact ⟨rfl, _, _, _, hload, Or.inr ⟨rfl, ht, _, _, hload', Or.inl rfl⟩⟩
      · rename_i hload'
        split_ifs at h
        · cases h
          exact ⟨rfl, _, _, _, hload, Or.inr ⟨rfl, ht, _, _, hload', Or.inr (Or.inl rfl)⟩⟩
        · cases h
          exact ⟨rfl, _, _, _, hload, Or.inr ⟨rfl, ht, _, _, hload', Or.inr (Or.inr rfl)⟩⟩

end SlotReader

/-! ### Runs -/

/-- A reader, with the allocation table that it reads. -/
structure Reading where
  fs : Exfat
  reader : SlotReader
  log : SlotLog

namespace Reading

/-- The calls of a reader. -/
inductive Call where
  | get (cluster : ℕ)
  | put (tail next : ℕ)

/-- The numbers that a call is given are those of clusters, or there is no tail. -/
def Call.Valid : Call → Prop
  | .get cluster => 2 ≤ cluster
  | .put tail next => 2 ≤ next ∧ (tail = 0 ∨ 2 ≤ tail)

def exec (debug : Bool) (s : Reading) : Call → Except Fault Reading
  | .get cluster => do
    let (_, r, log) ← s.reader.get debug s.fs s.log cluster
    return { s with reader := r, log := log }
  | .put tail next => do
    let (_, fs, r, log) ← s.reader.put debug s.fs s.log tail next
    return { fs := fs, reader := r, log := log }

/-- Performs the calls of a reader. -/
def execAll (debug : Bool) : Reading → List Call → Except Fault Reading
  | s, [] => .ok s
  | s, call :: calls => do
    let s ← s.exec debug call
    execAll debug s calls

/-- A reader that has just been made. -/
def start (fs : Exfat) (succeeds : ℕ → Bool) : Reading where
  fs := fs
  reader := {}
  log := { succeeds := succeeds }

/-- What has been done when the reader is destroyed. -/
def destroyed (s : Reading) : SlotLog := s.reader.close s.log

/-- A call asks only for entries within the allocation table, unless the reader has no slot. -/
def Call.Within (s : Reading) : Call → Prop
  | .get cluster => s.reader.Within s.fs cluster
  | .put tail next => s.reader.Within s.fs next ∧ ∀ r log,
      s.reader.load s.fs s.log next = (true, r, log) → tail ≠ 0 → r.Within s.fs tail

/-- All calls of a reader do. -/
def AllWithin (debug : Bool) : Reading → List Call → Prop
  | _, [] => True
  | s, call :: calls => call.Within s ∧ ∀ s', s.exec debug call = .ok s' → AllWithin debug s' calls

variable {debug : Bool} {s s' : Reading} {call : Call} {calls : List Call}

/-- The slots are in order. -/
def Good (s : Reading) : Prop := s.log.Fine s.reader.fatSector ∧ s.reader.Valid s.fs

/-- The slots are not in order. -/
def Bad (s : Reading) : Prop := s.log.Doomed s.reader.fatSector

/-- A call with numbers of clusters returns. -/
theorem exec_returns (h : debug = true → call.Valid) : ∃ s', s.exec debug call = .ok s' := by
  cases call with
  | get cluster =>
      have h₂ : debug = true → 2 ≤ cluster := h
      rw [exec, SlotReader.get, Fault.assert_eq_ok h₂, Except.ok_bind]
      split
      · exact ⟨_, rfl⟩
      · exact ⟨_, rfl⟩
  | put tail next =>
      rw [exec, SlotReader.put, Fault.assert_eq_ok (fun hd => (h hd).1), Except.ok_bind]
      split
      · exact ⟨_, rfl⟩
      · dsimp only
        by_cases ht : tail = 0
        · rw [if_pos ht]
          exact ⟨_, rfl⟩
        · rw [if_neg ht, Fault.assert_eq_ok (fun hd => (h hd).2.resolve_left ht), Except.ok_bind]
          split
          · exact ⟨_, rfl⟩
          · split_ifs
            · exact ⟨_, rfl⟩
            · exact ⟨_, rfl⟩

/-- A call that asks only for entries within the allocation table keeps the slots in order. -/
theorem Good.exec (h : s.Good) (hin : call.Within s) (hexec : s.exec debug call = .ok s') :
  s'.Good
  := by
  obtain ⟨hfine, hr⟩ := h
  cases call with
  | get cluster =>
      rw [Reading.exec, Except.bind_eq_ok_iff] at hexec
      obtain ⟨⟨v, r, log⟩, hget, heq⟩ := hexec
      cases heq
      obtain ⟨b, s₁, hload, huses⟩ := SlotReader.get_inv hget
      obtain ⟨hfine₁, hr₁⟩ := SlotReader.load_fine hfine hr hin hload
      exact ⟨huses.fine hfine₁, hr₁⟩
  | put tail next =>
      rw [Reading.exec, Except.bind_eq_ok_iff] at hexec
      obtain ⟨⟨done, fs, r, log⟩, hput, heq⟩ := hexec
      cases heq
      obtain ⟨hlimit, b, r₁, s₁, hload, hrest⟩ := SlotReader.put_inv hput
      obtain ⟨hfine₁, hr₁⟩ := SlotReader.load_fine hfine hr hin.1 hload
      obtain ⟨-, rfl, huses⟩ | ⟨rfl, ht, b₂, s₂, hload₂, huses⟩ := hrest
      · refine ⟨huses.fine hfine₁, ?_⟩
        rw [SlotReader.Valid, hlimit]
        apply hr₁
      · have hin₂ := hin.2 r₁ s₁ hload ht
        obtain ⟨hfine₂, hr₂⟩ := SlotReader.load_fine hfine₁.use hr₁ hin₂ hload₂
        refine ⟨huses.fine hfine₂, ?_⟩
        rw [SlotReader.Valid, hlimit]
        apply hr₂

/-- A call that asks for an entry outside of the allocation table does not. -/
theorem Good.exec_outside (h : s.Good) (hout : ¬ call.Within s)
    (hexec : s.exec debug call = .ok s') :
  s'.Bad
  := by
  obtain ⟨hfine, hr⟩ := h
  cases call with
  | get cluster =>
      rw [Reading.exec, Except.bind_eq_ok_iff] at hexec
      obtain ⟨⟨v, r, log⟩, hget, heq⟩ := hexec
      cases heq
      obtain ⟨b, s₁, hload, huses⟩ := SlotReader.get_inv hget
      apply huses.doomed (SlotReader.load_outside hfine hr hout hload).2
  | put tail next =>
      rw [Reading.exec, Except.bind_eq_ok_iff] at hexec
      obtain ⟨⟨done, fs, r, log⟩, hput, heq⟩ := hexec
      cases heq
      obtain ⟨-, b, r₁, s₁, hload, hrest⟩ := SlotReader.put_inv hput
      by_cases hin : s.reader.Within s.fs next
      · -- the entry of the tail is the one outside
        obtain ⟨hfine₁, hr₁⟩ := SlotReader.load_fine hfine hr hin hload
        obtain ⟨hno, rfl, -⟩ | ⟨rfl, ht, b₂, s₂, hload₂, huses⟩ := hrest
        · exfalso
          apply hout
          refine ⟨hin, ?_⟩
          intro r' log' hload' ht
          rw [hload] at hload'
          cases hload'
          apply absurd (hno.resolve_right ht) (by decide)
        · apply huses.doomed
          refine (SlotReader.load_outside hfine₁.use hr₁ ?_ hload₂).2
          intro hin₂
          apply hout
          refine ⟨hin, ?_⟩
          intro r' log' hload' _
          rw [hload] at hload'
          cases hload'
          apply hin₂
      · obtain ⟨rfl, hdoomed⟩ := SlotReader.load_outside hfine hr hin hload
        obtain ⟨-, rfl, huses⟩ | ⟨hb, -⟩ := hrest
        · apply huses.doomed hdoomed
        · cases hb

/-- Slots that are not in order stay so. -/
theorem Bad.exec (h : s.Bad) (hexec : s.exec debug call = .ok s') : s'.Bad := by
  cases call with
  | get cluster =>
      rw [Reading.exec, Except.bind_eq_ok_iff] at hexec
      obtain ⟨⟨v, r, log⟩, hget, heq⟩ := hexec
      cases heq
      obtain ⟨b, s₁, hload, huses⟩ := SlotReader.get_inv hget
      apply huses.doomed (SlotReader.load_doomed h hload)
  | put tail next =>
      rw [Reading.exec, Except.bind_eq_ok_iff] at hexec
      obtain ⟨⟨done, fs, r, log⟩, hput, heq⟩ := hexec
      cases heq
      obtain ⟨-, b, r₁, s₁, hload, hrest⟩ := SlotReader.put_inv hput
      have hdoomed := SlotReader.load_doomed h hload
      obtain ⟨-, rfl, huses⟩ | ⟨-, -, b₂, s₂, hload₂, huses⟩ := hrest
      · apply huses.doomed hdoomed
      · apply huses.doomed (SlotReader.load_doomed hdoomed.use hload₂)

theorem Bad.execAll (h : s.Bad) (hexec : execAll debug s calls = .ok s') : s'.Bad := by
  induction calls generalizing s with
  | nil =>
      cases hexec
      apply h
  | cons call calls ih =>
      rw [Reading.execAll, Except.bind_eq_ok_iff] at hexec
      obtain ⟨s₁, hcall, hexec⟩ := hexec
      apply ih (h.exec hcall) hexec

/-- After a sequence of calls, the slots are in order exactly if all calls ask only for entries
within the allocation table. -/
theorem Good.execAll (h : s.Good) (hexec : execAll debug s calls = .ok s') :
  (AllWithin debug s calls → s'.Good) ∧ (¬ AllWithin debug s calls → s'.Bad)
  := by
  induction calls generalizing s with
  | nil =>
      cases hexec
      exact ⟨fun _ => h, fun hnot => absurd trivial hnot⟩
  | cons call calls ih =>
      rw [Reading.execAll, Except.bind_eq_ok_iff] at hexec
      obtain ⟨s₁, hcall, hexec⟩ := hexec
      have hnext : ∀ s'', s.exec debug call = .ok s'' → s'' = s₁ := by
        intro s'' hcall'
        rw [hcall] at hcall'
        cases hcall'
        rfl
      constructor
      · rintro ⟨hin, hall⟩
        apply (ih (h.exec hin hcall) hexec).1 (hall s₁ hcall)
      · intro hnot
        by_cases hin : call.Within s
        · apply (ih (h.exec hin hcall) hexec).2
          intro hall
          apply hnot ⟨hin, fun s'' hcall' => hnext s'' hcall' ▸ hall⟩
        · apply (h.exec_outside hin hcall).execAll hexec

theorem good_start (fs : Exfat) (succeeds : ℕ → Bool) : (start fs succeeds).Good := by
  refine ⟨SlotLog.fine_init succeeds, ?_⟩
  intro hne
  apply absurd rfl hne

/-- A reader gives back every slot that it has obtained, once and not to be used again, exactly if
it is not asked for an entry outside of the allocation table while it has a slot. -/
theorem balanced_iff (debug : Bool) (fs : Exfat) (succeeds : ℕ → Bool) (calls : List Call)
    (hvalid : ∀ call ∈ calls, call.Valid) :
  ∃ s, execAll debug (start fs succeeds) calls = .ok s ∧
    (s.destroyed.Balanced ↔ AllWithin debug (start fs succeeds) calls)
  := by
  have hreturns : ∀ s₀ : Reading, ∃ s, execAll debug s₀ calls = .ok s := by
    induction calls with
    | nil =>
        intro s₀
        exact ⟨s₀, rfl⟩
    | cons call calls ih =>
        intro s₀
        obtain ⟨s₁, hcall⟩ := exec_returns (s := s₀) fun _ : debug = true =>
          hvalid call List.mem_cons_self
        rw [Reading.execAll, hcall]
        apply ih fun c hc => hvalid c (List.mem_cons_of_mem _ hc)
  obtain ⟨s, hexec⟩ := hreturns (start fs succeeds)
  refine ⟨s, hexec, ?_⟩
  obtain ⟨hgood, hbad⟩ := (good_start fs succeeds).execAll hexec
  constructor
  · intro hbalanced
    by_contra hnot
    apply ((hbad hnot).relaxAny).not_balanced hbalanced
  · intro hall
    apply (hgood hall).1.relaxAny.balanced

/-- The entries that a call asks for lie in the allocation table. -/
def Call.InTable (fs : Exfat) : Call → Prop
  | .get cluster => cluster / Exfat.elementPerSector < fs.fatLimit
  | .put tail next => next / Exfat.elementPerSector < fs.fatLimit ∧
      tail / Exfat.elementPerSector < fs.fatLimit

/-- Calls that ask only for entries of the allocation table do so whatever slots the reader has. -/
theorem allWithin_of_inTable (h : ∀ call ∈ calls, call.InTable s.fs) : AllWithin debug s calls := by
  induction calls generalizing s with
  | nil => trivial
  | cons call calls ih =>
      have hcall := h call List.mem_cons_self
      constructor
      · cases call with
        | get cluster => exact Or.inl hcall
        | put tail next => exact ⟨Or.inl hcall.1, fun _ _ _ _ => Or.inl hcall.2⟩
      · intro s' hexec
        have hlimit : s'.fs.fatLimit = s.fs.fatLimit := by
          cases call with
          | get cluster =>
              rw [exec, Except.bind_eq_ok_iff] at hexec
              obtain ⟨_, -, heq⟩ := hexec
              cases heq
              rfl
          | put tail next =>
              rw [exec, Except.bind_eq_ok_iff] at hexec
              obtain ⟨⟨done, fs, r, log⟩, hput, heq⟩ := hexec
              cases heq
              apply (SlotReader.put_inv hput).1
        apply ih
        intro c hc
        have := h c (List.mem_cons_of_mem _ hc)
        cases c with
        | get cluster =>
            rw [Call.InTable, hlimit]
            apply this
        | put tail next =>
            rw [Call.InTable, hlimit]
            apply this

/-- The last cluster of a chain is looked up, and another one is appended to it. -/
theorem balanced_appended :
  ∃ s, execAll true (start (Chains.threeClusters true) fun _ => true)
      [.get 2, .get 3, .put 4 5] = .ok s ∧ s.destroyed.Balanced
  := by
  obtain ⟨s, hexec, hiff⟩ := balanced_iff true (Chains.threeClusters true) (fun _ => true)
    [.get 2, .get 3, .put 4 5] (by simp [Call.Valid])
  refine ⟨s, hexec, hiff.2 (allWithin_of_inTable ?_)⟩
  intro call hcall
  fin_cases hcall
  · change 2 / 128 < 1
    decide
  · change 3 / 128 < 1
    decide
  · change 5 / 128 < 1 ∧ 4 / 128 < 1
    decide

/-- When the entry of a cluster leads outside of the allocation table, the slot of the sector before
is given back twice. -/
theorem relaxed_twice :
  ∃ s, execAll true (start (Chains.threeClusters true) fun _ => true) [.get 2, .get 128] = .ok s ∧
    ¬ s.destroyed.Balanced
  := by
  refine ⟨_, rfl, ?_⟩
  rintro ⟨honce, -⟩
  apply absurd (honce 0 (by decide))
  decide

end Reading

end UOS
