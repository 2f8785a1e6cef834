import Cofuos.Disk.SingleCopy

/-!
# The cache is transparent

A single client that gives back every slot before it gets the next one sees the sectors as it
has last written them, whatever is flushed in the background, and after a last flush they are
on the disk.

A sector is valid in at most one slot, where it has its last contents. If it is not dirty in
any slot, it has them on the disk. While a slot is being flushed its sectors are still dirty,
and the thread that flushes it knows which of them are on the disk already.
-/

namespace UOS

open Fault

namespace Disk

variable {σ : Type} {n client : ℕ} {v : View σ} {s s' : State σ} {t : ℕ}

/-- The inputs of a single client. It gets a slot when it holds none, it writes to the sectors
that it has obtained with a write or that it has upgraded, and it only upgrades sectors that it
has obtained. Any thread may flush the cache, and commands to the disk succeed. -/
def Sequential (n client : ℕ) (v : View σ) (s : State σ) : Input σ → Prop
  | .get t _ => t = client ∧ ∀ k < n, (s.slot k).objlock ≠ some client
  | .upgrade t k lba cnt => t = client ∧ ∃ c ∈ v.obtained k,
      c.write = true → c.lba ≤ lba ∧ lba + cnt ≤ c.lba + c.count
  | .edit t k lba _ => t = client ∧ v.editable k lba
  | .data t _ _ | .relax t _ _ => t = client
  | .flush _ => True
  | .run _ ok _ => ok = true

/-! ### Sectors and their contents -/

/-- The sector `lba` is dirty in a slot. -/
def Slot.Dirty (slot : Slot σ) (lba : ℕ) : Prop :=
  slot.lbaBase = pageLba lba ∧ slot.dirty.getLsbD (lba % 8) = true

/-- The slots and the disk have the contents of the sectors. -/
structure State.Agrees (s : State σ) (content : ℕ → σ) : Prop where
  masks : ∀ k i, i < 8 → (s.slot k).dirty.getLsbD i = true → (s.slot k).valid.getLsbD i = true
  aligned : ∀ k, (s.slot k).valid ≠ 0 → (s.slot k).lbaBase % 8 = 0
  fresh : ∀ k i, i < 8 → (s.slot k).valid.getLsbD i = true →
    (s.slot k).access i = content ((s.slot k).lbaBase + i)
  clean : ∀ lba, (∀ k, ¬ (s.slot k).Dirty lba) → s.disk lba = content lba

/-- What a thread knows of the slot that it works on. -/
def Pc.Knows (s : State σ) : Pc → Prop
  | .got k c => c.write = false → (s.slot k).valid = 0xFF
  | .read k _ => (s.slot k).valid = 0 ∧ (s.slot k).dirty = 0
  | .flushLoop k i head _ => head ≤ i ∧ i ≤ 9 ∧
      (∀ j, head ≤ j → j < i → (s.slot k).dirty.getLsbD j = true) ∧
      ∀ j, j < head → (s.slot k).dirty.getLsbD j = true →
        s.disk ((s.slot k).lbaBase + j) = (s.slot k).access j
  | .flushed k cont true => cont.call ≠ none → (s.slot k).dirty = 0
  | _ => True

/-- The points of the program that a thread comes to which only flushes the cache. -/
def Pc.background : Pc → Bool
  | .idle | .sweep _ => true
  | .flush _ cont | .flushLoop _ _ _ cont | .flushed _ cont _ => cont = .sweep
  | _ => false

/-- What the client knows while it looks for a page. -/
def Pc.Searched (s : State σ) : Pc → Prop
  | .search c _ index _ => ∀ k < index, (s.slot k).isMatch c.page = false
  | .lock c _ index _ | .locked c _ index _ =>
      (∀ k < index, (s.slot k).isMatch c.page = false) ∧ (s.slot index).isMatch c.page = true
  | .probe c _ index _ => ∀ k ≤ index, (s.slot k).isMatch c.page = false
  | _ => True

/-- A slot that the client has obtained with the call `c`. -/
structure State.Held (n client : ℕ) (s : State σ) (k : ℕ) (c : Call) : Prop where
  keeps : s.Keeps n client k
  lbaBase : (s.slot k).lbaBase = c.page
  read : c.write = false → (s.slot k).valid = 0xFF
  write : c.write = true → ∀ lba, c.lba ≤ lba → lba < c.lba + c.count →
    (s.slot k).valid.getLsbD (lba % 8) = true

/-- The state of the cache in a run with a single client. -/
structure State.Transparent (n client : ℕ) (v : View σ) (s : State σ) : Prop where
  ok : s.Ok n
  checked : s.Checked
  unique : s.Unique
  outer : ∀ k, n ≤ k → (s.slot k).valid = 0
  agrees : s.Agrees v.content
  knows : ∀ t, (s.pc t).Knows s
  background : ∀ t, t ≠ client → (s.pc t).background = true
  searched : (s.pc client).Searched s
  held : ∀ k c, v.obtained k = some c → s.Held n client k c
  editable : ∀ k lba, v.editable k lba → s.Keeps n client k ∧ (s.slot k).Dirty lba

/-! ### Steps that do not touch the sectors -/

/-- Two slots differ in their locks and timestamps only. -/
structure Slot.Same (slot slot' : Slot σ) : Prop where
  lbaBase : slot'.lbaBase = slot.lbaBase
  valid : slot'.valid = slot.valid
  dirty : slot'.dirty = slot.dirty
  access : slot'.access = slot.access

/-- Two states have the same sectors. -/
structure State.Similar (s s' : State σ) : Prop where
  slot : ∀ k, (s.slot k).Same (s'.slot k)
  disk : s'.disk = s.disk

theorem similar_goto (t : ℕ) (p : Pc) : s.Similar (s.goto t p) :=
  ⟨fun _ => ⟨rfl, rfl, rfl, rfl⟩, rfl⟩

theorem similar_setSlot {k : ℕ} {slot : Slot σ} (h : (s.slot k).Same slot) (t : ℕ) (p : Pc) :
  s.Similar ((s.setSlot k slot).goto t p)
  := by
  constructor
  · intro k'
    rw [State.goto_slot]
    by_cases hk : k' = k
    · subst hk
      rw [State.setSlot_slot_self]
      apply h
    · rw [State.setSlot_slot_of_ne _ _ hk]
      exact ⟨rfl, rfl, rfl, rfl⟩
  · rfl

theorem similar_lock (k t t' : ℕ) (p : Pc) : s.Similar ((s.lock t k).goto t' p) := by
  apply similar_setSlot
  exact ⟨rfl, rfl, rfl, rfl⟩

theorem similar_unlock (k t : ℕ) (p : Pc) : s.Similar ((s.unlock k).goto t p) := by
  apply similar_setSlot
  exact ⟨rfl, rfl, rfl, rfl⟩

theorem Slot.Same.isMatch {slot slot' : Slot σ} (h : slot.Same slot') (page : ℕ) :
  slot'.isMatch page = slot.isMatch page
  := by
  simp only [Slot.isMatch, h.valid, h.lbaBase]

theorem Slot.Same.dirty_iff {slot slot' : Slot σ} (h : slot.Same slot') {lba : ℕ} :
  slot'.Dirty lba ↔ slot.Dirty lba
  := by
  rw [Slot.Dirty, Slot.Dirty, h.lbaBase, h.dirty]

theorem State.Similar.agrees (h : s.Similar s') {content : ℕ → σ} (ha : s.Agrees content) :
  s'.Agrees content
  := by
  constructor
  · intro k i hi
    rw [(h.slot k).dirty, (h.slot k).valid]
    apply ha.masks k i hi
  · intro k
    rw [(h.slot k).valid, (h.slot k).lbaBase]
    apply ha.aligned k
  · intro k i hi
    rw [(h.slot k).valid, (h.slot k).access, (h.slot k).lbaBase]
    apply ha.fresh k i hi
  · intro lba hnone
    rw [h.disk]
    apply ha.clean lba
    intro k hd
    apply hnone k
    rwa [(h.slot k).dirty_iff]

/-! ### Steps that touch the sectors -/

theorem pageLba_add_mod (lba : ℕ) : pageLba lba + lba % 8 = lba := by
  rw [pageLba]
  lia

/-- Sectors of aligned pages are the same only if the pages are. -/
theorem eq_of_sector_eq {base base' i i' : ℕ} (h : base % 8 = 0) (h' : base' % 8 = 0) (hi : i < 8)
    (hi' : i' < 8) (heq : base + i = base' + i') :
  base = base'
  := by
  lia

namespace State.Agrees

variable {content content' : ℕ → σ} {k : ℕ}

/-- A slot is replaced, and the contents of its sectors may change. -/
theorem setSlot (h : s.Agrees content) {slot : Slot σ}
    (hmasks : ∀ i < 8, slot.dirty.getLsbD i = true → slot.valid.getLsbD i = true)
    (haligned : slot.valid ≠ 0 → slot.lbaBase % 8 = 0)
    (hfresh : ∀ i < 8, slot.valid.getLsbD i = true →
      slot.access i = content' (slot.lbaBase + i))
    (hclean : ∀ lba, ¬ slot.Dirty lba → (∀ k', k' ≠ k → ¬ (s.slot k').Dirty lba) →
      s.disk lba = content' lba)
    (hothers : ∀ k', k' ≠ k → ∀ i < 8, (s.slot k').valid.getLsbD i = true →
      content' ((s.slot k').lbaBase + i) = content ((s.slot k').lbaBase + i))
    (t : ℕ) (p : Pc) :
  ((s.setSlot k slot).goto t p).Agrees content'
  := by
  have hslot : ∀ k', ((s.setSlot k slot).goto t p).slot k' = if k' = k then slot else s.slot k' := by
    intro k'
    rw [State.goto_slot]
    split_ifs with hk
    · rw [hk, State.setSlot_slot_self]
    · rw [State.setSlot_slot_of_ne _ _ hk]
  constructor
  · intro k' i hi
    rw [hslot]
    split_ifs with hk
    · apply hmasks i hi
    · apply h.masks k' i hi
  · intro k'
    rw [hslot]
    split_ifs with hk
    · apply haligned
    · apply h.aligned k'
  · intro k' i hi
    rw [hslot]
    split_ifs with hk
    · apply hfresh i hi
    · intro hv
      rw [hothers k' hk i hi hv]
      apply h.fresh k' i hi hv
  · intro lba hnone
    apply hclean lba
    · have := hnone k
      rwa [hslot, if_pos rfl] at this
    · intro k' hk
      have := hnone k'
      rwa [hslot, if_neg hk] at this

/-- A slot is replaced, and the contents of the sectors stay the same. A sector that is dirty
stays so, or has its contents on the disk. -/
theorem setSlot_same (h : s.Agrees content) {slot : Slot σ}
    (hmasks : ∀ i < 8, slot.dirty.getLsbD i = true → slot.valid.getLsbD i = true)
    (haligned : slot.valid ≠ 0 → slot.lbaBase % 8 = 0)
    (hfresh : ∀ i < 8, slot.valid.getLsbD i = true →
      slot.access i = content (slot.lbaBase + i))
    (hdirty : ∀ lba, (s.slot k).Dirty lba → slot.Dirty lba ∨ s.disk lba = content lba)
    (t : ℕ) (p : Pc) :
  ((s.setSlot k slot).goto t p).Agrees content
  := by
  apply h.setSlot hmasks haligned hfresh _ (fun _ _ _ _ _ => rfl)
  intro lba hnot hothers
  by_cases hk : (s.slot k).Dirty lba
  · rcases hdirty lba hk with hd | hd
    · apply absurd hd hnot
    · apply hd
  · apply h.clean lba
    intro k' hd
    by_cases hkk : k' = k
    · subst hkk
      apply hk hd
    · apply hothers k' hkk hd

/-- A dirty sector is valid, and has its contents in the slot. -/
theorem access_of_dirty (h : s.Agrees content) {lba : ℕ} (hd : (s.slot k).Dirty lba) :
  (s.slot k).valid.getLsbD (lba % 8) = true ∧ (s.slot k).access (lba % 8) = content lba
  := by
  have hlt : lba % 8 < 8 := Nat.mod_lt _ (by omega)
  have hv := h.masks k _ hlt hd.2
  use hv
  rw [h.fresh k _ hlt hv, hd.1, pageLba_add_mod]

/-- Sectors that are valid are marked dirty. -/
theorem upgrade (h : s.Agrees content) {debug : Bool} {lba cnt : ℕ} {slot : Slot σ}
    (hup : (s.slot k).upgrade debug lba cnt = .ok slot)
    (hvalid : ∀ i < 8, i ∈ (s.slot k).sectors lba cnt → (s.slot k).valid.getLsbD i = true)
    (t : ℕ) (p : Pc) :
  ((s.setSlot k slot).goto t p).Agrees content
  := by
  obtain ⟨dirty, rfl, hbit⟩ := Slot.upgrade_post hup
  apply h.setSlot_same
  · intro i hi hd
    rcases (hbit i hi).mp hd with hd | hmem
    · apply h.masks k i hi hd
    · apply hvalid i hi hmem
  · apply h.aligned k
  · intro i hi
    apply h.fresh k i hi
  · rintro lba' ⟨hb, hd⟩
    left
    exact ⟨hb, (hbit _ (Nat.mod_lt _ (by omega))).mpr (.inl hd)⟩

/-- Dirty sectors whose contents are on the disk become clean. -/
theorem done (h : s.Agrees content)
    (hdisk : ∀ i < 8, (s.slot k).dirty.getLsbD i = true →
      s.disk ((s.slot k).lbaBase + i) = (s.slot k).access i) (t : ℕ) (p : Pc) :
  ((s.setSlot k { s.slot k with dirty := 0 }).goto t p).Agrees content
  := by
  apply h.setSlot_same
  · intro i _ hd
    simp at hd
  · apply h.aligned k
  · intro i hi
    apply h.fresh k i hi
  · intro lba hd
    right
    have hlt : lba % 8 < 8 := Nat.mod_lt _ (by omega)
    have heq := hdisk _ hlt hd.2
    rw [hd.1, pageLba_add_mod] at heq
    rw [heq, (h.access_of_dirty hd).2]

/-- A slot without dirty sectors loses its page. -/
theorem rebase (h : s.Agrees content) (hd : (s.slot k).dirty = 0) (page t : ℕ) (p : Pc) :
  ((s.setSlot k ((s.slot k).rebase page)).goto t p).Agrees content
  := by
  apply h.setSlot_same
  · intro i _ hdirty
    simp only [Slot.rebase, hd] at hdirty
    simp at hdirty
  · intro hv
    apply absurd rfl hv
  · intro i _ hv
    simp [Slot.rebase] at hv
  · rintro lba ⟨-, hdirty⟩
    rw [hd] at hdirty
    simp at hdirty

/-- A page is read from the disk, whose sectors are not dirty in any slot. -/
theorem read (h : s.Agrees content) (hd : (s.slot k).dirty = 0)
    (haligned : (s.slot k).lbaBase % 8 = 0)
    (hclean : ∀ k' lba, (s.slot k').Dirty lba → pageLba lba ≠ (s.slot k).lbaBase) (now t : ℕ)
    (p : Pc) :
  ((s.setSlot k ((s.slot k).read s.disk now)).goto t p).Agrees content
  := by
  apply h.setSlot_same
  · intro i _ hdirty
    simp only [Slot.read, hd] at hdirty
    simp at hdirty
  · intro _
    apply haligned
  · intro i hi _
    apply h.clean
    intro k' hdirty
    apply hclean k' _ hdirty
    rw [pageLba]
    lia
  · rintro lba ⟨-, hdirty⟩
    rw [hd] at hdirty
    simp at hdirty

/-- Sectors of a slot are written to the disk. -/
theorem write (h : s.Agrees content) {head i : ℕ} (hi : i ≤ 8)
    (hdirty : ∀ j, head ≤ j → j < i → (s.slot k).dirty.getLsbD j = true) (t : ℕ) (p : Pc) :
  ({ s with disk := (s.slot k).write s.disk head i }.goto t p).Agrees content
  := by
  refine ⟨h.masks, h.aligned, h.fresh, ?_⟩
  intro lba hnone
  rw [State.goto_disk]
  simp only [Slot.write]
  split_ifs with hin
  · have hj := hdirty (lba - (s.slot k).lbaBase) (by lia) (by lia)
    have hlt : lba - (s.slot k).lbaBase < 8 := by lia
    rw [h.fresh k _ hlt (h.masks k _ hlt hj)]
    congr 1
    lia
  · apply h.clean lba hnone

/-- The client writes to a sector that is dirty. -/
theorem edit (h : s.Agrees content) {lba : ℕ} (hd : (s.slot k).Dirty lba)
    (hunique : ∀ k', k' ≠ k → (s.slot k').valid ≠ 0 → (s.slot k').lbaBase ≠ (s.slot k).lbaBase)
    (value : σ) (t : ℕ) (p : Pc) :
  ((s.setSlot k { s.slot k with
      access := Function.update (s.slot k).access (lba - (s.slot k).lbaBase) value }).goto t
    p).Agrees (Function.update content lba value)
  := by
  have hv := (h.access_of_dirty hd).1
  have halign := h.aligned k (ne_zero_of_getLsbD hv)
  have hpage := pageLba_add_mod lba
  have hplace : lba - (s.slot k).lbaBase = lba % 8 := by
    rw [hd.1]
    lia
  apply h.setSlot
  · apply h.masks k
  · apply h.aligned k
  · intro i hi hvi
    dsimp only at hvi ⊢
    rw [hplace]
    by_cases heq : i = lba % 8
    · rw [heq, Function.update_self, hd.1, hpage, Function.update_self]
    · rw [Function.update_of_ne heq, Function.update_of_ne, h.fresh k i hi hvi]
      rw [hd.1]
      lia
  · intro lba' hnot hothers
    by_cases heq : lba' = lba
    · subst heq
      apply absurd hd hnot
    · rw [Function.update_of_ne heq]
      apply h.clean lba'
      intro k' hd'
      by_cases hk : k' = k
      · subst hk
        apply hnot hd'
      · apply hothers k' hk hd'
  · intro k' hk i hi hvi
    have hne := ne_zero_of_getLsbD hvi
    rw [Function.update_of_ne]
    intro heq
    apply hunique k' hk hne
    rw [← hpage, ← hd.1] at heq
    apply eq_of_sector_eq (h.aligned k' hne) halign hi (Nat.mod_lt _ (by omega)) heq

/-- Sectors are filled with zeros. -/
theorem fill [Zero σ] (h : s.Agrees v.content) {debug : Bool} {c : Call} {now : ℕ}
    {slot : Slot σ} (hfill : (s.slot k).fill debug c.lba c.count now = .ok slot)
    (hbase : (s.slot k).lbaBase = c.page) (hw : c.write = true) (hcount : c.count ≤ count c.lba)
    (hunique : ∀ k', k' ≠ k → (s.slot k').valid ≠ 0 → (s.slot k').lbaBase ≠ c.page)
    (t : ℕ) (p : Pc) :
  ((s.setSlot k slot).goto t p).Agrees (v.got k c).content
  := by
  obtain ⟨dirty, rfl, hbit⟩ := Slot.fill_post hfill
  have hle : c.page ≤ c.lba := by
    rw [Call.page, pageLba]
    lia
  have halign : c.page % 8 = 0 := by
    rw [Call.page, pageLba]
    lia
  have hmem : ∀ i, i ∈ (s.slot k).sectors c.lba c.count ↔
      c.lba ≤ c.page + i ∧ c.page + i < c.lba + c.count := by
    intro i
    rw [Slot.mem_sectors (by rw [hbase]; apply hle), hbase]
  -- the sectors of the call are in its page
  have hrange : ∀ lba, c.lba ≤ lba → lba < c.lba + c.count → pageLba lba = c.page := by
    intro lba h₁ h₂
    have := lt_of_le_count hcount (i := lba - c.lba) (by lia)
    rw [Call.page, pageLba] at *
    rw [pageLba] at *
    lia
  have hcontent : ∀ lba, (v.got k c).content lba
      = if c.lba ≤ lba ∧ lba < c.lba + c.count then 0 else v.content lba := by
    intro lba
    simp only [View.got, hw, true_and]
  apply h.setSlot
  · intro i hi hd
    rw [BitVec.getLsbD_or, hd, Bool.or_true]
  · intro _
    rw [hbase]
    apply halign
  · intro i hi hv
    simp only [hbase, hcontent, hmem]
    split_ifs with hin
    · rfl
    · have hold : (s.slot k).valid.getLsbD i = true := by
        rw [BitVec.getLsbD_or, Bool.or_eq_true, hbit i hi, hmem] at hv
        rcases hv with hv | hv | hv
        · apply hv
        · apply h.masks k i hi hv
        · apply absurd hv hin
      rw [h.fresh k i hi hold, hbase]
  · intro lba hnot hothers
    rw [hcontent]
    have hlt : lba % 8 < 8 := Nat.mod_lt _ (by omega)
    split_ifs with hin
    · exfalso
      apply hnot
      have hpage := hrange lba hin.1 hin.2
      refine ⟨by rw [hpage]; apply hbase, (hbit _ hlt).mpr (.inr ?_)⟩
      rw [hmem, ← hpage, pageLba_add_mod]
      apply hin
    · apply h.clean lba
      intro k' hd
      by_cases hk : k' = k
      · subst hk
        apply hnot ⟨hd.1, (hbit _ hlt).mpr (.inl hd.2)⟩
      · apply hothers k' hk hd
  · intro k' hk i hi hv
    have hne := ne_zero_of_getLsbD hv
    rw [hcontent, if_neg]
    rintro ⟨h₁, h₂⟩
    apply hunique k' hk hne
    have hpage := hrange _ h₁ h₂
    have := h.aligned k' hne
    rw [pageLba] at hpage
    lia

end State.Agrees

/-! ### What the threads know -/

namespace State.Transparent

variable {debug : Bool} {input : Input σ}

/-- Only the client makes promises. -/
theorem promise_eq (h : s.Transparent n client v) (ht : t ≠ client) :
  (s.pc t).promise = none
  := by
  have hb := h.background t ht
  cases hp : s.pc t with
  | flush k cont =>
      rw [hp] at hb
      rw [of_decide_eq_true hb]
      rfl
  | flushLoop k i head cont =>
      rw [hp] at hb
      rw [of_decide_eq_true hb]
      rfl
  | flushed k cont res =>
      rw [hp] at hb
      rw [of_decide_eq_true hb]
      rfl
  | idle => rfl
  | sweep index => rfl
  | _ =>
      rw [hp] at hb
      cases hb

/-- The client is the only one to take slots, and it has looked at all of them. -/
theorem undisputed (h : s.Transparent n client v) : Undisputed n s input := by
  rintro k page ⟨c, times, index, hp, hi, hf, rfl⟩ k' hc
  obtain rfl : input.thread = client := by
    by_contra hne
    have hb := h.background _ hne
    rw [hp] at hb
    cases hb
  have hsearched := h.searched
  rw [hp] at hsearched
  rcases hc with hm | ⟨t, hpr⟩
  · by_cases hk : k' < n
    · rw [hsearched k' (by omega)] at hm
      cases hm
    · rw [Slot.isMatch_iff, h.outer k' (by omega)] at hm
      apply absurd rfl hm.1
  · by_cases ht : t = input.thread
    · subst ht
      rw [hp] at hpr
      cases hpr
    · rw [h.promise_eq ht] at hpr
      cases hpr

/-- A slot other than `k` does not hold a page that the slot `k` claims. -/
theorem lbaBase_ne (h : s.Transparent n client v) {k k' page : ℕ} (hc : s.Claims k page)
    (hk : k' ≠ k) (hv : (s.slot k').valid ≠ 0) :
  (s.slot k').lbaBase ≠ page
  := by
  rintro rfl
  apply hk
  apply h.unique k' k _ (.inl _) hc
  rw [Slot.isMatch_iff]
  exact ⟨hv, rfl⟩

/-- What a thread knows does not depend on the slots of others. -/
theorem knows_frame {p : Pc} {t' : ℕ} (h : p.Knows s) (hok : p.Ok n s t') (hf : Frame s s' t)
    (ht : t' ≠ t)
    (hdisk : ∀ k j, s.Owns n t' k → (s.slot k).dirty.getLsbD j = true →
      s'.disk ((s.slot k).lbaBase + j) = s.disk ((s.slot k).lbaBase + j)) :
  p.Knows s'
  := by
  cases p with
  | got k c =>
      rw [Pc.Knows, hf.slot k t' hok.1.2 ht]
      apply h
  | read k c =>
      rw [Pc.Knows, hf.slot k t' hok.1.2 ht]
      apply h
  | flushLoop k i head cont =>
      rw [Pc.Knows, hf.slot k t' hok.1.2 ht]
      obtain ⟨h₁, h₂, h₃, h₄⟩ := h
      refine ⟨h₁, h₂, h₃, ?_⟩
      intro j hj hd
      rw [hdisk k j hok.1 hd]
      apply h₄ j hj hd
  | flushed k cont res =>
      cases res with
      | true =>
          rw [Pc.Knows, hf.slot k t' hok.1.2 ht]
          apply h
      | false => trivial
  | _ => trivial

variable [Zero σ]

/-- A thread in the background stays there. -/
theorem background_run {ok : Bool} {now : ℕ} (hmove : Move debug n s (.run t ok now) s')
    (hb : (s.pc t).background = true) :
  (s'.pc t).background = true
  := by
  cases hmove with
  | hit hp | miss hp | take hp | again hp | lock hp | stay hp | leave hp | probe hp
  | loadFull hp | loadPart hp | reload hp | read hp | readFail hp | storeOther hp
  | storeSame hp | fill hp | rebaseReload hp | rebaseStore hp | relaxed hp =>
      rw [hp] at hb
      cases hb
  | clean hp | flushStart hp | skip hp | write hp | writeFail hp | nothing hp | done hp =>
      rw [hp] at hb
      rw [State.goto_pc_self]
      apply hb
  | fail | swept | sweepTake | sweepSkip | sweepEnd =>
      rw [State.goto_pc_self]
      rfl

/-- The threads other than the client stay in the background. -/
theorem background_move (h : s.Transparent n client v) (hs : Sequential n client v s input)
    (hmove : Move debug n s input s') (t : ℕ) (ht : t ≠ client) :
  (s'.pc t).background = true
  := by
  have hf := hmove.frame h.ok
  by_cases hthread : t = input.thread
  swap
  · rw [hf.pc t hthread]
    apply h.background t ht
  subst hthread
  cases input with
  | get => apply absurd hs.1 ht
  | upgrade => apply absurd hs.1 ht
  | edit => apply absurd hs.1 ht
  | data => apply absurd hs ht
  | relax => apply absurd hs ht
  | flush =>
      cases hmove
      rw [Input.thread, State.goto_pc_self]
      rfl
  | run t ok now => apply background_run hmove (h.background t ht)

/-- The threads in the background do not change the pages of the slots. -/
theorem isMatch_move (h : s.Transparent n client v) (hs : Sequential n client v s input)
    (hmove : Move debug n s input s') (ht : input.thread ≠ client) (k page : ℕ) :
  (s'.slot k).isMatch page = (s.slot k).isMatch page
  := by
  have hb := h.background _ ht
  have hset : ∀ {k' t p} {slot : Slot σ}, slot.valid = (s.slot k').valid →
      slot.lbaBase = (s.slot k').lbaBase →
      (((s.setSlot k' slot).goto t p).slot k).isMatch page = (s.slot k).isMatch page := by
    intro k' t p slot hv hbase
    rw [State.goto_slot]
    by_cases hk : k = k'
    · subst hk
      rw [State.setSlot_slot_self, Slot.isMatch, Slot.isMatch, hv, hbase]
    · rw [State.setSlot_slot_of_ne _ _ hk]
  cases hmove with
  | get => apply absurd hs.1 ht
  | upgrade => apply absurd hs.1 ht
  | edit => apply absurd hs.1 ht
  | data => apply absurd hs ht
  | relaxFlush => apply absurd hs ht
  | relax => apply absurd hs ht
  | hit hp | miss hp | take hp | again hp | lock hp | stay hp | leave hp | probe hp
  | loadFull hp | loadPart hp | reload hp | read hp | readFail hp | storeOther hp
  | storeSame hp | fill hp | rebaseReload hp | rebaseStore hp | relaxed hp =>
      rw [Input.thread, hp] at hb
      cases hb
  | flush | clean | flushStart | skip | write | writeFail | nothing | fail | sweepSkip
  | sweepEnd => rfl
  | done | swept | sweepTake => exact hset rfl rfl

/-- What the client knows of the slots that it has looked at. -/
theorem searched_move (h : s.Transparent n client v) (hs : Sequential n client v s input)
    (hmove : Move debug n s input s') :
  (s'.pc client).Searched s'
  := by
  have hf := hmove.frame h.ok
  by_cases ht : client = input.thread
  swap
  · have hm := h.isMatch_move hs hmove (Ne.symm ht)
    rw [hf.pc client ht]
    have hold := h.searched
    cases hp : s.pc client with
    | search | lock | locked | probe =>
        rw [hp] at hold
        simp only [Pc.Searched, hm]
        apply hold
    | _ => trivial
  have hold : ∀ {p}, s.pc client = p → p.Searched s := by
    rintro p rfl
    apply h.searched
  subst ht
  cases hmove with
  | get =>
      rw [Input.thread, State.goto_pc_self]
      intro k hk
      omega
  | again =>
      rw [Input.thread, State.goto_pc_self]
      intro k hk
      omega
  | hit hp _ hm =>
      rw [Input.thread, State.goto_pc_self]
      exact ⟨hold hp, hm⟩
  | miss hp _ hm =>
      rw [Input.thread, State.goto_pc_self]
      intro k hk
      rcases Nat.lt_or_eq_of_le hk with hk | rfl
      · apply hold hp k hk
      · apply hm
  | probe hp =>
      rw [Input.thread, State.goto_pc_self]
      intro k hk
      apply hold hp k (by omega)
  | leave hp hm =>
      have := (hold hp).2
      rw [hm] at this
      cases this
  | @lock t now ok c times index target hp =>
      rw [Input.thread, State.goto_pc_self]
      have hm := fun k page => ((similar_lock (s := s) index t t
        (.locked c times index target)).slot k).isMatch page
      simp only [Pc.Searched, hm]
      apply hold hp
  | take =>
      rw [Input.thread, State.goto_pc_self]
      split_ifs
      · trivial
      · trivial
  | stay =>
      rw [Input.thread, State.goto_pc_self]
      split_ifs
      · trivial
      · trivial
  | _ =>
      rw [Input.thread, State.goto_pc_self]
      trivial

/-- A step of a thread does not change the sectors on the disk that are dirty in the slots of
others. -/
theorem disk_move (h : s.Transparent n client v) (hmove : Move debug n s input s') {t' k j : ℕ}
    (ht : t' ≠ input.thread) (howns : s.Owns n t' k) (hd : (s.slot k).dirty.getLsbD j = true) :
  s'.disk ((s.slot k).lbaBase + j) = s.disk ((s.slot k).lbaBase + j)
  := by
  cases hmove with
  | @write t now k' i head cont hp hi hbit hne =>
      have hok := h.ok t
      have hknows := h.knows t
      rw [hp] at hok hknows
      obtain ⟨hle, -, hrange, -⟩ := hknows
      have hk : k ≠ k' := by
        rintro rfl
        apply ht
        have := hok.1.2
        rw [howns.2] at this
        cases this
        rfl
      have hj : j < 8 := by
        by_contra hge
        rw [BitVec.getLsbD_of_ge _ _ (by omega)] at hd
        cases hd
      have hv := ne_zero_of_getLsbD (h.agrees.masks k j hj hd)
      have hv' := ne_zero_of_getLsbD
        (h.agrees.masks k' head (by lia) (hrange head (by lia) (by lia)))
      rw [State.goto_disk]
      simp only [Slot.write]
      rw [if_neg]
      rintro ⟨h₁, h₂⟩
      have halign := h.agrees.aligned k hv
      have halign' := h.agrees.aligned k' hv'
      apply hk
      apply h.unique.single k k' howns.1 hok.1.1 hv hv'
      lia
  | _ => rfl

/-- What the threads know after a step. -/
theorem knows_move (h : s.Transparent n client v) (hmove : Move debug n s input s') (t : ℕ) :
  (s'.pc t).Knows s'
  := by
  have hf := hmove.frame h.ok
  by_cases ht : t = input.thread
  swap
  · rw [hf.pc t ht]
    apply knows_frame (h.knows t) (h.ok t) hf ht
    intro k j howns hd
    apply h.disk_move hmove ht howns hd
  subst ht
  have hold : ∀ {t p}, s.pc t = p → p.Knows s := by
    rintro t p rfl
    apply h.knows t
  have hok : ∀ {t p}, s.pc t = p → p.Ok n s t := by
    rintro t p rfl
    apply h.ok t
  cases hmove with
  | loadFull hp hv =>
      rw [Input.thread, State.goto_pc_self]
      intro _
      apply hv
  | read hp =>
      rw [Input.thread, State.goto_pc_self]
      intro _
      rw [State.goto_slot, State.setSlot_slot_self]
      rfl
  | fill hp hfill =>
      rw [Input.thread, State.goto_pc_self]
      intro hw
      have := (hok hp).2.2
      rw [hw] at this
      cases this
  | rebaseReload hp =>
      rw [Input.thread, State.goto_pc_self, Pc.Knows, State.goto_slot, State.setSlot_slot_self]
      refine ⟨rfl, hold hp ?_⟩
      rintro ⟨⟩
  | flushStart hp =>
      rw [Input.thread, State.goto_pc_self]
      refine ⟨by omega, by omega, ?_, ?_⟩
      · intro j _ hj
        omega
      · intro j hj
        omega
  | skip hp hi hbit =>
      obtain ⟨h₁, h₂, h₃, h₄⟩ := hold hp
      rw [Input.thread, State.goto_pc_self]
      refine ⟨by lia, by lia, ?_, h₄⟩
      intro j hj hj'
      rcases Nat.lt_or_eq_of_le (Nat.le_of_lt_succ hj') with hlt | rfl
      · apply h₃ j hj hlt
      · apply hbit
  | @write t now k i head cont hp hi hbit hne =>
      obtain ⟨h₁, h₂, h₃, h₄⟩ := hold hp
      rw [Input.thread, State.goto_pc_self]
      refine ⟨by omega, by omega, ?_, ?_⟩
      · intro j hj hj'
        omega
      · intro j hj hd
        rw [State.goto_disk, State.goto_slot]
        simp only [Slot.write]
        split_ifs with hin
        · rw [Nat.add_sub_cancel_left]
        · apply h₄ j _ hd
          -- the sector is not one of those that are written, and not the one that is clean
          by_contra hge
          have : j ≠ i := by
            rintro rfl
            rw [State.goto_slot] at hd
            simp only [hbit] at hd
            cases hd
          lia
  | nothing hp hi hbit =>
      obtain ⟨h₁, h₂, h₃, h₄⟩ := hold hp
      rw [Input.thread, State.goto_pc_self]
      refine ⟨by lia, by lia, ?_, ?_⟩
      · intro j hj hj'
        omega
      · intro j hj hd
        rcases Nat.lt_or_eq_of_le (Nat.le_of_lt_succ hj) with hlt | rfl
        · apply h₄ j hlt hd
        · rw [State.goto_slot, hbit] at hd
          cases hd
  | clean hp hd =>
      rw [Input.thread, State.goto_pc_self]
      intro _
      apply hd
  | done hp =>
      rw [Input.thread, State.goto_pc_self]
      intro _
      rw [State.goto_slot, State.setSlot_slot_self]
  | relax =>
      rw [Input.thread, State.goto_pc_self]
      intro hc
      apply absurd rfl hc
  | take =>
      rw [Input.thread, State.goto_pc_self]
      split_ifs
      · trivial
      · trivial
  | stay =>
      rw [Input.thread, State.goto_pc_self]
      split_ifs
      · trivial
      · trivial
  | _ =>
      rw [Input.thread, State.goto_pc_self]
      trivial

/-! ### What a step of the single client does -/

/-- After a step, the slots and the disk still have the contents of the sectors. -/
theorem agrees_move (h : s.Transparent n client v) (hs : Sequential n client v s input)
    (hmove : Move debug n s input s') :
  s'.Agrees (v.after s' input).content
  := by
  have hold : ∀ {t p}, s.pc t = p → p.Knows s := by
    rintro t p rfl
    apply h.knows t
  have hok : ∀ {t p}, s.pc t = p → p.Ok n s t := by
    rintro t p rfl
    apply h.ok t
  cases hmove with
  | get | data | relaxFlush | relax | flush => exact (similar_goto ..).agrees h.agrees
  | hit | miss | again | probe | loadPart | reload | storeOther | storeSame | clean
  | flushStart | skip | writeFail | nothing | sweepSkip | readFail | fail | sweepEnd =>
      rw [View.after_run (State.goto_pc_self ..) (by rintro _ _ ⟨⟩)]
      exact (similar_goto ..).agrees h.agrees
  | stay =>
      rw [View.after_run (State.goto_pc_self ..) (by intro _ _; split_ifs <;> rintro ⟨⟩)]
      exact (similar_goto ..).agrees h.agrees
  | take =>
      rw [View.after_run (State.goto_pc_self ..) (by intro _ _; split_ifs <;> rintro ⟨⟩)]
      exact (similar_lock ..).agrees h.agrees
  | lock | sweepTake =>
      rw [View.after_run (State.goto_pc_self ..) (by rintro _ _ ⟨⟩)]
      exact (similar_lock ..).agrees h.agrees
  | leave | swept | relaxed =>
      rw [View.after_run (State.goto_pc_self ..) (by rintro _ _ ⟨⟩)]
      exact (similar_unlock ..).agrees h.agrees
  | loadFull hp hv =>
      rw [View.after_got (State.goto_pc_self ..), View.content_got (hok hp).2.2]
      exact (similar_goto ..).agrees h.agrees
  | @upgrade t k lba cnt slot hh hpage hcnt hup =>
      obtain ⟨rfl, c, hc, hrange⟩ := hs
      have hheld := h.held k c hc
      apply h.agrees.upgrade hup
      intro i hi hmem
      cases hw : c.write with
      | false => apply eq_full_iff.mp (hheld.read hw) i hi
      | true =>
          rw [Slot.mem_sectors (by rw [← hpage, pageLba]; lia)] at hmem
          obtain ⟨hle, hle'⟩ := hrange hw
          have hv := hheld.write hw ((s.slot k).lbaBase + i) (by lia) (by lia)
          rwa [← hpage, pageLba, show (lba / 8 * 8 + i) % 8 = i by lia] at hv
  | @edit t k lba value hh =>
      obtain ⟨rfl, hed⟩ := hs
      have hd := (h.editable k lba hed).2
      apply h.agrees.edit hd
      intro k' hk hv
      apply h.lbaBase_ne _ hk hv
      left
      rw [Slot.isMatch_iff]
      exact ⟨ne_zero_of_getLsbD (h.agrees.access_of_dirty hd).1, rfl⟩
  | @read t now k c hp =>
      obtain ⟨-, hbase, hw⟩ := hok hp
      obtain ⟨hv, hd⟩ := hold hp
      rw [View.after_got (State.goto_pc_self ..), View.content_got hw]
      have hclaim : s.Claims k (s.slot k).lbaBase := by
        right
        use t
        rw [hp, hbase]
        rfl
      apply h.agrees.read hd
      · rw [hbase, Call.page, pageLba]
        lia
      · intro k' lba hdirty heq
        have hv' := ne_zero_of_getLsbD (h.agrees.access_of_dirty hdirty).1
        by_cases hk : k' = k
        · subst hk
          apply hv' hv
        · apply h.lbaBase_ne hclaim hk hv'
          rw [hdirty.1, heq]
  | @fill t now ok k c slot hp hfill =>
      obtain ⟨-, hbase, hw⟩ := hok hp
      rw [View.after_got (State.goto_pc_self ..)]
      apply h.agrees.fill hfill hbase hw
      · apply h.checked t c
        rw [hp]
        rfl
      · intro k' hk hv
        apply h.lbaBase_ne _ hk hv
        right
        use t
        rw [hp]
        rfl
  | write hp hi hbit hne =>
      rw [View.after_run (State.goto_pc_self ..) (by rintro _ _ ⟨⟩)]
      exact h.agrees.write hi (hold hp).2.2.1 ..
  | @done t now ok k i head cont hp hi =>
      obtain ⟨h₁, h₂, h₃, h₄⟩ := hold hp
      rw [View.after_run (State.goto_pc_self ..) (by rintro _ _ ⟨⟩)]
      -- the eighth bit is never set, so that the last round has written all sectors
      have hhead : head = 9 := by
        by_contra hne
        have := h₃ 8 (by lia) (by lia)
        rw [BitVec.getLsbD_of_ge _ _ (by omega)] at this
        cases this
      apply h.agrees.done
      intro j hj hd
      apply h₄ j (by omega) hd
  | rebaseReload hp =>
      rw [View.after_run (State.goto_pc_self ..) (by rintro _ _ ⟨⟩)]
      exact h.agrees.rebase (hold hp (by rintro ⟨⟩)) ..
  | rebaseStore hp =>
      rw [View.after_run (State.goto_pc_self ..) (by rintro _ _ ⟨⟩)]
      exact h.agrees.rebase (hold hp (by rintro ⟨⟩)) ..

/-- A slot that is not in use stays so. -/
theorem outer_move (h : s.Transparent n client v) (hmove : Move debug n s input s') (k : ℕ)
    (hk : n ≤ k) :
  (s'.slot k).valid = 0
  := by
  have hok : ∀ {t p}, s.pc t = p → p.Ok n s t := by
    rintro t p rfl
    apply h.ok t
  have hset : ∀ {k' t p} {slot : Slot σ}, k' < n →
      (((s.setSlot k' slot).goto t p).slot k).valid = 0 := by
    intro k' t p slot hlt
    rw [State.goto_slot, State.setSlot_slot_of_ne _ _ (by omega)]
    apply h.outer k hk
  cases hmove with
  | upgrade hh => exact hset (State.holds_iff.mp hh).2.1
  | edit hh => exact hset (State.holds_iff.mp hh).2.1
  | take hp => exact hset (hok hp _ rfl)
  | lock hp => exact hset (hok hp).1
  | leave hp | read hp | fill hp | done hp | rebaseReload hp | rebaseStore hp | relaxed hp
  | swept hp => exact hset (hok hp).1.1
  | sweepTake _ hi => exact hset hi
  | _ => apply h.outer k hk

/-- The sectors that are filled are valid and dirty. -/
theorem fill_dirty {k : ℕ} {c : Call} {now : ℕ} {slot : Slot σ}
    (hfill : (s.slot k).fill debug c.lba c.count now = .ok slot)
    (hbase : (s.slot k).lbaBase = c.page) (hcount : c.count ≤ count c.lba) (lba : ℕ)
    (hle : c.lba ≤ lba) (hlt : lba < c.lba + c.count) :
  slot.Dirty lba ∧ slot.valid.getLsbD (lba % 8) = true
  := by
  obtain ⟨dirty, rfl, hbit⟩ := Slot.fill_post hfill
  have hoff := lt_of_le_count hcount (i := lba - c.lba) (by omega)
  rw [Call.page, pageLba] at hbase
  rw [pageLba] at hoff
  have hpage : pageLba lba = (s.slot k).lbaBase := by
    rw [hbase, pageLba]
    lia
  have hmem : lba % 8 ∈ (s.slot k).sectors c.lba c.count := by
    rw [Slot.mem_sectors (by lia), ← hpage, pageLba_add_mod]
    exact ⟨hle, hlt⟩
  have hd : dirty.getLsbD (lba % 8) = true :=
    (hbit _ (Nat.mod_lt _ (by omega))).mpr (.inr hmem)
  refine ⟨⟨hpage.symm, hd⟩, ?_⟩
  rw [BitVec.getLsbD_or, hd, Bool.or_true]

/-- The client holds a slot that `get` has returned. -/
theorem held_got {now k : ℕ} {ok : Bool} {c : Call} (h : s.Transparent n client v)
    (hs : Sequential n client v s (.run t ok now)) (hmove : Move debug n s (.run t ok now) s')
    (hgot : s'.pc t = .got k c) :
  s'.Held n client k c ∧ ∀ lba, c.write = true → c.lba ≤ lba → lba < c.lba + c.count →
    (s'.slot k).Dirty lba
  := by
  obtain rfl : t = client := by
    by_contra hne
    have hb := h.background_move hs hmove t hne
    rw [hgot] at hb
    cases hb
  have hok' := hmove.ok h.ok t
  rw [hgot] at hok'
  have hkeeps : s'.Keeps n t k := by
    refine ⟨hok'.1, ?_⟩
    rw [hgot]
    rintro ⟨⟩
  have hok : ∀ {t p}, s.pc t = p → p.Ok n s t := by
    rintro t p rfl
    apply h.ok t
  have hread : (s'.slot k).valid = 0xFF → c.write = false → s'.Held n t k c ∧
      ∀ lba, c.write = true → c.lba ≤ lba → lba < c.lba + c.count → (s'.slot k).Dirty lba := by
    intro hv hw
    refine ⟨⟨hkeeps, hok'.2, fun _ => hv, ?_⟩, ?_⟩
    · intro hw'
      rw [hw] at hw'
      cases hw'
    · intro _ hw'
      rw [hw] at hw'
      cases hw'
  cases hmove with
  | loadFull hp hv =>
      rw [State.goto_pc_self] at hgot
      cases hgot
      apply hread hv (hok hp).2.2
  | read hp =>
      rw [State.goto_pc_self] at hgot
      cases hgot
      apply hread _ (hok hp).2.2
      rw [State.goto_slot, State.setSlot_slot_self]
      rfl
  | @fill _ _ _ k c slot hp hfill =>
      rw [State.goto_pc_self] at hgot
      cases hgot
      obtain ⟨-, hbase, hw⟩ := hok hp
      have hcount : c.count ≤ count c.lba := by
        apply h.checked t c
        rw [hp]
        rfl
      have hd := fill_dirty hfill hbase hcount
      rw [State.goto_slot, State.setSlot_slot_self]
      refine ⟨⟨hkeeps, hok'.2, ?_, ?_⟩, fun lba _ h₁ h₂ => (hd lba h₁ h₂).1⟩
      · intro hw'
        rw [hw] at hw'
        cases hw'
      · intro _ lba h₁ h₂
        rw [State.goto_slot, State.setSlot_slot_self]
        apply (hd lba h₁ h₂).2
  | take hp =>
      rw [State.goto_pc_self] at hgot
      split_ifs at hgot
  | stay hp =>
      rw [State.goto_pc_self] at hgot
      split_ifs at hgot
  | _ =>
      rw [State.goto_pc_self] at hgot
      cases hgot

/-- A slot that the client keeps only gets more dirty sectors, until it is given back. -/
theorem keeps_move (h : s.Transparent n client v) (hs : Sequential n client v s input)
    (hmove : Move debug n s input s') {k : ℕ} (hk : s.Keeps n client k)
    (hin : ∀ t flush, input ≠ .relax t k flush) :
  s'.Keeps n client k ∧ (s'.slot k).lbaBase = (s.slot k).lbaBase ∧
    (s'.slot k).valid = (s.slot k).valid ∧
    ∀ i < 8, (s.slot k).dirty.getLsbD i = true → (s'.slot k).dirty.getLsbD i = true
  := by
  by_cases hslot : input.slot = some k
  · have hclient : input.thread = client := by
      cases input with
      | upgrade => apply hs.1
      | edit => apply hs.1
      | data => apply hs
      | relax => apply hs
      | _ => cases hslot
    have hnamed := hmove.named hslot hin
    rwa [hclient] at hnamed
  · obtain ⟨heq, hk'⟩ := hmove.keeps h.ok hk hslot
    rw [heq]
    exact ⟨hk', rfl, rfl, fun _ _ hd => hd⟩

/-- The slots that the client holds after a step. -/
theorem held_move (h : s.Transparent n client v) (hs : Sequential n client v s input)
    (hmove : Move debug n s input s') (k : ℕ) (c : Call)
    (hc : (v.after s' input).obtained k = some c) :
  s'.Held n client k c
  := by
  have hsame : v.obtained k = some c → (∀ t flush, input ≠ .relax t k flush) →
      s'.Held n client k c := by
    intro hc hin
    obtain ⟨hkeeps, hbase, hread, hwrite⟩ := h.held k c hc
    obtain ⟨hkeeps', hbase', hvalid, -⟩ := h.keeps_move hs hmove hkeeps hin
    constructor
    · apply hkeeps'
    · rw [hbase', hbase]
    · rwa [hvalid]
    · rwa [hvalid]
  cases input with
  | get | upgrade | data | edit | flush =>
      apply hsame hc
      rintro t flush ⟨⟩
  | relax t k' flush =>
      by_cases hk : k = k'
      · subst hk
        simp only [View.after, Function.update_self] at hc
        cases hc
      · simp only [View.after, Function.update_of_ne hk] at hc
        apply hsame hc
        rintro t' flush' ⟨⟩
        apply hk rfl
  | run t ok now =>
      by_cases hgot : ∃ c', s'.pc t = .got k c'
      · obtain ⟨c', hgot⟩ := hgot
        rw [View.after_got hgot] at hc
        simp only [View.got, Function.update_self] at hc
        cases hc
        apply (h.held_got hs hmove hgot).1
      · have hold : v.obtained k = some c := by
          rw [View.after] at hc
          split at hc
          case h_1 k' c' hgot' =>
            have hk : k ≠ k' := by
              rintro rfl
              apply hgot ⟨c', hgot'⟩
            simpa only [View.got, Function.update_of_ne hk] using hc
          case h_2 => apply hc
        apply hsame hold
        rintro t' flush ⟨⟩

/-- The sectors that the client may write to after a step. -/
theorem editable_move (h : s.Transparent n client v) (hs : Sequential n client v s input)
    (hmove : Move debug n s input s') (k lba : ℕ) (hed : (v.after s' input).editable k lba) :
  s'.Keeps n client k ∧ (s'.slot k).Dirty lba
  := by
  have hsame : v.editable k lba → (∀ t flush, input ≠ .relax t k flush) →
      s'.Keeps n client k ∧ (s'.slot k).Dirty lba := by
    intro hed hin
    obtain ⟨hkeeps, hbase, hd⟩ := h.editable k lba hed
    obtain ⟨hkeeps', hbase', -, hdirty⟩ := h.keeps_move hs hmove hkeeps hin
    refine ⟨hkeeps', by rw [hbase', hbase], hdirty _ (Nat.mod_lt _ (by omega)) hd⟩
  cases input with
  | get | data | edit | flush =>
      apply hsame hed
      rintro t flush ⟨⟩
  | upgrade t k' lba' cnt =>
      by_cases hk : k = k'
      swap
      · simp only [View.after, Function.update_of_ne hk] at hed
        apply hsame hed
        rintro t flush ⟨⟩
      subst hk
      simp only [View.after, Function.update_self] at hed
      rcases hed with hed | hrange
      · apply hsame hed
        rintro t flush ⟨⟩
      · obtain ⟨hkeeps, hbase, -⟩ := hmove.named rfl (by rintro t flush ⟨⟩)
        obtain rfl : t = client := hs.1
        use hkeeps
        cases hmove with
        | upgrade hh hpage hcnt hup =>
            obtain ⟨dirty, rfl, hbit⟩ := Slot.upgrade_post hup
            rw [State.goto_slot, State.setSlot_slot_self]
            have hoff := lt_of_le_count hcnt (i := lba - lba') (by lia)
            have hpage' : (s.slot k).lbaBase = pageLba lba := by
              rw [← hpage]
              rw [pageLba] at hoff ⊢
              rw [pageLba]
              lia
            refine ⟨hpage', (hbit _ (Nat.mod_lt _ (by omega))).mpr (.inr ?_)⟩
            rw [Slot.mem_sectors (by rw [← hpage, pageLba]; lia), hpage', pageLba_add_mod]
            apply hrange
  | relax t k' flush =>
      by_cases hk : k = k'
      · subst hk
        simp only [View.after, Function.update_self] at hed
      · simp only [View.after, Function.update_of_ne hk] at hed
        apply hsame hed
        rintro t' flush' ⟨⟩
        apply hk rfl
  | run t ok now =>
      by_cases hgot : ∃ c', s'.pc t = .got k c'
      · obtain ⟨c', hgot⟩ := hgot
        rw [View.after_got hgot] at hed
        simp only [View.got, Function.update_self] at hed
        obtain ⟨hheld, hd⟩ := h.held_got hs hmove hgot
        exact ⟨hheld.keeps, hd lba hed.1 hed.2.1 hed.2.2⟩
      · have hold : v.editable k lba := by
          rw [View.after] at hed
          split at hed
          case h_1 k' c' hgot' =>
            have hk : k ≠ k' := by
              rintro rfl
              apply hgot ⟨c', hgot'⟩
            simpa only [View.got, Function.update_of_ne hk] using hed
          case h_2 => apply hed
        apply hsame hold
        rintro t' flush ⟨⟩

/-- A step keeps the cache transparent. -/
theorem move (h : s.Transparent n client v) (hs : Sequential n client v s input)
    (hmove : Move debug n s input s') :
  s'.Transparent n client (v.after s' input)
  where
  ok := hmove.ok h.ok
  checked := hmove.checked h.ok h.checked
  unique := hmove.unique h.ok h.unique h.undisputed
  outer := h.outer_move hmove
  agrees := h.agrees_move hs hmove
  knows := h.knows_move hmove
  background := h.background_move hs hmove
  searched := h.searched_move hs hmove
  held := h.held_move hs hmove
  editable := h.editable_move hs hmove

end State.Transparent

/-! ### The last flush -/

section LastFlush

/-- What a flush of the slot `k` by the thread `t` leaves behind. -/
structure Flushed (t k : ℕ) (s s' : State σ) : Prop where
  dirty : (s'.slot k).dirty = 0
  objlock : (s'.slot k).objlock = (s.slot k).objlock
  slot : ∀ k', k' ≠ k → s'.slot k' = s.slot k'
  pc : ∀ t', t' ≠ t → s'.pc t' = s.pc t'

theorem Flushed.of_slot {s₁ : State σ} {k : ℕ} (h : Flushed t k s₁ s')
    (hslot : s₁.slot = s.slot) (hpc : ∀ t', t' ≠ t → s₁.pc t' = s.pc t') :
  Flushed t k s s'
  := by
  constructor
  · apply h.dirty
  · rw [h.objlock, hslot]
  · intro k' hk
    rw [h.slot k' hk, hslot]
  · intro t' ht
    rw [h.pc t' ht, hpc t' ht]

/-- A thread that is in the cache may go on, if it does not wait for a lock. -/
theorem enabled_run {p : Pc} (hp : s.pc t = p) (hout : p.outside = false)
    (hlock : ∀ c times index target, p ≠ .lock c times index target) :
  s.enabled n (.run t true 0) = true
  := by
  rw [State.enabled, hp]
  cases p with
  | lock c times index target => apply absurd rfl (hlock c times index target)
  | _ =>
      simp only
      rw [hout]
      rfl

variable [Zero σ]

/-- The thread `t` goes on alone, from one state to another. -/
def Goes (n t : ℕ) (s s' : State σ) : Prop :=
  ∃ m, s.exec false n (List.replicate m (.run t true 0)) = some s'

theorem exec_append (l l' : List (Input σ)) (s : State σ) :
  s.exec false n (l ++ l') = (s.exec false n l).bind fun s' => s'.exec false n l'
  := by
  induction l generalizing s with
  | nil => rfl
  | cons input l ih =>
      rw [List.cons_append, State.exec, State.exec]
      split_ifs
      · split
        case h_1 s' _ => apply ih
        case h_2 => rfl
      · rfl

theorem Goes.trans {s'' : State σ} (h : Goes n t s s') (h' : Goes n t s' s'') :
  Goes n t s s''
  := by
  obtain ⟨m, hm⟩ := h
  obtain ⟨m', hm'⟩ := h'
  use m + m'
  rw [← List.replicate_append_replicate, exec_append, hm, Option.bind_some, hm']

theorem Goes.step {s'' : State σ} (hen : s.enabled n (.run t true 0) = true)
    (heq : s.run false n t true 0 = .ok s') (h : Goes n t s' s'') :
  Goes n t s s''
  := by
  obtain ⟨m, hm⟩ := h
  use m + 1
  rw [List.replicate_succ, State.exec, if_pos hen, State.next, heq]
  apply hm

theorem Goes.refl (s : State σ) : Goes n t s s := ⟨0, rfl⟩

/-- The loop of `slot::flush` ends. -/
theorem flushLoop_goes {k : ℕ} {cont : Cont} :
    ∀ (d i head : ℕ) (s : State σ), i + d = 9 → s.pc t = .flushLoop k i head cont →
      ∃ s', Goes n t s s' ∧ s'.pc t = .flushed k cont true ∧ Flushed t k s s'
  | 0, i, head, s, hd, hp => by
      refine ⟨(s.setSlot k { s.slot k with dirty := 0 }).goto t (.flushed k cont true),
        Goes.step (enabled_run hp rfl (by rintro _ _ _ _ ⟨⟩)) ?_ (Goes.refl _),
        State.goto_pc_self .., ?_⟩
      · rw [State.run, hp]
        simp only
        rw [if_neg (by omega)]
        rfl
      · constructor
        · rw [State.goto_slot, State.setSlot_slot_self]
        · rw [State.goto_slot, State.setSlot_slot_self]
        · intro k' hk
          rw [State.goto_slot, State.setSlot_slot_of_ne _ _ hk]
        · intro t' ht
          rw [State.goto_pc_of_ne _ _ ht, State.setSlot_pc]
  | d + 1, i, head, s, hd, hp => by
      -- a round leaves the slots alone and goes on with the next bit
      have hround : ∃ s₁ head', s.run false n t true 0 = .ok s₁ ∧ s₁.slot = s.slot ∧
          s₁.pc t = .flushLoop k (i + 1) head' cont ∧ ∀ t', t' ≠ t → s₁.pc t' = s.pc t' := by
        rw [State.run, hp]
        simp only
        rw [if_pos (by omega)]
        by_cases hbit : (s.slot k).dirty.getLsbD i = true
        · rw [if_pos hbit]
          exact ⟨_, head, rfl, rfl, State.goto_pc_self .., fun _ ht => State.goto_pc_of_ne _ _ ht⟩
        · rw [if_neg hbit]
          by_cases hne : head ≠ i
          · rw [if_pos hne, if_pos trivial]
            exact ⟨_, i + 1, rfl, rfl, State.goto_pc_self .., fun _ ht => State.goto_pc_of_ne _ _ ht⟩
          · rw [if_neg hne]
            exact ⟨_, i + 1, rfl, rfl, State.goto_pc_self .., fun _ ht => State.goto_pc_of_ne _ _ ht⟩
      obtain ⟨s₁, head', heq, hslot, hp₁, hpc⟩ := hround
      obtain ⟨s', hgoes, hp', hfl⟩ := flushLoop_goes d (i + 1) head' s₁ (by lia) hp₁
      exact ⟨s', Goes.step (enabled_run hp rfl (by rintro _ _ _ _ ⟨⟩)) heq hgoes, hp',
        hfl.of_slot hslot hpc⟩

/-- `slot::flush` ends. -/
theorem flush_goes {k : ℕ} {cont : Cont} (hp : s.pc t = .flush k cont) :
  ∃ s', Goes n t s s' ∧ s'.pc t = .flushed k cont true ∧ Flushed t k s s'
  := by
  have hen : s.enabled n (.run t true 0) = true := enabled_run hp rfl (by rintro _ _ _ _ ⟨⟩)
  by_cases hd : (s.slot k).dirty = 0
  · refine ⟨s.goto t (.flushed k cont true), Goes.step hen ?_ (Goes.refl _),
      State.goto_pc_self .., ?_⟩
    · rw [State.run, hp]
      simp only [assert_release, Except.ok_bind]
      rw [if_pos hd]
      rfl
    · exact ⟨hd, rfl, fun _ _ => rfl, fun t' ht => State.goto_pc_of_ne _ _ ht⟩
  · obtain ⟨s', hgoes, hp', hfl⟩ := flushLoop_goes (n := n) (t := t) 9 0 0
      (s.goto t (.flushLoop k 0 0 cont)) rfl (State.goto_pc_self ..)
    refine ⟨s', Goes.step hen ?_ hgoes, hp', ?_⟩
    · rw [State.run, hp]
      simp only [assert_release, Except.ok_bind]
      rw [if_neg hd]
      rfl
    · exact hfl.of_slot rfl fun t' ht => State.goto_pc_of_ne _ _ ht

/-- `disk_interface::flush` ends, and leaves no dirty sector in the slots that are free. -/
theorem sweep_goes :
    ∀ (d index : ℕ) (s : State σ), index + d = n → s.pc t = .sweep index →
      (∀ k, index ≤ k → k < n → s.free k = true) →
      (∀ k, k < index → (s.slot k).dirty = 0) →
      ∃ s', Goes n t s s' ∧ s'.pc t = .idle ∧ ∀ k < n, (s'.slot k).dirty = 0
  | 0, index, s, hd, hp, hfree, hclean => by
      refine ⟨s.goto t .idle, Goes.step (enabled_run hp rfl (by rintro _ _ _ _ ⟨⟩)) ?_
        (Goes.refl _), State.goto_pc_self .., ?_⟩
      · rw [State.run, hp]
        simp only
        rw [if_neg (by omega)]
        rfl
      · intro k hk
        apply hclean k (by omega)
  | d + 1, index, s, hd, hp, hfree, hclean => by
      -- the slot is taken, flushed, and given back
      have htake : s.run false n t true 0
          = .ok ((s.lock t index).goto t (.flush index .sweep)) := by
        rw [State.run, hp]
        simp only
        rw [if_pos (by lia), if_pos (hfree index (by lia) (by lia))]
        rfl
      obtain ⟨s₁, hgoes, hp₁, hfl⟩ := flush_goes (n := n) (t := t)
        (s := (s.lock t index).goto t (.flush index .sweep)) (State.goto_pc_self ..)
      have hgive : s₁.run false n t true 0
          = .ok ((s₁.unlock index).goto t (.sweep (index + 1))) := by
        rw [State.run, hp₁]
        rfl
      have hother : ∀ k, k ≠ index → s₁.slot k = s.slot k := by
        intro k hk
        rw [hfl.slot k hk, State.goto_slot, State.lock, State.setSlot_slot_of_ne _ _ hk]
      obtain ⟨s', hgoes', hp', hclean'⟩ := sweep_goes d (index + 1)
        ((s₁.unlock index).goto t (.sweep (index + 1))) (by lia) (State.goto_pc_self ..)
        (by
          intro k hk hkn
          rw [State.free_iff, State.goto_slot, State.unlock,
            State.setSlot_slot_of_ne _ _ (by lia), hother k (by lia), ← State.free_iff]
          apply hfree k (by lia) hkn)
        (by
          intro k hk
          rw [State.goto_slot, State.unlock]
          by_cases hki : k = index
          · rw [hki, State.setSlot_slot_self]
            apply hfl.dirty
          · rw [State.setSlot_slot_of_ne _ _ hki, hother k hki]
            apply hclean k (by lia))
      refine ⟨s', ?_, hp', hclean'⟩
      apply Goes.step (enabled_run hp rfl (by rintro _ _ _ _ ⟨⟩)) htake
      apply hgoes.trans
      apply Goes.step (enabled_run hp₁ rfl (by rintro _ _ _ _ ⟨⟩)) hgive hgoes'

/-- A thread in the background keeps the cache transparent, and the contents as they are. -/
theorem Goes.keeps_transparent (hgoes : Goes n t s s') (h : s.Transparent n client v)
    (hb : (s.pc t).background = true) :
  s'.Transparent n client v
  := by
  obtain ⟨m, hm⟩ := hgoes
  induction m generalizing s with
  | zero =>
      cases hm
      apply h
  | succ m ih =>
      rw [List.replicate_succ, State.exec] at hm
      split_ifs at hm with hen
      split at hm
      case h_2 => cases hm
      case h_1 s₁ heq =>
        have hmove := move_of_next hen heq
        have hb₁ := State.Transparent.background_run hmove hb
        have h₁ : s₁.Transparent n client (v.after s₁ (.run t true 0)) := h.move rfl hmove
        rw [View.after_run rfl (by intro k c hgot; rw [hgot] at hb₁; cases hb₁)] at h₁
        apply ih h₁ hb₁ hm

end LastFlush

/-! ### Runs -/

variable [Zero σ]

/-- In every run with a single client, a slot that has been read has the sectors as they were
last written, and after a last flush the disk has them. -/
theorem Run.transparent {disk : ℕ → σ} (h : Run false n (Sequential n client) disk v s) :
  (∀ t k c lba, s.pc t = .got k c → c.write = false → c.lba ≤ lba → lba < c.lba + c.count →
    ∃ i, (s.slot k).data false lba = .ok i ∧ (s.slot k).access i = v.content lba) ∧
  ∀ t, (∀ t', (s.pc t').outside = true) → (∀ k < n, s.free k = true) →
    ∃ m s', s.exec false n (.flush t :: List.replicate m (.run t true 0)) = some s' ∧
      s'.pc t = .idle ∧ s'.disk = v.content
  := by
  have ht : s.Transparent n client v := by
    induction h with
    | new slot hslot =>
        have hvalid : ∀ k i, (slot k).valid.getLsbD i = false := by
          intro k i
          rw [(hslot k).1]
          simp
        refine ⟨fun _ => trivial, ?_, ?_, fun k _ => (hslot k).1, ⟨?_, ?_, ?_, fun _ _ => rfl⟩,
          fun _ => trivial, fun _ _ => rfl, trivial, ?_, ?_⟩
        · rintro t c ⟨⟩
        · rintro k k' page (hm | ⟨t, hpr⟩) -
          · rw [Slot.isMatch_iff] at hm
            apply absurd (hslot k).1 hm.1
          · cases hpr
        · intro k i _ hd
          simp only [(hslot k).2.1] at hd
          simp at hd
        · intro k hv
          apply absurd (hslot k).1 hv
        · intro k i _ hv
          rw [hvalid] at hv
          cases hv
        · rintro k c ⟨⟩
        · rintro k lba ⟨⟩
    | step input _ hen hs heq ih => apply ih.move hs (move_of_next hen heq)
  constructor
  · intro t k c lba hgot hw hle hlt
    have hok := ht.ok t
    have hknows := ht.knows t
    rw [hgot] at hok hknows
    have hcount : c.count ≤ count c.lba := by
      apply ht.checked t c
      rw [hgot]
      rfl
    have hoff := lt_of_le_count hcount (i := lba - c.lba) (by omega)
    have hbase := hok.2
    rw [Call.page, pageLba] at hbase
    rw [pageLba] at hoff
    refine ⟨lba - (s.slot k).lbaBase, ?_, ?_⟩
    · simp only [Slot.data, assert_release, Except.ok_bind]
      rfl
    · rw [ht.agrees.fresh k _ (by omega) (eq_full_iff.mp (hknows hw) _ (by omega))]
      congr 1
      omega
  · intro t hout hfree
    have hmove : Move false n s (.flush t) (s.goto t (.sweep 0)) := Move.flush (hout t)
    have hs : Sequential n client v s (.flush t) := trivial
    have hflush : (s.goto t (.sweep 0)).Transparent n client v := ht.move hs hmove
    obtain ⟨s', hgoes, hp, hclean⟩ := sweep_goes n 0 (s.goto t (.sweep 0)) (by omega)
      (State.goto_pc_self ..) (fun k _ hk => hfree k hk) (fun k hk => by omega)
    have ht' := hgoes.keeps_transparent hflush (by rw [State.goto_pc_self]; rfl)
    obtain ⟨m, hm⟩ := hgoes
    refine ⟨m, s', ?_, hp, ?_⟩
    · have hen : s.enabled n (.flush t) = true := hout t
      rw [State.exec, if_pos hen]
      apply hm
    · funext lba
      apply ht'.agrees.clean lba
      rintro k hd
      have hne := ne_zero_of_getLsbD hd.2
      by_cases hk : k < n
      · apply hne (hclean k hk)
      · apply ne_zero_of_getLsbD (ht'.agrees.access_of_dirty hd).1 (ht'.outer k (by omega))

/-- A client that reads two sectors of a disk of zeros sees zeros. -/
theorem transparent_read :
  ∃ (v : View ℕ) (s : State ℕ), Run false 1 (Sequential 1 0) (fun _ => 0) v s ∧
    s.pc 0 = .got 0 ⟨8, 2, false⟩ ∧
    ∃ i, (s.slot 0).data false 9 = .ok i ∧ (s.slot 0).access i = v.content 9
  := by
  have h₀ : Run false 1 (Sequential 1 0) (fun _ => 0) _ empty :=
    Run.new _ fun _ => ⟨rfl, rfl, rfl⟩
  have h₁ := h₀.step (.get 0 ⟨8, 2, false⟩) rfl ⟨rfl, by rintro k - ⟨⟩⟩ rfl
  have h₂ := h₁.step (.run 0 true 0) rfl rfl rfl
  have h₃ := h₂.step (.run 0 true 0) rfl rfl rfl
  have h₄ := h₃.step (.run 0 true 0) rfl rfl rfl
  have h₅ := h₄.step (.run 0 true 0) rfl rfl rfl
  have h₆ := h₅.step (.run 0 true 0) rfl rfl rfl
  have h₇ := h₆.step (.run 0 true 0) rfl rfl rfl
  have h₈ := h₇.step (.run 0 true 0) rfl rfl rfl
  exact ⟨_, _, h₈, rfl, h₈.transparent.1 0 0 ⟨8, 2, false⟩ 9 rfl rfl (by decide) (by decide)⟩

end Disk

end UOS
