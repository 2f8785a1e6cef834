import Cofuos.Lib.Machine
import Cofuos.Lib.Tally

/-!
# Handle tables

A process refers to kernel objects by the indices of the slots of its handle table. The slots lie in
pages that are created when a slot of them is first needed. The first four handles are reserved;
`top` is an upper bound of the others that are in use, which `put` uses to skip the occupied part
of the table and `close` lowers by searching backward. The definitions follow `handle_table` of
`kernel/process/process.cpp`.

Every operation is carried out under the lock of the table. An operation has no result when it
reads a page pointer outside of the table, or when an assertion does not hold.
-/

namespace UOS

/-- A page of slots. -/
abbrev HandlePage (ω : Type) : Type := ℕ → Option ω

/-- `handle_table`. Only the first four entries of `table` exist. -/
structure HandleTable (ω : Type) where
  count : ℕ := 0
  top : ℕ := 0
  table : ℕ → Option (HandlePage ω) := fun _ => none

namespace HandleTable

variable {ω : Type}

/-- `handle_table::limit` -/
def limit : ℕ := 0x800

/-- `handle_table::avl_base` -/
def avlBase : ℕ := 4

/-- `handle_table::handle_of_page` -/
def handleOfPage : ℕ := 0x200

/-- The length of the array of page pointers. -/
def pageCount : ℕ := 4

/-- The page pointer for an index, unless it lies outside of the array. -/
def page (t : HandleTable ω) (index : ℕ) : Option (Option (HandlePage ω)) :=
  if index / handleOfPage < pageCount then some (t.table (index / handleOfPage)) else none

/-- The slot of an index. -/
def slot (t : HandleTable ω) (index : ℕ) : Option ω :=
  (t.table (index / handleOfPage)).bind fun pg => pg (index % handleOfPage)

/-- The table in which a page, with the contents `pg` so far, has the slot of an index changed. -/
def store (t : HandleTable ω) (pg : HandlePage ω) (index : ℕ) (v : Option ω) : HandleTable ω :=
  { t with
    table := Function.update t.table (index / handleOfPage)
      (some (Function.update pg (index % handleOfPage) v)) }

/-- A page without objects. -/
def zeroPage : HandlePage ω := fun _ => none

/-! ### Operations -/

/-- `handle_table::operator[]`, under the lock of the table. -/
def get (t : HandleTable ω) (index : ℕ) : Option (Option ω) :=
  if limit ≤ index then some none
  else match t.page index with
    | none => none
    | some none => some none
    | some (some pg) => some (pg (index % handleOfPage))

/-- An object is put into a slot of a page. -/
def occupy (t : HandleTable ω) (pg : HandlePage ω) (index : ℕ) (obj : ω) : HandleTable ω :=
  { t.store pg index (some obj) with count := t.count + 1, top := max t.top (index + 1) }

/-- The loop of `put` over the slots from an index on, of which `n` are left. A page that is needed
is created if there is `room`. -/
def putFrom (t : HandleTable ω) (room : Bool) (obj : ω) : ℕ → ℕ → Option (ℕ × HandleTable ω)
  | 0, _ => some (0, t)
  | n + 1, index => match t.page index with
      | none => none
      | some none => if room then some (index, t.occupy zeroPage index obj) else some (0, t)
      | some (some pg) =>
          if (pg (index % handleOfPage)).isSome then putFrom t room obj n (index + 1)
          else some (index, t.occupy pg index obj)

/-- The index from which `put` searches. -/
def putIndex (t : HandleTable ω) : ℕ :=
  if t.top * 3 < t.count * 4 then max avlBase t.top else avlBase

/-- `handle_table::put` -/
def put (t : HandleTable ω) (room : Bool) (obj : ω) : Option (ℕ × HandleTable ω) :=
  t.putFrom room obj (limit - t.putIndex) t.putIndex

/-- The part of `assign` that swaps the object with that of the slot and counts. The object that was
in the slot is to be relaxed. -/
def swap (t : HandleTable ω) (pg : HandlePage ω) (index : ℕ) (obj : ω) :
    Option (Bool × Option ω × HandleTable ω) :=
  let old := pg (index % handleOfPage)
  let t' := t.store pg index (some obj)
  if old.isNone then some (true, old, { t' with count := t.count + 1 })
  else some (true, old, t')

/-- `handle_table::assign` -/
def assign (t : HandleTable ω) (room : Bool) (index : ℕ) (ptr : Option ω) :
    Option (Bool × Option ω × HandleTable ω) :=
  match ptr with
  | none => some (false, none, t)
  | some obj =>
      if avlBase ≤ index then some (false, none, t)
      else match t.page index with
        | none => none
        | some none => if room then t.swap zeroPage index obj else some (false, none, t)
        | some (some pg) => t.swap pg index obj

/-- The loop of `close` that searches backward for an index below which `top` may not be
lowered. -/
def scan (t : HandleTable ω) : ℕ → Option ℕ
  | 0 => some 0
  | index + 1 =>
      if avlBase ≤ index + 1 then match t.page (index + 1) with
        | none => none
        | some none => some (index + 1)
        | some (some pg) =>
            if (pg ((index + 1) % handleOfPage)).isSome then some (index + 1) else t.scan index
      else some (index + 1)

/-- `close` of a slot that holds an object. The decrement is one of a `dword`. -/
def vacate (t : HandleTable ω) (pg : HandlePage ω) (index : ℕ) : Option (HandleTable ω) :=
  if t.count = 0 then none
  else
    let t' := { t.store pg index none with count := t.count - 1 }
    if t.top ≤ index + 1 then
      (t'.scan ((index + 2 ^ 32 - 1) % 2 ^ 32)).map fun i => { t' with top := i + 1 }
    else some t'

/-- `handle_table::close`. The object is relaxed after the table has been unlocked. -/
def close (t : HandleTable ω) (index : ℕ) : Option (Bool × Option ω × HandleTable ω) :=
  if limit ≤ index then some (false, none, t)
  else match t.page index with
    | none => none
    | some none => some (false, none, t)
    | some (some pg) => match pg (index % handleOfPage) with
        | none => some (false, none, t)
        | some obj => (t.vacate pg index).map fun t' => (true, some obj, t')

/-- One slot in the loops of `clear`. -/
def clearSlot (s : List ω × HandleTable ω) (index : ℕ) : Option (List ω × HandleTable ω) :=
  match s.2.table (index / handleOfPage) with
  | none => some s
  | some pg => match pg (index % handleOfPage) with
      | none => some s
      | some obj =>
          if s.2.count = 0 then none
          else some (s.1 ++ [obj], { s.2.store pg index none with count := s.2.count - 1 })

/-- `handle_table::clear`, with the objects that are relaxed. -/
def clear (t : HandleTable ω) : Option (List ω × HandleTable ω) := do
  let s ← (List.range limit).foldlM clearSlot ([], t)
  if s.2.count = 0 then some s else none

/-! ### Runs -/

/-- What a process does with its handle table. -/
inductive Action (ω : Type) where
  /-- An object is put. -/
  | put (room : Bool) (obj : ω)
  /-- An object is assigned to a reserved handle. -/
  | assign (room : Bool) (index : ℕ) (ptr : Option ω)
  /-- A handle is closed. -/
  | close (index : ℕ)
  /-- All handles are closed. -/
  | clear

/-- What comes of it. -/
inductive Result (ω : Type) where
  /-- The handle of the object that has been put, or zero. -/
  | handle (index : ℕ)
  /-- Whether the operation succeeds, and the objects that are relaxed. -/
  | done (ok : Bool) (relaxed : List ω)

/-- An operation on the table. -/
def exec (t : HandleTable ω) : Action ω → Option (Result ω × HandleTable ω)
  | .put room obj => (t.put room obj).map fun r => (.handle r.1, r.2)
  | .assign room index ptr =>
      (t.assign room index ptr).map fun r => (.done r.1 r.2.1.toList, r.2.2)
  | .close index => (t.close index).map fun r => (.done r.1 r.2.1.toList, r.2.2)
  | .clear => t.clear.map fun r => (.done true r.1, r.2)

/-- What callers guarantee: only reserved handles are assigned, and handle `0` is not closed. -/
def Allowed (_ : HandleTable ω) : Action ω → Prop
  | .assign _ index _ => index < avlBase
  | .close index => 1 ≤ index
  | _ => True

/-- The runs of a handle table. -/
def machine (ω : Type) : Machine (HandleTable ω) (Action ω) where
  Start t := t = {}
  step t a := (t.exec a).map Prod.snd

/-! ### Slots -/

variable {t t' : HandleTable ω} {pg : HandlePage ω} {index i j : ℕ} {obj : ω} {v : Option ω}

/-- The page pointer for a valid index lies in the array. -/
theorem page_eq (h : index < limit) : t.page index = some (t.table (index / handleOfPage)) := by
  rw [page, if_pos]
  rw [limit] at h
  rw [handleOfPage, pageCount]
  lia

theorem slot_of_none (h : t.table (index / handleOfPage) = none) : t.slot index = none := by
  rw [slot, h, Option.bind_none]

theorem slot_of_some (h : t.table (index / handleOfPage) = some pg) :
  t.slot index = pg (index % handleOfPage)
  := by
  rw [slot, h, Option.bind_some]

/-- `operator[]` reads the slot of a valid index. -/
theorem get_eq : t.get index = some (if index < limit then t.slot index else none) := by
  rw [get]
  split
  · rename_i h
    rw [if_neg (Nat.not_lt.mpr h)]
  · rename_i h
    rw [Nat.not_le] at h
    rw [page_eq h, if_pos h]
    cases hpage : t.table (index / handleOfPage) with
    | none => rw [slot_of_none hpage]
    | some pg => rw [slot_of_some hpage]

/-- The page is the one of the index, with its contents so far. -/
def Content (t : HandleTable ω) (index : ℕ) (pg : HandlePage ω) : Prop :=
  (t.table (index / handleOfPage)).getD zeroPage = pg

theorem content_of_none (h : t.table (index / handleOfPage) = none) :
  t.Content index zeroPage
  := by
  rw [Content, h, Option.getD_none]

theorem content_of_some (h : t.table (index / handleOfPage) = some pg) : t.Content index pg := by
  rw [Content, h, Option.getD_some]

/-- What a page holds is what the slots hold. -/
theorem Content.apply (h : t.Content index pg) : pg (index % handleOfPage) = t.slot index := by
  rw [← h]
  cases hpage : t.table (index / handleOfPage) with
  | none =>
      rw [slot_of_none hpage]
      rfl
  | some pg => rw [slot_of_some hpage, Option.getD_some]

/-- Storing a slot changes that slot only. -/
theorem Content.slot_store (h : t.Content index pg) (v : Option ω) (j : ℕ) :
  (t.store pg index v).slot j = if j = index then v else t.slot j
  := by
  by_cases hpage : j / handleOfPage = index / handleOfPage
  · have hstore : (t.store pg index v).table (j / handleOfPage) =
        some (Function.update pg (index % handleOfPage) v) := by
      rw [hpage]
      apply Function.update_self
    rw [slot_of_some hstore]
    split
    · rename_i heq
      rw [heq, Function.update_self]
    · rename_i hne
      have hmod : j % handleOfPage ≠ index % handleOfPage := by
        intro hmod
        apply hne
        rw [← Nat.div_add_mod j handleOfPage, hpage, hmod, Nat.div_add_mod]
      rw [Function.update_of_ne hmod]
      have hj : t.Content j pg := by
        rw [Content, hpage]
        exact h
      apply hj.apply
  · have hne : j ≠ index := by
      rintro rfl
      exact hpage rfl
    have hstore : (t.store pg index v).table (j / handleOfPage) = t.table (j / handleOfPage) :=
      Function.update_of_ne hpage _ _
    rw [if_neg hne, slot, slot, hstore]

/-- The slots of the table. -/
def slots (t : HandleTable ω) (i : Fin limit) : Option ω := t.slot i

theorem Content.slots_store (h : t.Content index pg) (hindex : index < limit) (v : Option ω) :
  (t.store pg index v).slots = Function.update t.slots ⟨index, hindex⟩ v
  := by
  funext j
  rw [slots, h.slot_store, Function.update_apply]
  by_cases hj : j.val = index
  · rw [if_pos hj, if_pos (Fin.ext hj)]
  · rw [if_neg hj, if_neg (fun heq => hj (congrArg Fin.val heq))]
    rfl

/-- The number of slots that hold an object. -/
def occupied (t : HandleTable ω) : ℕ := tally Option.isSome t.slots

/-- The number of slots in use when one slot is stored. -/
theorem Content.occupied_store (h : t.Content index pg) (hindex : index < limit) (v : Option ω) :
  (t.store pg index v).occupied + (t.slot index).isSome.toNat = t.occupied + v.isSome.toNat
  := by
  rw [occupied, h.slots_store hindex]
  exact tally_update Option.isSome t.slots ⟨index, hindex⟩ v

/-! ### The invariant -/

/-- The slots that hold an object are counted, and those from `top` on are empty. -/
structure Valid (t : HandleTable ω) : Prop where
  count : t.count = t.occupied
  above : ∀ i, max t.top avlBase ≤ i → i < limit → t.slot i = none

theorem valid_empty : Valid ({} : HandleTable ω) := by
  constructor
  · symm
    apply (tally_eq_zero_iff _ _).mpr
    intro i
    rfl
  · intro i _ _
    rfl

/-- A slot that holds an object is counted. -/
theorem Valid.count_pos (h : t.count = t.occupied) (hindex : index < limit)
    (hslot : (t.slot index).isSome = true) :
  t.count ≠ 0
  := by
  rw [h]
  intro hzero
  have hfalse := (tally_eq_zero_iff _ _).mp hzero ⟨index, hindex⟩
  rw [slots, hslot] at hfalse
  cases hfalse

/-! ### Putting an object -/

/-- Where `put` finds an empty slot, or that it finds none. -/
theorem putFrom_spec (t : HandleTable ω) (room : Bool) (obj : ω) {n index : ℕ}
    (hn : index + n = limit) :
  t.putFrom room obj n index = some (0, t) ∨
    ∃ h pg, t.putFrom room obj n index = some (h, t.occupy pg h obj) ∧ index ≤ h ∧ h < limit ∧
      t.slot h = none ∧ t.Content h pg
  := by
  induction n generalizing index with
  | zero => exact .inl rfl
  | succ n ih =>
      have hindex : index < limit := by omega
      rw [putFrom, page_eq hindex]
      cases hpage : t.table (index / handleOfPage) with
      | none =>
          cases room with
          | false => exact .inl rfl
          | true =>
              exact .inr ⟨index, zeroPage, rfl, le_rfl, hindex, slot_of_none hpage,
                content_of_none hpage⟩
      | some pg =>
          simp only
          split
          · -- the slot is taken
            rcases @ih (index + 1) (by lia) with hfull | ⟨h, pg, heq, hle, hlt⟩
            · exact .inl hfull
            · exact .inr ⟨h, pg, heq, Nat.le_of_succ_le hle, hlt⟩
          · rename_i hslot
            rw [Option.not_isSome_iff_eq_none] at hslot
            exact .inr ⟨index, pg, rfl, le_rfl, hindex, (slot_of_some hpage).trans hslot,
              content_of_some hpage⟩

theorem avlBase_le_putIndex : avlBase ≤ t.putIndex := by
  rw [putIndex]
  split
  · apply le_max_left
  · exact le_rfl

/-- `put` returns zero and changes nothing, or puts the object into an empty slot that is not
reserved. -/
theorem Valid.put (h : t.Valid) (room : Bool) (obj : ω) :
  t.put room obj = some (0, t) ∨
    ∃ index t', t.put room obj = some (index, t') ∧ t'.Valid ∧ avlBase ≤ index ∧ index < limit ∧
      t.slot index = none ∧ ∀ j, t'.slot j = if j = index then some obj else t.slot j
  := by
  rw [HandleTable.put]
  by_cases hindex : t.putIndex ≤ limit
  · rcases putFrom_spec t room obj (Nat.add_sub_cancel' hindex) with
      hfull | ⟨index, pg, heq, hle, hlt, hslot, hpg⟩
    · exact .inl hfull
    · right
      have hslots := hpg.slot_store (some obj)
      refine ⟨index, _, heq, ⟨?_, ?_⟩, avlBase_le_putIndex.trans hle, hlt, hslot, hslots⟩
      · have hcount := hpg.occupied_store hlt (some obj)
        rw [hslot] at hcount
        change t.count + 1 = (t.store pg index (some obj)).occupied
        rw [h.count]
        simpa using hcount.symm
      · intro i hi hilt
        change max (max t.top (index + 1)) avlBase ≤ i at hi
        change (t.store pg index (some obj)).slot i = none
        rw [hslots, if_neg (by lia)]
        apply h.above i (by lia) hilt
  · left
    rw [Nat.sub_eq_zero_of_le (Nat.le_of_not_le hindex)]
    rfl

/-! ### Assigning a reserved handle -/

/-- Swapping the object of a reserved slot keeps the invariant. -/
theorem Valid.swap (h : t.Valid) (hindex : index < avlBase) (hpg : t.Content index pg) (obj : ω) :
  ∃ t', t.swap pg index obj = some (true, t.slot index, t') ∧ t'.Valid ∧
    ∀ j, t'.slot j = if j = index then some obj else t.slot j
  := by
  have hlt : index < limit := lt_trans hindex (by decide)
  have hcount := hpg.occupied_store hlt (some obj)
  have hslots := hpg.slot_store (some obj)
  have habove : ∀ i, max t.top avlBase ≤ i → i < limit →
      (t.store pg index (some obj)).slot i = none := by
    intro i hi hilt
    rw [hslots, if_neg (by lia)]
    exact h.above i hi hilt
  rw [HandleTable.swap, hpg.apply]
  cases hold : t.slot index with
  | none =>
      rw [hold] at hcount
      refine ⟨_, rfl, ⟨?_, habove⟩, hslots⟩
      change t.count + 1 = (t.store pg index (some obj)).occupied
      rw [h.count]
      simpa using hcount.symm
  | some old =>
      rw [hold] at hcount
      refine ⟨_, rfl, ⟨?_, habove⟩, hslots⟩
      change t.count = (t.store pg index (some obj)).occupied
      rw [h.count]
      simpa using hcount.symm

/-- `assign` fails and changes nothing, or swaps the object of a reserved slot. -/
theorem Valid.assign (h : t.Valid) (room : Bool) (hindex : index < avlBase) (ptr : Option ω) :
  t.assign room index ptr = some (false, none, t) ∨
    ∃ obj t', ptr = some obj ∧ t.assign room index ptr = some (true, t.slot index, t') ∧ t'.Valid ∧
      ∀ j, t'.slot j = if j = index then some obj else t.slot j
  := by
  cases ptr with
  | none => exact .inl rfl
  | some obj =>
      have hlt : index < limit := lt_trans hindex (by decide)
      rw [HandleTable.assign, if_neg (Nat.not_le.mpr hindex), page_eq hlt]
      cases hpage : t.table (index / handleOfPage) with
      | none =>
          cases room with
          | false => exact .inl rfl
          | true =>
              obtain ⟨t', heq, hvalid, hslots⟩ := h.swap hindex (content_of_none hpage) obj
              exact .inr ⟨obj, t', rfl, heq, hvalid, hslots⟩
      | some pg =>
          obtain ⟨t', heq, hvalid, hslots⟩ := h.swap hindex (content_of_some hpage) obj
          exact .inr ⟨obj, t', rfl, heq, hvalid, hslots⟩

/-! ### Closing a handle -/

/-- The search for a new `top` stays in the table, and passes only empty slots. -/
theorem scan_spec (t : HandleTable ω) (hindex : index < limit) :
  ∃ i, t.scan index = some i ∧ i ≤ index ∧
    ∀ j, i + 1 ≤ j → avlBase ≤ j → j ≤ index → t.slot j = none
  := by
  induction index with
  | zero => exact ⟨0, rfl, le_rfl, fun j hj _ hj' => by omega⟩
  | succ index ih =>
      have hstay : ∀ j, index + 1 + 1 ≤ j → avlBase ≤ j → j ≤ index + 1 → t.slot j = none :=
        fun j hj _ hj' => by omega
      rw [scan]
      split
      · rw [page_eq hindex]
        cases hpage : t.table ((index + 1) / handleOfPage) with
        | none => exact ⟨index + 1, rfl, le_rfl, hstay⟩
        | some pg =>
            simp only
            split
            · exact ⟨index + 1, rfl, le_rfl, hstay⟩
            · rename_i hslot
              rw [Option.not_isSome_iff_eq_none] at hslot
              obtain ⟨i, heq, hle, hempty⟩ := ih (by omega)
              refine ⟨i, heq, Nat.le_succ_of_le hle, ?_⟩
              intro j hj hbase hj'
              rcases Nat.lt_or_eq_of_le hj' with hlt | rfl
              · exact hempty j hj hbase (by omega)
              · exact (slot_of_some hpage).trans hslot
      · exact ⟨index + 1, rfl, le_rfl, hstay⟩

/-- Closing a handle that is in use. -/
theorem Valid.vacate (h : t.Valid) (hone : 1 ≤ index) (hindex : index < limit)
    (hpg : t.Content index pg) (hslot : t.slot index = some obj) :
  ∃ t', t.vacate pg index = some t' ∧ t'.Valid ∧
    ∀ j, t'.slot j = if j = index then none else t.slot j
  := by
  have hslots := hpg.slot_store none
  have hcount := hpg.occupied_store hindex none
  rw [hslot] at hcount
  have hpos : t.count ≠ 0 := Valid.count_pos h.count hindex (by rw [hslot]; rfl)
  have hcount' : t.count - 1 = (t.store pg index none).occupied := by
    rw [h.count]
    simp only [Option.isSome_some, Bool.toNat_true, Option.isSome_none, Bool.toNat_false] at hcount
    omega
  obtain ⟨s, hs⟩ : ∃ s, s = { t.store pg index none with count := t.count - 1 } := ⟨_, rfl⟩
  have hslot' : ∀ j, s.slot j = if j = index then none else t.slot j := by
    rw [hs]
    exact hslots
  have hvacate : t.vacate pg index = if t.top ≤ index + 1 then
      (s.scan ((index + 2 ^ 32 - 1) % 2 ^ 32)).map fun i => { s with top := i + 1 }
      else some s := by
    rw [HandleTable.vacate, if_neg hpos, hs]
  rw [hvacate]
  split
  · rename_i htop
    have hdec : (index + 2 ^ 32 - 1) % 2 ^ 32 = index - 1 := by
      rw [limit] at hindex
      lia
    have hpred : index - 1 < limit := by lia
    obtain ⟨i, hscan, hle, hempty⟩ := scan_spec s hpred
    rw [hdec, hscan, Option.map_some]
    refine ⟨_, rfl, ⟨?_, ?_⟩, hslot'⟩
    · change s.count = s.occupied
      rw [hs]
      exact hcount'
    · intro j hj hlt
      change max (i + 1) avlBase ≤ j at hj
      change s.slot j = none
      by_cases hpast : j ≤ index - 1
      · exact hempty j (by lia) (by lia) hpast
      · rw [hslot']
        split
        · rfl
        · exact h.above j (by lia) hlt
  · refine ⟨s, rfl, ⟨?_, ?_⟩, hslot'⟩
    · rw [hs]
      exact hcount'
    · intro j hj hlt
      have htop : s.top = t.top := by
        rw [hs]
        rfl
      rw [htop] at hj
      rw [hslot']
      split
      · rfl
      · exact h.above j hj hlt

/-- `close` succeeds exactly if the handle is in use, and relaxes the object of the handle. -/
theorem Valid.close (h : t.Valid) (hone : 1 ≤ index) :
  ∃ t', t.close index =
      some (if index < limit then (t.slot index).isSome else false,
        if index < limit then t.slot index else none, t') ∧
    t'.Valid ∧ ∀ j, t'.slot j = if j = index ∧ index < limit then none else t.slot j
  := by
  by_cases hindex : index < limit
  · rw [HandleTable.close, if_neg (Nat.not_le.mpr hindex), page_eq hindex, if_pos hindex,
      if_pos hindex]
    simp only [hindex, and_true]
    cases hpage : t.table (index / handleOfPage) with
    | none =>
        rw [slot_of_none hpage]
        refine ⟨t, rfl, h, ?_⟩
        intro j
        split
        · rename_i heq
          rw [heq, slot_of_none hpage]
        · rfl
    | some pg =>
        rw [slot_of_some hpage]
        cases hslot : pg (index % handleOfPage) with
        | none =>
            refine ⟨t, by simp only [hslot, Option.isSome_none], h, ?_⟩
            intro j
            split
            · rename_i heq
              rw [heq, slot_of_some hpage, hslot]
            · rfl
        | some obj =>
            obtain ⟨t', heq, hvalid, hslots⟩ := h.vacate hone hindex (content_of_some hpage)
              ((slot_of_some hpage).trans hslot)
            exact ⟨t', by simp only [hslot, heq, Option.map_some, Option.isSome_some], hvalid,
              hslots⟩
  · rw [HandleTable.close, if_pos (Nat.le_of_not_lt hindex)]
    refine ⟨t, by rw [if_neg hindex, if_neg hindex], h, ?_⟩
    intro j
    rw [if_neg (fun hj => hindex hj.2)]

/-! ### Closing all handles -/

/-- The objects of the first slots. -/
def objects (t : HandleTable ω) (n : ℕ) : List ω := (List.range n).filterMap t.slot

/-- One slot in the loops of `clear`. -/
theorem clearSlot_spec (h : t.count = t.occupied) (hindex : index < limit) (l : List ω) :
  ∃ t', clearSlot (l, t) index = some (l ++ (t.slot index).toList, t') ∧ t'.count = t'.occupied ∧
    ∀ j, t'.slot j = if j = index then none else t.slot j
  := by
  have hempty : t.slot index = none → ∀ j, t.slot j = if j = index then none else t.slot j := by
    intro hnone j
    split
    · rename_i heq
      rw [heq, hnone]
    · rfl
  cases hpage : t.table (index / handleOfPage) with
  | none =>
      have hnone := slot_of_none hpage
      refine ⟨t, ?_, h, hempty hnone⟩
      simp only [clearSlot, hpage, hnone, Option.toList_none, List.append_nil]
  | some pg =>
      have hpg := slot_of_some hpage
      cases hslot : pg (index % handleOfPage) with
      | none =>
          rw [hslot] at hpg
          refine ⟨t, ?_, h, hempty hpg⟩
          simp only [clearSlot, hpage, hslot, hpg, Option.toList_none, List.append_nil]
      | some obj =>
          rw [hslot] at hpg
          have hcontent : t.Content index pg := content_of_some hpage
          have hpos : t.count ≠ 0 := Valid.count_pos h hindex (by rw [hpg]; rfl)
          have hstore := hcontent.occupied_store hindex none
          rw [hpg] at hstore
          refine ⟨{ t.store pg index none with count := t.count - 1 }, ?_, ?_, ?_⟩
          · simp only [clearSlot, hpage, hslot, hpg, if_neg hpos, Option.toList_some]
          · change t.count - 1 = (t.store pg index none).occupied
            rw [h]
            simp only [Option.isSome_some, Bool.toNat_true, Option.isSome_none,
              Bool.toNat_false] at hstore
            omega
          · exact hcontent.slot_store none

/-- The loops of `clear` up to a slot. -/
theorem clear_prefix (h : t.count = t.occupied) {n : ℕ} (hn : n ≤ limit) :
  ∃ t', (List.range n).foldlM clearSlot ([], t) = some (t.objects n, t') ∧
    t'.count = t'.occupied ∧ ∀ j, t'.slot j = if j < n then none else t.slot j
  := by
  induction n with
  | zero => exact ⟨t, rfl, h, fun j => rfl⟩
  | succ n ih =>
      obtain ⟨s, heq, hcount, hslots⟩ := ih (by omega)
      obtain ⟨t', hclear, hcount', hslots'⟩ := clearSlot_spec hcount hn (t.objects n)
      rw [hslots, if_neg (Nat.lt_irrefl n)] at hclear
      have hobjects : t.objects (n + 1) = t.objects n ++ (t.slot n).toList := by
        rw [objects, objects, List.range_succ, List.filterMap_append]
        cases ht : t.slot n <;> simp [ht]
      refine ⟨t', ?_, hcount', ?_⟩
      · rw [List.range_succ, List.foldlM_append, heq, hobjects]
        change (do let s' ← clearSlot (t.objects n, s) n; some s') = _
        rw [hclear]
        rfl
      · intro j
        rw [hslots', hslots]
        by_cases hj : j = n
        · rw [if_pos hj, if_pos (by omega)]
        · rw [if_neg hj]
          exact if_congr (by lia) rfl rfl

/-- `clear` relaxes the object of every slot and leaves no slot in use. -/
theorem Valid.clear (h : t.Valid) :
  ∃ t', t.clear = some (t.objects limit, t') ∧ t'.Valid ∧ ∀ j < limit, t'.slot j = none
  := by
  obtain ⟨t', heq, hcount, hslots⟩ := clear_prefix h.count le_rfl
  have hnone : ∀ j < limit, t'.slot j = none := by
    intro j hj
    rw [hslots, if_pos hj]
  have hzero : t'.count = 0 := by
    rw [hcount]
    apply (tally_eq_zero_iff _ _).mpr
    intro i
    rw [slots, hnone i i.isLt]
    rfl
  refine ⟨t', ?_, ⟨hcount, fun i _ hi => hnone i hi⟩, hnone⟩
  rw [HandleTable.clear, heq]
  change (if t'.count = 0 then some (t.objects limit, t') else none) = _
  rw [if_pos hzero]

/-! ### The map of handles -/

/-- The object of a handle, as `operator[]` finds it. -/
def lookup (t : HandleTable ω) (index : ℕ) : Option ω :=
  if index < limit then t.slot index else none

/-- What an operation does to the map of handles, and what comes of it. -/
def Spec (t : HandleTable ω) : Action ω → Result ω → HandleTable ω → Prop
  | .put _ obj, .handle index, t' =>
      (index = 0 ∧ t' = t) ∨ (avlBase ≤ index ∧ index < limit ∧ t.lookup index = none ∧
        ∀ j, t'.lookup j = if j = index then some obj else t.lookup j)
  | .assign _ index ptr, .done ok relaxed, t' =>
      (ok = false ∧ relaxed = [] ∧ t' = t) ∨ (ok = true ∧ relaxed = (t.lookup index).toList ∧
        ptr.isSome = true ∧ ∀ j, t'.lookup j = if j = index then ptr else t.lookup j)
  | .close index, .done ok relaxed, t' =>
      ok = (t.lookup index).isSome ∧ relaxed = (t.lookup index).toList ∧
        ∀ j, t'.lookup j = if j = index then none else t.lookup j
  | .clear, .done _ relaxed, t' => relaxed = t.objects limit ∧ ∀ j, t'.lookup j = none
  | _, _, _ => False

theorem lookup_of_lt (h : index < limit) : t.lookup index = t.slot index := if_pos h

/-- A map that is changed at one valid handle. -/
theorem lookup_of_slots (hindex : index < limit)
    (hslots : ∀ j, t'.slot j = if j = index then v else t.slot j) (j : ℕ) :
  t'.lookup j = if j = index then v else t.lookup j
  := by
  rw [lookup, lookup, hslots]
  by_cases hj : j < limit
  · rw [if_pos hj, if_pos hj]
  · rw [if_neg hj, if_neg hj, if_neg]
    rintro rfl
    exact hj hindex

/-- Every operation succeeds, does to the map what it is specified to do, and keeps the
invariant. -/
theorem Valid.exec (h : t.Valid) {a : Action ω} (ha : t.Allowed a) :
  ∃ r t', t.exec a = some (r, t') ∧ t.Spec a r t' ∧ t'.Valid
  := by
  cases a with
  | put room obj =>
      rcases h.put room obj with heq | ⟨index, t', heq, hvalid, hbase, hlt, hslot, hslots⟩
      · exact ⟨.handle 0, t, by rw [HandleTable.exec, heq]; rfl, .inl ⟨rfl, rfl⟩, h⟩
      · refine ⟨.handle index, t', by rw [HandleTable.exec, heq]; rfl, .inr ?_, hvalid⟩
        exact ⟨hbase, hlt, (lookup_of_lt hlt).trans hslot, lookup_of_slots hlt hslots⟩
  | assign room index ptr =>
      have hlt : index < limit := lt_trans ha (by decide)
      rcases h.assign room ha ptr with heq | ⟨obj, t', rfl, heq, hvalid, hslots⟩
      · exact ⟨.done false [], t, by rw [HandleTable.exec, heq]; rfl, .inl ⟨rfl, rfl, rfl⟩, h⟩
      · refine ⟨.done true (t.slot index).toList, t', by rw [HandleTable.exec, heq]; rfl, .inr ?_,
          hvalid⟩
        rw [lookup_of_lt hlt]
        exact ⟨rfl, rfl, rfl, lookup_of_slots hlt hslots⟩
  | close index =>
      obtain ⟨t', heq, hvalid, hslots⟩ := h.close ha
      have hok : (if index < limit then (t.slot index).isSome else false) =
          (t.lookup index).isSome := by
        rw [lookup]
        split
        · rfl
        · rfl
      rw [hok] at heq
      refine ⟨.done (t.lookup index).isSome (t.lookup index).toList, t', ?_, ⟨rfl, rfl, ?_⟩, hvalid⟩
      · rw [HandleTable.exec, heq]
        rfl
      · intro j
        rw [lookup, lookup, hslots]
        by_cases hj : j = index
        · rw [hj]
          by_cases hlt : index < limit
          · rw [if_pos hlt, if_pos ⟨rfl, hlt⟩, if_pos rfl]
          · rw [if_neg hlt, if_pos rfl]
        · have hkept : ¬(j = index ∧ index < limit) := fun hand => hj hand.1
          rw [if_neg hkept, if_neg hj]
  | clear =>
      obtain ⟨t', heq, hvalid, hslots⟩ := h.clear
      refine ⟨.done true (t.objects limit), t', ?_, ⟨rfl, ?_⟩, hvalid⟩
      · simp only [HandleTable.exec, heq, Option.map_some]
      intro j
      rw [lookup]
      split
      · rename_i hj
        exact hslots j hj
      · rfl

/-- The table stays valid in every run. -/
theorem valid_of_reachable (h : (machine ω).Reachable Allowed t) : t.Valid := by
  apply h.invariant
  · rintro t rfl
    exact valid_empty
  · intro t a t' hvalid ha hstep
    obtain ⟨r, t'', heq, -, hvalid'⟩ := hvalid.exec ha
    change (t.exec a).map Prod.snd = some t' at hstep
    rw [heq] at hstep
    cases hstep
    exact hvalid'

/-- The operations that leave the object of a handle from `avlBase` on where it is. -/
def Keeps (index : ℕ) : Action ω → Prop
  | .close i => 1 ≤ i ∧ i ≠ index
  | .clear => False
  | .assign _ i _ => i < avlBase
  | .put _ _ => True

/-- One operation that does not close a handle leaves its object in place. -/
theorem Valid.keeps (h : t.Valid) {a : Action ω} (ha : Keeps index a) (hbase : avlBase ≤ index)
    (hobj : t.lookup index = some obj) (hstep : (machine ω).step t a = some t') :
  t'.Valid ∧ t'.lookup index = some obj
  := by
  have hallowed : t.Allowed a := by
    cases a with
    | put room o => trivial
    | assign room i ptr => exact ha
    | close i => exact ha.1
    | clear => trivial
  obtain ⟨r, t'', heq, hspec, hvalid⟩ := h.exec hallowed
  change (t.exec a).map Prod.snd = some t' at hstep
  rw [heq] at hstep
  cases hstep
  refine ⟨hvalid, ?_⟩
  cases a with
  | put room o =>
      cases r with
      | handle i =>
          rcases hspec with ⟨-, rfl⟩ | ⟨-, -, hnone, hput⟩
          · exact hobj
          · rw [hput, if_neg]
            · exact hobj
            · rintro rfl
              rw [hnone] at hobj
              cases hobj
      | done ok relaxed => exact hspec.elim
  | assign room i ptr =>
      cases r with
      | handle i => exact hspec.elim
      | done ok relaxed =>
          rcases hspec with ⟨-, -, rfl⟩ | ⟨-, -, -, hassign⟩
          · exact hobj
          · have hi : i < avlBase := ha
            rw [hassign, if_neg (by omega)]
            exact hobj
  | close i =>
      cases r with
      | handle i => exact hspec.elim
      | done ok relaxed =>
          rw [hspec.2.2, if_neg (fun heq => ha.2 heq.symm)]
          exact hobj
  | clear => exact ha.elim

/-- Operations that do not close a handle leave its object in place. -/
theorem Valid.keeps_run (h : t.Valid) (hbase : avlBase ≤ index) (hobj : t.lookup index = some obj)
    {l : List (Action ω)} (hl : ∀ a ∈ l, Keeps index a) (hrun : (machine ω).exec t l = some t') :
  t'.lookup index = some obj
  := by
  induction l generalizing t with
  | nil =>
      cases hrun
      exact hobj
  | cons a rest ih =>
      rw [Machine.exec] at hrun
      cases hstep : (machine ω).step t a with
      | none =>
          rw [hstep] at hrun
          cases hrun
      | some s =>
          rw [hstep] at hrun
          obtain ⟨hvalid, hobj'⟩ := h.keeps (hl a List.mem_cons_self) hbase hobj hstep
          exact ih hvalid hobj' (fun b hb => hl b (List.mem_cons_of_mem a hb)) hrun

/-- In every run a handle table counts its objects and has none from `top` on, each operation does
what it is specified to do without leaving the array of pages, and an object that has been put is
found under its handle until the handle is closed. -/
theorem faithful_map (h : (machine ω).Reachable Allowed t) :
  t.Valid ∧ (∀ i, t.get i = some (t.lookup i)) ∧
    (∀ a, t.Allowed a → ∃ r t', t.exec a = some (r, t') ∧ t.Spec a r t') ∧
    ∀ room obj index t' l t'', t.put room obj = some (index, t') → index ≠ 0 →
      (∀ a ∈ l, Keeps index a) → (machine ω).exec t' l = some t'' → t''.get index = some (some obj)
  := by
  have hvalid := valid_of_reachable h
  refine ⟨hvalid, fun i => get_eq, ?_, ?_⟩
  · intro a ha
    obtain ⟨r, t', heq, hspec, -⟩ := hvalid.exec ha
    exact ⟨r, t', heq, hspec⟩
  · intro room obj index t' l t'' hput hne hl hrun
    rcases hvalid.put room obj with heq | ⟨i, s, heq, hvalid', hbase, hlt, -, hslots⟩
    · rw [heq] at hput
      cases hput
      exact absurd rfl hne
    · rw [heq] at hput
      cases hput
      have hobj : t'.lookup index = some obj := by
        rw [lookup_of_lt hlt, hslots, if_pos rfl]
      rw [get_eq]
      exact congrArg some (hvalid'.keeps_run hbase hobj hl hrun)

/-- Two objects are put into a table, and the handle of the first one is closed. -/
theorem faithful_map_close :
  ∃ t : HandleTable ℕ, (machine ℕ).exec {} [.put true 7, .put true 8, .close 4] = some t ∧ t.Valid ∧
    t.get 4 = some none ∧ t.get 5 = some (some 8)
  := by
  obtain ⟨t, ht, hfirst, hsecond⟩ : ∃ t : HandleTable ℕ,
      (machine ℕ).exec {} [.put true 7, .put true 8, .close 4] = some t ∧ t.lookup 4 = none ∧
      t.lookup 5 = some 8 :=
    ⟨_, rfl, rfl, rfl⟩
  have hreach : (machine ℕ).Reachable Allowed t := by
    apply (Machine.Reachable.start rfl).exec ht
    intro a ha s
    simp only [List.mem_cons, List.not_mem_nil, or_false] at ha
    rcases ha with rfl | rfl | rfl
    · trivial
    · trivial
    · exact (show 1 ≤ 4 by decide)
  obtain ⟨hvalid, hget, -, -⟩ := faithful_map hreach
  exact ⟨t, ht, hvalid, by rw [hget, hfirst], by rw [hget, hsecond]⟩

end HandleTable

end UOS
