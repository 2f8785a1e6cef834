import Mathlib.Tactic

/-!
# Making the volume writable

A volume is mounted read-only. `set_rw` makes it writable and sets a flag in its boot sector, so
that a volume that has not been stopped is found dirty at the next start. The definitions follow
`exfat::set_rw` and `exfat::stop` of `kernel/filesystem/exfat.cpp`.

The boot sector is held by the cache of the disk. Its byte `0x6A` is kept as the cache has it and
as it is on the disk. The outcomes of the accesses to the disk are given with each call.
-/

namespace UOS

/-- The parts of the file system that decide whether it can be written to. -/
structure Volume where
  /-- The flags `writable` and `stopping`. -/
  flags : BitVec 16 := 0
  volumeState : BitVec 8 := 0
  /-- The byte `0x6A` of the boot sector, as the cache has it. -/
  cached : BitVec 8
  /-- The byte `0x6A` of the boot sector on the disk. -/
  disk : BitVec 8

namespace Volume

def ALLOW_WRITE : BitVec 16 := 2
def STOPPING : BitVec 16 := 0x80

/-- The flag of the boot sector, which has the value of `ALLOW_WRITE`. -/
def DIRTY : BitVec 8 := 2

/-- Which of the accesses to the disk during a call succeed. -/
structure Access where
  /-- All slots of the cache are written. -/
  flush : Bool
  /-- The boot sector is read. -/
  read : Bool
  /-- The boot sector is written. -/
  write : Bool

def isRw (v : Volume) : Bool := v.flags &&& ALLOW_WRITE ≠ 0

/-- The flag of the boot sector is set on the disk. -/
def flagged (v : Volume) : Bool := v.disk &&& DIRTY ≠ 0

/-- `dm.relax(block,true)`: the boot sector is written, and a failure is not noticed. -/
def relax (v : Volume) (write : Bool) : Volume :=
  if write = true then { v with disk := v.cached } else v

/-- Makes the volume writable. -/
def setRw (v : Volume) (force : Bool) (access : Access) : Bool × Volume :=
  if v.flags ≠ 0 then
    -- already writable, or stopping
    (false, v)
  else
    let v := { v with flags := ALLOW_WRITE }
    if access.read = false then
      (false, v)
    else
      let v := { v with volumeState := v.cached &&& DIRTY }
      let v := if v.volumeState = 0 ∨ force = true then
          { v with cached := v.cached ||| DIRTY }
        else v
      (decide (v.volumeState = 0), v.relax access.write)

/-- Stops the file system. The workers have come to an end when the cache is written. -/
def stop (v : Volume) (access : Access) : Bool × Volume :=
  if v.flags ≠ ALLOW_WRITE then
    -- not writable, or already stopped
    (false, v)
  else
    let v := { v with flags := ALLOW_WRITE ||| STOPPING }
    let v := v.relax access.flush
    if v.volumeState = 0 then
      if access.read = false then
        (false, v)
      else
        (true, { v with cached := v.cached &&& ~~~DIRTY }.relax access.write)
    else
      (true, v)

/-- The calls, and the thread that writes the cache to the disk from time to time. -/
inductive Call where
  | setRw (force : Bool) (access : Access)
  | stop (access : Access)
  | flush

/-- Performs a call. -/
def exec (v : Volume) : Call → Bool × Volume
  | .setRw force access => v.setRw force access
  | .stop access => v.stop access
  | .flush => (true, v.relax true)

/-- A call that grants that the volume is written to: it is one of `set_rw` that returns `true`
or is forced. -/
def Call.grants (v : Volume) : Call → Bool
  | .setRw force access => (v.setRw force access).1 || force
  | _ => false

/-- The states that are reached from the start by calls that are allowed, and whether one of the
calls has granted that the volume is written to. -/
inductive Reachable (allowed : Volume → Call → Prop) : Volume → Bool → Prop
  | start (byte : BitVec 8) : Reachable allowed { cached := byte, disk := byte } false
  | call {v : Volume} {granted : Bool} (c : Call) : Reachable allowed v granted → allowed v c →
      Reachable allowed (v.exec c).2 (granted || c.grants v)

/-- The call leaves the volume writable only if it was, or if the call returns `true` or is
forced. When the volume becomes writable the flag has been set on the disk, and after a call
that returns `false` and is not forced it is read-only. -/
structure Agrees (v : Volume) (force : Bool) (access : Access) : Prop where
  granted : (v.setRw force access).2.isRw = true → v.isRw = true ∨
    (v.setRw force access).1 = true ∨ force = true
  flagged : v.isRw = false → (v.setRw force access).2.isRw = true →
    (v.setRw force access).2.flagged = true
  refused : (v.setRw force access).1 = false → force = false →
    (v.setRw force access).2.isRw = false

/-- When the call finds the volume read-only and clean, the boot sector can be read and written.
When the volume is dirty, or already writable, the call is forced. -/
def Proper (v : Volume) (force : Bool) (access : Access) : Prop :=
  if v.flags = 0 ∧ v.cached &&& DIRTY = 0 then
    access.read = true ∧ access.write = true
  else
    force = true

/-- Calls of `set_rw` are proper. -/
def Call.Proper (v : Volume) : Call → Prop
  | .setRw force access => v.Proper force access
  | _ => True

/-! ### What holds in every run -/

variable {v : Volume} {granted : Bool}

/-- The flags have one of three values. As long as they are clear, the cache has the boot sector
as it is on the disk. -/
structure Inv (v : Volume) : Prop where
  flags : v.flags = 0 ∨ v.flags = ALLOW_WRITE ∨ v.flags = ALLOW_WRITE ||| STOPPING
  cached : v.flags = 0 → v.cached = v.disk

@[simp]
theorem relax_flags (write : Bool) : (v.relax write).flags = v.flags := by
  rw [relax]
  split_ifs
  · rfl
  · rfl

/-- Writing the boot sector leaves the cache as it is. -/
theorem Inv.relax (h : v.Inv) (write : Bool) : (v.relax write).Inv := by
  rw [Volume.relax]
  split_ifs
  · exact ⟨h.flags, fun _ => rfl⟩
  · apply h

/-- Once the flags are set they do not matter for the cache. -/
theorem Inv.of_flags (h : v.flags = ALLOW_WRITE ∨ v.flags = ALLOW_WRITE ||| STOPPING) : v.Inv := by
  constructor
  · exact .inr h
  · intro h0
    rw [h0] at h
    rcases h with h | h
    · cases h
    · cases h

/-- A call that finds the volume read-only, and cannot read the boot sector. -/
theorem setRw_unread (hflags : v.flags = 0) {force : Bool} {access : Access}
    (hread : access.read = false) :
  v.setRw force access = (false, { v with flags := ALLOW_WRITE })
  := by
  simp only [setRw, hflags, hread, ne_eq, not_true_eq_false, if_false, if_true]

/-- A call that finds the volume read-only, and reads the boot sector. -/
theorem setRw_read (hflags : v.flags = 0) {force : Bool} {access : Access}
    (hread : access.read = true) :
  v.setRw force access = (decide (v.cached &&& DIRTY = 0), ({ v with
    flags := ALLOW_WRITE
    volumeState := v.cached &&& DIRTY
    cached := if v.cached &&& DIRTY = 0 ∨ force = true then v.cached ||| DIRTY else v.cached
    } : Volume).relax access.write)
  := by
  simp only [setRw, hflags, hread, ne_eq, not_true_eq_false, if_false, Bool.true_eq_false]
  by_cases h : v.cached &&& DIRTY = 0 ∨ force = true
  · simp only [if_pos h]
  · simp only [if_neg h]

/-- A call that stops the file system. -/
theorem stop_flags (hflags : v.flags = ALLOW_WRITE) (access : Access) :
  (v.stop access).2.flags = ALLOW_WRITE ||| STOPPING
  := by
  rw [stop, if_neg (by simp [hflags])]
  dsimp only
  split
  · split
    · simp
    · simp
  · simp

/-- A call keeps the invariant. -/
theorem Inv.exec (h : v.Inv) (c : Call) : (v.exec c).2.Inv := by
  cases c with
  | setRw force access =>
      rw [Volume.exec]
      by_cases hflags : v.flags = 0
      · apply of_flags
        left
        cases hread : access.read with
        | false => rw [setRw_unread hflags hread]
        | true => rw [setRw_read hflags hread, relax_flags]
      · rw [setRw, if_pos hflags]
        apply h
  | stop access =>
      rw [Volume.exec]
      by_cases hflags : v.flags = ALLOW_WRITE
      · apply of_flags
        right
        apply stop_flags hflags
      · rw [stop, if_pos hflags]
        apply h
  | flush => apply h.relax true

theorem Reachable.inv {allowed : Volume → Call → Prop} (h : Reachable allowed v granted) :
  v.Inv
  := by
  induction h with
  | start byte => exact ⟨.inl rfl, fun _ => rfl⟩
  | call c _ _ ih => apply ih.exec c

/-- Setting the flag sets it, whatever else the byte holds. -/
theorem or_dirty : ∀ byte : BitVec 8, (byte ||| DIRTY) &&& DIRTY ≠ 0 := by
  decide

/-- A volume whose flags are not clear is writable. -/
theorem Inv.isRw_iff (h : v.Inv) : v.isRw = true ↔ v.flags ≠ 0 := by
  rw [isRw, decide_eq_true_eq]
  rcases h.flags with h | h | h
  · rw [h]
    decide
  · rw [h]
    decide
  · rw [h]
    decide

theorem isRw_of_flags (h : v.flags = ALLOW_WRITE) : v.isRw = true := by
  rw [isRw, h]
  decide

/-- A call makes the volume writable, if it is not. -/
theorem isRw_setRw (hflags : v.flags = 0) (force : Bool) (access : Access) :
  (v.setRw force access).2.isRw = true
  := by
  cases hread : access.read with
  | false =>
      rw [setRw_unread hflags hread]
      exact isRw_of_flags rfl
  | true =>
      rw [setRw_read hflags hread]
      apply isRw_of_flags
      rw [relax_flags]

/-- A call on a volume that is read-only and clean does what it should exactly if the boot sector
can be read and written. -/
theorem agrees_iff_clean (hflags : v.flags = 0) (hdisk : v.cached = v.disk)
    (hclean : v.cached &&& DIRTY = 0) (hro : v.isRw = false) (force : Bool) (access : Access) :
  v.Agrees force access ↔ access.read = true ∧ access.write = true
  := by
  have hrw := isRw_setRw hflags force access
  have hnot : v.flagged = false := by
    rw [flagged, ← hdisk]
    simpa using hclean
  cases hread : access.read with
  | false =>
      have hcall := @setRw_unread v hflags force access hread
      simp only [Bool.false_eq_true, false_and, iff_false]
      intro ha
      have hflag := ha.flagged hro hrw
      rw [hcall] at hflag
      rw [show flagged { v with flags := ALLOW_WRITE } = v.flagged from rfl, hnot] at hflag
      cases hflag
  | true =>
      have hcall := @setRw_read v hflags force access hread
      rw [if_pos (.inl hclean), hclean, decide_eq_true rfl] at hcall
      simp only [true_and]
      cases hwrite : access.write with
      | false =>
          simp only [Bool.false_eq_true, iff_false]
          intro ha
          have hflag := ha.flagged hro hrw
          rw [hcall, hwrite] at hflag
          have hold : v.flagged = true := hflag
          rw [hnot] at hold
          cases hold
      | true =>
          simp only [iff_true]
          refine ⟨fun _ => .inr (.inl (by rw [hcall])), fun _ _ => ?_, fun hres => ?_⟩
          · rw [hcall, hwrite, flagged, decide_eq_true_eq]
            apply or_dirty
          · rw [hcall] at hres
            cases hres

/-- A call on a volume that is read-only and dirty does what it should exactly if it is forced. -/
theorem agrees_iff_dirty (hflags : v.flags = 0) (hdisk : v.cached = v.disk)
    (hdirty : v.cached &&& DIRTY ≠ 0) (force : Bool) (access : Access) :
  v.Agrees force access ↔ force = true
  := by
  have hrw := isRw_setRw hflags force access
  have hres : (v.setRw force access).1 = false := by
    cases hread : access.read with
    | false => rw [setRw_unread hflags hread]
    | true =>
        rw [setRw_read hflags hread]
        simpa using hdirty
  constructor
  · intro ha
    by_contra hforce
    rw [Bool.not_eq_true] at hforce
    rw [ha.refused hres hforce] at hrw
    cases hrw
  · rintro rfl
    refine ⟨fun _ => .inr (.inr rfl), fun _ _ => ?_, fun _ hc => by cases hc⟩
    have hold : v.flagged = true := by
      rw [flagged, ← hdisk, decide_eq_true_eq]
      apply hdirty
    cases hread : access.read with
    | false =>
        rw [setRw_unread hflags hread]
        apply hold
    | true =>
        rw [setRw_read hflags hread, if_pos (.inr rfl)]
        cases access.write with
        | false => apply hold
        | true =>
            rw [relax, if_pos rfl, flagged, decide_eq_true_eq]
            apply or_dirty

/-- A call does what it should exactly if it is proper. -/
theorem Inv.agrees_iff (h : v.Inv) (force : Bool) (access : Access) :
  v.Agrees force access ↔ v.Proper force access
  := by
  by_cases hflags : v.flags = 0
  · have hro : v.isRw = false := by
      rw [← Bool.not_eq_true, h.isRw_iff]
      simpa using hflags
    by_cases hclean : v.cached &&& DIRTY = 0
    · rw [Proper, if_pos ⟨hflags, hclean⟩, agrees_iff_clean hflags (h.cached hflags) hclean hro]
    · rw [Proper, if_neg (fun hc => hclean hc.2),
        agrees_iff_dirty hflags (h.cached hflags) hclean]
  · have hrw : v.isRw = true := h.isRw_iff.mpr hflags
    have hcall : v.setRw force access = (false, v) := by
      rw [setRw, if_pos hflags]
    rw [Proper, if_neg (fun hc => hflags hc.1)]
    constructor
    · intro ha
      have hrefused := ha.refused
      rw [hcall, hrw] at hrefused
      simpa using hrefused
    · rintro rfl
      exact ⟨fun _ => .inl hrw, by simp [hrw], by simp⟩

/-- In every run whose calls of `set_rw` are proper, the volume is writable only after a call that
returned `true` or was forced. In each of its states a call of `set_rw` does what it should
exactly if it is proper. -/
theorem Reachable.agrees_with_flag (h : Reachable Call.Proper v granted) :
  (v.isRw = true → granted = true) ∧
    ∀ force access, v.Agrees force access ↔ v.Proper force access
  := by
  refine ⟨?_, h.inv.agrees_iff⟩
  induction h with
  | start byte =>
      intro hrw
      rw [(Reachable.start byte : Reachable Call.Proper _ _).inv.isRw_iff] at hrw
      apply absurd rfl hrw
  | @call v granted c h hproper ih =>
      intro hrw
      cases c with
      | setRw force access =>
          have ha := (h.inv.agrees_iff force access).mpr hproper
          rcases ha.granted hrw with hold | hres | hforce
          · rw [ih hold, Bool.true_or]
          · rw [Call.grants, hres, Bool.true_or, Bool.or_true]
          · rw [Call.grants, hforce, Bool.or_true, Bool.or_true]
      | stop access =>
          have hold : v.isRw = true := by
            by_contra hro
            rw [h.inv.isRw_iff, not_not] at hro
            rw [exec, stop, if_pos (by rw [hro]; decide), h.inv.isRw_iff] at hrw
            apply hrw hro
          rw [ih hold, Bool.true_or]
      | flush =>
          have hold : v.isRw = true := by
            rw [exec, isRw, relax_flags] at hrw
            apply hrw
          rw [ih hold, Bool.true_or]

/-- A clean volume whose boot sector can be read and written becomes writable as it should. -/
theorem agrees_clean :
  ∃ v granted, Reachable Call.Proper v granted ∧ v.isRw = true ∧ v.flagged = true ∧
    granted = true
  := by
  have h : Reachable Call.Proper _ _ :=
    .call (.setRw false ⟨true, true, true⟩) (.start 0) ⟨rfl, rfl⟩
  exact ⟨_, _, h, rfl, rfl, h.agrees_with_flag.1 rfl⟩

/-- A call on a dirty volume that is not forced returns `false`, and leaves it writable. -/
theorem writable_refused :
  Reachable (fun _ _ => True) { cached := 2, disk := 2 } false ∧
    (setRw { cached := 2, disk := 2 } false ⟨true, true, true⟩).1 = false ∧
    (setRw { cached := 2, disk := 2 } false ⟨true, true, true⟩).2.isRw = true ∧
    ¬ Agrees { cached := 2, disk := 2 } false ⟨true, true, true⟩
  := by
  refine ⟨.start 2, rfl, rfl, ?_⟩
  intro ha
  have hro := ha.refused rfl rfl
  cases hro

end Volume

end UOS
