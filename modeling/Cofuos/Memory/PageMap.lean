import Cofuos.Memory.Placement

/-!
# Address spaces as page maps

For its users an address space is a map from pages to what there is at a page: nothing, a
reservation, or a frame with attributes. The pages of a table that is bypassed cannot be used
at all. A request has a precondition and an effect on this map, and the requests to a space
that can be reached from a new one do what the map says.

Between two requests the physical memory manager may serve others, as long as the frames of
the space stay in use.
-/

namespace UOS

open Fault

/-! ### Page maps -/

/-- The attributes of a page. -/
structure Attributes where
  write : Bool
  user : Bool
  wt : Bool
  cd : Bool
  pat : Bool
  global : Bool
  xd : Bool
  deriving DecidableEq, Repr

/-- What there is at a page. -/
inductive PageState where
  | bypassed
  | free
  | reserved
  | committed (frame : ℕ) (attributes : Attributes)
  deriving DecidableEq, Repr

/-- What there is at every page. -/
abbrev PageMap := ℕ → PageState

/-- The attributes of a page that a request asks for. -/
def Attributes.set (a : Attributes) (attrib : UInt64) : Attributes :=
  { a with
    xd := attrib &&& Vspace.PAGE_XD ≠ 0
    global := attrib &&& Vspace.PAGE_GLOBAL ≠ 0
    cd := attrib &&& Vspace.PAGE_CD ≠ 0
    wt := attrib &&& Vspace.PAGE_WT ≠ 0
    write := attrib &&& Vspace.PAGE_WRITE ≠ 0 }

namespace PTE

/-- The attributes in an entry. -/
def attributes (pt : PTE) : Attributes :=
  ⟨pt.write, pt.user, pt.wt, pt.cd, pt.pat, pt.global, pt.xd⟩

/-- What an entry says about its page. -/
def state (pt : PTE) : PageState :=
  if pt.present = true then .committed pt.pageAddr pt.attributes
  else if pt.preserve = true then .reserved
  else .free

variable {pt : PTE}

theorem state_eq_free_iff : pt.state = .free ↔ pt.isFree = true := by
  by_cases hp : pt.present = true
  · simp [state, isFree, hp]
  · by_cases hr : pt.preserve = true
    · simp [state, isFree, hp, hr]
    · simp [state, isFree, hp, hr]

theorem state_reserved (h : pt.isFree = true) : pt.reserved.state = .reserved := by
  simp only [isFree, Bool.and_eq_true, Bool.not_eq_true'] at h
  simp [state, reserved, h.1]

theorem state_released (h : pt.InOrder) : pt.released.state = .free := by
  by_cases hp : pt.present = true
  · simp [state, released, hp, (h.mapped hp).2.2]
  · simp [state, released, hp]

theorem state_withAttrib (h : pt.present = true) (attrib : UInt64) :
  (pt.withAttrib attrib).state = .committed pt.pageAddr (pt.attributes.set attrib)
  := by
  have hp : (pt.withAttrib attrib).present = true := h
  rw [state, if_pos hp]
  rfl

/-- The entries that may be committed are the reserved ones. -/
theorem commitCheck_iff (h : pt.InOrder) : Vspace.commitCheck pt = true ↔ pt.state = .reserved := by
  by_cases hp : pt.present = true
  · simp [Vspace.commitCheck, state, hp]
  · by_cases hr : pt.preserve = true
    · simp [Vspace.commitCheck, state, hp, hr, h.bypass]
    · simp [Vspace.commitCheck, state, hp, hr]

/-- The entries whose attributes may be changed are the committed ones. -/
theorem protectCheck_iff (h : pt.InOrder) :
  Vspace.protectCheck pt = true ↔ ∃ f a, pt.state = .committed f a
  := by
  by_cases hp : pt.present = true
  · obtain ⟨-, hu, ha⟩ := h.mapped hp
    simp [Vspace.protectCheck, state, hp, hu, ha, h.bypass]
  · by_cases hr : pt.preserve = true
    · simp [Vspace.protectCheck, state, hp, hr]
    · simp [Vspace.protectCheck, state, hp, hr]

/-- The entries that may be released are those that are not free. -/
theorem releaseCheck_iff (h : pt.InOrder) : Vspace.releaseCheck pt = true ↔ pt.isFree = false := by
  by_cases hp : pt.present = true
  · obtain ⟨-, hu, ha⟩ := h.mapped hp
    simp [Vspace.releaseCheck, isFree, hp, hu, ha, h.bypass]
  · by_cases hr : pt.preserve = true
    · simp [Vspace.releaseCheck, isFree, hp, hr, h.bypass]
    · simp [Vspace.releaseCheck, isFree, hp, hr, h.bypass]

end PTE

namespace Vspace

/-- The page map of an address space. -/
def map (vs : Vspace) : PageMap := fun q =>
  if vs.bypassed (q / 0x200) = true then .bypassed else (vs.entry q).state

variable {debug : Bool} {vs vs' : Vspace} {q : ℕ}

theorem vacant_iff_map : vs.Vacant q ↔ vs.map q = .free := by
  rw [Vacant, map]
  split_ifs with hb
  · simp [hb]
  · simp [hb, PTE.state_eq_free_iff]

/-- A page that is not free is not bypassed. -/
theorem Inv.not_bypassed (h : Inv debug vs) (hnf : (vs.entry q).isFree = false) :
  vs.bypassed (q / 0x200) = false
  := by
  by_contra hb
  rw [Bool.not_eq_false] at hb
  have := h.bypass _ hb
  rw [hasTable_of_not_free hnf] at this
  cases this

/-- The map shows the entry of a page that is not free. -/
theorem Inv.map_eq (h : Inv debug vs) (hnf : (vs.entry q).isFree = false) :
  vs.map q = (vs.entry q).state
  := by
  rw [map, h.not_bypassed hnf, if_neg (by simp)]

/-- What the map says of a page that is not free, its entry says. -/
theorem Inv.map_eq_iff (h : Inv debug vs) {s : PageState} (hs : s ≠ .free) (hb : s ≠ .bypassed) :
  vs.map q = s ↔ (vs.entry q).state = s
  := by
  by_cases hnf : (vs.entry q).isFree = false
  · rw [h.map_eq hnf]
  · rw [Bool.not_eq_false, ← PTE.state_eq_free_iff] at hnf
    rw [map, hnf]
    split_ifs
    · exact ⟨fun he => absurd he.symm hb, fun he => absurd he.symm hs⟩
    · rfl

theorem Grown.map_eq (h : Grown debug vs vs') : vs'.map = vs.map := by
  funext p
  rw [map, map, h.bypassed, h.entry]

end Vspace

/-! ### Requests -/

/-- The requests of a user program, with their arguments. -/
inductive Request where
  | reserve (addr : UInt64) (pageCount : UInt32)
  | commit (addr : UInt64) (pageCount : UInt32)
  | protect (addr : UInt64) (pageCount : UInt32) (attrib : UInt64)
  | release (addr : UInt64) (pageCount : UInt32)
  deriving DecidableEq, Repr

namespace Request

/-- The address of a request. -/
def addr : Request → ℕ
  | reserve addr _ | commit addr _ | protect addr _ _ | release addr _ => addr.toNat

/-- The number of pages of a request. -/
def pageCount : Request → ℕ
  | reserve _ n | commit _ n | protect _ n _ | release _ n => n.toNat

/-- The pages of a request. -/
def pages (r : Request) : Run := ⟨r.addr / 0x1000, r.pageCount⟩

/-- Carries out a request. The result is `0` when it fails. -/
def exec (debug : Bool) (vs : Vspace) : Request → Except Fault (ℕ × Vspace)
  | reserve addr n => vs.reserve debug addr.toNat n.toNat
  | commit addr n => do
      let (res, vs) ← vs.commit debug addr.toNat n.toNat
      return (res.toNat, vs)
  | protect addr n attrib => do
      let (res, vs) ← vs.protect debug addr.toNat n.toNat attrib
      return (res.toNat, vs)
  | release addr n => do
      let (res, vs) ← vs.release debug addr.toNat n.toNat
      return (res.toNat, vs)

/-- The arguments of a request pass the checks that are made of them. -/
def accepted : Request → Bool
  | protect addr n attrib =>
      Vspace.commonCheck addr.toNat n.toNat && attrib &&& ~~~Vspace.protectMask = 0
  | r => Vspace.commonCheck r.addr r.pageCount

/-- What a request needs of the page map. -/
def Pre (m : PageMap) (r : Request) : Prop :=
  match r with
  | reserve _ _ => ∀ p ∈ r.pages, m p = .free
  | commit _ _ => ∀ p ∈ r.pages, m p = .reserved
  | protect _ _ _ => ∀ p ∈ r.pages, ∃ f a, m p = .committed f a
  | release _ _ => ∀ p ∈ r.pages, m p = .reserved ∨ ∃ f a, m p = .committed f a

/-- What a request does to the page map, when the frames of `used` are in use. -/
def Effect (used : Finset ℕ) (m m' : PageMap) (r : Request) : Prop :=
  match r with
  | reserve _ _ => ∀ p, m' p = if p ∈ r.pages then .reserved else m p
  | commit _ _ => (∀ p, p ∉ r.pages → m' p = m p) ∧
      ∃ frame : ℕ → ℕ, (∀ p ∈ r.pages, frame p ∉ used ∧ ∃ a, m' p = .committed (frame p) a) ∧
        ∀ p ∈ r.pages, ∀ p' ∈ r.pages, frame p = frame p' → p = p'
  | protect _ _ attrib => (∀ p, p ∉ r.pages → m' p = m p) ∧
      ∀ p ∈ r.pages, ∀ f a, m p = .committed f a → m' p = .committed f (a.set attrib)
  | release _ _ => ∀ p, m' p = if p ∈ r.pages then .free else m p

/-- What a debug build asserts of the space when it carries out a request. -/
def Safe (vs : Vspace) : Request → Prop
  | reserve addr n => addr.toNat ≠ 0 → Vspace.commonCheck addr.toNat n.toNat = true →
      Vspace.ReserveSafe vs (addr.toNat / 0x1000) n.toNat ∧
      Vspace.RollbackSafe vs (addr.toNat / 0x1000) n.toNat
  | release addr n => Vspace.commonCheck addr.toNat n.toNat = true →
      (release addr n).Pre vs.map → ¬ Vspace.ThreeBefore vs (addr.toNat / 0x1000)
  | commit _ _ | protect _ _ _ => True

end Request

/-! ### What a request does -/

/-- A request that succeeds meets its precondition and has its effect. A request that fails
leaves the map alone, and it fails because of its arguments, because of its precondition, or
because the physical memory manager has refused something. -/
structure Outcome (debug : Bool) (vs : Vspace) (r : Request) (res : ℕ) (vs' : Vspace) :
    Prop where
  inv : vs'.Inv debug
  success : res ≠ 0 → r.accepted = true ∧ r.Pre vs.map ∧ r.Effect vs.pm.used vs.map vs'.map
  failure : res = 0 → vs'.map = vs.map ∧
    (r.accepted = false ∨ ¬ r.Pre vs.map ∨ vs.pm.refusals < vs'.pm.refusals)
  balance : vs.Balanced vs'

namespace Vspace

variable {debug : Bool} {vs vs' : Vspace} {q : ℕ}

/-- The lock does not matter for the contents of a space. -/
theorem Inv.lock (h : Inv debug vs) (locked : Bool) : Inv debug { vs with locked := locked } :=
  ⟨h.table, h.entry, h.bypass, h.owned⟩

/-- The lock does not matter for the frames of a space. -/
theorem Balanced.lock {locked locked' : Bool}
    (h : Balanced { vs with locked := locked } vs') :
  Balanced vs { vs' with locked := locked' }
  := ⟨h.foreign, h.counted, h.bounded⟩

/-- Arguments that pass the checks give a range of pages below 512 GB, without the first. -/
theorem commonCheck_spec {addr n : ℕ} (hn : n < 2 ^ 32) (h : commonCheck addr n = true) :
  ∃ q, addr = q * 0x1000 ∧ addr / 0x1000 = q ∧ q ≠ 0 ∧ n ≠ 0 ∧ q + n ≤ 0x8000000
  := by
  simp only [commonCheck, Bool.decide_and, Bool.and_eq_true, decide_eq_true_eq] at h
  obtain ⟨h0, hn0, hmod, hlt, hle⟩ := h
  refine ⟨addr / 0x1000, by lia, rfl, by lia, hn0, ?_⟩
  rw [Nat.mod_eq_of_lt (by lia)] at hle
  lia

/-- A request whose arguments do not pass the checks does nothing. -/
theorem Outcome.of_not_accepted (h : Inv debug vs) {r : Request} (hr : r.accepted = false) :
  Outcome debug vs r 0 vs
  := ⟨h, by simp, fun _ => ⟨rfl, .inl hr⟩, Balanced.refl vs⟩

/-- Reserving pages at a fixed address. -/
theorem exec_reserve (h : Inv debug vs) {addr : UInt64} {n : UInt32} (haddr : addr.toNat ≠ 0)
    (hsafe : debug = true → (Request.reserve addr n).Safe vs) :
  ∃ res vs', (Request.reserve addr n).exec debug vs = .ok (res, vs') ∧
    Outcome debug vs (.reserve addr n) res vs'
  := by
  rw [Request.exec, reserve, if_pos haddr]
  by_cases hc : commonCheck addr.toNat n.toNat = false
  · rw [if_pos hc]
    exact ⟨0, vs, rfl, Outcome.of_not_accepted h hc⟩
  rw [if_neg hc]
  rw [Bool.not_eq_false] at hc
  obtain ⟨q, hq, hdiv, hq0, hn0, hle⟩ := commonCheck_spec n.toNat_lt hc
  have hpages : (Request.reserve addr n).pages = ⟨q, n.toNat⟩ := by
    simp only [Request.pages, Request.addr, Request.pageCount, hdiv]
  have hs : debug = true → ReserveSafe vs q n.toNat ∧ RollbackSafe vs q n.toNat := by
    intro hd
    have := hsafe hd haddr hc
    rwa [hdiv] at this
  obtain ⟨res, vs₁, heq, hyes, hno⟩ := reserveFixed_eq (h.lock true) hq0 hn0 hle (fun _ => rfl)
    (fun hd => ⟨(hs hd).1.third, (hs hd).1.full⟩) (fun hd => (hs hd).2)
  refine ⟨if res = true then addr.toNat else 0, { vs₁ with locked := false }, ?_, ?_⟩
  · rw [withLock, hq, heq]
    rfl
  have hpre : (Request.reserve addr n).Pre vs.map ↔ ∀ p ∈ Run.mk q n.toNat, vs.Vacant p := by
    rw [Request.Pre, hpages]
    simp only [vacant_iff_map]
  cases res with
  | true =>
      have hres := hyes rfl
      refine ⟨hres.inv.lock false, fun _ => ⟨hc, hpre.mpr hres.vacant, ?_⟩, ?_, hres.balance.lock⟩
      · intro p
        rw [hpages]
        have hby : { vs₁ with locked := false }.bypassed = vs.bypassed := hres.bypassed
        have hentry : { vs₁ with locked := false }.entry p = _ := hres.entry p
        rw [map, hby, hentry]
        by_cases hp : p ∈ Run.mk q n.toNat
        · obtain ⟨hfree, hnb⟩ := hres.vacant p hp
          rw [if_pos hp, if_pos hp]
          have hnb' : vs.bypassed (p / 0x200) = false := hnb
          rw [hnb', if_neg (by simp)]
          apply PTE.state_reserved hfree
        · rw [if_neg hp, if_neg hp]
          rfl
      · intro h0
        apply absurd h0 haddr
  | false =>
      obtain ⟨hg, hwhy⟩ := hno rfl
      refine ⟨hg.inv.lock false, by simp, fun _ => ⟨hg.map_eq, .inr ?_⟩, hg.balance.lock⟩
      rcases hwhy with ⟨p, hp, hnv⟩ | href
      · left
        rw [hpre]
        intro hall
        apply hnv (hall p hp)
      · exact .inr href

/-- Releasing pages, which only fails because of the arguments or the pages. -/
theorem exec_release (h : Inv debug vs) {addr : UInt64} {n : UInt32}
    (hsafe : debug = true → (Request.release addr n).Safe vs) :
  ∃ res vs', (Request.release addr n).exec debug vs = .ok (res, vs') ∧
    Outcome debug vs (.release addr n) res vs' ∧
    ((Request.release addr n).accepted = true → (Request.release addr n).Pre vs.map → res ≠ 0)
  := by
  rw [Request.exec, release]
  by_cases hc : commonCheck addr.toNat n.toNat = false
  · rw [if_pos hc]
    refine ⟨0, vs, rfl, Outcome.of_not_accepted h hc, ?_⟩
    intro hacc _
    have hacc' : commonCheck addr.toNat n.toNat = true := hacc
    rw [hc] at hacc'
    cases hacc'
  rw [if_neg hc]
  rw [Bool.not_eq_false] at hc
  obtain ⟨q, hq, hdiv, hq0, hn0, hle⟩ := commonCheck_spec n.toNat_lt hc
  have hpages : (Request.release addr n).pages = ⟨q, n.toNat⟩ := by
    simp only [Request.pages, Request.addr, Request.pageCount, hdiv]
  have hpre : (Request.release addr n).Pre vs.map ↔
      ∀ p ∈ Run.mk q n.toNat, releaseCheck (vs.entry p) = true := by
    rw [Request.Pre, hpages]
    apply forall₂_congr
    intro p _
    rw [PTE.releaseCheck_iff (h.entry p), h.map_eq_iff (by simp) (by simp)]
    have hiff : ∀ f a, vs.map p = .committed f a ↔ (vs.entry p).state = .committed f a :=
      fun f a => h.map_eq_iff (by simp) (by simp)
    simp only [hiff]
    rw [← Bool.not_eq_true, ← PTE.state_eq_free_iff]
    have hnb : (vs.entry p).state ≠ .bypassed := by
      rw [PTE.state]
      split_ifs
      · simp
      · simp
      · simp
    cases hst : (vs.entry p).state with
    | bypassed => apply absurd hst hnb
    | free => simp
    | reserved => simp
    | committed f a => simp
  obtain ⟨k, heq, hk⟩ := impIterate_check (h.lock true) (p := releaseCheck) (fun _ => rfl) rfl hq0
    hn0 hle (fun _ => rfl)
  rw [withLock, hq, heq]
  simp only [Except.ok_bind]
  have hk' : k = n.toNat ↔ (Request.release addr n).Pre vs.map := by
    rw [hk, hpre]
    rfl
  by_cases hkn : k ≠ n.toNat
  · rw [if_pos hkn]
    have hnot : ¬ (Request.release addr n).Pre vs.map := by
      rwa [← hk']
    exact ⟨0, { vs with locked := false }, rfl, ⟨h.lock false, by simp,
      fun _ => ⟨rfl, .inr (.inl hnot)⟩, (Balanced.refl { vs with locked := false }).lock⟩,
      fun _ hpre => absurd hpre hnot⟩
  · rw [if_neg hkn]
    rw [ne_eq, not_not] at hkn
    have hpre' := hk'.mp hkn
    have hnf : ∀ p ∈ Run.mk q n.toNat, (vs.entry p).isFree = false := by
      intro p hp
      apply (PTE.releaseCheck_iff (h.entry p)).mp
      apply hpre.mp hpre' p hp
    have hrs : debug = true → ReleaseSafe { vs with locked := true } q := by
      intro hd
      have := releaseSafe_of_not_threeBefore (hsafe hd hc hpre')
      rwa [hdiv] at this
    obtain ⟨vs₁, heq₁, hrel⟩ := safeRelease_eq (h.lock true) hq0 hn0 hle (fun _ => rfl) hnf hrs
    rw [heq₁]
    refine ⟨1, { vs₁ with locked := false }, rfl, ⟨hrel.inv.lock false, fun _ => ⟨hc, hpre', ?_⟩,
      by simp, hrel.balance.lock⟩, fun _ _ => one_ne_zero⟩
    intro p
    rw [hpages]
    have hby : { vs₁ with locked := false }.bypassed = vs.bypassed := hrel.bypassed
    have hentry : { vs₁ with locked := false }.entry p = _ := hrel.entry p
    rw [map, hby, hentry]
    by_cases hp : p ∈ Run.mk q n.toNat
    · rw [if_pos hp, if_pos hp, h.not_bypassed (hnf p hp), if_neg (by simp)]
      apply PTE.state_released (h.entry p)
    · rw [if_neg hp, if_neg hp]
      rfl

/-- Committing pages. -/
theorem exec_commit (h : Inv debug vs) (addr : UInt64) (n : UInt32) :
  ∃ res vs', (Request.commit addr n).exec debug vs = .ok (res, vs') ∧
    Outcome debug vs (.commit addr n) res vs'
  := by
  rw [Request.exec, commit]
  by_cases hc : commonCheck addr.toNat n.toNat = false
  · rw [if_pos hc]
    exact ⟨0, vs, rfl, Outcome.of_not_accepted h hc⟩
  rw [if_neg hc]
  rw [Bool.not_eq_false] at hc
  obtain ⟨q, hq, hdiv, hq0, hn0, hle⟩ := commonCheck_spec n.toNat_lt hc
  have hpages : (Request.commit addr n).pages = ⟨q, n.toNat⟩ := by
    simp only [Request.pages, Request.addr, Request.pageCount, hdiv]
  have hpre : (Request.commit addr n).Pre vs.map ↔
      ∀ p ∈ Run.mk q n.toNat, commitCheck (vs.entry p) = true := by
    rw [Request.Pre, hpages]
    apply forall₂_congr
    intro p _
    rw [PTE.commitCheck_iff (h.entry p), h.map_eq_iff (by simp) (by simp)]
  obtain ⟨k, heq, hk⟩ := impIterate_check (h.lock true) (p := commitCheck) (fun _ => rfl) rfl hq0
    hn0 hle (fun _ => rfl)
  rw [withLock, hq, heq]
  simp only [Except.ok_bind]
  have hk' : k = n.toNat ↔ (Request.commit addr n).Pre vs.map := by
    rw [hk, hpre]
    rfl
  by_cases hkn : k ≠ n.toNat
  · rw [if_pos hkn]
    refine ⟨0, { vs with locked := false }, rfl, h.lock false, by simp,
      fun _ => ⟨rfl, .inr (.inl ?_)⟩, (Balanced.refl { vs with locked := false }).lock⟩
    rwa [← hk']
  rw [if_neg hkn]
  rw [ne_eq, not_not] at hkn
  have hpre' := hk'.mp hkn
  -- frames are set aside for all pages at once
  obtain ⟨hused, href⟩ := vs.pm.reserve_spec n.toNat
  obtain ⟨pm, hpm⟩ : ∃ pm, (vs.pm.reserve n.toNat).2 = pm := ⟨_, rfl⟩
  rw [hpm] at hused href ⊢
  have hgrown : Grown debug { vs with locked := true } { vs with locked := true, pm := pm } := by
    apply Grown.of_pm (h.lock true) hused
    rcases href with ⟨-, href⟩ | ⟨-, href⟩
    · simp only [href]
      omega
    · simp only [href]
      apply le_refl
  rcases href with ⟨hno, href⟩ | ⟨hyes, href⟩
  · rw [if_pos hno]
    refine ⟨0, { vs with locked := false, pm := pm }, rfl, hgrown.inv.lock false, by simp,
      fun _ => ⟨rfl, .inr (.inr ?_)⟩, hgrown.balance.lock⟩
    simp only [href]
    omega
  · rw [if_neg (by simp [hyes])]
    have hcheck : ∀ p ∈ Run.mk q n.toNat,
        commitCheck ({ vs with locked := true, pm := pm }.entry p) = true := hpre.mp hpre'
    obtain ⟨vs₁, heq₁, hcom⟩ := iteratePages_commit n.toNat q { vs with locked := true, pm := pm }
      hgrown.inv hle hcheck
    have heq₂ : impIterate debug { vs with locked := true, pm := pm } (q * 0x1000) n.toNat
        (commitEntry debug) = .ok (n.toNat, vs₁) := by
      rw [impIterate_eq hq0 hn0 hle (fun _ => rfl), heq₁]
    have hbalance : Balanced vs
        { vs₁ with locked := false, usedPages := vs₁.usedPages + n.toNat } := by
      constructor
      · apply hcom.foreign.trans hgrown.balance.foreign
      · intro hcount
        have hcard := hcom.card
        have hforeign := congrArg Finset.card (hcom.foreign.trans hgrown.balance.foreign)
        have hpages := hcom.usedPages
        have husedcard : pm.used.card = vs.pm.used.card := by rw [hused]
        have hnew : vs₁.pm.used.card = vs₁.foreign.card + (vs₁.usedPages + n.toNat) := by
          rw [Counted] at hcount
          rw [hcard, hpages, hforeign]
          dsimp only
          rw [husedcard, hcount]
          exact Nat.add_assoc _ _ _
        exact hnew
      · intro hb i hi
        apply hb i
        rw [← show vs₁.pdpt = vs.pdpt from hcom.pdpt]
        apply hi
    rw [heq₂]
    simp only [Except.ok_bind]
    rw [if_neg (by simp)]
    refine ⟨1, { vs₁ with locked := false, usedPages := vs₁.usedPages + n.toNat }, rfl,
      ⟨hcom.inv.table, hcom.inv.entry, hcom.inv.bypass, hcom.inv.owned⟩,
      fun _ => ⟨hc, hpre', ?_⟩, by simp, hbalance⟩
    have hby : vs₁.bypassed = vs.bypassed := hcom.bypassed
    have hcommitted : ∀ p ∈ Run.mk q n.toNat, (vs₁.entry p).pageAddr ∉ vs.pm.used ∧
        vs₁.frameOf (.page p) = some (vs₁.entry p).pageAddr ∧
        vs₁.map p = .committed (vs₁.entry p).pageAddr (vs₁.entry p).attributes := by
      intro p hp
      obtain ⟨f, hf, hentry⟩ := hcom.entry p hp
      have haddr : (vs₁.entry p).pageAddr = f := by
        rw [hentry]
        rfl
      have hpresent : (vs₁.entry p).present = true := by
        rw [hentry]
        rfl
      refine ⟨?_, ?_, ?_⟩
      · rw [haddr, ← hused]
        apply hf
      · rw [frameOf, PTE.frame, if_pos ⟨hpresent, ((hcom.inv.entry p).mapped hpresent).2.2⟩]
      · rw [hcom.inv.map_eq_iff (by simp) (by simp), PTE.state, if_pos hpresent]
    constructor
    · intro p hp
      rw [hpages] at hp
      have hother : vs₁.entry p = vs.entry p := hcom.others p hp
      have hsame : vs₁.map p = vs.map p := by
        rw [map, map, hby, hother]
      apply hsame
    · use fun p => (vs₁.entry p).pageAddr
      rw [hpages]
      constructor
      · intro p hp
        obtain ⟨hnew, -, hst⟩ := hcommitted p hp
        exact ⟨hnew, _, hst⟩
      · intro p hp p' hp' heqf
        have hf := (hcommitted p hp).2.1
        have hf' := (hcommitted p' hp').2.1
        simp only at heqf
        rw [heqf] at hf
        have := hcom.inv.owned.distinct _ _ _ hf hf'
        simpa using this

/-- Reserved pages are committed unless the physical memory manager refuses it. -/
theorem exec_commit_of_answer (h : Inv debug vs) {addr : UInt64} {n : UInt32}
    (hc : commonCheck addr.toNat n.toNat = true)
    (hmap : ∀ p ∈ (Request.commit addr n).pages, vs.map p = .reserved) (hanswer : vs.pm.answer ≠ 0) :
  ∃ vs', (Request.commit addr n).exec debug vs = .ok (1, vs') ∧
    Outcome debug vs (.commit addr n) 1 vs' ∧
    ∀ p ∈ (Request.commit addr n).pages, ∃ f, vs'.entry p = (vs.entry p).committed f
  := by
  obtain ⟨res, vs', hexec, hout⟩ := exec_commit h addr n
  suffices hserved : ∃ vs', (Request.commit addr n).exec debug vs = .ok (1, vs') ∧
      ∀ p ∈ (Request.commit addr n).pages, ∃ f, vs'.entry p = (vs.entry p).committed f by
    obtain ⟨vs₁, heq, hentry⟩ := hserved
    rw [hexec] at heq
    cases heq
    exact ⟨vs', hexec, hout, hentry⟩
  obtain ⟨q, hq, hdiv, hq0, hn0, hle⟩ := commonCheck_spec n.toNat_lt hc
  have hpages : (Request.commit addr n).pages = ⟨q, n.toNat⟩ := by
    simp only [Request.pages, Request.addr, Request.pageCount, hdiv]
  rw [hpages] at hmap ⊢
  have hcheck : ∀ p ∈ Run.mk q n.toNat, commitCheck (vs.entry p) = true := by
    intro p hp
    have hreserved := hmap p hp
    rwa [h.map_eq_iff (by simp) (by simp), ← PTE.commitCheck_iff (h.entry p)] at hreserved
  obtain ⟨k, heq, hk⟩ := impIterate_check (h.lock true) (p := commitCheck) (fun _ => rfl) rfl hq0
    hn0 hle (fun _ => rfl)
  obtain ⟨pm, hpm⟩ : ∃ pm, vs.pm.reserve n.toNat = (true, pm) := by
    rw [FramePool.reserve, if_neg hanswer]
    exact ⟨_, rfl⟩
  have hused : pm.used = vs.pm.used := by
    have hspec := (vs.pm.reserve_spec n.toNat).1
    rwa [hpm] at hspec
  have hgrown : Inv debug { vs with locked := true, pm := pm } := by
    refine ⟨h.table, h.entry, h.bypass, ?_⟩
    refine ⟨fun o f ho => ?_, h.owned.distinct⟩
    change f ∈ pm.used
    rw [hused]
    apply h.owned.used o f ho
  obtain ⟨vs₁, heq₁, hcom⟩ := iteratePages_commit n.toNat q { vs with locked := true, pm := pm }
    hgrown hle hcheck
  rw [Request.exec, commit, if_neg (by simp [hc]), withLock, hq, heq]
  simp only [Except.ok_bind]
  rw [if_neg (by simpa using hk.mpr hcheck)]
  simp only [hpm, Bool.true_eq_false, if_false]
  rw [impIterate_eq hq0 hn0 hle (fun _ => rfl), heq₁]
  simp only [Except.ok_bind, ne_eq, not_true_eq_false, if_false]
  refine ⟨_, rfl, fun p hp => ?_⟩
  obtain ⟨f, _, hf⟩ := hcom.entry p hp
  exact ⟨f, hf⟩

/-- Changing the attributes of pages. -/
theorem exec_protect (h : Inv debug vs) (addr : UInt64) (n : UInt32) (attrib : UInt64) :
  ∃ res vs', (Request.protect addr n attrib).exec debug vs = .ok (res, vs') ∧
    Outcome debug vs (.protect addr n attrib) res vs' ∧
    ((Request.protect addr n attrib).accepted = true →
      (Request.protect addr n attrib).Pre vs.map → res ≠ 0)
  := by
  rw [Request.exec, protect]
  by_cases hc : commonCheck addr.toNat n.toNat = false
  · rw [if_pos hc]
    have hrejected : (Request.protect addr n attrib).accepted = false := by
      rw [Request.accepted, hc, Bool.false_and]
    refine ⟨0, vs, rfl, Outcome.of_not_accepted h hrejected, ?_⟩
    intro hacc
    rw [hrejected] at hacc
    cases hacc
  rw [if_neg hc]
  rw [Bool.not_eq_false] at hc
  by_cases hmask : attrib &&& ~~~protectMask ≠ 0
  · rw [if_pos hmask]
    have hrejected : (Request.protect addr n attrib).accepted = false := by
      rw [Request.accepted, decide_eq_false hmask, Bool.and_false]
    refine ⟨0, vs, rfl, Outcome.of_not_accepted h hrejected, ?_⟩
    intro hacc
    rw [hrejected] at hacc
    cases hacc
  rw [if_neg hmask]
  rw [ne_eq, not_not] at hmask
  have hacc : (Request.protect addr n attrib).accepted = true := by
    rw [Request.accepted, hc, decide_eq_true hmask, Bool.and_self]
  obtain ⟨q, hq, hdiv, hq0, hn0, hle⟩ := commonCheck_spec n.toNat_lt hc
  have hpages : (Request.protect addr n attrib).pages = ⟨q, n.toNat⟩ := by
    simp only [Request.pages, Request.addr, Request.pageCount, hdiv]
  have hpre : (Request.protect addr n attrib).Pre vs.map ↔
      ∀ p ∈ Run.mk q n.toNat, protectCheck (vs.entry p) = true := by
    rw [Request.Pre, hpages]
    apply forall₂_congr
    intro p _
    rw [PTE.protectCheck_iff (h.entry p)]
    have hiff : ∀ f a, vs.map p = .committed f a ↔ (vs.entry p).state = .committed f a :=
      fun f a => h.map_eq_iff (by simp) (by simp)
    simp only [hiff]
  obtain ⟨k, heq, hk⟩ := impIterate_check (h.lock true) (p := protectCheck) (fun _ => rfl) rfl hq0
    hn0 hle (fun _ => rfl)
  rw [withLock, hq, heq]
  simp only [Except.ok_bind]
  have hk' : k = n.toNat ↔ (Request.protect addr n attrib).Pre vs.map := by
    rw [hk, hpre]
    rfl
  by_cases hkn : k ≠ n.toNat
  · rw [if_pos hkn]
    rw [ne_eq, hk'] at hkn
    exact ⟨0, { vs with locked := false }, rfl, ⟨h.lock false, by simp,
      fun _ => ⟨rfl, .inr (.inl hkn)⟩, (Balanced.refl { vs with locked := false }).lock⟩,
      fun _ hpre' => absurd hpre' hkn⟩
  rw [if_neg hkn]
  rw [ne_eq, not_not] at hkn
  have hpre' := hk'.mp hkn
  obtain ⟨vs₁, heq₁, hpro⟩ := iteratePages_protect attrib n.toNat q { vs with locked := true }
    (h.lock true) hle (hpre.mp hpre')
  have heq₂ : impIterate debug { vs with locked := true } (q * 0x1000) n.toNat
      (protectEntry debug attrib) = .ok (n.toNat, vs₁) := by
    rw [impIterate_eq hq0 hn0 hle (fun _ => rfl), heq₁]
  rw [heq₂]
  simp only [Except.ok_bind]
  rw [if_neg (by simp)]
  refine ⟨1, { vs₁ with locked := false }, rfl, ⟨hpro.inv.lock false, fun _ => ⟨hacc, hpre', ?_⟩,
    by simp, hpro.balance.lock⟩, by simp⟩
  have hby : vs₁.bypassed = vs.bypassed := hpro.bypassed
  constructor
  · intro p hp
    rw [hpages] at hp
    have hother : vs₁.entry p = vs.entry p := by
      rw [hpro.entry, if_neg hp]
      rfl
    have hsame : vs₁.map p = vs.map p := by
      rw [map, map, hby, hother]
    apply hsame
  · intro p hp f a hst
    rw [hpages] at hp
    have hentry : vs₁.entry p = (vs.entry p).withAttrib attrib := by
      rw [hpro.entry, if_pos hp]
      rfl
    rw [h.map_eq_iff (by simp) (by simp)] at hst
    have hpresent : (vs.entry p).present = true := by
      have := hpre.mp hpre' p hp
      simp only [protectCheck, Bool.and_eq_true] at this
      apply this.1.1.1
    rw [PTE.state, if_pos hpresent, PageState.committed.injEq] at hst
    have hnew : vs₁.map p = .committed f (a.set attrib) := by
      rw [hpro.inv.map_eq_iff (by simp) (by simp), hentry, PTE.state_withAttrib hpresent, hst.1,
        hst.2]
    apply hnew

end Vspace

end UOS
