import Cofuos.Lib.Within
import Cofuos.Memory.PageMap

/-!
# The two builds of an address space

A debug build makes assertions and is otherwise the release build: every function of the page
tables and of the address space that returns in one build returns the same in the other.
-/

namespace UOS

open Fault Except

variable (debug : Bool)

/-! ### The blocks of a page table -/

namespace BLOCK

theorem first_within (table : Table) (i : ℕ) :
  (first debug table i).Within (first false table i)
  := by
  unfold first
  apply (assert_within _ _).bind
  intro _
  cases (table i).type with
  | OFF =>
      apply (assert_within _ _).bind
      intro _
      apply (assert_within _ _).bind
      intro _
      apply Within.refl
  | SIZE =>
      apply (assert_within _ _).bind
      intro _
      apply (assert_within _ _).bind
      intro _
      apply Within.refl
  | PREV =>
      apply (assert_within _ _).bind
      intro _
      apply Within.refl
  | NEXT => apply Within.refl

theorem read_within (table : Table) (i : ℕ) (block : BLOCK) :
  (read debug table i block).Within (read false table i block)
  := by
  unfold read
  apply (assert_within _ _).bind
  intro _
  apply (assert_within _ _).bind
  intro _
  apply Within.ite
  · exact fun _ => .refl _
  intro _
  apply (assert_within _ _).bind
  intro _
  apply Within.ite
  · exact fun _ => .refl _
  intro _
  apply (assert_within _ _).bind
  intro _
  apply (assert_within _ _).bind
  intro _
  apply Within.bind
  · apply Within.forM
    intro k
    apply (assert_within _ _).bind
    intro _
    apply (assert_within _ _).bind
    intro _
    apply (assert_within _ _).bind
    intro _
    apply assert_within
  · exact fun _ => .refl _

theorem get_within (table : Table) (i : ℕ) (block : BLOCK) :
  (get debug table i block).Within (get false table i block)
  := by
  unfold get
  apply (first_within debug table i).bind
  intro self
  apply read_within

theorem put_within (block : BLOCK) (table : Table) (i : ℕ) :
  (block.put debug table i).Within (block.put false table i)
  := by
  unfold put
  apply (assert_within _ _).bind
  intro _
  apply (assert_within _ _).bind
  intro _
  apply (assert_within _ _).bind
  intro _
  apply Within.ite
  · exact fun _ => .refl _
  intro _
  apply (assert_within _ _).bind
  intro _
  apply (assert_within _ _).bind
  intro _
  apply Within.ite
  · exact fun _ => .refl _
  intro _
  apply (assert_within _ _).bind
  intro _
  apply (assert_within _ _).bind
  intro _
  apply Within.bind
  · apply Within.foldlM
    intro table k
    apply (assert_within _ _).bind
    intro _
    apply (assert_within _ _).bind
    intro _
    apply Within.refl
  intro table
  apply (assert_within _ _).bind
  intro _
  apply Within.refl

end BLOCK

/-! ### The free list -/

theorem resolveWalk_within (table : Table) (block : BLOCK) (fuel cur : ℕ) (prevBlock : BLOCK) :
  (resolveWalk debug table block fuel cur prevBlock).Within
    (resolveWalk false table block fuel cur prevBlock)
  := by
  induction fuel generalizing cur prevBlock with
  | zero => apply Within.refl
  | succ fuel ih =>
      apply (BLOCK.get_within debug table cur prevBlock).bind
      intro prevBlock
      apply (assert_within _ _).bind
      intro _
      apply Within.ite
      · exact fun _ => .refl _
      intro _
      apply Within.ite
      · intro _
        apply ih
      · exact fun _ => .refl _

theorem resolvePrior_within (pdt : PDTE) (table : Table) (block : BLOCK) :
  (resolvePrior debug pdt table block).Within (resolvePrior false pdt table block)
  := by
  unfold resolvePrior
  apply (assert_within _ _).bind
  intro _
  apply (assert_within _ _).bind
  intro _
  apply Within.ite
  · intro _
    apply (assert_within _ _).bind
    intro _
    apply Within.refl
  intro _
  apply Within.ite
  · intro _
    apply (assert_within _ _).bind
    intro _
    apply Within.refl
  intro _
  apply resolveWalk_within

theorem unlinkPrev_within (pdt : PDTE) (table : Table) (block : BLOCK) :
  (unlinkPrev debug pdt table block).Within (unlinkPrev false pdt table block)
  := by
  unfold unlinkPrev
  apply Within.ite
  · intro _
    apply (BLOCK.get_within debug table block.prev {}).bind
    intro prevBlock
    apply (assert_within _ _).bind
    intro _
    apply (BLOCK.put_within debug _ table _).bind
    intro table
    apply Within.refl
  · intro _
    apply (assert_within _ _).bind
    intro _
    apply Within.refl

theorem unlinkNext_within (pdt : PDTE) (table : Table) (block : BLOCK) (maxSize : ℕ) :
  (unlinkNext debug pdt table block maxSize).Within (unlinkNext false pdt table block maxSize)
  := by
  unfold unlinkNext
  apply Within.ite
  · intro _
    apply (BLOCK.get_within debug table block.next {}).bind
    intro nextBlock
    apply Within.ite
    · intro _
      apply (assert_within _ _).bind
      intro _
      apply (BLOCK.put_within debug _ table _).bind
      intro table
      apply Within.refl
    · exact fun _ => .refl _
  · exact fun _ => .refl _

theorem erase_within (pdt : PDTE) (table : Table) (block : BLOCK) :
  (erase debug pdt table block).Within (erase false pdt table block)
  := by
  unfold erase
  apply (unlinkPrev_within debug pdt table block).bind
  rintro ⟨pdt, table, maxSize⟩
  apply (unlinkNext_within debug pdt table block maxSize).bind
  rintro ⟨table, maxSize⟩
  apply Within.refl

theorem shiftLeft_within (table : Table) (block : BLOCK) (fuel : ℕ) (gap : Gap) :
  (shiftLeft debug table block fuel gap).Within (shiftLeft false table block fuel gap)
  := by
  induction fuel generalizing gap with
  | zero => apply Within.refl
  | succ fuel ih =>
      apply (assert_within _ _).bind
      intro _
      apply Within.ite
      · intro _
        apply Within.ite
        · exact fun _ => .refl _
        intro _
        apply (BLOCK.get_within debug table _ _).bind
        intro prevBlock
        apply ih
      · exact fun _ => .refl _

theorem shiftRight_within (table : Table) (block : BLOCK) (fuel : ℕ) (gap : Gap) :
  (shiftRight debug table block fuel gap).Within (shiftRight false table block fuel gap)
  := by
  induction fuel generalizing gap with
  | zero => apply Within.refl
  | succ fuel ih =>
      apply (assert_within _ _).bind
      intro _
      apply Within.ite
      · intro _
        apply Within.ite
        · exact fun _ => .refl _
        intro _
        apply (BLOCK.get_within debug table _ _).bind
        intro nextBlock
        apply ih
      · exact fun _ => .refl _

theorem findGap_within (table : Table) (block : BLOCK) (gap : Gap) :
  (findGap debug table block gap).Within (findGap false table block gap)
  := by
  unfold findGap
  apply Within.ite
  · intro _
    apply shiftLeft_within
  · intro _
    apply shiftRight_within

theorem getLink_within (table : Table) (valid : Bool) (link : ℕ) :
  (getLink debug table valid link).Within (getLink false table valid link)
  := by
  unfold getLink
  apply Within.ite
  · intro _
    apply BLOCK.get_within
  · exact fun _ => .refl _

theorem linkNext_within (pdt : PDTE) (table : Table) (block : BLOCK) (gap : Gap) :
  (linkNext debug pdt table block gap).Within (linkNext false pdt table block gap)
  := by
  unfold linkNext
  apply Within.ite
  · intro _
    apply (assert_within _ _).bind
    intro _
    apply (BLOCK.put_within debug _ table _).bind
    intro table
    apply Within.refl
  · exact fun _ => .refl _

theorem linkPrev_within (pdt : PDTE) (table : Table) (block : BLOCK) (gap : Gap) :
  (linkPrev debug pdt table block gap).Within (linkPrev false pdt table block gap)
  := by
  unfold linkPrev
  apply Within.ite
  · intro _
    apply (assert_within _ _).bind
    intro _
    apply (BLOCK.put_within debug _ table _).bind
    intro table
    apply Within.refl
  · intro _
    apply (assert_within _ _).bind
    intro _
    apply Within.refl

theorem insertAt_within (pdt : PDTE) (table : Table) (block : BLOCK) (gap : Gap) :
  (insertAt debug pdt table block gap).Within (insertAt false pdt table block gap)
  := by
  unfold insertAt
  apply (linkNext_within debug pdt table block gap).bind
  rintro ⟨pdt, table, block⟩
  apply (linkPrev_within debug pdt table block gap).bind
  rintro ⟨pdt, table, block⟩
  apply (BLOCK.put_within debug block table block.self).bind
  intro table
  apply Within.refl

theorem insert_within (pdt : PDTE) (table : Table) (block : BLOCK) :
  (insert debug pdt table block).Within (insert false pdt table block)
  := by
  unfold insert
  apply Within.ite
  · exact fun _ => .refl _
  intro _
  apply (getLink_within debug table _ _).bind
  intro prevBlock
  apply (getLink_within debug table _ _).bind
  intro nextBlock
  apply (findGap_within debug table _ _).bind
  intro gap
  apply insertAt_within

/-! ### The entries of a page table -/

theorem initPt_within (ptAddr : ℕ) : (initPt debug ptAddr).Within (initPt false ptAddr) := by
  unfold initPt
  apply (BLOCK.put_within debug _ _ _).bind
  intro table
  apply Within.refl

theorem preserveRange_within (table : Table) (index count : ℕ) :
  (preserveRange debug table index count).Within (preserveRange false table index count)
  := by
  apply Within.foldlM
  intro table i
  apply (assert_within _ _).bind
  intro _
  apply Within.refl

theorem findBlock_within (table : Table) (count fuel cur : ℕ) (block : BLOCK) :
  (findBlock debug table count fuel cur block).Within (findBlock false table count fuel cur block)
  := by
  induction fuel generalizing cur block with
  | zero => apply Within.refl
  | succ fuel ih =>
      apply (BLOCK.get_within debug table cur block).bind
      intro block
      apply (assert_within _ _).bind
      intro _
      apply Within.ite
      · exact fun _ => .refl _
      intro _
      apply Within.ite
      · intro _
        apply ih
      · exact fun _ => .refl _

theorem impReserveAny_within (locked : Bool) (pdt : PDTE) (table : Table) (baseAddr count : ℕ) :
  (impReserveAny debug locked pdt table baseAddr count).Within
    (impReserveAny false locked pdt table baseAddr count)
  := by
  unfold impReserveAny
  apply (assert_within _ _).bind
  intro _
  apply (assert_within _ _).bind
  intro _
  apply (assert_within _ _).bind
  intro _
  apply Within.ite
  · exact fun _ => .refl _
  intro _
  apply (findBlock_within debug table count _ _ _).bind
  intro block
  apply (resolvePrior_within debug pdt table block).bind
  intro block
  apply (erase_within debug pdt table block).bind
  rintro ⟨pdt, table⟩
  apply (assert_within _ _).bind
  intro _
  apply (preserveRange_within debug table _ count).bind
  intro table
  apply (insert_within debug pdt table _).bind
  rintro ⟨pdt, table⟩
  apply Within.refl

theorem impReserveFixed_within (locked : Bool) (pdt : PDTE) (table : Table) (index count : ℕ) :
  (impReserveFixed debug locked pdt table index count).Within
    (impReserveFixed false locked pdt table index count)
  := by
  unfold impReserveFixed
  apply (assert_within _ _).bind
  intro _
  apply (assert_within _ _).bind
  intro _
  apply (assert_within _ _).bind
  intro _
  apply Within.ite
  · exact fun _ => .refl _
  intro _
  apply (BLOCK.get_within debug table index {}).bind
  intro block
  apply (assert_within _ _).bind
  intro _
  apply Within.ite
  · exact fun _ => .refl _
  intro _
  apply (resolvePrior_within debug pdt table block).bind
  intro block
  apply (erase_within debug pdt table block).bind
  rintro ⟨pdt, table⟩
  apply (preserveRange_within debug table index count).bind
  intro table
  apply (insert_within debug pdt table _).bind
  rintro ⟨pdt, table⟩
  apply (insert_within debug pdt table _).bind
  rintro ⟨pdt, table⟩
  apply Within.refl

theorem releaseEntry_within (pt : PTE) : (releaseEntry debug pt).Within (releaseEntry false pt) := by
  unfold releaseEntry
  apply (assert_within _ _).bind
  intro _
  apply Within.refl

theorem releaseRange_within (table : Table) (index count : ℕ) :
  (releaseRange debug table index count).Within (releaseRange false table index count)
  := by
  apply Within.foldlM
  rintro ⟨table, frames⟩ i
  apply (releaseEntry_within debug _).bind
  rintro ⟨pt, frame⟩
  apply Within.refl

theorem eraseNeighbours_within (pdt : PDTE) (table : Table) (index count : ℕ) :
  (eraseNeighbours debug pdt table index count).Within
    (eraseNeighbours false pdt table index count)
  := by
  -- what is done with one free run
  have hrun : ∀ (pdt : PDTE) (table : Table) (i : ℕ) (block : BLOCK)
      {f g : BLOCK → PDTE × Table → Except Fault (PDTE × Table × BLOCK)},
      (∀ block p, (f block p).Within (g block p)) →
      (do
        let block ← BLOCK.get debug table i block
        let block ← resolvePrior debug pdt table block
        let p ← erase debug pdt table block
        f block p).Within (do
        let block ← BLOCK.get false table i block
        let block ← resolvePrior false pdt table block
        let p ← erase false pdt table block
        g block p) := by
    intro pdt table i block f g hfg
    apply (BLOCK.get_within debug table i block).bind
    intro block
    apply (resolvePrior_within debug pdt table block).bind
    intro block
    apply (erase_within debug pdt table block).bind
    intro p
    apply hfg
  unfold eraseNeighbours
  apply Within.ite
  · intro _
    apply Within.ite
    · intro _
      apply hrun
      rintro block ⟨pdt, table⟩
      apply hrun
      rintro block ⟨pdt, table⟩
      apply Within.refl
    · intro _
      apply hrun
      rintro block ⟨pdt, table⟩
      apply Within.refl
  · intro _
    apply Within.ite
    · intro _
      apply hrun
      rintro block ⟨pdt, table⟩
      apply Within.refl
    · exact fun _ => .refl _

theorem impRelease_within (locked : Bool) (pdt : PDTE) (table : Table) (baseAddr count : ℕ) :
  (impRelease debug locked pdt table baseAddr count).Within
    (impRelease false locked pdt table baseAddr count)
  := by
  unfold impRelease
  apply (assert_within _ _).bind
  intro _
  apply (assert_within _ _).bind
  intro _
  apply (assert_within _ _).bind
  intro _
  apply (assert_within _ _).bind
  intro _
  apply (eraseNeighbours_within debug pdt table _ count).bind
  rintro ⟨pdt, table, block⟩
  apply (releaseRange_within debug table _ count).bind
  rintro ⟨table, frames⟩
  apply (insert_within debug pdt table block).bind
  rintro ⟨pdt, table⟩
  apply Within.refl

/-! ### Directories and tables -/

namespace Vspace

theorem newPdt_within (vs : Vspace) (i : ℕ) : (newPdt debug vs i).Within (newPdt false vs i) := by
  unfold newPdt
  apply (assert_within _ _).bind
  intro _
  apply Within.refl

theorem newPt_within (vs : Vspace) (t : ℕ) (take : Bool) :
  (newPt debug vs t take).Within (newPt false vs t take)
  := by
  unfold newPt
  apply (assert_within _ _).bind
  intro _
  apply Within.ite
  · exact fun _ => .refl _
  intro _
  apply (initPt_within debug _).bind
  rintro ⟨pdt, table⟩
  apply Within.refl

theorem enterPdt_within (vs : Vspace) (i : ℕ) :
  (enterPdt debug vs i).Within (enterPdt false vs i)
  := by
  unfold enterPdt
  apply Within.ite
  · exact fun _ => .refl _
  · intro _
    apply newPdt_within

theorem enterPt_within (vs : Vspace) (t : ℕ) :
  (enterPt debug vs t).Within (enterPt false vs t)
  := by
  unfold enterPt
  apply Within.ite
  · exact fun _ => .refl _
  · intro _
    apply newPt_within

/-! ### Releasing pages -/

theorem releaseTables_within (pageCount tables t addr count : ℕ) (vs : Vspace) :
  (releaseTables debug pageCount tables t addr count vs).Within
    (releaseTables false pageCount tables t addr count vs)
  := by
  induction tables generalizing t addr count vs with
  | zero => apply Within.refl
  | succ tables ih =>
      apply Within.ite
      · intro _
        apply Within.ite
        · exact fun _ => .refl _
        intro _
        apply Within.ite
        · exact fun _ => .refl _
        intro _
        apply (impRelease_within debug _ _ _ _ _).bind
        rintro ⟨pdt, table, frames⟩
        apply Within.bind
        · apply Within.refl
        intro vs
        apply ih
      · exact fun _ => .refl _

theorem safeRelease_within (vs : Vspace) (baseAddr pageCount : ℕ) :
  (safeRelease debug vs baseAddr pageCount).Within (safeRelease false vs baseAddr pageCount)
  := by
  unfold safeRelease
  apply (assert_within _ _).bind
  intro _
  apply (assert_within _ _).bind
  intro _
  apply (assert_within _ _).bind
  intro _
  apply Within.ite
  · exact fun _ => .refl _
  intro _
  apply (releaseTables_within debug pageCount _ _ _ _ vs).bind
  rintro ⟨count, vs⟩
  apply Within.refl

/-! ### Reserving pages -/

theorem reserveTables_within (pageCount tables t addr count : ℕ) (vs : Vspace) :
  (reserveTables debug pageCount tables t addr count vs).Within
    (reserveTables false pageCount tables t addr count vs)
  := by
  induction tables generalizing t addr count vs with
  | zero => apply Within.refl
  | succ tables ih =>
      apply Within.ite
      · intro _
        apply (enterPdt_within debug vs _).bind
        rintro ⟨res, vs⟩
        apply Within.ite
        · exact fun _ => .refl _
        intro _
        apply Within.ite
        · exact fun _ => .refl _
        intro _
        apply (enterPt_within debug vs t).bind
        rintro ⟨res, vs⟩
        apply Within.ite
        · exact fun _ => .refl _
        intro _
        apply (impReserveFixed_within debug _ _ _ _ _).bind
        rintro ⟨res, pdt, table⟩
        apply Within.ite
        · exact fun _ => .refl _
        intro _
        apply ih
      · exact fun _ => .refl _

theorem reserveFixed_within (vs : Vspace) (baseAddr pageCount : ℕ) :
  (reserveFixed debug vs baseAddr pageCount).Within (reserveFixed false vs baseAddr pageCount)
  := by
  unfold reserveFixed
  apply (assert_within _ _).bind
  intro _
  apply (assert_within _ _).bind
  intro _
  apply (assert_within _ _).bind
  intro _
  apply Within.ite
  · exact fun _ => .refl _
  intro _
  apply (reserveTables_within debug pageCount _ _ _ _ vs).bind
  rintro ⟨count, vs⟩
  apply Within.ite
  · exact fun _ => .refl _
  intro _
  apply Within.ite
  · intro _
    apply (safeRelease_within debug vs baseAddr count).bind
    rintro ⟨res, vs⟩
    apply Within.refl
  · exact fun _ => .refl _

theorem reserveAnyTables_within (pageCount tables t : ℕ) (vs : Vspace) :
  (reserveAnyTables debug pageCount tables t vs).Within
    (reserveAnyTables false pageCount tables t vs)
  := by
  induction tables generalizing t vs with
  | zero => apply Within.refl
  | succ tables ih =>
      apply (enterPdt_within debug vs _).bind
      rintro ⟨res, vs⟩
      apply Within.ite
      · exact fun _ => .refl _
      intro _
      apply Within.ite
      · intro _
        apply ih
      intro _
      apply (enterPt_within debug vs t).bind
      rintro ⟨res, vs⟩
      apply Within.ite
      · intro _
        apply ih
      intro _
      apply (impReserveAny_within debug _ _ _ _ _).bind
      rintro ⟨res, pdt, table⟩
      apply Within.ite
      · exact fun _ => .refl _
      intro _
      apply ih

theorem reserveAny_within (vs : Vspace) (pageCount : ℕ) :
  (reserveAny debug vs pageCount).Within (reserveAny false vs pageCount)
  := by
  unfold reserveAny
  apply (assert_within _ _).bind
  intro _
  apply (assert_within _ _).bind
  intro _
  apply reserveAnyTables_within

theorem takePt_within (vs : Vspace) (t reserveCount : ℕ) :
  (takePt debug vs t reserveCount).Within (takePt false vs t reserveCount)
  := by
  unfold takePt
  apply Within.ite
  · intro _
    apply (assert_within _ _).bind
    intro _
    apply Within.refl
  · intro _
    apply (assert_within _ _).bind
    intro _
    apply (newPt_within debug vs t true).bind
    rintro ⟨res, vs⟩
    apply Within.refl

theorem takeTables_within (tables t pagecount reserveCount : ℕ) (vs : Vspace) :
  (takeTables debug tables t pagecount reserveCount vs).Within
    (takeTables false tables t pagecount reserveCount vs)
  := by
  induction tables generalizing t pagecount reserveCount vs with
  | zero => apply Within.refl
  | succ tables ih =>
      apply (assert_within _ _).bind
      intro _
      apply (assert_within _ _).bind
      intro _
      apply (takePt_within debug vs t reserveCount).bind
      rintro ⟨reserveCount, vs⟩
      apply (impReserveFixed_within debug _ _ _ _ _).bind
      rintro ⟨res, pdt, table⟩
      apply Within.ite
      · exact fun _ => .refl _
      intro _
      apply ih

theorem reserveBigDirectories_within (pagecount directories d : ℕ) (vs : Vspace) :
  (reserveBigDirectories debug pagecount directories d vs).Within
    (reserveBigDirectories false pagecount directories d vs)
  := by
  induction directories generalizing d vs with
  | zero => apply Within.refl
  | succ directories ih =>
      apply (enterPdt_within debug vs d).bind
      rintro ⟨res, vs⟩
      apply Within.ite
      · exact fun _ => .refl _
      intro _
      apply Within.ite
      · intro _
        apply (assert_within _ _).bind
        intro _
        apply Within.ite
        · intro _
          apply ih
        intro _
        apply (takeTables_within debug _ _ _ _ _).bind
        rintro ⟨reserveCount, vs⟩
        apply (assert_within _ _).bind
        intro _
        apply Within.refl
      · intro _
        apply ih

theorem reserveBig_within (vs : Vspace) (pagecount : ℕ) :
  (reserveBig debug vs pagecount).Within (reserveBig false vs pagecount)
  := by
  unfold reserveBig
  apply (assert_within _ _).bind
  intro _
  apply reserveBigDirectories_within

/-! ### Visiting pages -/

theorem iteratePages_within {callback callback' : Callback}
    (h : ∀ pt pm, (callback pt pm).Within (callback' pt pm)) (n q : ℕ) (vs : Vspace) :
  (iteratePages callback n q vs).Within (iteratePages callback' n q vs)
  := by
  induction n generalizing q vs with
  | zero => apply Within.refl
  | succ n ih =>
      apply Within.ite
      · exact fun _ => .refl _
      intro _
      apply Within.ite
      · exact fun _ => .refl _
      intro _
      apply Within.ite
      · exact fun _ => .refl _
      intro _
      apply (h _ _).bind
      rintro ⟨res, pt, pm⟩
      apply Within.ite
      · exact fun _ => .refl _
      intro _
      apply (ih _ _).bind
      rintro ⟨count, vs⟩
      apply Within.refl

theorem impIterate_within {callback callback' : Callback}
    (h : ∀ pt pm, (callback pt pm).Within (callback' pt pm)) (vs : Vspace)
    (baseAddr pageCount : ℕ) :
  (impIterate debug vs baseAddr pageCount callback).Within
    (impIterate false vs baseAddr pageCount callback')
  := by
  unfold impIterate
  apply (assert_within _ _).bind
  intro _
  apply (assert_within _ _).bind
  intro _
  apply (assert_within _ _).bind
  intro _
  apply Within.ite
  · exact fun _ => .refl _
  intro _
  apply iteratePages_within h

theorem commitEntry_within (pt : PTE) (pm : FramePool) :
  (commitEntry debug pt pm).Within (commitEntry false pt pm)
  := by
  apply (assert_within _ _).bind
  intro _
  apply Within.refl

theorem protectEntry_within (attrib : UInt64) (pt : PTE) (pm : FramePool) :
  (protectEntry debug attrib pt pm).Within (protectEntry false attrib pt pm)
  := by
  apply (assert_within _ _).bind
  intro _
  apply Within.refl

/-! ### The requests -/

theorem withLock_within {α : Type} {f g : Vspace → Except Fault (α × Vspace)}
    (h : ∀ vs, (f vs).Within (g vs)) (vs : Vspace) :
  (vs.withLock f).Within (vs.withLock g)
  := by
  apply (h _).bind
  rintro ⟨res, vs⟩
  apply Within.refl

theorem reserve_within (vs : Vspace) (addr pageCount : ℕ) :
  (vs.reserve debug addr pageCount).Within (vs.reserve false addr pageCount)
  := by
  unfold reserve
  apply Within.ite
  · intro _
    apply Within.ite
    · exact fun _ => .refl _
    intro _
    apply withLock_within
    intro vs
    apply (reserveFixed_within debug vs addr pageCount).bind
    rintro ⟨res, vs⟩
    apply Within.refl
  · intro _
    apply Within.ite
    · exact fun _ => .refl _
    intro _
    apply withLock_within
    intro vs
    apply Within.ite
    · intro _
      apply reserveAny_within
    · intro _
      apply reserveBig_within

theorem release_within (vs : Vspace) (addr pageCount : ℕ) :
  (vs.release debug addr pageCount).Within (vs.release false addr pageCount)
  := by
  unfold release
  apply Within.ite
  · exact fun _ => .refl _
  intro _
  apply withLock_within
  intro vs
  apply (impIterate_within debug (fun _ _ => .refl _) vs addr pageCount).bind
  rintro ⟨res, vs⟩
  apply Within.ite
  · exact fun _ => .refl _
  intro _
  apply safeRelease_within

theorem commit_within (vs : Vspace) (baseAddr pageCount : ℕ) :
  (vs.commit debug baseAddr pageCount).Within (vs.commit false baseAddr pageCount)
  := by
  unfold commit
  apply Within.ite
  · exact fun _ => .refl _
  intro _
  apply withLock_within
  intro vs
  apply (impIterate_within debug (fun _ _ => .refl _) vs baseAddr pageCount).bind
  rintro ⟨res, vs⟩
  apply Within.ite
  · exact fun _ => .refl _
  intro _
  apply Within.ite
  · exact fun _ => .refl _
  intro _
  apply (impIterate_within debug (commitEntry_within debug) _ baseAddr pageCount).bind
  rintro ⟨res, vs⟩
  apply Within.refl

theorem protect_within (vs : Vspace) (baseAddr pageCount : ℕ) (attrib : UInt64) :
  (vs.protect debug baseAddr pageCount attrib).Within (vs.protect false baseAddr pageCount attrib)
  := by
  unfold protect
  apply Within.ite
  · exact fun _ => .refl _
  intro _
  apply Within.ite
  · exact fun _ => .refl _
  intro _
  apply withLock_within
  intro vs
  apply (impIterate_within debug (fun _ _ => .refl _) vs baseAddr pageCount).bind
  rintro ⟨res, vs⟩
  apply Within.ite
  · exact fun _ => .refl _
  intro _
  apply (impIterate_within debug (protectEntry_within debug attrib) _ baseAddr pageCount).bind
  rintro ⟨res, vs⟩
  apply Within.refl

/-- A request that returns in a debug build returns the same in a release build, and leaves the
space in the same state. -/
theorem exec_within (vs : Vspace) (r : Request) : (r.exec debug vs).Within (r.exec false vs) := by
  cases r with
  | reserve addr n => apply reserve_within
  | commit addr n =>
      apply (commit_within debug vs _ _).bind
      rintro ⟨res, vs⟩
      apply Within.refl
  | protect addr n attrib =>
      apply (protect_within debug vs _ _ attrib).bind
      rintro ⟨res, vs⟩
      apply Within.refl
  | release addr n =>
      apply (release_within debug vs _ _).bind
      rintro ⟨res, vs⟩
      apply Within.refl

end Vspace

end UOS
