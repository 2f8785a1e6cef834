import Cofuos.Disk.Cache

/-!
# What a worker does with a request

A request to a file is carried out by a worker, which moves the data and records in the file how
far it has come. The definitions follow `exfat::worker_read`, `exfat::worker_write`,
`exfat::worker_list` and the dispatch of `exfat::thread_worker` in
`kernel/filesystem/worker.cpp`.

What a worker does to a file is a list of effects, in the order in which they become visible.
What it meets on its way is given: whether a sector is found, whether the disk can be read, and
how many bytes the memory of the process takes. Of the sectors we keep where they lie, as that
limits how much is moved at once.
-/

namespace UOS

namespace File

def EOF_FAILURE : BitVec 16 := 1
def OP_FAILURE : BitVec 16 := 4
def MEM_FAILURE : BitVec 16 := 8
def FS_FAILURE : BitVec 16 := 0x10
def MEDIA_FAILURE : BitVec 16 := 0x20

def SECTOR_SIZE : ℕ := 512

/-- The commands of a file, of which `none` is that of a file without a request. -/
inductive Command where
  | none
  | read
  | write
  | list
  deriving DecidableEq

/-- A request, as it is found in the file. -/
structure Request where
  command : Command
  buffer : ℕ
  length : ℕ
  offset : ℕ

/-- What becomes visible of the work. -/
inductive Effect where
  /-- Bits are set in `iostate`. -/
  | fail (bits : BitVec 16)
  /-- Bytes have been moved. -/
  | moved (n : ℕ)
  /-- The offset has been changed. -/
  | setOffset (offset : ℕ)
  /-- The length has been changed. -/
  | setLength (length : ℕ)
  deriving DecidableEq

/-- What a round of a loop meets. -/
structure Round where
  /-- The sector that is found, or `0`. -/
  lba : ℕ
  /-- The sector can be read. -/
  block : Bool
  /-- The number of bytes that the memory takes, at most. -/
  accepts : ℕ

/-- What a worker meets. -/
structure Env where
  fileSize : ℕ
  validSize : ℕ
  valid_le : validSize ≤ fileSize
  clusterSize : ℕ
  cluster_pos : 0 < clusterSize
  /-- The rounds of the loop, by the number of bytes that have been moved before. -/
  round : ℕ → Round
  /-- The size of the file can be set. -/
  setSize : Bool
  /-- The outcome of a step through a folder. -/
  stat : BitVec 16
  /-- The index of the record after the step. -/
  index : ℕ
  /-- The size of the name that has been found. -/
  nameSize : ℕ

/-- The bytes that are left of the page of a sector and of the cluster. -/
def Env.room (env : Env) (lba offset : ℕ) : ℕ :=
  min (Disk.count lba * SECTOR_SIZE - offset % SECTOR_SIZE)
    (env.clusterSize - offset % env.clusterSize)

/-! ### Reading -/

/-- The rounds of reading, when `len` bytes have been moved and `n` are left. -/
def readLoop (env : Env) (length : ℕ) : ℕ → ℕ → ℕ → List Effect
  | 0, _, len => [.setLength len]
  | n + 1, offset, len =>
    if len < length then
      if env.fileSize ≤ offset then
        [.fail EOF_FAILURE, .setLength len]
      else if env.validSize ≤ offset then
        let size := min (env.fileSize - env.validSize) (length - len)
        let transferred := min (env.round len).accepts size
        if transferred ≠ size then
          [.moved transferred, .fail MEM_FAILURE, .setLength (len + transferred)]
        else
          .moved transferred :: readLoop env length n offset (len + transferred)
      else if (env.round len).lba = 0 then
        [.fail FS_FAILURE, .setLength len]
      else
        let size := min (min (env.room (env.round len).lba offset) (length - len))
          (env.validSize - offset)
        if (env.round len).block = false then
          [.fail MEDIA_FAILURE, .setLength len]
        else
          let transferred := min (env.round len).accepts size
          if transferred ≠ size then
            [.moved transferred, .setOffset (offset + transferred), .fail MEM_FAILURE,
              .setLength (len + transferred)]
          else
            .moved transferred :: .setOffset (offset + transferred)
              :: readLoop env length n (offset + transferred) (len + transferred)
    else
      [.setLength len]

def workerRead (env : Env) (q : Request) : List Effect :=
  if q.buffer = 0 ∨ q.length = 0 then
    [.setLength 0, .fail MEM_FAILURE]
  else
    readLoop env q.length q.length q.offset 0

/-! ### Writing -/

/-- The end of writing, where the size of the file is set. -/
def writeEnd (env : Env) (len : ℕ) : List Effect :=
  if env.setSize = false then [.fail FS_FAILURE, .setLength len] else [.setLength len]

/-- The rounds of writing, when `len` bytes have been moved and `n` are left. -/
def writeLoop (env : Env) (length : ℕ) : ℕ → ℕ → ℕ → List Effect
  | 0, _, len => writeEnd env len
  | n + 1, offset, len =>
    if len < length then
      if (env.round len).lba = 0 then
        .fail FS_FAILURE :: writeEnd env len
      else
        let size := min (env.room (env.round len).lba offset) (length - len)
        if (env.round len).block = false then
          .fail MEDIA_FAILURE :: writeEnd env len
        else
          let transferred := min (env.round len).accepts size
          if transferred ≠ size then
            .moved transferred :: .setOffset (offset + transferred) :: .fail MEM_FAILURE
              :: writeEnd env (len + transferred)
          else
            .moved transferred :: .setOffset (offset + transferred)
              :: writeLoop env length n (offset + transferred) (len + transferred)
    else
      writeEnd env len

def workerWrite (env : Env) (q : Request) : List Effect :=
  if q.buffer = 0 ∨ q.length = 0 then
    [.setLength 0, .fail MEM_FAILURE]
  else
    writeLoop env q.length q.length q.offset 0

/-! ### Listing -/

def workerList (env : Env) (q : Request) : List Effect :=
  if q.buffer = 0 ∨ q.length = 0 then
    [.setLength 0, .fail MEM_FAILURE]
  else if q.offset % 0x20 ≠ 0 then
    [.setLength 0, .fail OP_FAILURE]
  else
    .setOffset (env.index * 0x20 % 2 ^ 32) ::
      if env.stat ≠ 0 then
        [.fail env.stat, .setLength 0]
      else
        let size := min env.nameSize q.length
        let transferred := min (env.round 0).accepts size
        (if q.length < env.nameSize then [.fail MEM_FAILURE] else []) ++
          [.moved transferred, .setLength transferred] ++
          if transferred ≠ size then [.fail MEM_FAILURE] else []

/-! ### Dispatch -/

/-- The worker function of a request. -/
def worker (env : Env) (q : Request) : List Effect :=
  match q.command with
  | .none => []
  | .read => workerRead env q
  | .write => workerWrite env q
  | .list => workerList env q

/-- What follows the worker function before the request is completed. A request to list a folder
goes on to the case of unknown commands. -/
def fallThrough : Command → List Effect
  | .none => [.fail OP_FAILURE]
  | .read => []
  | .write => []
  | .list => [.fail OP_FAILURE]

/-! ### What the effects come to -/

/-- The bits that an effect sets. -/
def Effect.bits : Effect → BitVec 16
  | .fail b => b
  | _ => 0#16

/-- The number of bytes that an effect moves. -/
def Effect.count : Effect → ℕ
  | .moved n => n
  | _ => 0

/-- The length after an effect. -/
def Effect.length (l : ℕ) : Effect → ℕ
  | .setLength n => n
  | _ => l

/-- The offset after an effect. -/
def Effect.offset (o : ℕ) : Effect → ℕ
  | .setOffset n => n
  | _ => o

/-- The bits that are set. -/
def bits (es : List Effect) : BitVec 16 := es.foldr (fun e b => e.bits ||| b) 0#16

/-- The number of bytes that are moved. -/
def moved (es : List Effect) : ℕ := (es.map Effect.count).sum

/-- The length after the effects. -/
def finalLength (l : ℕ) (es : List Effect) : ℕ := es.foldl Effect.length l

/-- The request has been completed in full and without an error. Of a name, all bytes have been
moved. -/
def Complete (env : Env) (q : Request) : Prop :=
  q.buffer ≠ 0 ∧ q.length ≠ 0 ∧
    match q.command with
    | .none => False
    | .read => moved (worker env q) = q.length
    | .write => moved (worker env q) = q.length ∧ env.setSize = true
    | .list => q.offset % 0x20 = 0 ∧ env.stat = 0 ∧ moved (worker env q) = env.nameSize

variable {env : Env} {q : Request} {e : Effect} {length offset len n l : ℕ} {es es' : List Effect}

@[simp]
theorem bits_nil : bits [] = 0#16 := rfl

@[simp]
theorem bits_cons : bits (e :: es) = e.bits ||| bits es := rfl

theorem bits_append : bits (es ++ es') = bits es ||| bits es' := by
  induction es with
  | nil => rw [List.nil_append, bits_nil, BitVec.zero_or]
  | cons e es ih => rw [List.cons_append, bits_cons, bits_cons, ih, BitVec.or_assoc]

theorem moved_append : moved (es ++ es') = moved es + moved es' := by
  rw [moved, List.map_append, List.sum_append, moved, moved]

theorem finalLength_append : finalLength l (es ++ es') = finalLength (finalLength l es) es' :=
  List.foldl_append

@[simp]
theorem moved_nil : moved [] = 0 := rfl

@[simp]
theorem moved_cons : moved (e :: es) = e.count + moved es := by
  rw [moved, List.map_cons, List.sum_cons, moved]

@[simp]
theorem finalLength_nil : finalLength l [] = l := rfl

@[simp]
theorem finalLength_cons : finalLength l (e :: es) = finalLength (e.length l) es := rfl

/-- There is room for a byte at least. -/
theorem Env.room_pos (env : Env) (lba offset : ℕ) : 0 < env.room lba offset := by
  have hcount : 0 < Disk.count lba := by
    rw [Disk.count]
    split_ifs
    · decide
    · lia
  have hcluster := Nat.mod_lt offset env.cluster_pos
  have hsector := Nat.mod_lt offset (show 0 < SECTOR_SIZE by decide)
  rw [room, Nat.lt_min]
  constructor
  · have := Nat.le_mul_of_pos_left SECTOR_SIZE hcount
    lia
  · lia

/-- What holds of the effects of the later rounds holds with those of a round that moves bytes. -/
theorem moved_ahead {size : ℕ} (p : ℕ → Prop)
    (h : finalLength l es = len + size + moved es ∧ (bits es = 0#16 ↔ p (len + size + moved es))) :
  finalLength l (.moved size :: es) = len + moved (.moved size :: es)
    ∧ (bits (.moved size :: es) = 0#16 ↔ p (len + moved (.moved size :: es)))
  := by
  rw [finalLength_cons, moved_cons, bits_cons]
  simp only [Effect.length, Effect.count, Effect.bits, BitVec.zero_or]
  rw [← Nat.add_assoc]
  exact h

/-- What holds of effects holds if the offset is set ahead of them. -/
theorem setOffset_ahead (p : ℕ → Prop)
    (h : finalLength l es = len + moved es ∧ (bits es = 0#16 ↔ p (len + moved es))) :
  finalLength l (.setOffset offset :: es) = len + moved (.setOffset offset :: es)
    ∧ (bits (.setOffset offset :: es) = 0#16 ↔ p (len + moved (.setOffset offset :: es)))
  := by
  rw [finalLength_cons, moved_cons, bits_cons]
  simp only [Effect.length, Effect.count, Effect.bits, BitVec.zero_or, Nat.zero_add]
  exact h

/-- Reading ends with the number of bytes that have been moved. No bits are set exactly if all
bytes have been moved. -/
theorem readLoop_spec (hn : length ≤ len + n) (hlen : len ≤ length) :
  finalLength l (readLoop env length n offset len)
      = len + moved (readLoop env length n offset len)
    ∧ (bits (readLoop env length n offset len) = 0#16
      ↔ len + moved (readLoop env length n offset len) = length)
  := by
  induction n generalizing offset len l with
  | zero =>
      have heq : len = length := by omega
      simp [readLoop, Effect.length, Effect.count, Effect.bits, heq]
  | succ n ih =>
      rw [readLoop]
      by_cases hlt : len < length
      · rw [if_pos hlt]
        by_cases heof : env.fileSize ≤ offset
        · rw [if_pos heof]
          simp [Effect.length, Effect.count, Effect.bits, EOF_FAILURE, hlt.ne]
        rw [if_neg heof]
        by_cases hvalid : env.validSize ≤ offset
        · rw [if_pos hvalid]
          obtain ⟨size, hsize⟩ : ∃ size, size = min (env.fileSize - env.validSize)
            (length - len) := ⟨_, rfl⟩
          dsimp only
          rw [← hsize]
          split_ifs with ht
          · simp only [finalLength_cons, finalLength_nil, moved_cons, moved_nil, bits_cons,
              bits_nil, Effect.length, Effect.count, Effect.bits, MEM_FAILURE]
            refine ⟨by lia, ?_⟩
            constructor
            · intro h
              cases h
            · lia
          · rw [not_not] at ht
            rw [ht]
            apply moved_ahead (· = length)
            exact @ih offset (len + size) l (by lia) (by lia)
        rw [if_neg hvalid]
        by_cases hlba : (env.round len).lba = 0
        · rw [if_pos hlba]
          simp [Effect.length, Effect.count, Effect.bits, FS_FAILURE, hlt.ne]
        rw [if_neg hlba]
        have hroom := env.room_pos (env.round len).lba offset
        obtain ⟨size, hsize⟩ : ∃ size, size = min (min (env.room (env.round len).lba offset)
          (length - len)) (env.validSize - offset) := ⟨_, rfl⟩
        dsimp only
        rw [← hsize]
        by_cases hblock : (env.round len).block = false
        · rw [if_pos hblock]
          simp [Effect.length, Effect.count, Effect.bits, MEDIA_FAILURE, hlt.ne]
        rw [if_neg hblock]
        split_ifs with ht
        · simp only [finalLength_cons, finalLength_nil, moved_cons, moved_nil, bits_cons,
            bits_nil, Effect.length, Effect.count, Effect.bits, MEM_FAILURE]
          refine ⟨by lia, ?_⟩
          constructor
          · intro h
            cases h
          · lia
        · rw [not_not] at ht
          rw [ht]
          apply moved_ahead (· = length)
          apply setOffset_ahead (· = length)
          exact @ih (offset + size) (len + size) l (by lia) (by lia)
      · have heq : len = length := by omega
        rw [if_neg hlt]
        simp [Effect.length, Effect.count, Effect.bits, heq]

theorem writeEnd_spec :
  finalLength l (writeEnd env len) = len ∧ moved (writeEnd env len) = 0
    ∧ (bits (writeEnd env len) = 0#16 ↔ env.setSize = true)
  := by
  rw [writeEnd]
  split_ifs with h
  · simp [Effect.length, Effect.count, Effect.bits, FS_FAILURE, h]
  · simp [Effect.length, Effect.count, Effect.bits, h]

/-- Writing ends with the number of bytes that have been moved. No bits are set exactly if all
bytes have been moved and the size has been set. -/
theorem writeLoop_spec (hn : length ≤ len + n) (hlen : len ≤ length) :
  finalLength l (writeLoop env length n offset len)
      = len + moved (writeLoop env length n offset len)
    ∧ (bits (writeLoop env length n offset len) = 0#16
      ↔ len + moved (writeLoop env length n offset len) = length ∧ env.setSize = true)
  := by
  induction n generalizing offset len l with
  | zero =>
      have heq : len = length := by omega
      obtain ⟨h₁, h₂, h₃⟩ := @writeEnd_spec env len l
      rw [writeLoop, h₁, h₂, h₃, Nat.add_zero]
      simp [heq]
  | succ n ih =>
      rw [writeLoop]
      by_cases hlt : len < length
      · rw [if_pos hlt]
        obtain ⟨h₁, h₂, h₃⟩ := @writeEnd_spec env len l
        by_cases hlba : (env.round len).lba = 0
        · rw [if_pos hlba]
          simp [Effect.length, Effect.count, Effect.bits, FS_FAILURE, hlt.ne, h₁, h₂]
        rw [if_neg hlba]
        have hroom := env.room_pos (env.round len).lba offset
        obtain ⟨size, hsize⟩ : ∃ size, size = min (env.room (env.round len).lba offset)
          (length - len) := ⟨_, rfl⟩
        dsimp only
        rw [← hsize]
        by_cases hblock : (env.round len).block = false
        · rw [if_pos hblock]
          simp [Effect.length, Effect.count, Effect.bits, MEDIA_FAILURE, hlt.ne, h₁, h₂]
        rw [if_neg hblock]
        split_ifs with ht
        · obtain ⟨h₄, h₅, h₆⟩ := @writeEnd_spec env (len + min (env.round len).accepts size) l
          simp only [finalLength_cons, moved_cons, bits_cons, Effect.length, Effect.count,
            Effect.bits, MEM_FAILURE, h₄, h₅]
          refine ⟨by lia, ?_⟩
          constructor
          · intro h
            simp at h
          · lia
        · rw [not_not] at ht
          rw [ht]
          apply moved_ahead (fun n => n = length ∧ env.setSize = true)
          apply setOffset_ahead (fun n => n = length ∧ env.setSize = true)
          exact @ih (offset + size) (len + size) l (by lia) (by lia)
      · have heq : len = length := by omega
        obtain ⟨h₁, h₂, h₃⟩ := @writeEnd_spec env len l
        rw [if_neg hlt, h₁, h₂, h₃]
        simp [heq]

/-- A failure that is set only under a condition. -/
theorem guarded_spec (p : Prop) [Decidable p] :
  moved (if p then [.fail MEM_FAILURE] else []) = 0
    ∧ finalLength l (if p then [.fail MEM_FAILURE] else []) = l
    ∧ (bits (if p then [.fail MEM_FAILURE] else []) = 0#16 ↔ ¬ p)
  := by
  split_ifs with h
  · simp [Effect.length, Effect.count, Effect.bits, MEM_FAILURE, h]
  · simp [h]

/-- A worker function ends with the number of bytes that have been moved, and no bits are set
exactly if the request has been completed. -/
theorem worker_spec (env : Env) (q : Request) (hq : q.command ≠ .none) :
  finalLength q.length (worker env q) = moved (worker env q)
    ∧ (bits (worker env q) = 0#16 ↔ Complete env q)
  := by
  by_cases hnull : q.buffer = 0 ∨ q.length = 0
  · have hw : worker env q = [.setLength 0, .fail MEM_FAILURE] := by
      rw [worker]
      cases hc : q.command with
      | none => apply absurd hc hq
      | read => exact if_pos hnull
      | write => exact if_pos hnull
      | list => exact if_pos hnull
    rw [hw, Complete]
    refine ⟨rfl, ?_⟩
    constructor
    · intro h
      cases h
    · rintro ⟨h₁, h₂, -⟩
      apply absurd hnull (not_or.2 ⟨h₁, h₂⟩)
  · obtain ⟨h₁, h₂⟩ := not_or.1 hnull
    rw [Complete]
    cases hc : q.command with
    | none => apply absurd hc hq
    | read =>
        have hw : worker env q = readLoop env q.length q.length q.offset 0 := by
          rw [worker, hc]
          exact if_neg hnull
        obtain ⟨hl, hb⟩ := @readLoop_spec env q.length q.offset 0 q.length q.length (by omega)
          (by omega)
        rw [Nat.zero_add] at hl hb
        rw [hw]
        exact ⟨hl, by simp [hb, h₁, h₂]⟩
    | write =>
        have hw : worker env q = writeLoop env q.length q.length q.offset 0 := by
          rw [worker, hc]
          exact if_neg hnull
        obtain ⟨hl, hb⟩ := @writeLoop_spec env q.length q.offset 0 q.length q.length (by omega)
          (by omega)
        rw [Nat.zero_add] at hl hb
        rw [hw]
        exact ⟨hl, by simp [hb, h₁, h₂]⟩
    | list =>
        have hw : worker env q = workerList env q := by
          rw [worker, hc]
        rw [hw, workerList, if_neg hnull]
        by_cases ho : q.offset % 0x20 ≠ 0
        · rw [if_pos ho]
          simp [Effect.length, Effect.count, Effect.bits, OP_FAILURE, ho]
        rw [if_neg ho]
        rw [not_not] at ho
        by_cases hs : env.stat ≠ 0
        · rw [if_pos hs]
          have hs' : env.stat ≠ 0#16 := hs
          simp [Effect.length, Effect.count, Effect.bits, hs']
        rw [if_neg hs]
        rw [not_not] at hs
        dsimp only
        obtain ⟨size, hsize⟩ : ∃ size, size = min env.nameSize q.length := ⟨_, rfl⟩
        rw [← hsize]
        obtain ⟨hm₁, hl₁, hb₁⟩ := @guarded_spec q.length (q.length < env.nameSize) _
        obtain ⟨hm₂, hl₂, hb₂⟩ := @guarded_spec (min (env.round 0).accepts size)
          (min (env.round 0).accepts size ≠ size) _
        rw [finalLength_cons, moved_cons, bits_cons, finalLength_append, finalLength_append,
          moved_append, moved_append, bits_append, bits_append]
        simp only [finalLength_cons, finalLength_nil, moved_cons, moved_nil, bits_cons, bits_nil,
          Effect.length, Effect.count, Effect.bits, BitVec.zero_or, BitVec.or_zero,
          BitVec.or_eq_zero_iff, hm₁, hm₂, hl₂, hb₁, hb₂]
        refine ⟨by lia, ?_⟩
        simp only [h₁, h₂, ho, hs, ne_eq, not_false_eq_true, true_and]
        lia

end File

end UOS
