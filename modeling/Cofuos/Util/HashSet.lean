import Cofuos.Lib.Fault
import Cofuos.Lib.HashSet
import Cofuos.Memory.OperatorNew

/-!
# The hash set

`hash_set` of `util/include/hash_set.hpp`. An element lies in a node of a `linked_list`, the list of its
bucket, and an iterator is a bucket together with a node of its list. The number of buckets and the
number of elements are counted in a `dword`, which suffices: the buckets are an array, and `operator new`
stops before the array is larger than a gigabyte.

What a client sees is a bag of elements in the order in which they have been inserted: a look-up finds
the latest one that is equal to the key.
-/

namespace UOS

/-- A node of a `linked_list`. -/
structure Node (α : Type) where
  addr : ℕ
  payload : α
  deriving DecidableEq, Repr

/-- The hash functions and the equality of a set of `α` in which keys of `κ` are looked up. -/
structure Hashing (α κ : Type) where
  hash : α → ℕ
  hashKey : κ → ℕ
  equal : α → κ → Bool

/-- Equal keys have equal hashes. -/
def Hashing.Lawful {α κ : Type} (H : Hashing α κ) : Prop :=
  ∀ a k, H.equal a k = true → H.hash a = H.hashKey k

/-- `hash_set` -/
structure HashedSet (α κ : Type) where
  table : HashSet (Node α)
  obj : Hashing α κ

namespace HashedSet

variable {α κ ι : Type}

/-- A position in a set: a bucket and a node of its list. -/
structure Iterator where
  bucket : ℕ
  chain : Option ℕ
  deriving DecidableEq, Repr

/-- `sizeof(linked_list<T>)` -/
def chainSize : ℕ := 24

/-- An array of so many buckets can be allocated. -/
def RoomFor (fac : ℕ) : Prop := fac * chainSize ≤ maxBlock

instance (fac : ℕ) : Decidable (RoomFor fac) := inferInstanceAs (Decidable (_ ≤ _))

/-- The constructor of the vector of the buckets, where there is memory for it. -/
def newBuckets (fac : ℕ) : Except Fault Unit := if RoomFor fac then .ok () else .error badAlloc

/-- A set that has been constructed with so many buckets. -/
def construct (fac : ℕ) (obj : Hashing α κ) : HashedSet α κ := ⟨HashSet.empty fac, obj⟩

/-- The constructor. -/
def create (debug : Bool) (fac : ℕ) (obj : Hashing α κ) : Except Fault (HashedSet α κ) := do
  newBuckets fac
  Fault.assert debug (fac ≠ 0)
  return construct fac obj

/-- `bucket_count` -/
def bucketCount (s : HashedSet α κ) : ℕ := s.table.bucket.length

/-- `size` -/
def size (s : HashedSet α κ) : ℕ := s.table.count

/-! ### Iterators -/

/-- The first node of the buckets from one on. -/
def first : List (List (ℕ × Node α)) → ℕ → Iterator
  | [], b => ⟨b, none⟩
  | [] :: l, b => first l (b + 1)
  | (e :: _) :: _, b => ⟨b, some e.2.addr⟩

/-- The position of the first of the nodes that are left in a bucket, or of the first node after the
bucket. -/
def settle (s : HashedSet α κ) (b : ℕ) (rest : List (ℕ × Node α)) : Iterator :=
  match rest with
  | e :: _ => ⟨b, some e.2.addr⟩
  | [] => first (s.table.bucket.drop (b + 1)) (b + 1)

/-- `begin` -/
def begin (s : HashedSet α κ) : Iterator := first s.table.bucket 0

/-- `end` -/
def «end» (s : HashedSet α κ) : Iterator := ⟨s.bucketCount, none⟩

/-- The list of a bucket. -/
def chainAt (s : HashedSet α κ) (b : ℕ) : List (ℕ × Node α) := (s.table.bucket[b]?).getD []

/-- The nodes of a list after one of them. -/
def after (c : List (ℕ × Node α)) (a : ℕ) : List (ℕ × Node α) :=
  (c.dropWhile fun e => e.2.addr ≠ a).tail

/-- `operator++` -/
def next (s : HashedSet α κ) (it : Iterator) : Except Fault Iterator :=
  match it.chain with
  | none => .error (.bugcheck "iterator move past the end @ %p")
  | some a => .ok (s.settle it.bucket (after (s.chainAt it.bucket) a))

/-- `operator*` -/
def deref (s : HashedSet α κ) (it : Iterator) : Option α :=
  ((s.chainAt it.bucket).find? fun e => some e.2.addr = it.chain).map fun e => e.2.payload

/-- Where a node lies. -/
def position (s : HashedSet α κ) (e : Node α) : Iterator :=
  ⟨s.obj.hash e.payload % s.bucketCount, some e.addr⟩

/-! ### Operations -/

/-- The bucket of a hash. There has to be one, as the hash is divided by their number. -/
def findBucket (debug : Bool) (s : HashedSet α κ) (hash : ℕ) : Except Fault ℕ := do
  Fault.assert debug (s.bucketCount ≠ 0)
  if s.bucketCount = 0 then .error (.bugcheck "divide error") else .ok (hash % s.bucketCount)

/-- `find` -/
def find (debug : Bool) (s : HashedSet α κ) (k : κ) : Except Fault Iterator := do
  let b ← findBucket debug s (s.obj.hashKey k)
  match (s.chainAt b).find? fun e => e.1 = s.obj.hashKey k && s.obj.equal e.2.payload k with
  | some e => .ok ⟨b, some e.2.addr⟩
  | none => .ok s.end

/-- `erase`: the node is taken from its list. Returns the position after it. -/
def erase (s : HashedSet α κ) (pos : Iterator) : Except Fault (Iterator × HashedSet α κ) :=
  match pos.chain with
  | none => .error (.bugcheck "invalid iterator %p for erase @ %p")
  | some a =>
      let c := s.chainAt pos.bucket
      let s' : HashedSet α κ := { s with
        table :=
          { bucket := s.table.bucket.set pos.bucket (c.eraseP fun e => e.2.addr = a)
            count := (s.table.count + 2 ^ 32 - 1) % 2 ^ 32 } }
      .ok (s'.settle pos.bucket (after c a), s')

/-- `rehash`: every node is taken from the old buckets and put at the end of the list of its new
one. -/
def rehash (debug : Bool) (fac : ℕ) (s : HashedSet α κ) : Except Fault (HashedSet α κ) := do
  Fault.assert debug (fac ≠ 0)
  newBuckets fac
  if fac = 0 ∧ s.table.entries ≠ [] then .error (.bugcheck "divide error")
  else
    let table := s.table.rehash fac
    .ok { s with table := { table with count := table.count % 2 ^ 32 } }

/-- Makes sure that there are more buckets than elements. -/
def grow (debug : Bool) (s : HashedSet α κ) : Except Fault (HashedSet α κ) :=
  if s.bucketCount ≤ s.size then rehash debug (2 * s.size % 2 ^ 32) s else .ok s

/-- `insert` of an element for which a node has been allocated. -/
def insert (debug : Bool) (addr : ℕ) (a : α) (s : HashedSet α κ) :
    Except Fault (Iterator × HashedSet α κ) := do
  let s ← grow debug s
  let b ← findBucket debug s (s.obj.hash a)
  let table := s.table.putFront (s.obj.hash a) ⟨addr, a⟩
  .ok (⟨b, some addr⟩, { s with table := { table with count := table.count % 2 ^ 32 } })

/-- `clear` -/
def clear (s : HashedSet α κ) : HashedSet α κ :=
  { s with
    table :=
      { bucket := s.table.bucket.map fun _ => []
        count := 0 } }

/-! ### What a client sees -/

/-- The elements in the order in which they have been inserted, the latest one first. -/
structure Bag (α κ : Type) where
  elems : List (Node α)
  obj : Hashing α κ

namespace Bag

def insert (addr : ℕ) (a : α) (b : Bag α κ) : Bag α κ := { b with elems := ⟨addr, a⟩ :: b.elems }

/-- Removes the element in a node. -/
def erase (addr : ℕ) (b : Bag α κ) : Bag α κ :=
  { b with elems := b.elems.filter fun e => e.addr ≠ addr }

def clear (b : Bag α κ) : Bag α κ := { b with elems := [] }

/-- The latest element that is equal to a key. -/
def find (b : Bag α κ) (k : κ) : Option (Node α) := b.elems.find? fun e => b.obj.equal e.payload k

end Bag

variable {debug : Bool} {s s' : HashedSet α κ} {b : Bag α κ} {it : Iterator} {a : α} {k : κ}
  {addr : ℕ}

/-- The nodes of a bag with their hashes. -/
def Bag.hashed (b : Bag α κ) : List (ℕ × Node α) :=
  b.elems.map fun e => (b.obj.hash e.payload, e)

theorem Bag.hashed_erase (b : Bag α κ) (addr : ℕ) :
  (b.erase addr).hashed = b.hashed.filter fun e => e.2.addr ≠ addr
  := by
  rw [Bag.hashed, Bag.erase, Bag.hashed, List.filter_map]
  rfl

/-- A set holds the elements of a bag: with every hash they are found in the order in which they have
been inserted. -/
structure Holds (s : HashedSet α κ) (b : Bag α κ) : Prop where
  valid : s.table.Valid
  view : ∀ hash, s.table.view hash = b.hashed.filter fun e => e.1 = hash
  nodup : (b.elems.map Node.addr).Nodup
  obj : s.obj = b.obj
  lt : s.size < 2 ^ 32

namespace Holds

variable (h : Holds s b)

include h

/-- The stored elements. -/
theorem perm : s.table.entries.Perm b.hashed := by
  apply HashSet.perm_of_filter
  intro hash
  rw [h.valid.filter_entries, h.view]

theorem size_eq : s.size = b.elems.length := by
  rw [size, h.valid.count, h.perm.length_eq, Bag.hashed, List.length_map]

/-- The stored elements, without their hashes. -/
theorem perm_elems : (s.table.entries.map Prod.snd).Perm b.elems := by
  have hmap := h.perm.map Prod.snd
  rw [Bag.hashed, List.map_map] at hmap
  change List.Perm _ (b.elems.map id) at hmap
  rwa [List.map_id] at hmap

theorem bucketCount_pos : 0 < s.bucketCount := h.valid.pos

/-- There is always a bucket for a hash. -/
theorem findBucket_eq (hash : ℕ) : findBucket debug s hash = .ok (hash % s.bucketCount) := by
  have hne : s.bucketCount ≠ 0 := h.bucketCount_pos.ne'
  rw [findBucket, Fault.assert_eq_ok (fun _ => hne)]
  change (if s.bucketCount = 0 then _ else _) = _
  rw [if_neg hne]

/-- A look-up finds the latest element that has the hash of the key and is equal to it. -/
theorem find_stored (debug : Bool) (k : κ) :
  find debug s k = .ok ((b.elems.find? fun e =>
    b.obj.hash e.payload = b.obj.hashKey k && b.obj.equal e.payload k).elim s.end s.position)
  := by
  have hsee : ((s.chainAt (s.obj.hashKey k % s.bucketCount)).find? fun e =>
      e.1 = s.obj.hashKey k && s.obj.equal e.2.payload k) =
      (b.elems.find? fun e =>
        b.obj.hash e.payload = b.obj.hashKey k && b.obj.equal e.payload k).map
          fun e => (b.obj.hash e.payload, e) := by
    have hview := congrArg (List.find? fun e => b.obj.equal e.2.payload k)
      (h.view (b.obj.hashKey k))
    rw [HashSet.view, List.find?_filter, List.find?_filter] at hview
    simp only [decide_eq_true_eq, Bool.decide_and, Bool.decide_eq_true] at hview
    rw [h.obj]
    apply hview.trans
    rw [Bag.hashed, List.find?_map]
    rfl
  rw [find, h.findBucket_eq]
  simp only [bind, Except.bind, hsee]
  cases hf : b.elems.find? fun e =>
      b.obj.hash e.payload = b.obj.hashKey k && b.obj.equal e.payload k with
  | none => rfl
  | some e =>
      have hp := List.find?_some hf
      rw [Bool.and_eq_true, decide_eq_true_eq] at hp
      change Except.ok _ = Except.ok (s.position e)
      rw [position, h.obj, hp.1]

/-- A look-up finds the latest element that is equal to the key. -/
theorem find_eq (hlaw : b.obj.Lawful) :
  find debug s k = .ok ((b.find k).elim s.end s.position)
  := by
  have hkey : ∀ e ∈ b.elems, (decide (b.obj.hash e.payload = b.obj.hashKey k) &&
      b.obj.equal e.payload k) = b.obj.equal e.payload k := by
    intro e _
    cases heq : b.obj.equal e.payload k with
    | true => rw [Bool.and_true, hlaw _ _ heq, decide_eq_true rfl]
    | false => rw [Bool.and_false]
  rw [h.find_stored, List.find?_congr hkey, Bag.find]

/-- An element is found in the bucket of its hash. -/
theorem mem_chain {e : Node α} (he : e ∈ b.elems) :
  (s.obj.hash e.payload, e) ∈ s.table.chain (s.obj.hash e.payload)
  := by
  apply (h.valid.mem_chain_iff rfl).mpr
  rw [h.perm.mem_iff, Bag.hashed, h.obj]
  apply List.mem_map.mpr ⟨e, he, rfl⟩

/-- There is only one element in a node. -/
theorem eq_of_addr {e e' : Node α} {x : ℕ} (he : e ∈ b.elems) (he' : (x, e') ∈ s.table.entries)
    (haddr : e'.addr = e.addr) :
  e' = e ∧ x = s.obj.hash e.payload
  := by
  rw [h.perm.mem_iff, Bag.hashed, List.mem_map] at he'
  obtain ⟨e'', he'', heq⟩ := he'
  cases heq
  obtain rfl := List.inj_on_of_nodup_map h.nodup he'' he haddr
  rw [h.obj]
  exact ⟨rfl, rfl⟩

/-- The element at a position. -/
theorem deref_position {e : Node α} (he : e ∈ b.elems) :
  s.deref (s.position e) = some e.payload
  := by
  have hmem := h.mem_chain he
  change Option.map _ (List.find? (fun e' : ℕ × Node α => some e'.2.addr = some e.addr)
    (s.table.chain (s.obj.hash e.payload))) = _
  cases hf : (s.table.chain (s.obj.hash e.payload)).find?
      fun e' : ℕ × Node α => some e'.2.addr = some e.addr with
  | none =>
      rw [List.find?_eq_none] at hf
      exact absurd (decide_eq_true rfl) (hf _ hmem)
  | some e' =>
      have hsome := List.find?_some hf
      have haddr : e'.2.addr = e.addr := Option.some_injective _ (of_decide_eq_true hsome)
      have hentry : (e'.1, e'.2) ∈ s.table.entries := by
        obtain ⟨l₁, l₂, hb, -⟩ := h.valid.exists_bucket (s.obj.hash e.payload)
        rw [HashSet.entries, hb, List.flatten_append, List.flatten_cons]
        apply List.mem_append_right _ (List.mem_append_left _ (List.mem_of_find?_eq_some hf))
      rw [Option.map_some, (h.eq_of_addr he hentry haddr).1]

/-- Moving the elements to new buckets. -/
theorem rehash (debug : Bool) {fac : ℕ} (hfac : fac ≠ 0) (hroom : RoomFor fac) :
  ∃ s', HashedSet.rehash debug fac s = .ok s' ∧ Holds s' b ∧ s'.bucketCount = fac
  := by
  obtain ⟨hv, hp, hview⟩ := h.valid.rehash (Nat.pos_of_ne_zero hfac)
  have hcount : (s.table.rehash fac).count = s.size := by
    rw [hv.count, ← hp.length_eq, size, h.valid.count]
  have hmod : (s.table.rehash fac).count % 2 ^ 32 = (s.table.rehash fac).count := by
    rw [hcount]
    apply Nat.mod_eq_of_lt h.lt
  refine ⟨{ s with table := s.table.rehash fac }, ?_, ⟨hv, ?_, h.nodup, h.obj, ?_⟩,
    HashSet.length_rehash _ _⟩
  · rw [HashedSet.rehash, Fault.assert_eq_ok (fun _ => hfac), newBuckets, if_pos hroom]
    change (if fac = 0 ∧ _ then _ else _) = _
    rw [if_neg (fun hc => hfac hc.1)]
    simp only [hmod]
  · intro hash
    change (s.table.rehash fac).view hash = _
    rw [hview, h.view]
  · change (s.table.rehash fac).count < _
    rw [hcount]
    exact h.lt

end Holds

/-- The counters do not suffice for one more element: there are as many elements as buckets, and twice
their number is `0`, or their number plus one is. -/
def Overflows (s : HashedSet α κ) : Prop :=
  s.bucketCount ≤ s.size ∧ 2 * s.size % 2 ^ 32 = 0 ∨ s.size + 1 = 2 ^ 32

/-- The buckets can be allocated that are needed for one more element. -/
def HasRoom (s : HashedSet α κ) : Prop :=
  s.bucketCount ≤ s.size → RoomFor (2 * s.size % 2 ^ 32)

/-- A set has no more buckets and no more elements than buckets can be allocated. -/
structure Small (s : HashedSet α κ) : Prop where
  buckets : RoomFor s.bucketCount
  size : RoomFor s.size

theorem le_of_roomFor {n : ℕ} (h : RoomFor n) : n < 2 ^ 26 := by
  rw [RoomFor, maxBlock_eq, chainSize] at h
  lia

theorem RoomFor.mono {n n' : ℕ} (h : RoomFor n) (hle : n' ≤ n) : RoomFor n' :=
  (Nat.mul_le_mul_right _ hle).trans h

/-- Moving the elements to buckets that cannot be allocated. -/
theorem rehash_no_room (debug : Bool) (s : HashedSet α κ) {fac : ℕ} (hfac : fac ≠ 0)
    (hroom : ¬ RoomFor fac) :
  rehash debug fac s = .error badAlloc
  := by
  rw [rehash, Fault.assert_eq_ok (fun _ => hfac), newBuckets, if_neg hroom]
  rfl

namespace Holds

variable (h : Holds s b)

include h

/-- The counters of a small set suffice. -/
theorem not_overflows (hsmall : s.Small) : ¬ s.Overflows := by
  have hpos := h.bucketCount_pos
  have hlt := le_of_roomFor hsmall.size
  rintro (⟨hle, hzero⟩ | heq)
  · rw [Nat.mod_eq_of_lt (by lia)] at hzero
    lia
  · lia

/-- Making sure that there are more buckets than elements. -/
theorem grow (debug : Bool) (hover : ¬ s.Overflows) (hroom : s.HasRoom) :
  ∃ s', HashedSet.grow debug s = .ok s' ∧ Holds s' b ∧
    (s.Small → s'.Small ∧ s'.size < s'.bucketCount)
  := by
  have hpos := h.bucketCount_pos
  rw [Overflows, not_or, not_and] at hover
  rw [HashedSet.grow]
  split_ifs with hle
  · obtain ⟨s', heq, hs', hcount⟩ := h.rehash debug (hover.1 hle) (hroom hle)
    refine ⟨s', heq, hs', ?_⟩
    intro hsmall
    have hsize : s'.size = s.size := hs'.size_eq.trans h.size_eq.symm
    have hlt := le_of_roomFor hsmall.size
    rw [Nat.mod_eq_of_lt (by lia)] at hcount
    refine ⟨⟨?_, ?_⟩, ?_⟩
    · rw [hcount]
      have hgrown := hroom hle
      rwa [Nat.mod_eq_of_lt (by lia)] at hgrown
    · rw [hsize]
      exact hsmall.size
    · lia
  · exact ⟨s, rfl, h, fun hsmall => ⟨hsmall, not_le.mp hle⟩⟩

omit h in
/-- There is no room for the buckets that are needed. -/
theorem grow_no_room (debug : Bool) (hover : ¬ s.Overflows) (hroom : ¬ s.HasRoom) :
  HashedSet.grow debug s = .error badAlloc
  := by
  rw [Overflows, not_or, not_and] at hover
  rw [HasRoom, Classical.not_imp] at hroom
  rw [HashedSet.grow, if_pos hroom.1]
  exact rehash_no_room debug s (hover.1 hroom.1) hroom.2

/-- Inserting an element into a new node. -/
theorem insert (debug : Bool) (a : α) (hover : ¬ s.Overflows) (hroom : s.HasRoom)
    (hfresh : ∀ e ∈ b.elems, e.addr ≠ addr) :
  ∃ s', HashedSet.insert debug addr a s = .ok (s'.position ⟨addr, a⟩, s') ∧
    Holds s' (b.insert addr a) ∧ (s.Small → s'.Small)
  := by
  obtain ⟨s₁, heq, h₁, hgrown⟩ := h.grow debug hover hroom
  have hsize : s₁.size + 1 < 2 ^ 32 := by
    have hlt := h.lt
    rw [Overflows, not_or] at hover
    rw [h₁.size_eq, ← h.size_eq]
    lia
  obtain ⟨hv, hp⟩ := h₁.valid.putFront (s₁.obj.hash a) ⟨addr, a⟩
  have hlen : (s₁.table.putFront (s₁.obj.hash a) ⟨addr, a⟩).bucket.length = s₁.table.bucket.length :=
    List.length_set
  have hmod : (s₁.table.putFront (s₁.obj.hash a) ⟨addr, a⟩).count % 2 ^ 32 =
      (s₁.table.putFront (s₁.obj.hash a) ⟨addr, a⟩).count := Nat.mod_eq_of_lt hsize
  refine ⟨{ s₁ with table := s₁.table.putFront (s₁.obj.hash a) ⟨addr, a⟩ }, ?_, ⟨hv, ?_, ?_, h₁.obj,
    hsize⟩, ?_⟩
  · rw [HashedSet.insert, heq]
    simp only [bind, Except.bind, h₁.findBucket_eq, hmod, position, bucketCount, hlen]
  · intro hash
    change (s₁.table.putFront (s₁.obj.hash a) ⟨addr, a⟩).view hash = _
    rw [h₁.valid.view_putFront, h₁.view, h₁.obj]
    change _ = List.filter _ ((b.obj.hash a, ⟨addr, a⟩) :: b.hashed)
    by_cases hh : hash = b.obj.hash a
    · rw [if_pos hh, List.filter_cons_of_pos (by simp [hh])]
    · rw [if_neg hh, List.filter_cons_of_neg (by simpa using Ne.symm hh)]
  · change ((⟨addr, a⟩ :: b.elems).map Node.addr).Nodup
    rw [List.map_cons, List.nodup_cons]
    refine ⟨?_, h.nodup⟩
    intro hmem
    obtain ⟨e, he, haddr⟩ := List.mem_map.mp hmem
    exact hfresh e he haddr
  · intro hsmall
    obtain ⟨hsmall₁, hlt⟩ := hgrown hsmall
    have hbuckets : RoomFor (s₁.table.putFront (s₁.obj.hash a) ⟨addr, a⟩).bucket.length := by
      rw [hlen]
      exact hsmall₁.buckets
    exact ⟨hbuckets, hsmall₁.buckets.mono hlt⟩

/-- Removing the elements. -/
theorem clear : Holds s.clear b.clear := by
  have hentries : s.clear.table.entries = [] := by
    rw [HashSet.entries, List.flatten_eq_nil_iff]
    intro c hc
    obtain ⟨c', -, rfl⟩ := List.mem_map.mp hc
    rfl
  have hchain : ∀ hash, s.clear.table.chain hash = [] := by
    intro hash
    rw [HashSet.chain]
    cases hc : s.clear.table.bucket[hash % s.clear.table.bucket.length]? with
    | none => rfl
    | some c =>
        obtain ⟨c', -, rfl⟩ := List.mem_map.mp (List.mem_of_getElem? hc)
        rfl
  refine ⟨⟨?_, ?_, ?_⟩, ?_, List.nodup_nil, h.obj, Nat.two_pow_pos 32⟩
  · change 0 < (s.table.bucket.map _).length
    rw [List.length_map]
    exact h.valid.pos
  · intro i c hc e he
    obtain ⟨c', -, rfl⟩ := List.mem_map.mp (List.mem_of_getElem? hc)
    cases he
  · rw [hentries]
    rfl
  · intro hash
    rw [HashSet.view, hchain]
    rfl

/-- Taking the node of an element from its list. -/
theorem erase {e : Node α} (he : e ∈ b.elems) :
  ∃ it s', HashedSet.erase s (s.position e) = .ok (it, s') ∧ Holds s' (b.erase e.addr)
  := by
  have hmem := h.mem_chain he
  have hlen : ((s.table.chain (s.obj.hash e.payload)).eraseP fun e' => e'.2.addr = e.addr).length + 1 =
      (s.table.chain (s.obj.hash e.payload)).length := by
    have hle := List.length_pos_of_mem hmem
    rw [List.length_eraseP_of_mem hmem (decide_eq_true rfl)]
    lia
  obtain ⟨l, hl, hl'⟩ := h.valid.entries_setChain (s.obj.hash e.payload)
    ((s.table.chain (s.obj.hash e.payload)).eraseP fun e' => e'.2.addr = e.addr)
  have hold : s.table.count = (s.table.setChain (s.obj.hash e.payload)
      ((s.table.chain (s.obj.hash e.payload)).eraseP fun e' => e'.2.addr = e.addr)).entries.length +
        1 := by
    rw [h.valid.count, ← hl.length_eq, ← hl'.length_eq, List.length_append, List.length_append,
      ← hlen]
    omega
  have hcount : (s.table.count + 2 ^ 32 - 1) % 2 ^ 32 =
      (s.table.setChain (s.obj.hash e.payload)
        ((s.table.chain (s.obj.hash e.payload)).eraseP fun e' => e'.2.addr = e.addr)).entries.length := by
    have hlt : s.table.count < 2 ^ 32 := h.lt
    rw [hold] at hlt ⊢
    rw [Nat.add_right_comm, Nat.add_sub_cancel, Nat.add_mod_right]
    apply Nat.mod_eq_of_lt (Nat.lt_of_succ_lt hlt)
  have hnodup : ((s.table.chain (s.obj.hash e.payload)).map fun e' => e'.2.addr).Nodup := by
    have hall : ((s.table.chain (s.obj.hash e.payload) ++ l).map fun e' => e'.2.addr).Nodup := by
      rw [(hl.map _).nodup_iff, (h.perm.map _).nodup_iff, Bag.hashed, List.map_map]
      exact h.nodup
    rw [List.map_append] at hall
    exact hall.of_append_left
  have herase := HashSet.eraseP_eq_filter (f := fun e' : ℕ × Node α => e'.2.addr) e.addr hnodup
  have hres : ∃ it, HashedSet.erase s (s.position e) = .ok (it, { s with
      table := { s.table.setChain (s.obj.hash e.payload)
        ((s.table.chain (s.obj.hash e.payload)).eraseP fun e' => e'.2.addr = e.addr) with
          count := (s.table.count + 2 ^ 32 - 1) % 2 ^ 32 } }) := ⟨_, rfl⟩
  rw [hcount] at hres
  obtain ⟨it, hres⟩ := hres
  refine ⟨it, _, hres, ⟨?_, ?_, ?_, h.obj, ?_⟩⟩
  · apply h.valid.setChain
    · intro e' he'
      apply h.valid.mod_of_mem_chain (List.mem_of_mem_eraseP he')
    · rfl
  · intro hash
    change (s.table.setChain (s.obj.hash e.payload)
      ((s.table.chain (s.obj.hash e.payload)).eraseP fun e' => e'.2.addr = e.addr)).view hash = _
    have hbag : ((b.erase e.addr).hashed.filter fun e' => e'.1 = hash) =
        (s.table.view hash).filter fun e' => e'.2.addr ≠ e.addr := by
      rw [h.view, b.hashed_erase, List.filter_comm]
    rw [hbag, h.valid.view_setChain, herase]
    split_ifs with hmod
    · rw [List.filter_comm, HashSet.view, HashSet.chain, HashSet.chain, hmod]
    · symm
      apply List.filter_eq_self.mpr
      intro e' he'
      apply decide_eq_true
      intro haddr
      have hentry : (e'.1, e'.2) ∈ s.table.entries := by
        rw [← h.valid.filter_entries] at he'
        exact (List.mem_filter.mp he').1
      have hhash : e'.1 = hash := of_decide_eq_true (List.mem_filter.mp he').2
      apply hmod
      rw [← hhash, (h.eq_of_addr he hentry haddr).2]
  · have hsub : ((b.erase e.addr).elems.map Node.addr).Sublist (b.elems.map Node.addr) :=
      List.filter_sublist.map _
    exact List.Nodup.sublist hsub h.nodup
  · change List.length _ < _
    have hlt : s.table.count < 2 ^ 32 := h.lt
    rw [hold] at hlt
    exact Nat.lt_of_succ_lt hlt

end Holds

/-! ### Runs -/

/-- The operations on sets named by `ι`. A new element is inserted into a node at an address. -/
inductive Op (ι α : Type) where
  | insert (i : ι) (addr : ℕ) (a : α)
  | erase (i : ι) (pos : Iterator)
  | rehash (i : ι) (fac : ℕ)
  | clear (i : ι)
  | swap (i j : ι)

variable [DecidableEq ι]

/-- Carries out an operation on sets. -/
def step (debug : Bool) (w : ι → HashedSet α κ) : Op ι α → Except Fault (ι → HashedSet α κ)
  | .insert i addr a => do
      let (_, s) ← insert debug addr a (w i)
      return Function.update w i s
  | .erase i pos => do
      let (_, s) ← erase (w i) pos
      return Function.update w i s
  | .rehash i fac => do
      let s ← rehash debug fac (w i)
      return Function.update w i s
  | .clear i => return Function.update w i (w i).clear
  | .swap i j => return Function.update (Function.update w i (w j)) j (w i)

/-- Carries out operations one after another. -/
def run (debug : Bool) : (ι → HashedSet α κ) → List (Op ι α) → Except Fault (ι → HashedSet α κ)
  | w, [] => .ok w
  | w, op :: ops => do run debug (← step debug w op) ops

/-- What an operation does to the bags. An iterator stands for the node that it points to. -/
def Bag.step (b : ι → Bag α κ) : Op ι α → ι → Bag α κ
  | .insert i addr a => Function.update b i ((b i).insert addr a)
  | .erase i pos => Function.update b i (pos.chain.elim (b i) fun addr => (b i).erase addr)
  | .rehash _ _ => b
  | .clear i => Function.update b i (b i).clear
  | .swap i j => Function.update (Function.update b i (b j)) j (b i)

/-- What operations do to the bags. -/
def Bag.run (b : ι → Bag α κ) (ops : List (Op ι α)) : ι → Bag α κ := ops.foldl Bag.step b

/-- An operation is used as it has to be: a new node is not one that is in use, an iterator is the one
of an element, and there is to be at least one bucket. -/
def Op.Legal (w : ι → HashedSet α κ) : Op ι α → Prop
  | .insert _ addr _ => ∀ i, ∀ e ∈ (w i).table.entries, e.2.addr ≠ addr
  | .erase i pos => ∃ e ∈ (w i).table.entries, pos = (w i).position e.2
  | .rehash _ fac => 0 < fac ∧ fac < 2 ^ 32
  | .clear _ | .swap _ _ => True

/-- The counters suffice for an operation. -/
def Op.Fits (w : ι → HashedSet α κ) : Op ι α → Prop
  | .insert i _ _ => ¬ (w i).Overflows
  | _ => True

/-- The buckets that an operation needs can be allocated. -/
def Op.HasRoom (w : ι → HashedSet α κ) : Op ι α → Prop
  | .insert i _ _ => (w i).HasRoom
  | .rehash _ fac => RoomFor fac
  | _ => True

/-- Every operation of a run is used as it has to be, and has some property in the state in which it is
carried out. -/
def Along (debug : Bool) (P : (ι → HashedSet α κ) → Op ι α → Prop) :
    (ι → HashedSet α κ) → List (Op ι α) → Prop
  | _, [] => True
  | w, op :: ops => P w op ∧ ∀ w', step debug w op = .ok w' → Along debug P w' ops

/-- A set is seen as a bag: by its size, by the stored elements, and by look-ups. -/
structure Shows (debug : Bool) (s : HashedSet α κ) (b : Bag α κ) : Prop where
  size : s.size = b.elems.length
  stored : (s.table.entries.map fun e => e.2).Perm b.elems
  find : ∀ k, find debug s k = .ok ((b.find k).elim s.end s.position)
  deref : ∀ k e, b.find k = some e → s.deref (s.position e) = some e.payload

omit [DecidableEq ι] in
theorem Holds.shows (h : Holds s b) (hlaw : b.obj.Lawful) : Shows debug s b := by
  refine ⟨h.size_eq, h.perm_elems, fun k => h.find_eq hlaw, ?_⟩
  intro k e he
  apply h.deref_position (List.mem_of_find?_eq_some he)

omit [DecidableEq ι] in
/-- The elements of a set are those of its bag. -/
theorem Holds.mem_iff (h : Holds s b) {e : Node α} :
  (∃ x, (x, e) ∈ s.table.entries) ↔ e ∈ b.elems
  := by
  rw [← h.perm_elems.mem_iff, List.mem_map]
  constructor
  · rintro ⟨x, hx⟩
    exact ⟨(x, e), hx, rfl⟩
  · rintro ⟨⟨x, e⟩, hx, rfl⟩
    exact ⟨x, hx⟩

variable {w w' : ι → HashedSet α κ} {bags : ι → Bag α κ} {op : Op ι α} {ops : List (Op ι α)}

/-- Updating a set and its bag. -/
theorem holds_update {i : ι} (h : ∀ i, Holds (w i) (bags i)) (hs : Holds s b) (j : ι) :
  Holds (Function.update w i s j) (Function.update bags i b j)
  := by
  by_cases hj : j = i
  · subst hj
    rw [Function.update_self, Function.update_self]
    exact hs
  · rw [Function.update_of_ne hj, Function.update_of_ne hj]
    exact h j

/-- What holds of a set that is updated and of the others holds of all. -/
theorem forall_update {P : HashedSet α κ → Prop} {i : ι} (h : ∀ i, P (w i)) (hs : P s) (j : ι) :
  P (Function.update w i s j)
  := by
  by_cases hj : j = i
  · subst hj
    rw [Function.update_self]
    exact hs
  · rw [Function.update_of_ne hj]
    exact h j

omit [DecidableEq ι] in
/-- Taking a node does not change the buckets. -/
theorem bucketCount_erase {pos : Iterator} (heq : erase s pos = .ok (it, s')) :
  s'.bucketCount = s.bucketCount
  := by
  rw [erase] at heq
  cases hchain : pos.chain with
  | none =>
      rw [hchain] at heq
      cases heq
  | some a =>
      rw [hchain] at heq
      cases heq
      exact List.length_set

/-- One operation, when the buckets it needs can be allocated. -/
theorem step_holds (debug : Bool) (h : ∀ i, Holds (w i) (bags i)) (hlegal : op.Legal w) (hfits : op.Fits w)
    (hroom : op.HasRoom w) :
  ∃ w', step debug w op = .ok w' ∧ (∀ i, Holds (w' i) (Bag.step bags op i)) ∧
    ((∀ i, (w i).Small) → ∀ i, (w' i).Small)
  := by
  cases op with
  | insert i addr a =>
      have hfresh : ∀ e ∈ (bags i).elems, e.addr ≠ addr := by
        intro e he
        obtain ⟨x, hx⟩ := (h i).mem_iff.mpr he
        exact hlegal i _ hx
      obtain ⟨s', heq, hs', hsmall⟩ := (h i).insert debug a hfits hroom hfresh
      refine ⟨Function.update w i s', ?_, holds_update h hs', fun hw => forall_update hw (hsmall (hw i))⟩
      simp only [step, heq]
      rfl
  | erase i pos =>
      obtain ⟨⟨x, e⟩, hx, rfl⟩ := hlegal
      have he := (h i).mem_iff.mp ⟨x, hx⟩
      obtain ⟨it, s', heq, hs'⟩ := (h i).erase he
      refine ⟨Function.update w i s', ?_, holds_update h hs', ?_⟩
      · simp only [step, heq]
        rfl
      · intro hw
        apply forall_update hw
        have hle : s'.size ≤ (w i).size := by
          rw [hs'.size_eq, (h i).size_eq]
          exact List.length_filter_le _ _
        refine ⟨?_, (hw i).size.mono hle⟩
        rw [bucketCount_erase heq]
        exact (hw i).buckets
  | rehash i fac =>
      obtain ⟨s', heq, hs', hcount⟩ := (h i).rehash debug hlegal.1.ne' hroom
      refine ⟨Function.update w i s', ?_, ?_, ?_⟩
      · simp only [step, heq]
        rfl
      · intro j
        have hj := holds_update (i := i) h hs' j
        rw [Function.update_eq_self] at hj
        exact hj
      · intro hw
        apply forall_update hw
        refine ⟨?_, ?_⟩
        · rw [hcount]
          exact hroom
        · rw [hs'.size_eq, ← (h i).size_eq]
          exact (hw i).size
  | clear i =>
      refine ⟨_, rfl, holds_update h (h i).clear, ?_⟩
      intro hw
      apply forall_update hw
      have hcount : (w i).clear.bucketCount = (w i).bucketCount := List.length_map _
      refine ⟨?_, (hw i).size.mono (Nat.zero_le _)⟩
      rw [hcount]
      exact (hw i).buckets
  | swap i j =>
      exact ⟨_, rfl, holds_update (holds_update h (h j)) (h i),
        fun hw => forall_update (forall_update hw (hw j)) (hw i)⟩

/-- One operation, when the buckets it needs cannot be allocated. -/
theorem step_no_room (debug : Bool) (hlegal : op.Legal w) (hfits : op.Fits w) (hroom : ¬ op.HasRoom w) :
  step debug w op = .error badAlloc
  := by
  cases op with
  | insert i addr a =>
      rw [step, insert, Holds.grow_no_room debug hfits hroom]
      rfl
  | rehash i fac =>
      rw [step, rehash_no_room debug (w i) hlegal.1.ne' hroom]
      rfl
  | erase i pos => exact absurd trivial hroom
  | clear i => exact absurd trivial hroom
  | swap i j => exact absurd trivial hroom

/-- Operations one after another, when they return. -/
theorem run_holds (ops : List (Op ι α)) : ∀ {w : ι → HashedSet α κ} {bags : ι → Bag α κ},
    (∀ i, Holds (w i) (bags i)) → Along debug (fun w op => op.Legal w ∧ op.Fits w) w ops →
    run debug w ops = .ok w' →
  ∀ i, Holds (w' i) (Bag.run bags ops i)
  := by
  induction ops with
  | nil =>
      intro w bags h _ hrun
      cases hrun
      exact h
  | cons op ops ih =>
      rintro w bags h ⟨⟨hlegal, hfits⟩, hrest⟩ hrun
      rw [run] at hrun
      by_cases hroom : op.HasRoom w
      · obtain ⟨w₁, heq, h₁, -⟩ := step_holds debug h hlegal hfits hroom
        rw [heq] at hrun
        exact ih h₁ (hrest w₁ heq) hrun
      · rw [step_no_room debug hlegal hfits hroom] at hrun
        cases hrun

/-- Operations one after another on small sets return, unless the buckets that one of them needs cannot
be allocated. -/
theorem run_small (ops : List (Op ι α)) : ∀ {w : ι → HashedSet α κ} {bags : ι → Bag α κ},
    (∀ i, Holds (w i) (bags i)) → (∀ i, (w i).Small) → Along debug (fun w op => op.Legal w) w ops →
  (Along debug (fun w op => op.HasRoom w) w ops ∧
      ∃ w', run debug w ops = .ok w' ∧ ∀ i, Holds (w' i) (Bag.run bags ops i)) ∨
    (¬ Along debug (fun w op => op.HasRoom w) w ops ∧ run debug w ops = .error badAlloc)
  := by
  induction ops with
  | nil =>
      intro w bags h _ _
      exact .inl ⟨trivial, w, rfl, h⟩
  | cons op ops ih =>
      rintro w bags h hsmall ⟨hlegal, hrest⟩
      have hfits : op.Fits w := by
        cases op with
        | insert i addr a => exact (h i).not_overflows (hsmall i)
        | _ => trivial
      rw [run]
      by_cases hroom : op.HasRoom w
      · obtain ⟨w₁, heq, h₁, hsmall₁⟩ := step_holds debug h hlegal hfits hroom
        rw [heq]
        rcases ih h₁ (hsmall₁ hsmall) (hrest w₁ heq) with ⟨halong, hrun⟩ | ⟨hnot, hrun⟩
        · refine .inl ⟨⟨hroom, ?_⟩, hrun⟩
          intro w₂ heq₂
          rw [heq] at heq₂
          cases heq₂
          exact halong
        · exact .inr ⟨fun halong => hnot (halong.2 w₁ heq), hrun⟩
      · rw [step_no_room debug hlegal hfits hroom]
        exact .inr ⟨fun halong => hroom halong.1, rfl⟩

/-- Operations one after another on small sets, when they return. -/
theorem holds_of_run_small (h : ∀ i, Holds (w i) (bags i)) (hsmall : ∀ i, (w i).Small)
    (hlegal : Along debug (fun w op => op.Legal w) w ops) (hrun : run debug w ops = .ok w') :
  ∀ i, Holds (w' i) (Bag.run bags ops i)
  := by
  rcases run_small ops h hsmall hlegal with ⟨-, w'', heq, h'⟩ | ⟨-, heq⟩
  · rw [hrun] at heq
    cases heq
    exact h'
  · rw [hrun] at heq
    cases heq

omit [DecidableEq ι] in
/-- A set that has been constructed is empty. -/
theorem holds_construct {fac : ℕ} {obj : Hashing α κ} (hfac : 0 < fac) :
  Holds (construct fac obj) ⟨[], obj⟩
  := by
  refine ⟨HashSet.valid_empty hfac, ?_, List.nodup_nil, rfl, Nat.two_pow_pos 32⟩
  intro hash
  apply HashSet.view_empty

omit [DecidableEq ι] in
theorem small_construct {fac : ℕ} (obj : Hashing α κ) (hroom : RoomFor fac) : (construct fac obj).Small := by
  have hcount : (construct fac obj).bucketCount = fac := List.length_replicate
  refine ⟨?_, hroom.mono (Nat.zero_le _)⟩
  rw [hcount]
  exact hroom

omit [DecidableEq ι] in
/-- A set is created if its buckets can be allocated. -/
theorem create_eq_ok {fac : ℕ} {obj : Hashing α κ} (h : create debug fac obj = .ok s) :
  RoomFor fac ∧ s = construct fac obj
  := by
  obtain ⟨u, hnew, h⟩ := Except.bind_eq_ok_iff.mp h
  obtain ⟨-, -, h⟩ := Except.bind_eq_ok_iff.mp h
  cases h
  rw [newBuckets] at hnew
  split_ifs at hnew with hroom
  exact ⟨hroom, rfl⟩

/-- Operations do not change the hash functions and the equality of sets, except that they are
exchanged. -/
theorem Bag.step_obj {P : Hashing α κ → Prop} {bags : ι → Bag α κ} (h : ∀ i, P (bags i).obj)
    (op : Op ι α) (i : ι) :
  P (Bag.step bags op i).obj
  := by
  have hupdate : ∀ {bags : ι → Bag α κ} {b : Bag α κ} {j : ι}, (∀ i, P (bags i).obj) →
      P b.obj → ∀ i, P (Function.update bags j b i).obj := by
    intro bags b j hbags hb i
    by_cases hi : i = j
    · subst hi
      rw [Function.update_self]
      exact hb
    · rw [Function.update_of_ne hi]
      exact hbags i
  cases op with
  | insert j addr a =>
      apply hupdate h _ i
      exact h j
  | erase j pos =>
      apply hupdate h _ i
      cases pos.chain with
      | none => exact h j
      | some addr => exact h j
  | rehash j fac => exact h i
  | clear j =>
      apply hupdate h _ i
      exact h j
  | swap j k => exact hupdate (hupdate h (h k)) (h j) i

theorem Bag.run_obj {P : Hashing α κ → Prop} {bags : ι → Bag α κ} (h : ∀ i, P (bags i).obj)
    (ops : List (Op ι α)) (i : ι) :
  P (Bag.run bags ops i).obj
  := by
  rw [Bag.run]
  induction ops generalizing bags with
  | nil => exact h i
  | cons op ops ih => exact ih fun i => Bag.step_obj h op i

/-- Every run on sets that have been created returns, unless the buckets that an operation needs cannot be
allocated. The sets are seen as bags then, and moving the elements of one of them to other buckets does not
change what is seen. -/
theorem run_shows {fac : ι → ℕ} {obj : ι → Hashing α κ} {w : ι → HashedSet α κ} (hfac : ∀ i, 0 < fac i)
    (hlaw : ∀ i, (obj i).Lawful) (hcreate : ∀ i, create debug (fac i) (obj i) = .ok (w i))
    (hlegal : Along debug (fun w op => op.Legal w) w ops) :
  (¬ Along debug (fun w op => op.HasRoom w) w ops ∧ run debug w ops = .error badAlloc) ∨
  ∃ w', run debug w ops = .ok w' ∧
    ∀ i, Shows debug (w' i) (Bag.run (fun i => ⟨[], obj i⟩) ops i) ∧
      ∀ n, 0 < n → (RoomFor n ∧ ∃ s', rehash debug n (w' i) = .ok s' ∧
          Shows debug s' (Bag.run (fun i => ⟨[], obj i⟩) ops i)) ∨
        (¬ RoomFor n ∧ rehash debug n (w' i) = .error badAlloc)
  := by
  have hlawful : ∀ i, (Bag.run (fun i => ⟨[], obj i⟩) ops i).obj.Lawful :=
    fun i => Bag.run_obj hlaw ops i
  have hstart : ∀ i, Holds (w i) ⟨[], obj i⟩ ∧ (w i).Small := by
    intro i
    obtain ⟨hroom, heq⟩ := create_eq_ok (hcreate i)
    rw [heq]
    exact ⟨holds_construct (hfac i), small_construct (obj i) hroom⟩
  rcases run_small ops (fun i => (hstart i).1) (fun i => (hstart i).2) hlegal with
    ⟨-, w', heq, h⟩ | hnot
  · refine .inr ⟨w', heq, ?_⟩
    intro i
    refine ⟨(h i).shows (hlawful i), ?_⟩
    intro n hn
    by_cases hroom : RoomFor n
    · obtain ⟨s', hs', hholds, -⟩ := (h i).rehash debug hn.ne' hroom
      exact .inl ⟨hroom, s', hs', hholds.shows (hlawful i)⟩
    · exact .inr ⟨hroom, rehash_no_room debug (w' i) hn.ne' hroom⟩
  · exact .inl hnot

/-- Equality of numbers, which are all put into one bucket. -/
def sample : Hashing ℕ ℕ := ⟨fun _ => 0, fun _ => 0, fun a k => a = k⟩

theorem sample_lawful : sample.Lawful := fun _ _ _ => rfl

/-- Three elements are inserted, two of which are equal, and the latest of these is erased. The buckets grow
twice meanwhile. -/
theorem run_shows_equal :
  ∃ w w' : Unit → HashedSet ℕ ℕ, (∀ i, create true 1 sample = .ok (w i)) ∧
    run true w [.insert () 0x10 5, .insert () 0x20 5, .insert () 0x30 6,
      .erase () ⟨0, some 0x20⟩] = .ok w' ∧
    (w' ()).bucketCount = 4 ∧ (w' ()).size = 2 ∧
    find true (w' ()) 5 = .ok ((w' ()).position ⟨0x10, 5⟩)
  := by
  obtain ⟨ops, hops⟩ : ∃ ops : List (Op Unit ℕ), ops = [.insert () 0x10 5, .insert () 0x20 5,
      .insert () 0x30 6, .erase () ⟨0, some 0x20⟩] := ⟨_, rfl⟩
  have hcreate : ∀ i : Unit, create true 1 sample = .ok ((fun _ => construct 1 sample) i) := fun _ => rfl
  have hrun : ∃ w', run true (fun _ => construct 1 sample) ops = .ok w' ∧ (w' ()).bucketCount = 4 ∧
      (w' ()).size = 2 := by
    rw [hops]
    exact ⟨_, rfl, rfl, rfl⟩
  obtain ⟨w', heq, hcount, hsize⟩ := hrun
  have hlegal : Along true (fun w op => op.Legal w) (fun _ => construct 1 sample) ops := by
    rw [hops]
    refine ⟨fun ⟨⟩ => by decide, fun w₁ h₁ => ?_⟩
    cases h₁
    refine ⟨fun ⟨⟩ => by decide, fun w₂ h₂ => ?_⟩
    cases h₂
    refine ⟨fun ⟨⟩ => by decide, fun w₃ h₃ => ?_⟩
    cases h₃
    exact ⟨⟨(0, ⟨0x20, 5⟩), by decide, rfl⟩, fun _ _ => trivial⟩
  rcases run_shows (fun _ => Nat.one_pos) (fun _ => sample_lawful) hcreate hlegal with
    ⟨-, hfail⟩ | ⟨w'', hrun, hshows⟩
  · rw [heq] at hfail
    cases hfail
  · rw [heq] at hrun
    cases hrun
    refine ⟨_, w', hcreate, ?_, hcount, hsize, ?_⟩
    · rw [← hops]
      exact heq
    · have hbag : Bag.find (Bag.run (fun _ : Unit => (⟨[], sample⟩ : Bag ℕ ℕ)) ops ()) 5 =
          some ⟨0x10, 5⟩ := by
        rw [hops]
        decide
      have hfind := (hshows ()).1.find 5
      rw [hbag] at hfind
      exact hfind

end HashedSet

end UOS
