import Cofuos.Util.Iteration

/-!
# Named objects

`object_manager` of `kernel/interface/object.cpp`, together with the hash function of
`util/fasthash.c`. Objects are registered in a hash set under names. A name is stored as a `literal`
and looked up as a `literal` or as a `span<char>`; what it is compared by are its bytes. Every
function is carried out under the lock of the table.

What the manager is for is a map from names to objects. `put` tests the outcome of its look-up the wrong
way round, and `erase` moves the iterator once more after an entry has been removed, so the manager
follows the map only as long as neither matters.
-/

namespace UOS

/-! ### Hashes of names -/

/-- `mix` -/
def mix (h : UInt64) : UInt64 :=
  let h := h ^^^ (h >>> 23)
  let h := h * 0x2127599bf4325c37
  h ^^^ (h >>> 47)

/-- The number with at most eight bytes, the lowest one first. -/
def littleEndian (buf : List UInt8) : UInt64 := buf.foldr (fun c v => c.toUInt64 ^^^ (v <<< 8)) 0

/-- `fasthash64`: whole words first, then what is left of less than a word. -/
def fasthash64 (buf : List UInt8) (seed : UInt64) : UInt64 :=
  let m : UInt64 := 0x880355f21e6d1965
  let h := seed ^^^ (buf.length.toUInt64 * m)
  let h := (List.range (buf.length / 8)).foldl
    (fun h i => (h ^^^ mix (littleEndian ((buf.drop (8 * i)).take 8))) * m) h
  let rest := buf.drop (8 * (buf.length / 8))
  let h := if rest = [] then h else (h ^^^ mix (littleEndian rest)) * m
  mix h

/-- `hash<literal>` -/
def hashLiteral (lit : List UInt8) : ℕ := if lit = [] then 0 else (fasthash64 lit 0).toNat

/-- `hash<span<char>>` -/
def hashSpan (obj : List UInt8) : ℕ := (fasthash64 obj 0).toNat

/-- A name has one hash, whichever string type it is given in. -/
theorem hashLiteral_eq_hashSpan (name : List UInt8) : hashLiteral name = hashSpan name := by
  rw [hashLiteral]
  split_ifs with hempty
  · rw [hempty]
    rfl
  · rfl

namespace ObjectManager

/-- `object_manager::object` -/
structure Object where
  name : List UInt8
  obj : ℕ+
  property : UInt32
  deriving DecidableEq

/-- The string types in which names are looked up. -/
inductive Key where
  | literal (lit : List UInt8)
  | span (obj : List UInt8)

/-- The bytes of a key. -/
def Key.name : Key → List UInt8
  | .literal lit => lit
  | .span obj => obj

/-- `object_manager::hash` and `object_manager::equal` -/
def hashing : Hashing Object Key where
  hash obj := hashLiteral obj.name
  hashKey
    | .literal lit => hashLiteral lit
    | .span obj => hashSpan obj
  equal obj key := obj.name = key.name

theorem hashing_lawful : hashing.Lawful := by
  intro obj key hequal
  have hname : obj.name = key.name := of_decide_eq_true hequal
  cases key with
  | literal lit =>
      change hashLiteral obj.name = hashLiteral lit
      rw [hname]
      rfl
  | span s =>
      change hashLiteral obj.name = hashSpan s
      rw [hname, hashLiteral_eq_hashSpan]
      rfl

end ObjectManager

open HashedSet ObjectManager

/-! ### The manager -/

/-- `object_manager`, together with the numbers of references to the objects. An object is given by
its address. -/
structure ObjectManager where
  table : HashedSet Object Key
  references : ℕ+ → ℕ

namespace ObjectManager

/-- `max_name_length` -/
def maxNameLength : ℕ := 0x1F8

/-- The manager before any object is registered. -/
def initial : ObjectManager := ⟨HashedSet.construct 0x10 hashing, fun _ => 0⟩

/-- `waitable::manage` -/
def manage (references : ℕ+ → ℕ) (obj : ℕ+) : Except Fault (ℕ+ → ℕ) :=
  if references obj ≠ 0 then .error (.bugcheck "managing object with %d references")
  else .ok (Function.update references obj (references obj + 1))

/-- `put`, called by a process with some privilege. The entry would be stored in a node at an address. -/
def put (debug : Bool) (addr : ℕ) (privilege : UInt8) (name : List UInt8) (obj : ℕ+)
    (properties : UInt32) (s : ObjectManager) : Except Fault (Bool × ObjectManager) :=
  if maxNameLength ≤ name.length then .ok (false, s)
  else if privilege < properties.toUInt8 then .ok (false, s)
  else do
    let it ← HashedSet.find debug s.table (.literal name)
    if it.bucket = s.table.bucketCount then .ok (false, s)
    else do
      let (_, table) ← HashedSet.insert debug addr ⟨name, obj, properties⟩ s.table
      let references ← manage s.references obj
      .ok (true, ⟨table, references⟩)

/-- `get`, between `lock` and `unlock` -/
def get (debug : Bool) (name : List UInt8) (s : ObjectManager) : Except Fault (Option Object) := do
  let it ← HashedSet.find debug s.table (.span name)
  if it.bucket = s.table.bucketCount then .ok none else .ok (s.table.deref it)

/-- The body of the loop of `erase`. -/
def visit (obj : ℕ+) (it : Iterator) (table : HashedSet Object Key) :
    Except Fault (Iterator × HashedSet Object Key) :=
  if (table.deref it).map Object.obj = some obj then HashedSet.erase table it else .ok (it, table)

/-- The loop of `erase`, which moves the iterator after every round. -/
def eraseLoop (obj : ℕ+) : ℕ → Iterator → HashedSet Object Key → Except Fault (HashedSet Object Key)
  | 0, _, _ => .error .outOfFuel
  | n + 1, it, table =>
      if it.bucket = table.bucketCount then .ok table
      else do
        let (it, table) ← visit obj it table
        let it ← HashedSet.next table it
        eraseLoop obj n it table

/-- `erase`. There is a round for every entry at most. -/
def erase (debug : Bool) (obj : ℕ+) (s : ObjectManager) : Except Fault ObjectManager := do
  Fault.assert debug ((obj : ℕ) ≠ 0)
  let table ← eraseLoop obj (s.table.size + 1) s.table.begin s.table
  .ok { s with table := table }

/-- The calls of the manager. -/
inductive Op where
  | put (addr : ℕ) (privilege : UInt8) (name : List UInt8) (obj : ℕ+) (properties : UInt32)
  | get (name : List UInt8)
  | erase (obj : ℕ+)

/-- What a call returns. -/
inductive Answer where
  | put (res : Bool)
  | get (obj : Option Object)
  | erase
  deriving DecidableEq

/-- Carries out a call. -/
def step (debug : Bool) (s : ObjectManager) : Op → Except Fault (Answer × ObjectManager)
  | .put addr privilege name obj properties => do
      let (res, s) ← s.put debug addr privilege name obj properties
      .ok (.put res, s)
  | .get name => do
      let obj ← s.get debug name
      .ok (.get obj, s)
  | .erase obj => do
      let s ← s.erase debug obj
      .ok (.erase, s)

/-! ### The map of named objects -/

/-- The objects that are registered under names. -/
abbrev Registry : Type := List UInt8 → Option Object

namespace Registry

/-- No object is registered. -/
def empty : Registry := fun _ => none

/-- Registers an object under a name that is short enough and not in use, for a process that is allowed to
use the properties. -/
def put (privilege : UInt8) (name : List UInt8) (obj : ℕ+) (properties : UInt32) (m : Registry) :
    Bool × Registry :=
  if name.length < maxNameLength ∧ ¬ privilege < properties.toUInt8 ∧ m name = none then
    (true, Function.update m name (some ⟨name, obj, properties⟩))
  else (false, m)

/-- Removes an object under all of its names. -/
def erase (obj : ℕ+) (m : Registry) : Registry := fun name => (m name).filter fun o => o.obj ≠ obj

/-- What a call returns and does. -/
def step (m : Registry) : Op → Answer × Registry
  | .put _ privilege name obj properties =>
      (.put (m.put privilege name obj properties).1, (m.put privilege name obj properties).2)
  | .get name => (.get (m name), m)
  | .erase obj => (.erase, m.erase obj)

end Registry

/-- The entries of the table in the order of an iteration. -/
def objects (s : ObjectManager) : List Object := s.table.table.entries.map fun e => e.2.payload

/-- The manager has registered the objects of a map: no two entries of its table have one name, and the
entries are those of the map. -/
structure Registered (s : ObjectManager) (m : Registry) : Prop where
  holds : ∃ b, Holds s.table b ∧ b.obj = hashing
  unique : (s.objects.map Object.name).Nodup
  mem : ∀ name o, m name = some o ↔ o.name = name ∧ o ∈ s.objects

/-- Calls that are carried out one after another return what they are to return, and do what they are to
do. -/
def Follows (debug : Bool) : ObjectManager → Registry → List Op → Prop
  | _, _, [] => True
  | s, m, op :: ops =>
      ∃ s', step debug s op = .ok ((m.step op).1, s') ∧ Registered s' (m.step op).2 ∧
        Follows debug s' (m.step op).2 ops

/-- Every entry of an object is directly followed by an entry of another one. -/
inductive Spaced (obj : ℕ+) : List Object → Prop
  | nil : Spaced obj []
  | other (o : Object) (l : List Object) : o.obj ≠ obj → Spaced obj l → Spaced obj (o :: l)
  | own (o o' : Object) (l : List Object) :
      o.obj = obj → o'.obj ≠ obj → Spaced obj l → Spaced obj (o :: o' :: l)

/-- The manager does what it is to do in a call: a name that is put is too long or the process is not
allowed to use the properties, and the entries of an object that is erased do not follow one another. -/
def Op.Serves (s : ObjectManager) : Op → Prop
  | .put _ privilege name _ properties =>
      maxNameLength ≤ name.length ∨ privilege < properties.toUInt8
  | .get _ => True
  | .erase obj => Spaced obj s.objects

/-- Every call of a run finds the manager in a state in which it does what it is to do. -/
def Along (debug : Bool) : ObjectManager → List Op → Prop
  | _, [] => True
  | s, op :: ops => op.Serves s ∧ ∀ a s', step debug s op = .ok (a, s') → Along debug s' ops

variable {debug : Bool} {s s' : ObjectManager} {table : HashedSet Object Key} {b : Bag Object Key}
  {m : Registry} {name : List UInt8} {obj : ℕ+} {o o' : Object} {l : List Object}
  {it : Iterator} {rest : List (ℕ × Node Object)}

/-! ### Looking up names -/

/-- The elements of a bag are those of a map: no two of them have one name. -/
structure Names (b : Bag Object Key) (m : Registry) : Prop where
  obj : b.obj = hashing
  nodup : (b.elems.map fun e => e.payload.name).Nodup
  mem : ∀ name o, m name = some o ↔ o.name = name ∧ ∃ e ∈ b.elems, e.payload = o

/-- The entries of the table, as those of the bag. -/
theorem objects_perm (hs : Holds s.table b) : s.objects.Perm (b.elems.map Node.payload) := by
  have hmap := hs.perm_elems.map Node.payload
  rwa [List.map_map] at hmap

theorem Registered.names (h : Registered s m) : ∃ b, Holds s.table b ∧ Names b m := by
  obtain ⟨b, hs, hobj⟩ := h.holds
  have hperm := objects_perm hs
  refine ⟨b, hs, hobj, ?_, ?_⟩
  · have hunique := (hperm.map Object.name).nodup_iff.mp h.unique
    rwa [List.map_map] at hunique
  · intro name o
    rw [h.mem, hperm.mem_iff, List.mem_map]

theorem Names.registered (hb : Names b m) (hs : Holds s.table b) : Registered s m := by
  have hperm := objects_perm hs
  refine ⟨⟨b, hs, hb.obj⟩, ?_, ?_⟩
  · rw [(hperm.map Object.name).nodup_iff, List.map_map]
    exact hb.nodup
  · intro name o
    rw [hb.mem, hperm.mem_iff, List.mem_map]

namespace Names

variable (h : Names b m)

include h

/-- The latest entry of a name is the one of the map. -/
theorem find_eq (key : Key) : (b.find key).map Node.payload = m key.name := by
  rw [Bag.find, h.obj]
  cases hf : b.elems.find? fun e => hashing.equal e.payload key with
  | none =>
      rw [List.find?_eq_none] at hf
      cases hm : m key.name with
      | none => rfl
      | some o =>
          obtain ⟨hname, e, he, rfl⟩ := (h.mem _ _).mp hm
          exact absurd (decide_eq_true hname) (hf e he)
  | some e =>
      have hequal := List.find?_some hf
      have hname : e.payload.name = key.name := of_decide_eq_true hequal
      symm
      apply (h.mem _ _).mpr ⟨hname, e, List.mem_of_find?_eq_some hf, rfl⟩

/-- A look-up finds an entry when the name is in use. -/
theorem find_key (debug : Bool) (hs : Holds table b) (key : Key) :
  ∃ it, HashedSet.find debug table key = .ok it ∧
    (it.bucket = table.bucketCount ∧ m key.name = none ∨
      it.bucket ≠ table.bucketCount ∧ table.deref it = m key.name ∧ m key.name ≠ none)
  := by
  have hlaw : b.obj.Lawful := by
    rw [h.obj]
    exact hashing_lawful
  have hname := h.find_eq key
  refine ⟨_, hs.find_eq hlaw, ?_⟩
  cases hf : b.find key with
  | none =>
      rw [hf] at hname
      exact .inl ⟨rfl, hname.symm⟩
  | some e =>
      rw [hf] at hname
      refine .inr ⟨?_, ?_, ?_⟩
      · apply (Nat.mod_lt _ hs.bucketCount_pos).ne
      · rw [← hname]
        apply hs.deref_position (List.mem_of_find?_eq_some hf)
      · rw [← hname]
        exact Option.some_ne_none _

end Names

/-- `get` returns the object that is registered under a name. -/
theorem Registered.get_eq (h : Registered s m) (name : List UInt8) :
  s.get debug name = .ok (m name)
  := by
  obtain ⟨b, hs, hb⟩ := h.names
  obtain ⟨it, hfind, ⟨hend, hnone⟩ | ⟨hne, hderef, -⟩⟩ := hb.find_key debug hs (.span name)
  · rw [get, hfind]
    change (if it.bucket = _ then _ else _) = _
    rw [if_pos hend]
    exact congrArg _ hnone.symm
  · rw [get, hfind]
    change (if it.bucket = _ then _ else _) = _
    rw [if_neg hne]
    exact congrArg _ hderef

/-! ### Registering an object -/

/-- A name that is too long, or a process that is not allowed to use the properties, is refused. -/
theorem put_refused (debug : Bool) {addr : ℕ} {privilege : UInt8} {properties : UInt32} (m : Registry)
    (h : (Op.put addr privilege name obj properties).Serves s) :
  s.put debug addr privilege name obj properties = .ok (false, s) ∧
    m.put privilege name obj properties = (false, m)
  := by
  rcases h with hlong | hprivilege
  · rw [put, if_pos hlong, Registry.put, if_neg]
    · exact ⟨rfl, rfl⟩
    · intro hc
      exact hlong.not_gt hc.1
  · rw [put, if_pos hprivilege, ite_self, Registry.put, if_neg]
    · exact ⟨rfl, rfl⟩
    · intro hc
      exact hc.2.1 hprivilege

/-- Otherwise `put` answers whether the name was in use before. -/
theorem Registered.put_inverted {addr : ℕ} {privilege : UInt8} {properties : UInt32} {res : Bool}
    (h : Registered s m) (hserves : ¬ (Op.put addr privilege name obj properties).Serves s)
    (hput : s.put debug addr privilege name obj properties = .ok (res, s')) :
  res ≠ (m.put privilege name obj properties).1
  := by
  obtain ⟨b, hs, hb⟩ := h.names
  rw [Op.Serves, not_or, Nat.not_le] at hserves
  obtain ⟨hshort, hallowed⟩ := hserves
  rw [put, if_neg hshort.not_ge, if_neg hallowed] at hput
  obtain ⟨it, hfind, ⟨hend, hnone⟩ | ⟨hne, -, hsome⟩⟩ :=
    hb.find_key debug hs (.literal name)
  · rw [hfind, Except.ok_bind, if_pos hend] at hput
    cases hput
    rw [Registry.put, if_pos ⟨hshort, hallowed, hnone⟩]
    exact Bool.false_ne_true
  · rw [hfind, Except.ok_bind, if_neg hne] at hput
    obtain ⟨⟨it', table⟩, -, hput⟩ := Except.bind_eq_ok_iff.mp hput
    obtain ⟨references, -, hput⟩ := Except.bind_eq_ok_iff.mp hput
    cases hput
    rw [Registry.put, if_neg (fun hc => hsome hc.2.2)]
    exact Bool.false_ne_true.symm

/-! ### Removing an object -/

theorem spaced_other (ho : o.obj ≠ obj) : Spaced obj (o :: l) ↔ Spaced obj l := by
  constructor
  · intro h
    cases h with
    | other _ _ _ hl => exact hl
    | own _ _ _ heq => exact absurd heq ho
  · exact .other o l ho

theorem spaced_own (ho : o.obj = obj) : Spaced obj (o :: o' :: l) ↔ o'.obj ≠ obj ∧ Spaced obj l := by
  constructor
  · intro h
    cases h with
    | other _ _ hne => exact absurd ho hne
    | own _ _ _ _ hne hl => exact ⟨hne, hl⟩
  · rintro ⟨hne, hl⟩
    exact .own o o' l ho hne hl

theorem not_spaced_last (ho : o.obj = obj) : ¬ Spaced obj [o] := by
  intro h
  cases h with
  | other _ _ hne => exact hne ho

/-- What is left of a table after an iteration: entries before which the iterator did not stand and
entries of other objects are kept, and no entry of the object is left exactly when its entries do not
follow one another. -/
structure Swept (obj : ℕ+) (rest : List (ℕ × Node Object)) (b b' : Bag Object Key) : Prop where
  hashing : b'.obj = b.obj
  sublist : b'.elems.Sublist b.elems
  keep : ∀ e ∈ b.elems, e ∉ rest.map Prod.snd ∨ e.payload.obj ≠ obj → e ∈ b'.elems
  none_iff : (∀ e ∈ rest.map Prod.snd, e.payload.obj = obj → e ∉ b'.elems) ↔
    Spaced obj (rest.map fun e => e.2.payload)

/-- Going past an entry of another object. -/
theorem Swept.other {e : ℕ × Node Object} {b' : Bag Object Key} (h : Swept obj rest b b')
    (he : e.2.payload.obj ≠ obj) :
  Swept obj (e :: rest) b b'
  := by
  refine ⟨h.hashing, h.sublist, ?_, ?_⟩
  · intro x hx hor
    apply h.keep x hx
    rcases hor with hnot | hne
    · exact .inl fun hmem => hnot (List.mem_cons_of_mem _ hmem)
    · exact .inr hne
  · rw [List.map_cons, List.map_cons, spaced_other he, ← h.none_iff, List.forall_mem_cons]
    exact and_iff_right fun heq => absurd heq he

/-- Removing an entry and going past the one after it. -/
theorem Swept.own {e e' : ℕ × Node Object} {b' : Bag Object Key}
    (h : Swept obj rest (b.erase e.2.addr) b') (hnodup : (b.elems.map Node.addr).Nodup)
    (hrest : ((e :: e' :: rest).map Prod.snd).Nodup) (hmem : ∀ x ∈ (e :: e' :: rest).map Prod.snd, x ∈ b.elems)
    (he : e.2.payload.obj = obj) :
  Swept obj (e :: e' :: rest) b b'
  := by
  have hne : ∀ x ∈ b.elems, x ≠ e.2 → x ∈ (b.erase e.2.addr).elems := by
    intro x hx hxe
    apply List.mem_filter.mpr ⟨hx, _⟩
    apply decide_eq_true
    intro haddr
    exact hxe (List.inj_on_of_nodup_map hnodup hx (hmem _ List.mem_cons_self) haddr)
  have hgone : e.2 ∉ b'.elems := by
    intro hin
    have hin' := h.sublist.subset hin
    exact of_decide_eq_true (List.mem_filter.mp hin').2 rfl
  rw [List.map_cons, List.map_cons, List.nodup_cons, List.nodup_cons] at hrest
  have hnext : e'.2 ∈ (b.erase e.2.addr).elems := by
    apply hne _ (hmem _ (List.mem_cons_of_mem _ List.mem_cons_self))
    rintro heq
    apply hrest.1
    rw [← heq]
    exact List.mem_cons_self
  refine ⟨h.hashing, h.sublist.trans List.filter_sublist, ?_, ?_⟩
  · intro x hx hor
    rcases hor with hnot | hother
    · rw [List.map_cons, List.map_cons, List.mem_cons, List.mem_cons, not_or, not_or] at hnot
      exact h.keep x (hne x hx hnot.1) (.inl hnot.2.2)
    · apply h.keep x (hne x hx _) (.inr hother)
      rintro rfl
      exact hother he
  · rw [List.map_cons, List.map_cons, List.map_cons, List.map_cons, spaced_own he, ← h.none_iff,
      List.forall_mem_cons, List.forall_mem_cons]
    constructor
    · rintro ⟨-, hfirst, hlater⟩
      refine ⟨?_, hlater⟩
      intro heq
      exact hfirst heq (h.keep _ hnext (.inl hrest.2.1))
    · rintro ⟨hother, hlater⟩
      exact ⟨fun _ => hgone, fun heq => absurd heq hother, hlater⟩

/-- The loop moves the iterator past the end, or goes through all entries. -/
theorem eraseLoop_cases (obj : ℕ+) (n : ℕ) : ∀ {it : Iterator} {table : HashedSet Object Key}
    {b : Bag Object Key} {rest : List (ℕ × Node Object)}, Holds table b →
    Before table.table.bucket it rest → rest.length < n →
  (∃ message, eraseLoop obj n it table = .error (.bugcheck message)) ∧
      ¬ Spaced obj (rest.map fun e => e.2.payload) ∨
    ∃ table' b', eraseLoop obj n it table = .ok table' ∧ Holds table' b' ∧ Swept obj rest b b'
  := by
  induction n with
  | zero =>
      intro it table b rest _ _ hlt
      cases hlt
  | succ n ih =>
      intro it table b rest hs hbefore hlt
      rw [eraseLoop]
      cases rest with
      | nil =>
          rw [if_pos (hbefore.eq_end_iff.mpr rfl)]
          refine .inr ⟨table, b, rfl, hs, rfl, List.Sublist.refl _, fun e he _ => he, ?_⟩
          apply iff_of_true _ .nil
          intro e he
          cases he
      | cons e rest =>
          rw [if_neg (mt hbefore.eq_end_iff.mp (List.cons_ne_nil _ _)), visit, hs.deref_before hbefore,
            Option.map_some]
          by_cases he : e.2.payload.obj = obj
          · rw [if_pos (congrArg some he)]
            obtain ⟨it₁, table₁, herase, hs₁, hbefore₁⟩ := hs.erase_before hbefore
            rw [herase, Except.ok_bind]
            cases rest with
            | nil =>
                refine .inl ⟨⟨"iterator move past the end @ %p", ?_⟩, not_spaced_last he⟩
                simp only
                rw [hbefore₁.next_eq_error, Except.error_bind]
            | cons e' rest =>
                obtain ⟨it₂, hnext, hbefore₂⟩ := hs₁.next_before hbefore₁
                have hlt' : rest.length < n := by
                  rw [List.length_cons, List.length_cons] at hlt
                  omega
                simp only
                rw [hnext, Except.ok_bind]
                obtain ⟨herror, hspaced⟩ | ⟨table', b', hok, hs', hswept⟩ := ih hs₁ hbefore₂ hlt'
                · refine .inl ⟨herror, ?_⟩
                  rw [List.map_cons, List.map_cons, spaced_own he]
                  exact fun hc => hspaced hc.2
                · obtain ⟨hnodup, hmem⟩ := hs.rest_elems hbefore
                  exact .inr ⟨table', b', hok, hs', hswept.own hs.nodup hnodup hmem he⟩
          · rw [if_neg fun hc => he (Option.some_injective _ hc)]
            obtain ⟨it₁, hnext, hbefore₁⟩ := hs.next_before hbefore
            rw [Except.ok_bind]
            simp only
            rw [hnext, Except.ok_bind]
            obtain ⟨herror, hspaced⟩ | ⟨table', b', hok, hs', hswept⟩ :=
              ih hs hbefore₁ (Nat.lt_of_succ_lt_succ hlt)
            · refine .inl ⟨herror, ?_⟩
              rw [List.map_cons, spaced_other he]
              exact hspaced
            · exact .inr ⟨table', b', hok, hs', hswept.other he⟩

/-- `erase` removes the object from the map exactly when its entries do not follow one another. -/
theorem Registered.erase_iff (debug : Bool) (h : Registered s m) (obj : ℕ+) :
  (∃ s', s.erase debug obj = .ok s' ∧ Registered s' (m.erase obj)) ↔ Spaced obj s.objects
  := by
  obtain ⟨b, hs, hb⟩ := h.names
  have hassert : Fault.assert debug ((obj : ℕ) ≠ 0) = .ok () :=
    Fault.assert_eq_ok fun _ => obj.ne_zero
  have hlt : s.table.table.entries.length < s.table.size + 1 := by
    rw [hs.size_eq, hs.perm.length_eq, Bag.hashed, List.length_map]
    exact Nat.lt_succ_self _
  have hall : ∀ e ∈ b.elems, e ∈ s.table.table.entries.map Prod.snd := by
    intro e he
    rwa [hs.perm_elems.mem_iff]
  rw [erase, hassert, Except.ok_bind]
  obtain ⟨⟨message, herror⟩, hspaced⟩ | ⟨table', b', hok, hs', hswept⟩ :=
    eraseLoop_cases obj _ hs (before_begin s.table) hlt
  · rw [herror, Except.error_bind]
    apply iff_of_false _ hspaced
    rintro ⟨s', heq, -⟩
    cases heq
  · rw [hok, Except.ok_bind, objects, ← hswept.none_iff]
    constructor
    · rintro ⟨s', heq, hs₂⟩ e he hobj hin
      obtain ⟨b'', hs'', hb''⟩ := hs₂.names
      cases heq
      obtain ⟨x, hx⟩ := hs'.mem_iff.mpr hin
      have hname := (hb''.mem _ _).mpr ⟨rfl, e, hs''.mem_iff.mp ⟨x, hx⟩, rfl⟩
      rw [Registry.erase, Option.filter_eq_some_iff] at hname
      exact of_decide_eq_true hname.2 hobj
    · intro hnone
      refine ⟨_, rfl, Names.registered ⟨?_, ?_, ?_⟩ hs'⟩
      · rw [hswept.hashing, hb.obj]
      · exact (hswept.sublist.map _).nodup hb.nodup
      · intro name o
        rw [Registry.erase, Option.filter_eq_some_iff, hb.mem, decide_eq_true_iff]
        constructor
        · rintro ⟨⟨hname, e, he, rfl⟩, hobj⟩
          exact ⟨hname, e, hswept.keep e he (.inr hobj), rfl⟩
        · rintro ⟨hname, e, he, rfl⟩
          have he' := hswept.sublist.subset he
          exact ⟨⟨hname, e, he', rfl⟩, fun hobj => hnone e (hall e he') hobj he⟩

/-! ### Runs -/

/-- A call does what it is to do exactly when the manager is in a state for it. -/
theorem Registered.step_iff (debug : Bool) (h : Registered s m) (op : Op) :
  (∃ s', step debug s op = .ok ((m.step op).1, s') ∧ Registered s' (m.step op).2) ↔ op.Serves s
  := by
  cases op with
  | put addr privilege name obj properties =>
      constructor
      · rintro ⟨s', heq, -⟩
        by_contra hserves
        obtain ⟨⟨res, s''⟩, hput, heq⟩ := Except.bind_eq_ok_iff.mp heq
        apply h.put_inverted hserves hput
        cases heq
        rfl
      · intro hserves
        obtain ⟨hput, hmap⟩ := put_refused debug m hserves
        refine ⟨s, ?_, ?_⟩
        · rw [step, hput, Registry.step, hmap]
          rfl
        · rw [Registry.step, hmap]
          exact h
  | get name =>
      apply iff_of_true _ trivial
      refine ⟨s, ?_, h⟩
      rw [step, h.get_eq]
      rfl
  | erase obj =>
      rw [Op.Serves, ← h.erase_iff debug obj]
      constructor
      · rintro ⟨s', heq, hs'⟩
        obtain ⟨s'', herase, heq⟩ := Except.bind_eq_ok_iff.mp heq
        cases heq
        exact ⟨_, herase, hs'⟩
      · rintro ⟨s', herase, hs'⟩
        refine ⟨s', ?_, hs'⟩
        rw [step, herase]
        rfl

/-- From a state in which the objects of a map are registered, the calls of a run return and do what
they are to return and do exactly when each of them finds the manager in a state for it. -/
theorem named_objects_iff (ops : List Op) (h : Registered s m) :
  Follows debug s m ops ↔ Along debug s ops
  := by
  induction ops generalizing s m with
  | nil => exact Iff.rfl
  | cons op ops ih =>
      rw [Follows, Along, ← h.step_iff debug]
      constructor
      · rintro ⟨s', heq, hs', hrest⟩
        refine ⟨⟨s', heq, hs'⟩, ?_⟩
        intro a s'' heq'
        rw [heq] at heq'
        cases heq'
        exact (ih hs').mp hrest
      · rintro ⟨⟨s', heq, hs'⟩, hrest⟩
        exact ⟨s', heq, hs', (ih hs').mpr (hrest _ _ heq)⟩

/-- The empty table is the one of the empty map. -/
theorem names_empty : Names ⟨[], hashing⟩ Registry.empty := by
  refine ⟨rfl, List.nodup_nil, ?_⟩
  intro name o
  apply iff_of_false
  · intro heq
    cases heq
  · rintro ⟨-, e, he, -⟩
    cases he

/-- An entry under a name that is not in use. -/
theorem Names.insert (h : Names b m) (addr : ℕ) (hnone : m o.name = none) :
  Names (b.insert addr o) (Function.update m o.name (some o))
  := by
  refine ⟨h.obj, ?_, ?_⟩
  · apply List.nodup_cons.mpr ⟨_, h.nodup⟩
    intro hmem
    obtain ⟨e, he, hname⟩ := List.mem_map.mp hmem
    have hsome := (h.mem _ _).mpr ⟨hname, e, he, rfl⟩
    rw [hnone] at hsome
    cases hsome
  · intro name o'
    rw [Bag.insert, List.exists_mem_cons_iff]
    by_cases hname : name = o.name
    · subst hname
      rw [Function.update_self, Option.some_inj]
      constructor
      · rintro rfl
        exact ⟨rfl, .inl rfl⟩
      · rintro ⟨hname, heq | hmem⟩
        · exact heq
        · have hsome := (h.mem _ _).mpr ⟨hname, hmem⟩
          rw [hnone] at hsome
          cases hsome
    · rw [Function.update_of_ne hname, h.mem]
      constructor
      · rintro ⟨hname', hmem⟩
        exact ⟨hname', .inr hmem⟩
      · rintro ⟨rfl, rfl | hmem⟩
        · exact absurd rfl hname
        · exact ⟨rfl, hmem⟩

/-- No object is registered at first. -/
theorem holds_initial : Holds initial.table ⟨[], hashing⟩ := holds_construct (by decide)

/-- A manager in which one object is registered serves look-ups and the removal of other objects. -/
theorem named_objects_one :
  ∃ s m, m [0x61] = some ⟨[0x61], 1, 0⟩ ∧
    Follows true s m [.get [0x61], .put 0x20 0 [0x62] 3 1, .erase 2]
  := by
  have hover : ¬ initial.table.Overflows := by
    rintro (⟨hle, -⟩ | heq)
    · exact absurd hle (by decide)
    · exact absurd heq (by decide)
  have hroom : initial.table.HasRoom := fun hle => absurd hle (by decide)
  obtain ⟨table, -, hs, -⟩ : ∃ table, _ ∧ Holds table (Bag.insert 0x10 (Object.mk [0x61] 1 0) _) ∧ _ :=
    holds_initial.insert true _ hover hroom nofun
  have hb := names_empty.insert (o := ⟨[0x61], 1, 0⟩) 0x10 rfl
  have h : Registered ⟨table, fun _ => 0⟩ _ := hb.registered hs
  have hperm := objects_perm (s := ⟨table, fun _ => 0⟩) hs
  have hobjects := List.perm_singleton.mp hperm
  refine ⟨⟨table, fun _ => 0⟩, _, Function.update_self .., (named_objects_iff _ h).mpr ?_⟩
  refine ⟨trivial, ?_⟩
  intro a s' hget
  rw [step, h.get_eq] at hget
  cases hget
  refine ⟨.inr (by decide), ?_⟩
  intro a s' hput
  rw [step, (put_refused true Registry.empty (.inr (by decide))).1] at hput
  cases hput
  refine ⟨?_, fun _ _ _ => trivial⟩
  rw [Op.Serves, hobjects]
  apply Spaced.other _ _ (by decide) .nil

/-- An object cannot be registered: a name that is not in use is refused. -/
theorem put_unregistered :
  ∃ s', step true initial (.put 0x10 0 [0x61] 1 0) = .ok (.put false, s') ∧
    (Registry.empty.step (.put 0x10 0 [0x61] 1 0)).1 = .put true
  := by
  obtain ⟨it, hfind, ⟨hend, -⟩ | ⟨-, -, hsome⟩⟩ :=
    names_empty.find_key true holds_initial (.literal [0x61])
  · refine ⟨initial, ?_, by decide⟩
    rw [step, put, hfind, Except.ok_bind, if_pos hend]
    rfl
  · exact absurd rfl hsome

end ObjectManager

end UOS
