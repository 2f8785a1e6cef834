import Cofuos.FileSystem.Fat

/-!
# Chains of clusters

The clusters of a file are found by their index. Unless they lie in a row, the allocation table
has to be followed, and a chain keeps the clusters that it has found in a cache. The definitions
follow `cluster_chain` of `kernel/filesystem/exfat.cpp`.

The cache is a list of lines in descending order of their indices, and a queue in the order of
their last use that refers to the nodes of the list. A node is identified by a number, and a list
of `util/include/linked_list.hpp` is the sequence of its nodes.
-/

namespace UOS

/-- A line of the cache. -/
structure Line where
  index : ℕ
  cluster : ℕ
  deriving DecidableEq

/-- A chain of clusters. -/
structure ClusterChain where
  firstCluster : ℕ
  linear : Bool := false
  /-- The lines, each with its node. -/
  cacheLine : List (ℕ × Line) := []
  /-- The nodes of the lines, the one used last at the front. -/
  lruQueue : List ℕ := []
  /-- The number of nodes that have been made. -/
  nodes : ℕ := 0

namespace ClusterChain

/-- The size that the cache is reduced to. -/
def limit (debug : Bool) : ℕ := if debug = true then 4 else 0x40

/-- The line of a node. -/
def line (c : ClusterChain) (node : ℕ) : Option Line := c.cacheLine.lookup node

/-! ### Looking up a cluster -/

/-- The node in the queue whose line has the index. -/
def hit (c : ClusterChain) (index : ℕ) : Option ℕ :=
  c.lruQueue.find? fun node => (c.line node).map Line.index = some index

/-- Moves a node to the front of the queue. -/
def touch (c : ClusterChain) (node : ℕ) : ClusterChain :=
  if c.lruQueue.head? = some node then c
  else { c with lruQueue := node :: c.lruQueue.erase node }

/-- Follows `n` entries of the allocation table. Returns nothing if the chain ends before. -/
def walk (debug : Bool) (fs : Exfat) : ℕ → Line → FatReader → Dm →
    Except Fault (Option Line × FatReader × Dm)
  | 0, cur, r, dm => .ok (some cur, r, dm)
  | n + 1, cur, r, dm => do
    let (next, r, dm) ← r.get debug fs dm cur.cluster
    if next = 0 ∨ Exfat.END ≤ next then
      return (none, r, dm)
    else
      walk debug fs n { index := cur.index + 1, cluster := next } r dm

/-- Removes the line whose node is at the end of the queue. -/
def dropBack (c : ClusterChain) : ClusterChain :=
  match c.lruQueue.getLast? with
  | none => c
  | some node =>
    { c with
      cacheLine := c.cacheLine.eraseP fun n => n.1 = node
      lruQueue := c.lruQueue.dropLast }

/-- Removes excess lines. -/
def shrink (debug : Bool) : ℕ → ClusterChain → ClusterChain
  | 0, c => c
  | n + 1, c => if limit debug < c.lruQueue.length then shrink debug n c.dropBack else c

/-- Puts a line into the cache, after the lines `before`. -/
def insertLine (debug : Bool) (c : ClusterChain) (before after : List (ℕ × Line)) (l : Line) :
    Except Fault ClusterChain := do
  let c := { c with
    cacheLine := before ++ (c.nodes, l) :: after
    lruQueue := c.nodes :: c.lruQueue
    nodes := c.nodes + 1 }
  Fault.assert debug ((c.cacheLine.map fun n => n.2.index).Pairwise (· > ·))
  Fault.assert debug (∀ n ∈ c.cacheLine, n.2.index ≠ 0)
  let c := shrink debug c.lruQueue.length c
  Fault.assert debug (c.lruQueue.length = c.cacheLine.length)
  return c

/-- The cluster with the index, and `0` if the chain is shorter. -/
def get (debug : Bool) (fs : Exfat) (c : ClusterChain) (dm : Dm) (index : ℕ) :
    Except Fault (ℕ × ClusterChain × Dm) := do
  if c.firstCluster = 0 then
    return (0, c, dm)
  else if c.linear = true then
    return ((c.firstCluster + index) % 2 ^ 32, c, dm)
  else if index = 0 then
    return (c.firstCluster, c, dm)
  else
    match c.hit index with
    | some node => return (((c.line node).map Line.cluster).getD 0, c.touch node, dm)
    | none =>
      -- not in the cache, read from the allocation table
      let (before, after) := c.cacheLine.span fun n => index ≤ n.2.index
      (before ++ after.take 1).forM fun n => Fault.assert debug (n.2.index ≠ 0)
      let cur := (after.head?.map Prod.snd).getD { index := 0, cluster := c.firstCluster }
      let (found, r, dm) ← walk debug fs (index - cur.index) cur {} dm
      let dm := r.close dm
      match found with
      | none => return (0, c, dm)
      | some l =>
        Fault.assert debug (l.index = index)
        let c ← c.insertLine debug before after l
        return (l.cluster, c, dm)

/-! ### Extending a chain -/

/-- Follows up to `n` entries of the allocation table. Returns the line that is reached, which
is that of the last cluster if the chain ends before, and nothing if an entry cannot be read. -/
def findTail (debug : Bool) (fs : Exfat) : ℕ → Line → FatReader → Dm →
    Except Fault (Option Line × FatReader × Dm)
  | 0, tail, r, dm => .ok (some tail, r, dm)
  | n + 1, tail, r, dm => do
    let (next, r, dm) ← r.get debug fs dm tail.cluster
    if next = 0 then
      return (none, r, dm)
    else if Exfat.END ≤ next then
      return (some tail, r, dm)
    else
      findTail debug fs n { index := tail.index + 1, cluster := next } r dm

/-- Appends clusters to the last one, until there is one with the index. -/
def allocate (debug : Bool) (index : ℕ) : ℕ → Exfat → ClusterChain → Line → Allocator →
    FatReader → Dm → Except Fault (Bool × Exfat × ClusterChain × Dm)
  | 0, _, _, _, _, _, _ => .error .outOfFuel
  | n + 1, fs, c, tail, alloc, r, dm => do
    let (next, fs, alloc, dm) ← alloc.get fs dm
    if next = 0 then
      -- no free cluster
      return (false, fs, c, r.close (alloc.close dm))
    else
      let (done, fs, r, dm) ← r.put debug fs dm tail.cluster next
      if done = false then
        return (false, fs, c, r.close (alloc.close dm))
      else
        let tail' : Line :=
          { index := if c.firstCluster = 0 then tail.index else tail.index + 1, cluster := next }
        let c := if c.firstCluster = 0 then { c with firstCluster := next } else c
        if tail'.index < index then
          allocate debug index n fs c tail' alloc r dm
        else
          return (true, fs, c, r.close (alloc.close dm))

/-- Extends the chain until it has a cluster with the index. -/
def expand (debug : Bool) (fs : Exfat) (c : ClusterChain) (dm : Dm) (index : ℕ) :
    Except Fault (Bool × Exfat × ClusterChain × Dm) := do
  if c.linear = true then
    return (false, fs, c, dm)
  else
    let head : Line := { index := 0, cluster := c.firstCluster }
    if index = 0 then
      allocate debug index 2 fs c head {} {} dm
    else
      let tail := (c.cacheLine.head?.map Prod.snd).getD head
      if index ≤ tail.index then
        return (true, fs, c, dm)
      else
        let (found, r, dm) ← findTail debug fs (index - tail.index) tail {} dm
        match found with
        | none => return (false, fs, c, r.close dm)
        | some tail =>
          if index ≤ tail.index then
            return (true, fs, c, r.close dm)
          else
            allocate debug index (index - tail.index + 1) fs c tail {} r dm

end ClusterChain

end UOS
