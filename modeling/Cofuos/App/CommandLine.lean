import Mathlib.Tactic

/-!
# The command line

Before `main` is called the command line is split at white space, by `parse_commandline` of
`app/libuos/uoscrt.cpp`. A first loop counts the arguments, and a second one notes where they start and
puts a zero behind each of them. The second loop overwrites what it scans, but remembers the character
that it has overwritten, so that both find the same starts.
-/

namespace UOS

namespace Uoscrt

/-- `isspace` -/
def isspace (ch : UInt8) : Bool :=
  ch = 0x9 ∨ ch = 0xA ∨ ch = 0xB ∨ ch = 0xC ∨ ch = 0xD ∨ ch = 0x20

/-- The first loop of `parse_commandline`, which counts in an `unsigned`. -/
def countArgs : UInt8 → ℕ → List UInt8 → ℕ
  | _, argc, [] => argc
  | prev, argc, ch :: rest =>
      countArgs ch (if !isspace ch && isspace prev then (argc + 1) % 2 ^ 32 else argc) rest

/-- The second loop of `parse_commandline` from the index `i` on, after `pos` arguments: the starts of
the arguments that are found, and the text that is left. -/
def splitArgs (argc : ℕ) : UInt8 → ℕ → ℕ → List UInt8 → List ℕ × List UInt8
  | _, _, _, [] => ([], [])
  | prev, pos, i, ch :: rest =>
      let out := if isspace ch && !isspace prev then 0 else ch
      if !isspace ch && isspace prev then
        if pos ≥ argc then ([], ch :: rest)
        else
          let r := splitArgs argc ch (pos + 1) (i + 1) rest
          (i :: r.1, out :: r.2)
      else
        let r := splitArgs argc ch pos (i + 1) rest
        (r.1, out :: r.2)

/-- What `parse_commandline` leaves: the indices of the arguments, unless it returns `nullptr`, their
number, and the text. -/
structure Parsed where
  argv : Option (List ℕ)
  argc : ℕ
  text : List UInt8
  deriving DecidableEq

/-- `parse_commandline`. The operator `new` does not return without memory. -/
def parseCommandline (cmd : List UInt8) : Parsed :=
  let argc := countArgs 0 1 cmd
  let r := splitArgs argc 0 1 0 cmd
  let argv := 0 :: r.1
  { argv := if argv.length = argc then some argv else none, argc := argc, text := r.2 }

/-! ### What is wanted of the result -/

/-- A byte of a text with its terminator. -/
def byteAt (text : List UInt8) (i : ℕ) : UInt8 := text.getD i 0

/-- A maximal run of bytes that are not white space. -/
structure RunAt (cmd : List UInt8) (i n : ℕ) : Prop where
  pos : 0 < n
  le : i + n ≤ cmd.length
  inside : ∀ k < n, isspace (byteAt cmd (i + k)) = false
  before : i = 0 ∨ isspace (byteAt cmd (i - 1)) = true
  after : i + n = cmd.length ∨ isspace (byteAt cmd (i + n)) = true

/-- The text is split: an argument for each run, in their order, and each run ends with a zero. The
empty text has one argument. -/
structure Split (cmd : List UInt8) (argc : ℕ) (argv : List ℕ) (text : List UInt8) : Prop where
  count : argv.length = argc
  sorted : argv.Pairwise (· < ·)
  starts : ∀ i, i ∈ argv ↔ (∃ n, RunAt cmd i n) ∨ cmd = [] ∧ i = 0
  length : text.length = cmd.length
  kept : ∀ i n, RunAt cmd i n → ∀ k < n, byteAt text (i + k) = byteAt cmd (i + k)
  terminated : ∀ i n, RunAt cmd i n → byteAt text (i + n) = 0

/-! ### The two loops -/

/-- The indices at which an argument starts behind white space. -/
def starts : UInt8 → ℕ → List UInt8 → List ℕ
  | _, _, [] => []
  | prev, i, ch :: rest =>
      if !isspace ch && isspace prev then i :: starts ch (i + 1) rest else starts ch (i + 1) rest

/-- The text with a zero behind each argument. -/
def blanked : UInt8 → List UInt8 → List UInt8
  | _, [] => []
  | prev, ch :: rest => (if isspace ch && !isspace prev then 0 else ch) :: blanked ch rest

variable {prev : UInt8} {argc pos i : ℕ} {cmd : List UInt8}

/-- The first loop counts the starts. -/
theorem countArgs_eq (prev : UInt8) (i : ℕ) (h : argc + cmd.length < 2 ^ 32) :
  countArgs prev argc cmd = argc + (starts prev i cmd).length
  := by
  induction cmd generalizing prev argc i with
  | nil => rfl
  | cons ch rest ih =>
      rw [List.length_cons] at h
      rw [countArgs, starts]
      split_ifs with hstart
      · rw [Nat.mod_eq_of_lt (by lia), ih ch (i + 1) (by lia), List.length_cons]
        omega
      · apply ih
        omega

/-- The second loop finds the starts, if there is room for them. -/
theorem splitArgs_eq (h : pos + (starts prev i cmd).length ≤ argc) :
  splitArgs argc prev pos i cmd = (starts prev i cmd, blanked prev cmd)
  := by
  induction cmd generalizing prev pos i with
  | nil => rfl
  | cons ch rest ih =>
      rw [splitArgs, blanked]
      dsimp only
      by_cases hstart : (!isspace ch && isspace prev) = true
      · rw [starts, if_pos hstart, List.length_cons] at h
        rw [if_pos hstart, if_neg (by lia), starts, if_pos hstart, ih (by lia)]
      · rw [starts, if_neg hstart] at h
        rw [if_neg hstart, starts, if_neg hstart, ih h]

/-- The starts are where a character follows white space. -/
theorem mem_starts {k : ℕ} :
  k ∈ starts prev i cmd ↔ ∃ j < cmd.length, k = i + j ∧ isspace (byteAt cmd j) = false ∧
    isspace (byteAt (prev :: cmd) j) = true
  := by
  induction cmd generalizing prev i with
  | nil => simp [starts]
  | cons ch rest ih =>
      rw [List.length_cons, Nat.exists_lt_succ_left, starts]
      have hrest : k ∈ starts ch (i + 1) rest ↔ ∃ j < rest.length, k = i + (j + 1) ∧
          isspace (byteAt (ch :: rest) (j + 1)) = false ∧
          isspace (byteAt (prev :: ch :: rest) (j + 1)) = true := by
        rw [ih]
        apply exists_congr
        intro j
        rw [Nat.add_assoc, Nat.add_comm 1 j]
        rfl
      rw [← hrest]
      split_ifs with hstart
      · simp only [Bool.and_eq_true, Bool.not_eq_true'] at hstart
        simp [byteAt, hstart]
      · simp only [Bool.and_eq_true, Bool.not_eq_true'] at hstart
        simp only [byteAt, List.getD_cons_zero]
        tauto

/-- The starts are in their order. -/
theorem sorted_starts (prev : UInt8) (i : ℕ) (cmd : List UInt8) :
  (starts prev i cmd).Pairwise (· < ·)
  := by
  induction cmd generalizing prev i with
  | nil => apply List.Pairwise.nil
  | cons ch rest ih =>
      rw [starts]
      split_ifs
      · apply List.Pairwise.cons _ (ih _ _)
        intro k hk
        obtain ⟨j, -, rfl, -⟩ := mem_starts.1 hk
        omega
      · apply ih

theorem length_blanked (prev : UInt8) (cmd : List UInt8) :
  (blanked prev cmd).length = cmd.length
  := by
  induction cmd generalizing prev with
  | nil => rfl
  | cons ch rest ih => rw [blanked, List.length_cons, ih, List.length_cons]

/-- White space behind an argument is overwritten, and nothing else is. -/
theorem byteAt_blanked (prev : UInt8) (cmd : List UInt8) (j : ℕ) :
  byteAt (blanked prev cmd) j =
    if isspace (byteAt cmd j) && !isspace (byteAt (prev :: cmd) j) then 0 else byteAt cmd j
  := by
  induction cmd generalizing prev j with
  | nil => simp [blanked, byteAt, isspace]
  | cons ch rest ih =>
      rw [blanked]
      cases j with
      | zero => rfl
      | succ j =>
          have hrest := ih ch j
          apply hrest

/-! ### Runs -/

/-- A run starts where a character is first or follows white space. -/
theorem exists_runAt_iff :
  (∃ n, RunAt cmd i n) ↔ i < cmd.length ∧ isspace (byteAt cmd i) = false ∧
    (i = 0 ∨ isspace (byteAt cmd (i - 1)) = true)
  := by
  constructor
  · rintro ⟨n, hrun⟩
    have hpos := hrun.pos
    have hle := hrun.le
    exact ⟨by omega, hrun.inside 0 hpos, hrun.before⟩
  · rintro ⟨hlt, hch, hbefore⟩
    have hex : ∃ n, i + n = cmd.length ∨ isspace (byteAt cmd (i + n)) = true :=
      ⟨cmd.length - i, .inl (by lia)⟩
    have hmin := fun k (hk : k < Nat.find hex) => not_or.1 (Nat.find_min hex hk)
    have hle : Nat.find hex ≤ cmd.length - i := Nat.find_min' hex (.inl (by omega))
    use Nat.find hex
    constructor
    · apply Nat.pos_of_ne_zero
      intro hzero
      have hend := Nat.find_spec hex
      rw [hzero, Nat.add_zero, hch] at hend
      rcases hend with hend | hend
      · omega
      · cases hend
    · lia
    · intro k hk
      simpa using (hmin k hk).2
    · apply hbefore
    · apply Nat.find_spec hex

/-- The start of the text and the starts behind white space are the starts of the runs. -/
theorem mem_argv_iff (hfirst : ∀ ch ∈ cmd.head?, isspace ch = false) :
  i ∈ 0 :: starts 0 0 cmd ↔ (∃ n, RunAt cmd i n) ∨ cmd = [] ∧ i = 0
  := by
  rw [List.mem_cons, mem_starts, exists_runAt_iff]
  cases cmd with
  | nil => simp
  | cons ch rest =>
      have hch := hfirst ch rfl
      cases i with
      | zero => simp [byteAt, hch]
      | succ i =>
          simp only [Nat.zero_add, reduceCtorEq, false_and, or_false, false_or, Nat.add_sub_cancel]
          constructor
          · rintro ⟨j, hj, rfl, hspace, hprev⟩
            exact ⟨hj, hspace, hprev⟩
          · rintro ⟨hlt, hspace, hprev⟩
            exact ⟨i + 1, hlt, rfl, hspace, hprev⟩

/-- What the two loops make of the command line. -/
theorem parseCommandline_eq (hlen : cmd.length < 2 ^ 32)
    (hfirst : ∀ ch ∈ cmd.head?, isspace ch = false) :
  parseCommandline cmd =
    ⟨some (0 :: starts 0 0 cmd), (0 :: starts 0 0 cmd).length, blanked 0 cmd⟩
  := by
  have hcount : countArgs 0 1 cmd = 1 + (starts 0 0 cmd).length := by
    cases cmd with
    | nil => rfl
    | cons ch rest =>
        have hch := hfirst ch rfl
        rw [List.length_cons] at hlen
        have hrest := countArgs_eq ch 1 (show 1 + rest.length < 2 ^ 32 by omega)
        rw [countArgs, starts]
        simpa [hch, isspace] using hrest
  rw [parseCommandline]
  rw [hcount, splitArgs_eq le_rfl, if_pos (by rw [List.length_cons, Nat.add_comm]), List.length_cons,
    Nat.add_comm]

/-- A command line that does not begin with white space is split. -/
theorem parseCommandline_split (hlen : cmd.length < 2 ^ 32)
    (hfirst : ∀ ch ∈ cmd.head?, isspace ch = false) :
  ∃ argv, (parseCommandline cmd).argv = some argv ∧
    Split cmd (parseCommandline cmd).argc argv (parseCommandline cmd).text
  := by
  rw [parseCommandline_eq hlen hfirst]
  refine ⟨_, rfl, ?_⟩
  dsimp only
  constructor
  · rfl
  · apply List.Pairwise.cons _ (sorted_starts 0 0 cmd)
    intro k hk
    obtain ⟨j, -, rfl, -, hprev⟩ := mem_starts.1 hk
    cases j with
    | zero => cases hprev
    | succ j => omega
  · intro i
    apply mem_argv_iff hfirst
  · apply length_blanked
  · intro i n hrun k hk
    rw [byteAt_blanked, hrun.inside k hk]
    rfl
  · intro i n hrun
    have hpos := hrun.pos
    rcases hrun.after with hend | hend
    · rw [byteAt, List.getD_eq_getElem?_getD, List.getElem?_eq_none (by rw [length_blanked, hend])]
      rfl
    · have hlast := hrun.inside (n - 1) (by omega)
      rw [← Nat.add_sub_assoc hpos] at hlast
      obtain ⟨m, hm⟩ : ∃ m, i + n = m + 1 := ⟨i + n - 1, by omega⟩
      rw [hm, Nat.add_sub_cancel] at hlast
      rw [hm] at hend ⊢
      have hprev : byteAt (0 :: cmd) (m + 1) = byteAt cmd m := rfl
      rw [byteAt_blanked, hend, hprev, hlast]
      rfl

/-- Two arguments, with white space between them and behind them. -/
theorem two_arguments_split :
  ∃ argv, (parseCommandline [0x61, 0x20, 0x9, 0x62, 0x63, 0xA]).argv = some argv ∧
    Split [0x61, 0x20, 0x9, 0x62, 0x63, 0xA] (parseCommandline [0x61, 0x20, 0x9, 0x62, 0x63, 0xA]).argc
      argv (parseCommandline [0x61, 0x20, 0x9, 0x62, 0x63, 0xA]).text
  := by
  apply parseCommandline_split
  · decide
  · intro ch hch
    cases hch
    rfl

end Uoscrt

end UOS
