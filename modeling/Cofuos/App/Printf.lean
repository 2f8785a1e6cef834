import Cofuos.App.CommandLine
import Cofuos.Boot.Sectors
import Mathlib.Data.List.GetD
import Mathlib.Data.Nat.Digits.Lemmas
import Mathlib.Data.UInt

/-!
# Formatting and parsing numbers

`imp_printf`, `snprintf` and `strtoull` of `app/libuos/uoscrt.cpp`. A string is the list of its
characters, and a format is passed on to what is behind a conversion.

`strtoull` reads back what `snprintf` has written. `snprintf` counts its characters in 32 bits,
though, and starts again at the beginning of the buffer when there are more.
-/

namespace UOS

namespace Uoscrt

open Boot

/-- What is passed for a conversion: a number, or a pointer to a string. -/
inductive Arg where
  | num (v : UInt64)
  | str (s : Option (List UInt8))

/-- `hexchar` -/
def hexchar (d : ℕ) : UInt8 :=
  [0x30, 0x31, 0x32, 0x33, 0x34, 0x35, 0x36, 0x37, 0x38, 0x39,
    0x41, 0x42, 0x43, 0x44, 0x45, 0x46].getD d 0

/-- A letter without the bit that makes it small. -/
def upper (ch : UInt8) : UInt8 := ch &&& 0xDF

/-- `hex2bin` -/
def hex2bin (ch : UInt8) : UInt8 :=
  if 0x30 ≤ ch ∧ ch ≤ 0x39 then ch - 0x30
  else if 0x41 ≤ upper ch ∧ upper ch ≤ 0x46 then upper ch - 0x41 + 0x0A
  else 0xFF

/-! ### `strtoull` -/

/-- The loop of `strtoull`, with the number and the characters from `end` on. -/
def strtoullLoop (base : ℕ) : ℕ → List UInt8 → ℕ × List UInt8
  | val, [] => (val, [])
  | val, ch :: str =>
      if ch = 0 ∨ base ≤ (hex2bin ch).toNat then (val, ch :: str)
      else strtoullLoop base ((val * base + (hex2bin ch).toNat) % 2 ^ 64) str

/-- There is a `0x` in front of the digits. -/
def hasPrefix (str : List UInt8) : Prop := byteAt str 0 = 0x30 ∧ upper (byteAt str 1) = 0x58

instance decidableHasPrefix (str : List UInt8) : Decidable (hasPrefix str) :=
  inferInstanceAs (Decidable (_ ∧ _))

/-- The base that is used for `base`. -/
def baseOf (str : List UInt8) (base : ℕ) : ℕ :=
  if base = 0 then
    if byteAt str 0 = 0x30 then if upper (byteAt str 1) = 0x58 then 0x10 else 8 else 10
  else base

/-- `strtoull` -/
def strtoull (str : Option (List UInt8)) (base : ℕ) : ℕ × Option (List UInt8) :=
  match str with
  | none => (0, none)
  | some str =>
      let str := str.dropWhile isspace
      let base := baseOf str base
      let str := if base = 0x10 ∧ hasPrefix str then str.drop 2 else str
      ((strtoullLoop base 0 str).1, some (strtoullLoop base 0 str).2)

/-! ### `imp_printf` -/

/-- A letter that ends a conversion of a number. -/
def Numeric (ch : UInt8) : Prop := upper ch ∈ [0x4F, 0x44, 0x49, 0x58, 0x55]

instance decidableNumeric (ch : UInt8) : Decidable (Numeric ch) := inferInstanceAs (Decidable (_ ∈ _))

/-- `parse_size` after two letters for the size. -/
def parseThird (size : ℕ) (ch next : UInt8) (format : List UInt8) : ℕ × UInt8 × List UInt8 :=
  if upper (ch ^^^ next) ≠ 0 then (0, ch, format)
  else if Numeric (format.headD 0) then (size, format.headD 0, format.tail)
  else (0, format.headD 0, format.tail)

/-- `parse_size` after a letter for the size. -/
def parseSecond (size : ℕ) (ch : UInt8) (format : List UInt8) : ℕ × UInt8 × List UInt8 :=
  if upper (format.headD 0) = 0x48 then parseThird 1 ch (format.headD 0) format.tail
  else if upper (format.headD 0) = 0x4C then parseThird 8 ch (format.headD 0) format.tail
  else if Numeric (format.headD 0) then (size, format.headD 0, format.tail)
  else (0, ch, format.tail)

/-- `parse_size`, with the letter and the format behind it. -/
def parseSize (ch : UInt8) (format : List UInt8) : ℕ × UInt8 × List UInt8 :=
  if upper ch = 0x48 then parseSecond 2 ch format
  else if upper ch = 0x4C then parseSecond 4 ch format
  else (4, ch, format)

/-- `is_signed` -/
def isSigned (ch : UInt8) : Prop := upper ch = 0x44 ∨ upper ch = 0x49

instance decidableIsSigned (ch : UInt8) : Decidable (isSigned ch) :=
  inferInstanceAs (Decidable (_ ∨ _))

/-- The operand of a conversion, extended to 64 bits. -/
def operand (size : ℕ) (ch : UInt8) (v : UInt64) : UInt64 :=
  if size = 8 then v
  else if isSigned ch then v.toUInt32.toInt32.toInt64.toUInt64
  else v.toUInt32.toUInt64

/-- `base` -/
def numberBase (ch : UInt8) : ℕ := if upper ch = 0x58 then 16 else if upper ch = 0x4F then 8 else 10

/-- A digit, with a small letter for `x`. -/
def digit (ch : UInt8) (d : ℕ) : UInt8 :=
  if ch = 0x78 ∧ hexchar d &&& 0x40 ≠ 0 then hexchar d ||| 0x20 else hexchar d

/-- The digits of a number. The loop finds the lowest one first. -/
def digits (ch : UInt8) (val : ℕ) : List UInt8 :=
  if val = 0 then [0x30] else ((Nat.digits (numberBase ch) val).map (digit ch)).reverse

/-- A number, with its sign. -/
def number (ch : UInt8) (u : UInt64) : List UInt8 :=
  if isSigned ch ∧ 2 ^ 63 ≤ u.toNat then 0x2D :: digits ch (0 - u).toNat else digits ch u.toNat

/-- What `imp_printf` does next: it passes characters on and goes on, or it returns. It may also find
an argument of the wrong kind. -/
inductive Round where
  | emit (chars format : List UInt8) (args : List Arg)
  | finish (res : Bool)
  | undefined

/-- The next argument, if it is a number. -/
def withNum (args : List Arg) (f : UInt64 → List UInt8) (format : List UInt8) : Round :=
  match args with
  | .num v :: args => .emit (f v) format args
  | _ => .undefined

/-- The next argument, if it is a string. -/
def withStr (args : List Arg) (format : List UInt8) : Round :=
  match args with
  | .str s :: args => .emit (s.getD [0x28, 0x6E, 0x75, 0x6C, 0x6C, 0x29]) format args
  | _ => .undefined

/-- A conversion of a number, from the letter after the `%` on. -/
def roundNumber (ch : UInt8) (format : List UInt8) (args : List Arg) : Round :=
  let (size, ch, format) := parseSize ch format
  if size = 0 then .finish false else withNum args (fun v => number ch (operand size ch v)) format

/-- A conversion, from the letter after the `%` on. -/
def roundConversion (ch : UInt8) (format : List UInt8) (args : List Arg) : Round :=
  if upper ch = 0x43 then withNum args (fun v => [v.toUInt8]) format
  else if upper ch = 0x53 then withStr args format
  else if upper ch = 0x50 then
    withNum args (fun v =>
      (List.range 16).map fun i => hexchar (v.toNat / 2 ^ (60 - 4 * i) % 0x10)) format
  else if upper ch = 0x48 ∨ upper ch = 0x4C ∨ Numeric ch then roundNumber ch format args
  else .finish false

/-- A round of the loop of `imp_printf`. -/
def round : List UInt8 → List Arg → Round
  | [], _ => .finish true
  | ch :: format, args =>
      if ch = 0 then .finish true
      else if ch ≠ 0x25 then .emit [ch] format args
      else match format with
        | [] => .finish true
        | ch :: format => if ch = 0 then .finish true else roundConversion ch format args

section

variable {σ : Type}

/-- The characters are passed to `func`, until it refuses one. -/
def emitAll (func : σ → UInt8 → Option σ) (s : σ) : List UInt8 → σ × Bool
  | [] => (s, true)
  | ch :: chars => match func s ch with
      | some s => emitAll func s chars
      | none => (s, false)

/-- So many rounds of `imp_printf`. -/
def printRounds (func : σ → UInt8 → Option σ) : ℕ → σ → List UInt8 → List Arg → Option Bool × σ
  | 0, s, _, _ => (none, s)
  | n + 1, s, format, args => match round format args with
      | .finish res => (some res, s)
      | .undefined => (none, s)
      | .emit chars format args => match emitAll func s chars with
          | (s, true) => printRounds func n s format args
          | (s, false) => (some true, s)

/-- `imp_printf`. Each round takes at least one character of the format. -/
def impPrintf (func : σ → UInt8 → Option σ) (s : σ) (format : List UInt8) (args : List Arg) :
    Option Bool × σ :=
  printRounds func (format.length + 1) s format args

end

/-- What `snprintf` has written. -/
structure Sink where
  count : ℕ := 0
  buffer : Bytes

/-- The function that `snprintf` passes to `imp_printf`. -/
def put (limit : ℕ) (s : Sink) (ch : UInt8) : Option Sink :=
  if limit ≤ (s.count + 1) % 2 ^ 32 then none
  else some { count := (s.count + 1) % 2 ^ 32, buffer := Function.update s.buffer s.count ch }

/-- `snprintf`, with the buffer that it leaves. -/
def snprintf (buffer : Option Bytes) (limit : ℕ) (format : List UInt8) (args : List Arg) :
    Option ℤ × Option Bytes :=
  match buffer with
  | none => (some (-1), none)
  | some buffer =>
      if limit = 0 then (some (-1), some buffer)
      else
        let (res, s) := impPrintf (put limit) { buffer := buffer } format args
        (res.map fun res => if res = true then (s.count + 2 ^ 31 : ℤ) % 2 ^ 32 - 2 ^ 31 else -1,
          some (if s.count < limit then Function.update s.buffer s.count 0 else s.buffer))

/-! ### What is wanted of formatting -/

/-- The conversions of 64-bit numbers. -/
inductive Conversion where
  | llu
  | llx (capital : Bool)
  | llo
  | lld

/-- The letter of a conversion. -/
def Conversion.letter : Conversion → UInt8
  | .llu => 0x75
  | .llx false => 0x78
  | .llx true => 0x58
  | .llo => 0x6F
  | .lld => 0x64

/-- The conversion in a format. -/
def Conversion.text (c : Conversion) : List UInt8 := [0x25, 0x6C, 0x6C, c.letter]

/-- The base of a conversion. -/
def Conversion.base : Conversion → ℕ
  | .llx _ => 16
  | .llo => 8
  | _ => 10

/-- A format made of conversions. -/
def formatOf (l : List (Conversion × UInt64)) : List UInt8 := l.flatMap fun c => c.1.text

/-- The arguments for it. -/
def argsOf (l : List (Conversion × UInt64)) : List Arg := l.map fun c => .num c.2

/-- What is printed without a limit. -/
def unlimited (l : List (Conversion × UInt64)) : List UInt8 :=
  (impPrintf (fun s ch => some (s ++ [ch])) [] (formatOf l) (argsOf l)).2

/-- The buffer contains a string and its terminator. -/
def CString (b : Bytes) (str : List UInt8) : Prop :=
  (∀ i (h : i < str.length), b i = str[i]) ∧ b str.length = 0

/-- What `snprintf` leaves in the buffer. -/
def Leaves (b : Bytes) (limit : ℕ) (l : List (Conversion × UInt64)) (b' : Bytes) : Prop :=
  (snprintf (some b) limit (formatOf l) (argsOf l)).2 = some b'

/-- The number of digits of a number. -/
def digitCount (base v : ℕ) : ℕ := max 1 (Nat.digits base v).length

/-- An unsigned number is read back. -/
def ReadBack (v : UInt64) (b : Bytes) (limit : ℕ) : Prop :=
  ∀ c : Conversion, c ≠ .lld → digitCount c.base v.toNat < limit →
    ∃ b' str, Leaves b limit [(c, v)] b' ∧ CString b' str ∧
      strtoull (some str) c.base = (v.toNat, some [])

/-- A signed number is printed as a sign and its magnitude. -/
def Magnitude (v : Int64) (b : Bytes) (limit : ℕ) : Prop :=
  digitCount 10 v.toInt.natAbs + 1 < limit →
    ∃ b' sign str, Leaves b limit [(.lld, v.toUInt64)] b' ∧ CString b' (sign ++ str) ∧
      sign = (if v < 0 then [0x2D] else []) ∧ strtoull (some str) 10 = (v.toInt.natAbs, some [])

/-- What is printed is cut off at the limit. -/
def CutOff (l : List (Conversion × UInt64)) (b : Bytes) (limit : ℕ) : Prop :=
  0 < limit → ∃ b', Leaves b limit l b' ∧ (∀ i, limit ≤ i → b' i = b i) ∧
    CString b' ((unlimited l).take (limit - 1))

/-! ### Rounds -/

section

variable {σ : Type} {func : σ → UInt8 → Option σ}

theorem emitAll_append (s : σ) (a b : List UInt8) :
  emitAll func s (a ++ b) =
    if (emitAll func s a).2 = true then emitAll func (emitAll func s a).1 b else emitAll func s a
  := by
  induction a generalizing s with
  | nil => rfl
  | cons ch a ih =>
      rw [List.cons_append, emitAll, emitAll]
      cases func s ch with
      | some s' => apply ih
      | none => rfl

/-- Two letters `l` make 64 bits. -/
theorem parseSize_ll {ch : UInt8} (h : Numeric ch) (format : List UInt8) :
  parseSize 0x6C (0x6C :: ch :: format) = (8, ch, format)
  := by
  rw [parseSize, if_neg (by decide), if_pos (by decide), parseSecond, List.headD_cons, List.tail_cons,
    if_neg (by decide), if_pos (by decide), parseThird, if_neg (by decide), List.headD_cons,
    if_pos h, List.tail_cons]

theorem numeric_letter (c : Conversion) : Numeric c.letter := by
  rcases c with _ | capital | _ | _
  · decide
  · cases capital
    · decide
    · decide
  · decide
  · decide

/-- A conversion of a 64-bit number prints the number. -/
theorem round_text (c : Conversion) (v : UInt64) (format : List UInt8) (args : List Arg) :
  round (c.text ++ format) (.num v :: args) = .emit (number c.letter v) format args
  := by
  have htext : c.text ++ format = 0x25 :: 0x6C :: 0x6C :: c.letter :: format := rfl
  rw [htext, round, if_neg (by decide), if_neg (by decide), if_neg (by decide), roundConversion,
    if_neg (by decide), if_neg (by decide), if_neg (by decide), if_pos (by decide), roundNumber, parseSize_ll (numeric_letter c)]
  rfl

/-- The characters that are printed for these conversions. -/
def numbers (l : List (Conversion × UInt64)) : List UInt8 := l.flatMap fun c => number c.1.letter c.2

/-- A format made of conversions prints the numbers. -/
theorem printRounds_formatOf (n : ℕ) : ∀ (s : σ) (l : List (Conversion × UInt64)), l.length < n →
  printRounds func n s (formatOf l) (argsOf l) = (some true, (emitAll func s (numbers l)).1)
  := by
  induction n with
  | zero =>
      intro s l hl
      exact absurd hl (Nat.not_lt_zero _)
  | succ n ih =>
      intro s l hl
      cases l with
      | nil => rfl
      | cons c l =>
          have hround : round (formatOf (c :: l)) (argsOf (c :: l)) =
              .emit (number c.1.letter c.2) (formatOf l) (argsOf l) := round_text c.1 c.2 _ _
          have hnumbers : numbers (c :: l) = number c.1.letter c.2 ++ numbers l := rfl
          rw [printRounds, hround, hnumbers, emitAll_append]
          dsimp only
          rcases hemit : emitAll func s (number c.1.letter c.2) with ⟨s', more⟩
          cases more with
          | true => apply ih s' l (Nat.lt_of_succ_lt_succ hl)
          | false => rfl

theorem length_formatOf (l : List (Conversion × UInt64)) : (formatOf l).length = 4 * l.length := by
  induction l with
  | nil => rfl
  | cons c l ih =>
      have hcons : formatOf (c :: l) = c.1.text ++ formatOf l := rfl
      rw [hcons, List.length_append, ih, List.length_cons]
      have htext : c.1.text.length = 4 := rfl
      omega

theorem impPrintf_formatOf (func : σ → UInt8 → Option σ) (s : σ) (l : List (Conversion × UInt64)) :
  impPrintf func s (formatOf l) (argsOf l) = (some true, (emitAll func s (numbers l)).1)
  := by
  apply printRounds_formatOf
  rw [length_formatOf]
  omega

end

/-- Without a limit, the numbers are printed. -/
theorem unlimited_eq (l : List (Conversion × UInt64)) : unlimited l = numbers l := by
  have hall : ∀ (chars acc : List UInt8),
      (emitAll (fun s ch => some (s ++ [ch])) acc chars).1 = acc ++ chars := by
    intro chars
    induction chars with
    | nil =>
        intro acc
        rw [List.append_nil]
        rfl
    | cons ch chars ih =>
        intro acc
        rw [emitAll]
        dsimp only
        rw [ih, List.append_assoc, List.singleton_append]
  rw [unlimited, impPrintf_formatOf]
  apply hall

/-! ### The buffer -/

/-- So many characters at the start of the buffer. -/
theorem store_cons (b : Bytes) (n : ℕ) (ch : UInt8) (l : List UInt8) :
  Bytes.store (Function.update b n ch) (n + 1) l = b.store n (ch :: l)
  := by
  funext a
  rcases lt_trichotomy a n with hlt | rfl | hgt
  · rw [Bytes.store_of_lt (by omega), Bytes.store_of_lt hlt, Function.update_of_ne (by omega)]
  · rw [Bytes.store_of_lt (by omega), Function.update_self]
    simp [Bytes.store]
  · obtain ⟨j, rfl⟩ : ∃ j, a = n + 1 + j := ⟨a - n - 1, by omega⟩
    simp only [Bytes.store]
    rw [if_pos (by omega), if_pos (by omega), Function.update_of_ne (by omega),
      show n + 1 + j - n = j + 1 by omega, List.getElem?_cons_succ]
    congr 2
    omega

theorem store_nil (b : Bytes) (n : ℕ) : b.store n [] = b := by
  funext a
  rw [Bytes.store, List.getElem?_nil, Option.getD_none, ite_self]

/-- As long as the count does not wrap around, the characters are stored up to the limit. -/
theorem emitAll_put {limit : ℕ} (chars : List UInt8) : ∀ {s : Sink}, s.count < limit →
    s.count + chars.length < 2 ^ 32 ∨ limit < 2 ^ 32 →
  (emitAll (put limit) s chars).1 =
    { count := min (s.count + chars.length) (limit - 1)
      buffer := s.buffer.store s.count (chars.take (limit - 1 - s.count)) }
  := by
  induction chars with
  | nil =>
      intro s hcount _
      rw [List.length_nil, Nat.add_zero, Nat.min_eq_left (by omega), List.take_nil, store_nil]
      rfl
  | cons ch chars ih =>
      intro s hcount hfits
      rw [List.length_cons] at hfits ⊢
      rw [emitAll, put]
      by_cases hlast : s.count + 1 = limit
      · have hrefused : limit ≤ (s.count + 1) % 2 ^ 32 := by omega
        rw [if_pos hrefused]
        dsimp only
        rw [show limit - 1 - s.count = 0 by omega, List.take_zero, store_nil,
          Nat.min_eq_right (by omega), show limit - 1 = s.count by omega]
      · have hnext : ¬ limit ≤ (s.count + 1) % 2 ^ 32 := by omega
        rw [if_neg hnext]
        dsimp only
        have hmod : (s.count + 1) % 2 ^ 32 = s.count + 1 := by omega
        rw [hmod, ih (by dsimp only; omega) (by dsimp only; omega)]
        dsimp only
        rw [store_cons, show limit - 1 - s.count = limit - 1 - (s.count + 1) + 1 by omega,
          List.take_succ_cons, Nat.add_assoc, Nat.add_comm 1]

/-- What `snprintf` leaves is what its function has stored, with the terminator. -/
theorem leaves_iff {b b' : Bytes} {limit : ℕ} (hlimit : 0 < limit) (l : List (Conversion × UInt64)) :
  Leaves b limit l b' ↔
    (let s := (emitAll (put limit) { buffer := b } (numbers l)).1
    if s.count < limit then Function.update s.buffer s.count 0 else s.buffer) = b'
  := by
  rw [Leaves, snprintf]
  dsimp only
  rw [if_neg (by omega), impPrintf_formatOf]
  exact Option.some_inj

/-- A string is found where it has been stored with its terminator. -/
theorem cString_store (b : Bytes) (str : List UInt8) :
  CString (Function.update (b.store 0 str) str.length 0) str
  := by
  constructor
  · intro i hi
    rw [Function.update_of_ne hi.ne]
    have hmem : b.store 0 str (0 + i) = str[i] := Bytes.store_of_mem hi
    rwa [Nat.zero_add] at hmem
  · apply Function.update_self

/-- As long as the count does not wrap around, the buffer contains what is printed up to the limit. -/
theorem leaves_of_fits (b : Bytes) {limit : ℕ} (hlimit : 0 < limit) {l : List (Conversion × UInt64)}
    (hfits : (numbers l).length < 2 ^ 32 ∨ limit < 2 ^ 32) :
  ∃ b', Leaves b limit l b' ∧ (∀ i, limit ≤ i → b' i = b i) ∧
    CString b' ((numbers l).take (limit - 1))
  := by
  have hemit := emitAll_put (numbers l) (s := { buffer := b }) hlimit (by dsimp only; omega)
  dsimp only at hemit
  have hcount : min (0 + (numbers l).length) (limit - 1) = ((numbers l).take (limit - 1)).length := by
    rw [List.length_take]
    omega
  have hlt : ((numbers l).take (limit - 1)).length < limit := by
    rw [List.length_take]
    omega
  rw [hcount, Nat.sub_zero] at hemit
  refine ⟨_, (leaves_iff hlimit l).2 rfl, ?_, ?_⟩
  · intro i hi
    rw [hemit]
    dsimp only
    rw [if_pos hlt, Function.update_of_ne (by omega), Bytes.store_of_le (by omega)]
  · rw [hemit]
    dsimp only
    rw [if_pos hlt]
    apply cString_store

/-! ### Digits -/

/-- The digits of `hexchar` are read back, with small and with capital letters. -/
theorem hex2bin_hexchar : ∀ d < 16, (hex2bin (hexchar d)).toNat = d ∧ hexchar d ≠ 0 ∧
    isspace (hexchar d) = false ∧ upper (hexchar d) ≠ 0x58
  := by
  decide

theorem hex2bin_small : ∀ d < 16, (hex2bin (hexchar d ||| 0x20)).toNat = d ∧ hexchar d ||| 0x20 ≠ 0 ∧
    isspace (hexchar d ||| 0x20) = false ∧ upper (hexchar d ||| 0x20) ≠ 0x58
  := by
  decide

theorem hex2bin_digit (ch : UInt8) {d : ℕ} (hd : d < 16) :
  (hex2bin (digit ch d)).toNat = d ∧ digit ch d ≠ 0 ∧ isspace (digit ch d) = false ∧
    upper (digit ch d) ≠ 0x58
  := by
  rw [digit]
  split_ifs
  · apply hex2bin_small d hd
  · apply hex2bin_hexchar d hd

/-- Digits are read to their end. -/
theorem strtoullLoop_map (ch : UInt8) {base : ℕ} (hbase : base ≤ 16) (ds : List ℕ)
    (hds : ∀ d ∈ ds, d < base) (val : ℕ) :
  strtoullLoop base (val % 2 ^ 64) (ds.map (digit ch)) =
    (ds.foldl (fun val d => val * base + d) val % 2 ^ 64, [])
  := by
  induction ds generalizing val with
  | nil => rfl
  | cons d ds ih =>
      have hd := hds d List.mem_cons_self
      obtain ⟨hval, hne, -, -⟩ := hex2bin_digit ch (hd.trans_le hbase)
      have hnext : (val % 2 ^ 64 * base + d) % 2 ^ 64 = (val * base + d) % 2 ^ 64 := by
        rw [Nat.add_mod, Nat.mod_mul_mod, ← Nat.add_mod]
      rw [List.map_cons, strtoullLoop, hval, if_neg (by rw [not_or]; exact ⟨hne, by omega⟩), hnext,
        ih fun d' hd' => hds d' (List.mem_cons_of_mem d hd'), List.foldl_cons]

/-- The digits that are printed, the highest one first. -/
def digitList (base val : ℕ) : List ℕ := if val = 0 then [0] else (Nat.digits base val).reverse

theorem digits_eq (ch : UInt8) (val : ℕ) :
  digits ch val = (digitList (numberBase ch) val).map (digit ch)
  := by
  rw [digits, digitList]
  split_ifs
  · have hzero : digit ch 0 = 0x30 := if_neg fun h => absurd h.2 (by decide)
    rw [List.map_singleton, hzero]
  · rw [List.map_reverse]

theorem length_digitList (base val : ℕ) :
  (digitList base val).length = digitCount base val
  := by
  rw [digitList, digitCount]
  split_ifs with hzero
  · rw [hzero, Nat.digits_zero]
    rfl
  · have hpos := List.length_pos_of_ne_nil ((Nat.digits_ne_nil_iff_ne_zero (b := base)).2 hzero)
    rw [List.length_reverse]
    omega

theorem lt_of_mem_digitList {base val d : ℕ} (hbase : 1 < base) (hd : d ∈ digitList base val) :
  d < base
  := by
  rw [digitList] at hd
  split_ifs at hd
  · rw [List.mem_singleton] at hd
    omega
  · apply Nat.digits_lt_base hbase (List.mem_reverse.1 hd)

theorem foldl_digitList (base val : ℕ) :
  (digitList base val).foldl (fun val d => val * base + d) 0 = val
  := by
  rw [digitList]
  split_ifs with hzero
  · rw [List.foldl_cons, Nat.zero_mul, Nat.zero_add, List.foldl_nil, hzero]
  · rw [List.foldl_reverse]
    calc (Nat.digits base val).foldr (fun d val => val * base + d) 0
        = (Nat.digits base val).foldr (fun d val => d + base * val) 0 := by
          congr 1
          funext d val
          rw [Nat.add_comm, Nat.mul_comm]
      _ = Nat.ofDigits base (Nat.digits base val) := (Nat.ofDigits_eq_foldr ..).symm
      _ = val := Nat.ofDigits_digits base val

theorem numberBase_bounds (ch : UInt8) : 1 < numberBase ch ∧ numberBase ch ≤ 16 := by
  rw [numberBase]
  split_ifs
  · decide
  · decide
  · decide

/-- There is neither white space nor `0x` in front of digits. -/
theorem dropWhile_map (ch : UInt8) {ds : List ℕ} (hds : ∀ d ∈ ds, d < 16) :
  (ds.map (digit ch)).dropWhile isspace = ds.map (digit ch)
  := by
  cases ds with
  | nil => rfl
  | cons d ds =>
      obtain ⟨-, -, hspace, -⟩ := hex2bin_digit ch (hds d List.mem_cons_self)
      rw [List.map_cons, List.dropWhile_cons_of_neg (by rw [hspace]; decide)]

theorem not_hasPrefix_map (ch : UInt8) {ds : List ℕ} (hds : ∀ d ∈ ds, d < 16) :
  ¬ hasPrefix (ds.map (digit ch))
  := by
  rintro ⟨-, hx⟩
  rcases ds with _ | ⟨d, _ | ⟨d', ds⟩⟩
  · exact absurd hx (by decide : upper 0 ≠ 0x58)
  · exact absurd hx (by decide : upper 0 ≠ 0x58)
  · obtain ⟨-, -, -, hne⟩ := hex2bin_digit ch (hds d' (by simp))
    apply hne hx

/-- `strtoull` reads the digits that are printed. -/
theorem strtoull_digits (ch : UInt8) {val : ℕ} (hval : val < 2 ^ 64) :
  strtoull (some (digits ch val)) (numberBase ch) = (val, some [])
  := by
  obtain ⟨hbase, hle⟩ := numberBase_bounds ch
  have hlt : ∀ d ∈ digitList (numberBase ch) val, d < numberBase ch := fun d =>
    lt_of_mem_digitList hbase
  have hlt16 : ∀ d ∈ digitList (numberBase ch) val, d < 16 := fun d hd => (hlt d hd).trans_le hle
  have hloop := strtoullLoop_map ch hle _ hlt 0
  rw [foldl_digitList, Nat.zero_mod, Nat.mod_eq_of_lt hval] at hloop
  rw [digits_eq, strtoull, dropWhile_map ch hlt16, baseOf, if_neg (by omega),
    if_neg fun h => not_hasPrefix_map ch hlt16 h.2, hloop]

theorem length_digits (ch : UInt8) (val : ℕ) :
  (digits ch val).length = digitCount (numberBase ch) val
  := by
  rw [digits_eq, List.length_map, length_digitList]

theorem digitCount_le {base val : ℕ} (hbase : 1 < base) (hval : val < 2 ^ 64) :
  digitCount base val ≤ 64
  := by
  have hlen : (Nat.digits base val).length ≤ 64 := by
    rw [Nat.digits_length_le_iff hbase]
    apply hval.trans_le (Nat.pow_le_pow_left hbase 64)
  rw [digitCount]
  omega

/-! ### What is read back -/

theorem numberBase_letter (c : Conversion) : numberBase c.letter = c.base := by
  rcases c with _ | capital | _ | _
  · rfl
  · cases capital
    · rfl
    · rfl
  · rfl
  · rfl

theorem not_isSigned_letter {c : Conversion} (hc : c ≠ .lld) : ¬ isSigned c.letter := by
  rcases c with _ | capital | _ | _
  · decide
  · cases capital
    · decide
    · decide
  · decide
  · exact absurd rfl hc

theorem numbers_singleton (c : Conversion × UInt64) : numbers [c] = number c.1.letter c.2 := by
  rw [numbers, List.flatMap_cons, List.flatMap_nil, List.append_nil]

theorem readBack (v : UInt64) (b : Bytes) (limit : ℕ) : ReadBack v b limit := by
  intro c hc hlimit
  have hv := v.toNat_lt
  have hnumber : numbers [(c, v)] = digits c.letter v.toNat := by
    rw [numbers_singleton, number, if_neg fun h => not_isSigned_letter hc h.1]
  have hlen := length_digits c.letter v.toNat
  have hle := digitCount_le (numberBase_bounds c.letter).1 hv
  rw [numberBase_letter] at hlen hle
  have hfits : (numbers [(c, v)]).length < 2 ^ 32 := by
    rw [hnumber, hlen]
    omega
  have htake : (numbers [(c, v)]).length ≤ limit - 1 := by
    rw [hnumber, hlen]
    omega
  obtain ⟨b', hleaves, -, hstring⟩ := leaves_of_fits b (by omega : 0 < limit) (.inl hfits)
  rw [List.take_of_length_le htake, hnumber] at hstring
  refine ⟨b', _, hleaves, hstring, ?_⟩
  rw [← numberBase_letter]
  apply strtoull_digits c.letter hv

/-- The bits of a signed number. -/
theorem toInt_eq (v : Int64) :
  v.toInt =
    if 2 ^ 63 ≤ v.toUInt64.toNat then (v.toUInt64.toNat : ℤ) - 2 ^ 64 else (v.toUInt64.toNat : ℤ)
  := by
  have h := BitVec.toInt_eq_toNat_cond v.toBitVec
  have hbits : v.toBitVec.toNat = v.toUInt64.toNat := rfl
  rw [Int64.toInt, h, hbits]
  split_ifs
  · omega
  · rfl
  · rfl
  · omega

theorem magnitude (v : Int64) (b : Bytes) (limit : ℕ) : Magnitude v b limit := by
  intro hlimit
  have hv := v.toUInt64.toNat_lt
  have hint := toInt_eq v
  have hsigned : isSigned 0x64 := by decide
  have hneg : v < 0 ↔ 2 ^ 63 ≤ v.toUInt64.toNat := by
    rw [Int64.lt_iff_toInt_lt, hint, Int64.toInt_zero]
    split_ifs with h
    · exact iff_of_true (by omega) h
    · exact iff_of_false (by omega) h
  have habs : v.toInt.natAbs < 2 ^ 64 := by
    rw [hint]
    split_ifs
    · omega
    · omega
  have hnumber : numbers [(.lld, v.toUInt64)] =
      (if v < 0 then [0x2D] else []) ++ digits 0x64 v.toInt.natAbs := by
    rw [numbers_singleton, number]
    by_cases h : 2 ^ 63 ≤ v.toUInt64.toNat
    · have hmagnitude : (0 - v.toUInt64).toNat = v.toInt.natAbs := by
        rw [hint, if_pos h, UInt64.toNat_sub, UInt64.toNat_zero]
        omega
      rw [if_pos ⟨hsigned, h⟩, if_pos (hneg.2 h), hmagnitude]
      rfl
    · have hmagnitude : v.toUInt64.toNat = v.toInt.natAbs := by
        rw [hint, if_neg h]
        omega
      rw [if_neg fun hboth => h hboth.2, if_neg fun hlt => h (hneg.1 hlt), hmagnitude]
      rfl
  have hlen := length_digits 0x64 v.toInt.natAbs
  have hbase : numberBase 0x64 = 10 := rfl
  have hle : digitCount 10 v.toInt.natAbs ≤ 64 := digitCount_le (by decide) habs
  rw [hbase] at hlen
  have hshort : (numbers [(.lld, v.toUInt64)]).length ≤ digitCount 10 v.toInt.natAbs + 1 := by
    rw [hnumber, List.length_append, hlen]
    split_ifs
    · rw [List.length_singleton]
      omega
    · rw [List.length_nil]
      omega
  obtain ⟨b', hleaves, -, hstring⟩ := leaves_of_fits b (by omega : 0 < limit)
    (.inl (by omega : (numbers [(.lld, v.toUInt64)]).length < 2 ^ 32))
  rw [List.take_of_length_le (by omega : (numbers [(.lld, v.toUInt64)]).length ≤ limit - 1),
    hnumber] at hstring
  refine ⟨b', _, _, hleaves, hstring, rfl, ?_⟩
  rw [← hbase]
  apply strtoull_digits 0x64 habs

/-! ### Counts that wrap around -/

/-- With a large limit no character is refused. The last ones before the count lie in front of it. -/
theorem emitAll_wraps {limit : ℕ} (hlimit : 2 ^ 32 ≤ limit) (b : Bytes) (w : List UInt8) :
  ∃ s, emitAll (put limit) { buffer := b } w = (s, true) ∧ s.count = w.length % 2 ^ 32 ∧
    (∀ i, 2 ^ 32 ≤ i → s.buffer i = b i) ∧
    ∀ i < w.length % 2 ^ 32, s.buffer i = w.getD (w.length - w.length % 2 ^ 32 + i) 0
  := by
  induction w using List.reverseRecOn with
  | nil => exact ⟨_, rfl, rfl, fun _ _ => rfl, fun i hi => absurd hi (Nat.not_lt_zero i)⟩
  | append_singleton w ch ih =>
      obtain ⟨s, hemit, hcount, hrest, hlast⟩ := ih
      have hput : put limit s ch =
          some ⟨(s.count + 1) % 2 ^ 32, Function.update s.buffer s.count ch⟩ := if_neg (by omega)
      refine ⟨⟨(s.count + 1) % 2 ^ 32, Function.update s.buffer s.count ch⟩, ?_, ?_, ?_, ?_⟩
      · rw [emitAll_append, hemit, if_pos rfl, emitAll, hput]
        rfl
      · rw [List.length_append, List.length_singleton, hcount, Nat.mod_add_mod]
      · intro i hi
        dsimp only
        rw [Function.update_of_ne (by omega), hrest i hi]
      · intro i hi
        rw [List.length_append, List.length_singleton] at hi ⊢
        have hnext : (w.length + 1) % 2 ^ 32 = w.length % 2 ^ 32 + 1 := by omega
        have hindex : w.length + 1 - (w.length + 1) % 2 ^ 32 + i =
            w.length - w.length % 2 ^ 32 + i := by
          omega
        dsimp only
        rw [hindex]
        rcases Nat.lt_succ_iff_lt_or_eq.1 (hi.trans_eq hnext) with hlt | heq
        · rw [Function.update_of_ne (by omega), hlast i hlt, List.getD_append _ _ _ _ (by omega)]
        · rw [heq, ← hcount, Function.update_self, List.getD_append_right _ _ _ _ (by omega),
            show w.length - s.count + s.count - w.length = 0 by omega]
          rfl

theorem digits_ne_zero (ch : UInt8) {val : ℕ} {c : UInt8} (hc : c ∈ digits ch val) : c ≠ 0 := by
  rw [digits_eq, List.mem_map] at hc
  obtain ⟨d, hd, rfl⟩ := hc
  obtain ⟨hbase, hle⟩ := numberBase_bounds ch
  apply (hex2bin_digit ch ((lt_of_mem_digitList hbase hd).trans_le hle)).2.1

/-- No number contains a terminator. -/
theorem numbers_ne_zero {l : List (Conversion × UInt64)} {c : UInt8} (hc : c ∈ numbers l) :
  c ≠ 0
  := by
  obtain ⟨⟨conversion, v⟩, -, hc⟩ := List.mem_flatMap.1 hc
  dsimp only at hc
  rw [number] at hc
  split_ifs at hc
  · rcases List.mem_cons.1 hc with rfl | hc
    · decide
    · apply digits_ne_zero _ hc
  · apply digits_ne_zero _ hc

/-- When the count wraps around, the buffer contains the beginning of what is printed only if the last
characters are the same as the first. -/
theorem cutOff_iff_of_wraps (b : Bytes) {limit k : ℕ} (hk : k + 1 = 2 ^ 32) (hlimit : 2 ^ 32 ≤ limit)
    {l : List (Conversion × UInt64)} (hlen : 2 ^ 32 ≤ (numbers l).length) :
  CutOff l b limit ↔ limit = 2 ^ 32 ∧ (numbers l).length % 2 ^ 32 = k ∧
    (numbers l).drop ((numbers l).length - k) = (numbers l).take k
  := by
  obtain ⟨s, hemit, hcount, hrest, hlast⟩ := emitAll_wraps hlimit b (numbers l)
  have hlt : s.count < limit := by omega
  have hleaves : ∀ b', Leaves b limit l b' ↔ Function.update s.buffer s.count 0 = b' := by
    intro b'
    rw [leaves_iff (by omega), hemit]
    dsimp only
    rw [if_pos hlt]
  rw [CutOff, unlimited_eq]
  constructor
  · intro h
    obtain ⟨b', hb', -, hstring, -⟩ := h (by omega)
    rw [hleaves] at hb'
    subst hb'
    have hlength : ((numbers l).take (limit - 1)).length = min (limit - 1) (numbers l).length :=
      List.length_take
    have hge : min (limit - 1) (numbers l).length ≤ s.count := by
      by_contra hless
      have hzero := hstring s.count (by omega)
      rw [Function.update_self] at hzero
      apply numbers_ne_zero (List.mem_of_mem_take (List.getElem_mem _)) hzero.symm
    have hmod : (numbers l).length % 2 ^ 32 = k := by omega
    refine ⟨by omega, hmod, ?_⟩
    apply List.ext_getElem
    · rw [List.length_drop, List.length_take]
      omega
    · intro i hi hi'
      rw [List.length_take] at hi'
      have hfirst := hstring i (by omega)
      rw [Function.update_of_ne (by omega), hlast i (by omega), hmod, List.getElem_take,
        List.getD_eq_getElem _ _ (by omega)] at hfirst
      rw [List.getElem_drop, List.getElem_take, hfirst]
  · rintro ⟨heq, hmod, hsame⟩ -
    have hlast' : limit - 1 = k := by omega
    refine ⟨_, (hleaves _).2 rfl, ?_, ?_⟩
    · intro i hi
      rw [Function.update_of_ne (by omega), hrest i (by omega)]
    · rw [hlast']
      have hlength : ((numbers l).take k).length = s.count := by
        rw [List.length_take]
        omega
      constructor
      · intro i hi
        have hdrop : i < ((numbers l).drop ((numbers l).length - k)).length := by
          rw [List.length_drop]
          omega
        have hequal := List.getElem_of_eq hsame hdrop
        rw [List.getElem_drop] at hequal
        rw [Function.update_of_ne (by omega), hlast i (by omega), hmod,
          List.getD_eq_getElem _ _ (by omega)]
        exact hequal
      · rw [hlength, Function.update_self]

theorem length_numbers_replicate (n : ℕ) (c : Conversion × UInt64) :
  (numbers (List.replicate n c)).length = n * (number c.1.letter c.2).length
  := by
  induction n with
  | zero => rw [Nat.zero_mul, List.replicate_zero, numbers, List.flatMap_nil, List.length_nil]
  | succ n ih =>
      have hcons : numbers (List.replicate (n + 1) c) =
          number c.1.letter c.2 ++ numbers (List.replicate n c) := rfl
      rw [hcons, List.length_append, ih, Nat.succ_mul, Nat.add_comm]

/-- Numbers are read back and cut off as they should be if and only if what is printed or the limit can
be counted in 32 bits, or what is overwritten is the same. -/
theorem formats_iff (v : UInt64) (i : Int64) (l : List (Conversion × UInt64)) (b : Bytes)
    (limit : ℕ) :
  ReadBack v b limit ∧ Magnitude i b limit ∧ CutOff l b limit ↔
    (numbers l).length < 2 ^ 32 ∨ limit < 2 ^ 32 ∨ limit = 2 ^ 32 ∧
      (numbers l).length % 2 ^ 32 = 2 ^ 32 - 1 ∧
      (numbers l).drop ((numbers l).length - (2 ^ 32 - 1)) = (numbers l).take (2 ^ 32 - 1)
  := by
  have hread := readBack v b limit
  have hmagnitude := magnitude i b limit
  by_cases hfits : (numbers l).length < 2 ^ 32 ∨ limit < 2 ^ 32
  · have hcut : CutOff l b limit := by
      intro hlimit
      rw [unlimited_eq]
      apply leaves_of_fits b hlimit hfits
    exact iff_of_true ⟨hread, hmagnitude, hcut⟩ (hfits.imp_right .inl)
  · rw [not_or, not_lt, not_lt] at hfits
    rw [cutOff_iff_of_wraps b (Nat.sub_add_cancel Nat.one_le_two_pow) hfits.2 hfits.1]
    constructor
    · rintro ⟨-, -, hcut⟩
      exact .inr (.inr hcut)
    · rintro (hlen | hlimit | hcut)
      · omega
      · omega
      · exact ⟨hread, hmagnitude, hcut⟩

/-- More than `2 ^ 32` digits and a limit of `2 ^ 33`: the digits in front of the terminator are not
the ones that are wanted. -/
theorem many_numbers :
  ¬ ∀ (v : UInt64) (i : Int64) (l : List (Conversion × UInt64)) (b : Bytes) (limit : ℕ),
    ReadBack v b limit ∧ Magnitude i b limit ∧ CutOff l b limit
  := by
  intro h
  obtain ⟨n, hn⟩ : ∃ n, n = 2 ^ 28 := ⟨_, rfl⟩
  have hdigits : (number Conversion.llu.letter (2 ^ 64 - 1)).length = 20 := by decide +kernel
  have hlen : 2 ^ 32 ≤ (numbers (List.replicate n (.llu, 2 ^ 64 - 1))).length := by
    rw [length_numbers_replicate, hdigits]
    omega
  obtain ⟨-, -, hcut⟩ := h 0 0 (List.replicate n (.llu, 2 ^ 64 - 1)) (fun _ => 0) (2 ^ 33)
  rw [cutOff_iff_of_wraps _ (Nat.sub_add_cancel Nat.one_le_two_pow) (by norm_num) hlen] at hcut
  exact absurd hcut.1 (by norm_num)

end Uoscrt

end UOS
