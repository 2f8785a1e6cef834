import Cofuos.Boot.Sectors
import Cofuos.Lib.Logged
import Mathlib.Data.UInt

/-!
# The frames of the debugger

A packet goes over the serial line between `$` and `#`, with two hexadecimal digits of a sum of its
bytes behind it. The characters that have a meaning in the frame are escaped. The definitions follow
`kdb_stub::send` and `kdb_stub::recv` of `kernel/exception/kdb.cpp`. What a computation puts on the
line, and which bytes of the buffer it touches, are its events.

Each string of at most `0x400` bytes that is sent is received as it is, and only frames are received.
-/

namespace UOS

namespace Kdb

open Boot Logged

/-- `buffer_size` -/
def bufferSize : ℕ := 0x400

/-- What is done. -/
inductive Event where
  /-- A byte is put on the line. -/
  | put (b : UInt8)
  /-- A byte of a packet is looked at. -/
  | interpret (i : ℕ)
  /-- Some bytes of the buffer are read. -/
  | load (i n : ℕ)
  /-- Some bytes of the buffer are written. -/
  | store (i n : ℕ)
  deriving DecidableEq

/-- Why a computation does not return. -/
inductive Stop where
  /-- It waits for a byte. -/
  | waiting
  /-- An argument is refused, and an error is sent. -/
  | refused (message : String)
  /-- An assertion does not hold. -/
  | assertFailed
  deriving DecidableEq

/-- The fields of a `kdb_stub` that hold a packet. -/
structure Stub where
  length : ℕ := 0
  buffer : Bytes := fun _ => 0

/-- `hexchar` -/
def hexchar (n : UInt8) : UInt8 := if n < 10 then 0x30 + n else 0x41 + (n - 10)

/-- `hex_to_bin` -/
def hexToBin (ch : UInt8) : UInt8 :=
  if 0x30 ≤ ch ∧ ch ≤ 0x39 then ch - 0x30
  else
    let ch := ch &&& 0xDF
    if 0x41 ≤ ch ∧ ch ≤ 0x46 then ch - 0x41 + 0x0A else 0xFF

/-! ### Sending -/

/-- `put_hex_char` -/
def putHexChar (ch : UInt8) : Logged Event Stop UInt8 := do
  emit (.put (hexchar (ch >>> 4)))
  emit (.put (hexchar (ch &&& 0x0F)))
  return hexchar (ch >>> 4) + hexchar (ch &&& 0x0F)

/-- `put_escaped_char` -/
def putEscapedChar (ch : UInt8) : Logged Event Stop UInt8 :=
  if ch = 0x23 ∨ ch = 0x24 ∨ ch = 0x2A ∨ ch = 0x7D then do
    emit (.put 0x7D)
    emit (.put (ch ^^^ 0x20))
    return 0x7D + (ch ^^^ 0x20)
  else do
    emit (.put ch)
    return ch

/-- The loop over a string, which returns the sum. -/
def putString : List UInt8 → UInt8 → Logged Event Stop UInt8
  | [], chksum => return chksum
  | ch :: str, chksum => do
      let sum ← putEscapedChar ch
      putString str (chksum + sum)

/-- A string in its frame. -/
def putPacket (str : List UInt8) : Logged Event Stop Unit := do
  emit (.put 0x24)
  let chksum ← putString str 0
  emit (.put 0x23)
  let _ ← putHexChar chksum
  return ()

/-- `send` of a string, with the bytes that are received meanwhile. -/
def send (str : List UInt8) : List UInt8 → Logged Event Stop (List UInt8)
  | [] => do
      putPacket str
      stop .waiting
  | ch :: input => do
      putPacket str
      if ch = 0x24 then
        emit (.put 0x2D)
        return input
      else if ch = 0x2B then return input
      else send str input

/-! ### Receiving -/

/-- The inner loop of `recv`, which returns the last byte, the sum, the index and the buffer. -/
def recvBody : UInt8 → ℕ → Bytes → List UInt8 →
    Logged Event Stop (UInt8 × UInt8 × ℕ × Bytes × List UInt8)
  | _, _, _, [] => stop .waiting
  | chksum, index, buffer, ch :: input =>
      if ch = 0x23 then return (ch, chksum, index, buffer, input)
      else if index ≥ bufferSize then return (ch, chksum, index, buffer, input)
      else if ch = 0x7D then
        match input with
        | [] => stop .waiting
        | ch :: input => do
            emit (.store index 1)
            recvBody (chksum + (0x7D + ch)) (index + 1)
              (Function.update buffer index (ch ^^^ 0x20)) input
      else do
        emit (.store index 1)
        recvBody (chksum + ch) (index + 1) (Function.update buffer index ch) input

/-- What is received behind the next `$`. -/
def awaitStart : List UInt8 → Option (List UInt8)
  | [] => none
  | ch :: input => if ch = 0x24 then some input else awaitStart input

/-- The rounds of `recv`. -/
def recvRounds : ℕ → Stub → List UInt8 → Logged Event Stop (Stub × List UInt8)
  | 0, _, _ => stop .waiting
  | rounds + 1, s, input =>
      match awaitStart input with
      | none => stop .waiting
      | some input => do
          let (ch, chksum, index, buffer, input) ← recvBody 0 0 s.buffer input
          if ch = 0x23 then
            match input with
            | hi :: lo :: input =>
                if hexToBin hi ≤ 0x0F ∧ hexToBin lo ≤ 0x0F ∧
                    (hexToBin hi <<< 4 ||| hexToBin lo) = chksum then
                  emit (.put 0x2B)
                  return ({ length := index, buffer := buffer }, input)
                else
                  emit (.put 0x2D)
                  recvRounds rounds { s with buffer := buffer } input
            | _ => stop .waiting
          else
            emit (.put 0x2D)
            recvRounds rounds { s with buffer := buffer } input

/-- `recv`, with the bytes that are received. Each round takes at least one of them. -/
def recv (s : Stub) (input : List UInt8) : Logged Event Stop (Stub × List UInt8) :=
  recvRounds (input.length + 1) s input

/-! ### Frames -/

/-- The byte that an event puts on the line. -/
def Event.byte? : Event → Option UInt8
  | .put b => some b
  | _ => none

/-- What is put on the line. -/
def line (events : List Event) : List UInt8 := events.filterMap Event.byte?

/-- A body and what it stands for. -/
inductive Escaped : List UInt8 → List UInt8 → Prop
  | nil : Escaped [] []
  | plain {ch : UInt8} {body str : List UInt8} : ch ≠ 0x23 → ch ≠ 0x7D → Escaped body str →
      Escaped (ch :: body) (ch :: str)
  | escape {ch : UInt8} {body str : List UInt8} : Escaped body str →
      Escaped (0x7D :: ch :: body) ((ch ^^^ 0x20) :: str)

/-- The first bytes of the buffer are a string. -/
structure Holds (s : Stub) (str : List UInt8) : Prop where
  length : s.length = str.length
  byte : ∀ i (hi : i < str.length), s.buffer i = str[i]

/-- The bytes before `rest` end with a frame. -/
def Framed (input rest str : List UInt8) : Prop :=
  ∃ front body hi lo, input = front ++ 0x24 :: (body ++ 0x23 :: hi :: lo :: rest) ∧
    Escaped body str ∧ str.length ≤ bufferSize ∧ hexToBin hi ≤ 0x0F ∧ hexToBin lo ≤ 0x0F ∧
    (hexToBin hi <<< 4 ||| hexToBin lo) = body.sum

/-! ### What is sent -/

variable {str input rest front : List UInt8} {chksum ch : UInt8} {index : ℕ} {buffer : Bytes}

theorem line_append (l l' : List Event) : line (l ++ l') = line l ++ line l' :=
  List.filterMap_append

/-- The bytes for a character. -/
def escape (ch : UInt8) : List UInt8 :=
  if ch = 0x23 ∨ ch = 0x24 ∨ ch = 0x2A ∨ ch = 0x7D then [0x7D, ch ^^^ 0x20] else [ch]

/-- The bytes of a string in its frame. -/
def packet (str : List UInt8) : List UInt8 :=
  0x24 :: (str.flatMap escape ++
    [0x23, hexchar ((str.flatMap escape).sum >>> 4), hexchar ((str.flatMap escape).sum &&& 0x0F)])

theorem putEscapedChar_eq (ch : UInt8) :
  putEscapedChar ch = ⟨(escape ch).map .put, .ok (escape ch).sum⟩
  := by
  rw [putEscapedChar, escape]
  split_ifs
  · simp [bind_of_result result_emit]
  · simp [bind_of_result result_emit]

theorem putString_eq (str : List UInt8) (chksum : UInt8) :
  putString str chksum = ⟨(str.flatMap escape).map .put, .ok (chksum + (str.flatMap escape).sum)⟩
  := by
  induction str generalizing chksum with
  | nil => simp [putString, pure, Logged.pure]
  | cons ch str ih =>
      rw [putString, putEscapedChar_eq, bind_of_result rfl, ih, List.flatMap_cons, List.map_append,
        List.sum_append, UInt8.add_assoc]

theorem putPacket_eq (str : List UInt8) : putPacket str = ⟨(packet str).map .put, .ok ()⟩ := by
  simp [putPacket, putString_eq, putHexChar, packet, bind_of_result, pure, Logged.pure]

/-- `send` starts with a packet, whatever is received. -/
theorem line_send (str acks : List UInt8) :
  ∃ more, line (send str acks).events = packet str ++ more
  := by
  have hline : line ((packet str).map .put) = packet str := by
    rw [line, List.filterMap_map]
    apply List.filterMap_some
  cases acks with
  | nil =>
      use []
      rw [send, putPacket_eq, bind_of_result rfl]
      simp [hline]
  | cons ch acks =>
      rw [send, putPacket_eq, bind_of_result rfl, line_append, hline]
      exact ⟨_, rfl⟩

/-! ### What is received -/

theorem store_cons (buffer : Bytes) (index : ℕ) (ch : UInt8) (str : List UInt8) :
  Bytes.store (Function.update buffer index ch) (index + 1) str = buffer.store index (ch :: str)
  := by
  funext a
  rcases Nat.lt_trichotomy a index with hlt | rfl | hgt
  · rw [Bytes.store_of_lt (by omega), Bytes.store_of_lt hlt, Function.update_of_ne hlt.ne]
  · rw [Bytes.store_of_lt (by omega), Function.update_self, Bytes.store, if_pos le_rfl, Nat.sub_self]
    rfl
  · obtain ⟨k, rfl⟩ := Nat.exists_eq_add_of_lt hgt
    rw [Bytes.store, Bytes.store, if_pos (by lia), if_pos (by lia),
      Function.update_of_ne (by lia), show index + k + 1 - (index + 1) = k by lia,
      show index + k + 1 - index = k + 1 by lia, List.getElem?_cons_succ]

/-- A round of the inner loop. -/
theorem recvBody_plain (h : ch ≠ 0x23) (hroom : index < bufferSize) (hplain : ch ≠ 0x7D) :
  recvBody chksum index buffer (ch :: input) = (do
    emit (.store index 1)
    recvBody (chksum + ch) (index + 1) (Function.update buffer index ch) input)
  := by
  rw [recvBody.eq_def]
  dsimp only
  rw [if_neg h, if_neg (by omega), if_neg hplain]

theorem recvBody_escape (hroom : index < bufferSize) :
  recvBody chksum index buffer (0x7D :: ch :: input) = (do
    emit (.store index 1)
    recvBody (chksum + (0x7D + ch)) (index + 1) (Function.update buffer index (ch ^^^ 0x20)) input)
  := by
  rw [recvBody.eq_def]
  dsimp only
  rw [if_neg (by decide), if_neg (by omega), if_pos rfl]

theorem recvBody_last (h : ch = 0x23 ∨ bufferSize ≤ index) :
  recvBody chksum index buffer (ch :: input) = pure (ch, chksum, index, buffer, input)
  := by
  rw [recvBody.eq_def]
  dsimp only
  by_cases hch : ch = 0x23
  · rw [if_pos hch]
  · rw [if_neg hch, if_pos (h.resolve_left hch)]

/-- The inner loop of `recv` stores what a body stands for. -/
theorem recvBody_of_escaped (input : List UInt8) {body : List UInt8} (h : Escaped body str) :
  ∀ (chksum : UInt8) (index : ℕ) (buffer : Bytes), index + str.length ≤ bufferSize →
  ∃ events, line events = [] ∧ recvBody chksum index buffer (body ++ 0x23 :: input) =
    ⟨events, .ok (0x23, chksum + body.sum, index + str.length, buffer.store index str, input)⟩
  := by
  induction h with
  | nil =>
      intro chksum index buffer _
      use [], rfl
      have hsame : buffer.store index [] = buffer := by
        funext a
        simp [Bytes.store]
      rw [List.nil_append, recvBody_last (.inl rfl), hsame, List.sum_nil, UInt8.add_zero]
      rfl
  | @plain ch body str hch hch' _ ih =>
      intro chksum index buffer hroom
      rw [List.length_cons] at hroom
      obtain ⟨events, hline, hbody⟩ := ih (chksum + ch) (index + 1)
        (Function.update buffer index ch) (by omega)
      use .store index 1 :: events, hline
      rw [List.cons_append, recvBody_plain hch (by omega) hch', hbody, store_cons,
        bind_of_result rfl, List.sum_cons, UInt8.add_assoc, List.length_cons]
      simp
      omega
  | @escape ch body str _ ih =>
      intro chksum index buffer hroom
      rw [List.length_cons] at hroom
      obtain ⟨events, hline, hbody⟩ := ih (chksum + (0x7D + ch)) (index + 1)
        (Function.update buffer index (ch ^^^ 0x20)) (by omega)
      use .store index 1 :: events, hline
      rw [List.cons_append, List.cons_append, recvBody_escape (by omega), hbody, store_cons, bind_of_result rfl, List.sum_cons, List.sum_cons, UInt8.add_assoc,
        List.length_cons]
      simp [UInt8.add_assoc]
      omega

/-- A body that the inner loop of `recv` has passed. -/
theorem escaped_of_recvBody {r : UInt8 × UInt8 × ℕ × Bytes × List UInt8} (hindex : index ≤ bufferSize)
    (h : (recvBody chksum index buffer input).result = .ok r) :
  ∃ body str, input = body ++ r.1 :: r.2.2.2.2 ∧ Escaped body str ∧ r.2.1 = chksum + body.sum ∧
    r.2.2.1 = index + str.length ∧ r.2.2.1 ≤ bufferSize ∧ r.2.2.2.1 = buffer.store index str
  := by
  have hsame : ∀ (buffer : Bytes) (index : ℕ), buffer = buffer.store index [] := by
    intro buffer index
    funext a
    simp [Bytes.store]
  fun_induction recvBody chksum index buffer input with
  | case1 => cases h
  | case2 chksum index buffer input =>
      cases h
      exact ⟨[], [], rfl, .nil, by simp, rfl, hindex, hsame _ _⟩
  | case3 chksum index buffer ch input =>
      cases h
      exact ⟨[], [], rfl, .nil, by simp, rfl, hindex, hsame _ _⟩
  | case4 => cases h
  | case5 chksum index buffer hroom ch input _ ih =>
      obtain ⟨_, -, hrest⟩ := result_bind.1 h
      obtain ⟨body, str, rfl, hbody, hsum, hlen, hle, hbuffer⟩ := ih (by omega) hrest
      refine ⟨0x7D :: ch :: body, (ch ^^^ 0x20) :: str, rfl, hbody.escape, ?_, ?_, hle, ?_⟩
      · rw [hsum, List.sum_cons, List.sum_cons, UInt8.add_assoc, UInt8.add_assoc]
      · rw [hlen, List.length_cons]
        omega
      · rw [hbuffer, store_cons]
  | case6 chksum index buffer ch input hch hroom hplain ih =>
      obtain ⟨_, -, hrest⟩ := result_bind.1 h
      obtain ⟨body, str, rfl, hbody, hsum, hlen, hle, hbuffer⟩ := ih (by omega) hrest
      refine ⟨ch :: body, ch :: str, rfl, hbody.plain hch hplain, ?_, ?_, hle, ?_⟩
      · rw [hsum, List.sum_cons, UInt8.add_assoc]
      · rw [hlen, List.length_cons]
        omega
      · rw [hbuffer, store_cons]

/-! ### Frames that are received -/

/-- What comes before the next `$`. -/
theorem awaitStart_eq_some (h : awaitStart input = some rest) : ∃ front, input = front ++ 0x24 :: rest := by
  induction input with
  | nil => cases h
  | cons ch input ih =>
      rw [awaitStart] at h
      split_ifs at h with hch
      · cases h
        exact ⟨[], by rw [hch, List.nil_append]⟩
      · obtain ⟨front, rfl⟩ := ih h
        exact ⟨ch :: front, rfl⟩

theorem awaitStart_append (h : (0x24 : UInt8) ∉ front) : awaitStart (front ++ 0x24 :: rest) = some rest := by
  induction front with
  | nil => rfl
  | cons ch front ih =>
      rw [List.mem_cons, not_or] at h
      rw [List.cons_append, awaitStart, if_neg (Ne.symm h.1), ih h.2]

theorem Framed.append (h : Framed input rest str) (front : List UInt8) :
  Framed (front ++ input) rest str
  := by
  obtain ⟨front', body, hi, lo, rfl, hbody⟩ := h
  exact ⟨front ++ front', body, hi, lo, by rw [List.append_assoc], hbody⟩

/-- The buffer holds a string that has been stored at its start. -/
theorem holds_store (buffer : Bytes) (str : List UInt8) :
  Holds { length := str.length, buffer := buffer.store 0 str } str
  := by
  refine ⟨rfl, fun i hi => ?_⟩
  have hbyte : buffer.store 0 str (0 + i) = str[i] := Bytes.store_of_mem hi
  rwa [Nat.zero_add] at hbyte

/-- What `recv` returns for is a frame, of which the buffer holds the string. -/
theorem framed_of_recvRounds (n : ℕ) : ∀ {s s' : Stub} {input rest : List UInt8},
    (recvRounds n s input).result = .ok (s', rest) →
  ∃ str, Framed input rest str ∧ Holds s' str
  := by
  induction n with
  | zero =>
      intro s s' input rest h
      cases h
  | succ n ih =>
      intro s s' input rest h
      rw [recvRounds] at h
      cases hstart : awaitStart input with
      | none =>
          rw [hstart] at h
          cases h
      | some input₁ =>
          obtain ⟨front, rfl⟩ := awaitStart_eq_some hstart
          rw [hstart] at h
          obtain ⟨⟨ch, chksum, index, buffer, input₂⟩, hbody, h⟩ := result_bind.1 h
          obtain ⟨body, str, hinput, hescaped, hsum, hlen, hle, hbuffer⟩ :=
            escaped_of_recvBody (Nat.zero_le _) hbody
          dsimp only at h hinput hsum hlen hle hbuffer
          -- a round that fails has taken some of the input
          have hretry : ∀ {t : Stub} {input₃ : List UInt8}, (∃ front, input₁ = front ++ input₃) →
              (do
                emit (Event.put 0x2D)
                recvRounds n t input₃).result = .ok (s', rest) →
              ∃ str, Framed (front ++ 0x24 :: input₁) rest str ∧ Holds s' str := by
            rintro t input₃ ⟨front', rfl⟩ hrest
            obtain ⟨_, -, hrest⟩ := result_bind.1 hrest
            obtain ⟨str, hframed, hholds⟩ := ih hrest
            have hall := hframed.append (front ++ 0x24 :: front')
            rw [List.append_assoc, List.cons_append] at hall
            exact ⟨str, hall, hholds⟩
          split_ifs at h with hend
          · match input₂, h with
            | [], h => cases h
            | [_], h => cases h
            | hi :: lo :: input₃, h =>
                dsimp only at h
                split_ifs at h with hdigits
                · obtain ⟨_, -, hdone⟩ := result_bind.1 h
                  cases hdone
                  refine ⟨str, ?_, ?_⟩
                  · rw [hend] at hinput
                    rw [hsum, UInt8.zero_add] at hdigits
                    exact ⟨front, body, hi, lo, by rw [hinput], hescaped, by omega, hdigits⟩
                  · rw [hbuffer, hlen, Nat.zero_add]
                    apply holds_store
                · apply hretry _ h
                  exact ⟨body ++ [ch, hi, lo], by rw [hinput, List.append_assoc]; rfl⟩
          · apply hretry _ h
            exact ⟨body ++ [ch], by rw [hinput, List.append_assoc]; rfl⟩

/-! ### The round trip -/

/-- A string is received as its packet. -/
theorem escaped_flatMap (str : List UInt8) : Escaped (str.flatMap escape) str := by
  induction str with
  | nil => apply Escaped.nil
  | cons ch str ih =>
      rw [List.flatMap_cons, escape]
      split_ifs with h
      · have hback : ch = (ch ^^^ 0x20) ^^^ 0x20 := by
          rw [UInt8.xor_assoc]
          simp
        nth_rewrite 2 [hback]
        apply ih.escape
      · simp only [not_or] at h
        apply ih.plain h.1 h.2.2.2

/-- A byte is read back from its two digits. -/
theorem hexToBin_hexchar (b : UInt8) :
  hexToBin (hexchar (b >>> 4)) ≤ 0x0F ∧ hexToBin (hexchar (b &&& 0x0F)) ≤ 0x0F ∧
    (hexToBin (hexchar (b >>> 4)) <<< 4 ||| hexToBin (hexchar (b &&& 0x0F))) = b
  := by
  have hall : ∀ n < 256, hexToBin (hexchar (UInt8.ofNat n >>> 4)) ≤ 0x0F ∧
      hexToBin (hexchar (UInt8.ofNat n &&& 0x0F)) ≤ 0x0F ∧
      (hexToBin (hexchar (UInt8.ofNat n >>> 4)) <<< 4 ||| hexToBin (hexchar (UInt8.ofNat n &&& 0x0F))) =
        UInt8.ofNat n := by
    decide +kernel
  have hb := hall b.toNat b.toNat_lt
  rwa [UInt8.ofNat_toNat] at hb

/-- What `send` puts on the line is received. -/
structure Received (s : Stub) (front str acks : List UInt8) : Prop where
  result : ∃ s' rest, (recv s (front ++ line (send str acks).events)).result = .ok (s', rest) ∧ Holds s' str
  answer : line (recv s (front ++ line (send str acks).events)).events = [0x2B]

theorem received_of_length (s : Stub) (acks : List UInt8) (hfront : (0x24 : UInt8) ∉ front)
    (hlen : str.length ≤ bufferSize) :
  Received s front str acks
  := by
  obtain ⟨more, hmore⟩ := line_send str acks
  obtain ⟨events, hline, hbody⟩ := recvBody_of_escaped
    (hexchar ((str.flatMap escape).sum >>> 4) :: hexchar ((str.flatMap escape).sum &&& 0x0F) :: more)
    (escaped_flatMap str) 0 0 s.buffer (by omega)
  have hinput : front ++ line (send str acks).events = front ++ (0x24 : UInt8) :: (str.flatMap escape ++
      0x23 :: hexchar ((str.flatMap escape).sum >>> 4) ::
        hexchar ((str.flatMap escape).sum &&& 0x0F) :: more) := by
    rw [hmore, packet]
    simp
  have hrecv : recv s (front ++ line (send str acks).events) =
      ⟨events ++ [.put 0x2B], .ok ({ length := 0 + str.length, buffer := s.buffer.store 0 str }, more)⟩ := by
    rw [recv, recvRounds, hinput, awaitStart_append hfront]
    dsimp only
    rw [hbody, bind_of_result rfl]
    dsimp only
    rw [if_pos rfl, UInt8.zero_add, if_pos (hexToBin_hexchar _), bind_of_result rfl]
    rfl
  constructor
  · refine ⟨_, more, by rw [hrecv], ?_⟩
    rw [Nat.zero_add]
    apply holds_store
  · rw [hrecv, line_append, hline]
    rfl

/-- A string that fits into the buffer is received as it has been sent, and only frames are received. -/
theorem framing (s : Stub) (acks : List UInt8) (hfront : (0x24 : UInt8) ∉ front)
    (hlen : str.length ≤ bufferSize) :
  Received s front str acks ∧
    ∀ input rest s', (recv s input).result = .ok (s', rest) → ∃ str, Framed input rest str ∧ Holds s' str
  := ⟨received_of_length s acks hfront hlen, fun _ _ _ h => framed_of_recvRounds _ h⟩

/-- Framing characters are received behind a `+`. -/
theorem framing_escaped :
  Received {} [0x2B] [0x23, 0x24, 0x41, 0x7D] [0x2B] ∧
    ∀ input rest s', (recv {} input).result = .ok (s', rest) → ∃ str, Framed input rest str ∧ Holds s' str
  := framing {} [0x2B] (by decide) (by decide)

end Kdb

end UOS
