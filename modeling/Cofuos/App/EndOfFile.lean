import Cofuos.App.Stdio

/-!
# The end of a file

When a file has no more bytes, `stream_state` reports `EOF_FAILURE`, and `block_read` of
`app/libuos/uoscrt.cpp` sets the flag `EOF_BIT`. But it does not return: it goes on to put no bytes into
the ring, and starts over. So a call returns exactly if the bytes that are left are enough for it.
-/

namespace UOS

namespace Stdio

/-! ### A file of finite size -/

/-- The answer to a refill is that of a file with so many bytes left: some of them are delivered, and
if there are none, the end of the file is reported. -/
structure Source.OfFile (src : Source) (left length : ℕ) : Prop where
  le : src.chunk length ≤ left
  pos : left ≠ 0 → src.chunk length ≠ 0
  eof : left = 0 → src.answer.state = 1

/-- The answers to the refills of `block_read` are those of a file with so many bytes left. -/
def FromFile : ℕ → File → Source → ℕ → ℕ → Prop
  | 0, _, _, _, _ => True
  | n + 1, f, src, length, left =>
      f.size < length → src.OfFile left (length - f.size) ∧
        ∀ f' src', refill (f.drop f.size) src (length - f.size) = .ok (true, f', src') →
          FromFile n f' src' (length - f.size) (left - src.chunk (length - f.size))

/-- The answers to the refills of `fgets` are those of a file with so many bytes left. -/
def FromFileLine : ℕ → File → Source → ℕ → Prop
  | 0, _, _, _ => True
  | k + 1, f, src, left =>
      (∀ n, FromFile n f src 1 left) ∧
        ∀ n ch f' src', blockRead n f src 1 = .ok (true, [ch], f', src') → ch ≠ newline →
          FromFileLine k f' src' (f.size + left - 1 - f'.size)

/-- The answers to the refills of a call are those of a file with so many bytes left. -/
def ReadsFile (f : File) (src : Source) (left : ℕ) : Op → Prop
  | .blockRead length => ∀ n, FromFile n f src length left
  | .fgetc => ∀ n, FromFile n f src 1 left
  | .fgets count => FromFileLine (count - 1).toNat f src left
  | .ungetc _ => True

/-- A call returns, and `block_read` delivers all bytes, or sets the flag when there are not enough. -/
def Ends (f : File) (src : Source) (left : ℕ) : Op → Prop
  | .blockRead length => ∃ n res out f' src', blockRead n f src length = .ok (res, out, f', src') ∧
      (length ≤ f.size + left → res = true ∧ out = (remaining f src).take length) ∧
      (f.size + left < length → res = false ∧ f'.flags &&& eofBit ≠ 0)
  | .fgetc => ∃ n r, fgetc n f src = .ok r
  | .fgets count => ∃ n r, fgets n f src count = .ok r
  | .ungetc _ => True

/-- The bytes in the ring and those that are left are enough for a call. -/
def Enough (f : File) (src : Source) (left : ℕ) : Op → Prop
  | .blockRead length => length ≤ f.size + left
  | .fgetc => 1 ≤ f.size + left
  | .fgets count => (count - 1).toNat ≤ f.size + left ∨ newline ∈ (remaining f src).take (f.size + left)
  | .ungetc _ => True

/-! ### Refills -/

variable {f f' : File} {src src' : Source} {n k length left : ℕ} {op : Op}

/-- A copy does not move the head and the tail. -/
theorem File.copy_eq_ok {place : ℕ} {l : List UInt8} (h : f.copy place l = .ok f') :
  f'.head = f.head ∧ f'.tail = f.tail
  := by
  rw [copy] at h
  split_ifs at h
  cases h
  exact ⟨rfl, rfl⟩

/-- The tail moves by the bytes that are put into the ring, wherever they are copied to. -/
theorem File.fill_eq_ok {l : List UInt8} (h : f.fill l = .ok f') :
  f'.head = f.head ∧ f'.tail = (f.tail + l.length) % ringSize
  := by
  rw [fill] at h
  split_ifs at h
  · obtain ⟨f₁, hcopy, h⟩ := Except.bind_eq_ok_iff.mp h
    obtain ⟨hhead, htail⟩ := copy_eq_ok hcopy
    cases h
    exact ⟨hhead, by rw [grow, htail]⟩
  · obtain ⟨f₁, hcopy, h⟩ := Except.bind_eq_ok_iff.mp h
    obtain ⟨f₂, hcopy', h⟩ := Except.bind_eq_ok_iff.mp h
    obtain ⟨hhead, htail⟩ := copy_eq_ok hcopy
    obtain ⟨hhead', htail'⟩ := copy_eq_ok hcopy'
    cases h
    exact ⟨hhead'.trans hhead, by rw [grow, htail', htail]⟩

/-- A refill of an empty ring that returns has delivered its bytes, wherever they are copied to. -/
theorem refill_eq_ok (h : f.Valid) (hcalm : src.Calm) (hempty : f.head = f.tail) {res : Bool}
    (hok : refill f src length = .ok (res, f', src')) :
  res = true ∧ f'.Valid ∧ f'.size = src.chunk length ∧ src'.answers = src.answers
  := by
  have hlen : (src.rest.take (src.chunk length)).length = src.chunk length := Stream'.length_take _ _
  have hdone : ∀ f₁ : File, f₁.Valid → f₁.head = f₁.tail →
      (do
        let f ← f₁.fill (src.rest.take (src.chunk length))
        .ok (true, f, src.advance (src.chunk length))) = Except.ok (res, f', src') →
      res = true ∧ f'.Valid ∧ f'.size = src.chunk length ∧ src'.answers = src.answers := by
    intro f₁ h₁ hempty₁ hok
    obtain ⟨f₂, hf₂, hok⟩ := Except.bind_eq_ok_iff.mp hok
    obtain ⟨hhead, htail⟩ := File.fill_eq_ok hf₂
    rw [hlen] at htail
    cases hok
    refine ⟨rfl, ⟨hhead ▸ h₁.head, by rw [htail]; exact Nat.mod_lt _ (by decide)⟩, ?_, rfl⟩
    rw [File.size, htail, hhead]
    apply h₁.size_fill _ hempty₁ ((src.chunk_le length).trans_lt (by decide))
  have ha : src.answer.Calm := hcalm src.calls
  rw [refill] at hok
  simp only [ha.status, ne_eq, not_true_eq_false, if_false] at hok
  by_cases hzero : min src.answer.size (request length) = 0
  · have hreason : ¬ (¬ src.answer.reason = 1 ∧ ¬ src.answer.reason = 2) := by
      have hreason := ha.reason
      tauto
    rw [if_pos hzero, if_neg hreason] at hok
    rcases ha.state with hstate | hstate
    · simp only [hstate] at hok
      apply hdone f h hempty hok
    · simp only [hstate] at hok
      apply hdone (f.mark eofBit) ⟨h.head, h.tail⟩ hempty hok
  · rw [if_neg hzero] at hok
    apply hdone f h hempty hok

/-! ### Reading -/

/-- If `block_read` returns, the bytes were enough, and it has taken so many of them. -/
theorem blockRead_of_ok (n : ℕ) : ∀ {f : File} {src : Source} {length left : ℕ}
    {r : Bool × List UInt8 × File × Source}, f.Valid → src.Calm → FromFile n f src length left →
    blockRead n f src length = .ok r →
  r.1 = true ∧ length ≤ f.size + left ∧ r.2.2.1.size + length ≤ f.size + left
  := by
  induction n with
  | zero =>
      intro f src length left r _ _ _ hok
      cases hok
  | succ n ih =>
      intro f src length left r h hcalm hfile hok
      by_cases hle : length ≤ f.size
      · rw [blockRead_last n hle] at hok
        cases hok
        have hsize := h.size_drop hle
        dsimp only
        exact ⟨rfl, by lia, by lia⟩
      · have hlt := Nat.lt_of_not_le hle
        obtain ⟨hof, hnext⟩ := hfile hlt
        have hle' := hof.le
        cases hrefill : refill (f.drop f.size) src (length - f.size) with
        | error e =>
            rw [blockRead, min_eq_left hlt.le] at hok
            simp only [if_neg (Nat.sub_ne_zero_of_lt hlt), hrefill] at hok
            cases hok
        | ok r₁ =>
            obtain ⟨res, f₁, src₁⟩ := r₁
            obtain ⟨rfl, h₁, hsize, hans⟩ := refill_eq_ok (h.drop f.size) hcalm h.drop_size hrefill
            rw [blockRead_round n hlt hrefill] at hok
            obtain ⟨⟨res', more, f₂, src₂⟩, hread, hok⟩ := Except.bind_eq_ok_iff.mp hok
            obtain ⟨hres, henough, htaken⟩ := ih h₁ (hcalm.of_eq hans) (hnext _ _ hrefill) hread
            cases hok
            dsimp only at hres htaken ⊢
            exact ⟨hres, by lia, by lia⟩

/-- If the bytes are enough, `block_read` returns. The induction is on the number of bytes that are
needed. -/
theorem blockRead_of_enough (need : ℕ) : ∀ {f : File} {src : Source} {length left : ℕ}, f.Valid →
    src.Calm → (∀ n, Smooth n f src length) → (∀ n, FromFile n f src length left) →
    length ≤ f.size + left → length - f.size ≤ need →
  ∃ n r, blockRead n f src length = .ok r
  := by
  induction need with
  | zero =>
      intro f src length left _ _ _ _ _ hneed
      exact ⟨1, _, blockRead_last 0 (by lia)⟩
  | succ need ih =>
      intro f src length left h hcalm hsmooth hfile henough hneed
      by_cases hle : length ≤ f.size
      · exact ⟨1, _, blockRead_last 0 hle⟩
      · have hlt := Nat.lt_of_not_le hle
        have hof := (hfile 1 hlt).1
        have hle' := hof.le
        have hpos := hof.pos (by omega)
        obtain ⟨f₁, src₁, hrefill, h₁, hans, -, -, hsize⟩ := refill_step h hcalm (hsmooth 1 hlt).1
        obtain ⟨n, r, hr⟩ := ih h₁ (hcalm.of_eq hans)
          (fun n => (hsmooth (n + 1) hlt).2 f₁ src₁ hrefill)
          (fun n => (hfile (n + 1) hlt).2 f₁ src₁ hrefill) (by lia) (by lia)
        refine ⟨n + 1, (r.1, f.front f.size ++ r.2.1, r.2.2.1, r.2.2.2), ?_⟩
        rw [blockRead_round n hlt hrefill, hr]
        rfl

/-! ### Lines -/

/-- The loop of `fgets` returns exactly if there is a line, or there are enough bytes. -/
theorem fgetsLoop_iff (k : ℕ) : ∀ {f : File} {src : Source} {left : ℕ}, f.Valid → src.Calm →
    SmoothLine k f src → FromFileLine k f src left →
  ((∃ n r, fgetsLoop n k f src = .ok r) ↔
    k ≤ f.size + left ∨ newline ∈ (remaining f src).take (f.size + left))
  := by
  induction k with
  | zero =>
      intro f src left _ _ _ _
      exact ⟨fun _ => .inl (Nat.zero_le _), fun _ => ⟨0, _, rfl⟩⟩
  | succ k ih =>
      intro f src left h hcalm hsmooth hfile
      have htake : ∀ a, 1 ≤ a → (remaining f src).take a =
          (remaining f src).head :: (remaining f src).tail.take (a - 1) := by
        intro a ha
        obtain ⟨b, rfl⟩ := Nat.exists_eq_add_of_le' ha
        rw [Stream'.take_succ, Nat.add_sub_cancel]
      -- the rest of the line, after one character that does not end it
      have hrest : ∀ n f₁ src₁, blockRead n f src 1 = .ok (true, (remaining f src).take 1, f₁, src₁) →
          Reads f src 1 f₁ src₁ → (remaining f src).head ≠ newline →
          ((∃ m r, fgetsLoop m k f₁ src₁ = .ok r) ↔ k ≤ f.size + left - 1 ∨
            newline ∈ (remaining f src).tail.take (f.size + left - 1)) := by
        intro n f₁ src₁ hread hreads hline
        obtain ⟨-, -, htaken⟩ := blockRead_of_ok n h hcalm (hfile.1 n) hread
        have hsum : f₁.size + (f.size + left - 1 - f₁.size) = f.size + left - 1 := by
          dsimp only at htaken
          lia
        rw [ih hreads.valid (hcalm.of_eq hreads.answers) (hsmooth.2 n _ f₁ src₁ hread hline)
          (hfile.2 n _ f₁ src₁ hread hline), hsum, hreads.remaining]
        rfl
      constructor
      · rintro ⟨n, r, hok⟩
        obtain hfuel | ⟨f₁, src₁, hread, hreads⟩ := blockRead_cases n h hcalm (hsmooth.1 n)
        · rw [fgetsLoop, hfuel] at hok
          cases hok
        · have hone := (blockRead_of_ok n h hcalm (hfile.1 n) hread).2.1
          rw [htake _ hone, List.mem_cons]
          by_cases hline : (remaining f src).head = newline
          · exact .inr (.inl hline.symm)
          · rw [fgetsLoop_round k hread, if_neg hline] at hok
            obtain ⟨r', hloop, -⟩ := Except.bind_eq_ok_iff.mp hok
            rcases (hrest n f₁ src₁ hread hreads hline).1 ⟨n, r', hloop⟩ with hle | hmem
            · exact .inl (by lia)
            · exact .inr (.inr hmem)
      · intro henough
        have hone : 1 ≤ f.size + left := by
          rcases henough with hle | hmem
          · omega
          · by_contra hzero
            rw [show f.size + left = 0 by omega] at hmem
            cases hmem
        obtain ⟨n, r, hr⟩ := blockRead_of_enough _ h hcalm hsmooth.1 hfile.1 hone le_rfl
        obtain hfuel | ⟨f₁, src₁, hread, hreads⟩ := blockRead_cases n h hcalm (hsmooth.1 n)
        · rw [hfuel] at hr
          cases hr
        · by_cases hline : (remaining f src).head = newline
          · refine ⟨n, ([(remaining f src).head], f₁, src₁), ?_⟩
            rw [fgetsLoop_round k hread, if_pos hline]
          · rw [htake _ hone, List.mem_cons] at henough
            obtain ⟨m, r', hloop⟩ := (hrest n f₁ src₁ hread hreads hline).2 (by
              rcases henough with hle | heq | hmem
              · exact .inl (by lia)
              · exact absurd heq.symm hline
              · exact .inr hmem)
            refine ⟨max n m, ((remaining f src).head :: r'.1, r'.2.1, r'.2.2), ?_⟩
            rw [fgetsLoop_round k (blockRead_le (Nat.le_max_left n m) hread), if_neg hline,
              fgetsLoop_le (Nat.le_max_right n m) k hloop]
            rfl

/-! ### Calls -/

/-- A call on a file of finite size ends as it should exactly if the bytes that are left are enough for
it, as long as every refill is copied to the right places. -/
theorem ends_iff (h : f.Valid) (hcalm : src.Calm) (hfile : ReadsFile f src left op)
    (hserves : op.Serves f src) :
  Ends f src left op ↔ Enough f src left op
  := by
  cases op with
  | blockRead length =>
      constructor
      · rintro ⟨n, res, out, f', src', hread, -⟩
        exact (blockRead_of_ok n h hcalm (hfile n) hread).2.1
      · intro henough
        obtain ⟨n, r, hr⟩ := blockRead_of_enough _ h hcalm hserves hfile henough le_rfl
        obtain hfuel | ⟨f', src', hread, -⟩ := blockRead_cases n h hcalm (hserves n)
        · rw [hfuel] at hr
          cases hr
        · exact ⟨n, _, _, f', src', hread, fun _ => ⟨rfl, rfl⟩,
            fun hlt => absurd hlt (Nat.not_lt.2 henough)⟩
  | fgetc =>
      constructor
      · rintro ⟨n, r, hok⟩
        obtain ⟨r', hread, -⟩ := Except.bind_eq_ok_iff.mp hok
        exact (blockRead_of_ok n h hcalm (hfile n) hread).2.1
      · intro henough
        obtain ⟨n, r, hr⟩ := blockRead_of_enough _ h hcalm hserves hfile henough le_rfl
        refine ⟨n, (if r.1 = true then toInt (r.2.1.headD 0) else eof, r.2.2.1, r.2.2.2), ?_⟩
        rw [fgetc, hr]
        rfl
  | fgets count =>
      apply Iff.trans _ (fgetsLoop_iff _ h hcalm hserves hfile)
      constructor
      · rintro ⟨n, r, hok⟩
        rw [fgets_eq] at hok
        obtain ⟨r', hloop, -⟩ := Except.bind_eq_ok_iff.mp hok
        exact ⟨n, r', hloop⟩
      · rintro ⟨n, r, hloop⟩
        refine ⟨n, (if count = 1 ∨ r.1 ≠ [] then some r.1 else none, r.2.1, r.2.2), ?_⟩
        rw [fgets_eq, hloop]
        rfl
  | ungetc ch => exact ⟨fun _ => trivial, fun _ => trivial⟩

/-- A file of one byte, which is delivered at once. -/
def single : Source := ⟨fun _ => 0x41, fun _ => { size := 1, reason := 1 }, 0⟩

theorem single_calm : single.Calm := fun _ => ⟨rfl, .inl rfl, .inl rfl⟩

/-- The byte is read. -/
theorem single_ends : Ends {} single 1 (.blockRead 1) := by
  have hvalid : File.Valid {} := ⟨by decide, by decide⟩
  have hserves : Op.Serves {} single (.blockRead 1) :=
    smooth_of_chunk hvalid single_calm (.inl (by decide)) (by decide)
  have hfile : ReadsFile {} single 1 (.blockRead 1) := by
    intro n
    cases n with
    | zero => trivial
    | succ n =>
        intro _
        refine ⟨⟨by decide, by decide, by decide⟩, ?_⟩
        intro f' src' hrefill
        obtain ⟨-, -, hsize, -⟩ := refill_eq_ok (hvalid.drop _) single_calm hvalid.drop_size hrefill
        cases n with
        | zero => trivial
        | succ n =>
            intro hlt
            rw [hsize] at hlt
            exact absurd hlt (by decide)
  exact (ends_iff hvalid single_calm hfile hserves).2 (Nat.le_refl 1)

/-- A file without bytes, the end of which is reported. -/
def exhausted : Source := ⟨fun _ => 0, fun _ => { reason := 1, state := 1 }, 0⟩

theorem exhausted_calm : exhausted.Calm := fun _ => ⟨rfl, .inl rfl, .inr rfl⟩

/-- Its answers are those of a file with no bytes left. -/
theorem fromFile_exhausted (n : ℕ) : ∀ {f : File} {src : Source}, f.Valid →
    src.answers = exhausted.answers → FromFile n f src 1 0
  := by
  induction n with
  | zero =>
      intro f src _ _
      trivial
  | succ n ih =>
      intro f src h hans hlt
      have hzero : f.size = 0 := by omega
      have hanswer : src.answer = { reason := 1, state := 1 } := by
        rw [Source.answer, hans]
        rfl
      have hchunk : ∀ length, src.chunk length = 0 := by
        intro length
        rw [Source.chunk, hanswer]
        simp
      have hcalm : src.Calm := exhausted_calm.of_eq hans
      refine ⟨⟨by rw [hchunk], fun hne => absurd rfl hne, fun _ => by rw [hanswer]⟩, ?_⟩
      intro f' src' hrefill
      obtain ⟨-, h', -, hans'⟩ := refill_eq_ok (h.drop _) hcalm h.drop_size hrefill
      rw [hzero, Nat.sub_zero, hchunk, Nat.sub_zero]
      apply ih h' (hans'.trans hans)

/-- At the end of a file `block_read` does not return. -/
theorem end_of_file_not_reported :
  ¬ ∀ (f : File) (src : Source) (left : ℕ) (op : Op), f.Valid → src.Calm → ReadsFile f src left op →
    Ends f src left op
  := by
  intro hall
  have hvalid : File.Valid {} := ⟨by decide, by decide⟩
  have hfile : ∀ n, FromFile n {} exhausted 1 0 := fun n => fromFile_exhausted n hvalid rfl
  obtain ⟨n, res, out, f', src', hread, -⟩ := hall {} exhausted 0 (.blockRead 1) hvalid exhausted_calm hfile
  have henough := (blockRead_of_ok n hvalid exhausted_calm (hfile n) hread).2.1
  revert henough
  decide

end Stdio

end UOS
