import Mathlib.Tactic

/-!
Streams of bytes cut into frames: four bytes with the length, the most significant first,
and as many bytes as they say.

* `bigEndian`, `ofBigEndian`: numbers as bytes; `ofBigEndian_bigEndian`.
* `readExact`, `frame`, `readFrame`: how frames are written and read, up to a limit.
* `readFrame_frame`: what was written is read, and what follows it is left; `readFrame_eq_ok`:
  when reading succeeds; `exists_taken`: no read goes past the frame;
  `readFrame_of_prefix`: a frame that is cut off is not read.
-/

namespace Framing

/-! ### Numbers as bytes -/

/-- The last `k` bytes of `n`, the most significant one first. -/
def bigEndian : ℕ → ℕ → List UInt8
  | 0, _ => []
  | k + 1, n => bigEndian k (n / 256) ++ [UInt8.ofNat n]

/-- The number that bytes stand for, the most significant one first. -/
def ofBigEndian (bytes : List UInt8) : ℕ := bytes.foldl (fun n b => n * 256 + b.toNat) 0

@[simp]
lemma length_bigEndian (k n : ℕ) : (bigEndian k n).length = k := by
  induction k generalizing n with
  | zero => rfl
  | succ k ih => rw [bigEndian, List.length_append, ih, List.length_singleton]

lemma ofBigEndian_concat (bytes : List UInt8) (b : UInt8) :
    ofBigEndian (bytes ++ [b]) = ofBigEndian bytes * 256 + b.toNat := by
  rw [ofBigEndian, ofBigEndian, List.foldl_append]
  rfl

lemma ofBigEndian_bigEndian {k n : ℕ} (h : n < 256 ^ k) : ofBigEndian (bigEndian k n) = n := by
  induction k generalizing n with
  | zero =>
      rw [pow_zero] at h
      rw [bigEndian, ofBigEndian, List.foldl_nil]
      omega
  | succ k ih =>
      have hdiv : n / 256 < 256 ^ k := by
        rw [pow_succ] at h
        omega
      calc ofBigEndian (bigEndian (k + 1) n)
          = ofBigEndian (bigEndian k (n / 256)) * 256 + (UInt8.ofNat n).toNat :=
            ofBigEndian_concat _ _
        _ = n / 256 * 256 + n % 256 := by rw [ih hdiv, UInt8.toNat_ofNat']
        _ = n := by omega

/-! ### Frames -/

/-- Why a frame is not read: the stream ends, or the frame is larger than the limit. -/
inductive FrameError where
  | finishedEarly
  | tooLarge (length : ℕ)
  deriving DecidableEq, Repr

/-- So many bytes of the stream, and what is left of it; a stream that ends before is used up. -/
def readExact (n : ℕ) (stream : List UInt8) : Option (List UInt8) × List UInt8 :=
  if n ≤ stream.length then (some (stream.take n), stream.drop n) else (none, [])

/-- A body behind its length as a 32 bit number. -/
def frame (body : List UInt8) : List UInt8 := bigEndian 4 (body.length % 2 ^ 32) ++ body

/-- The body of the next frame, and what is left of the stream. -/
def readFrame (limit : ℕ) (stream : List UInt8) :
    Except FrameError (List UInt8) × List UInt8 :=
  match readExact 4 stream with
  | (none, rest) => (.error .finishedEarly, rest)
  | (some header, rest) =>
      if ofBigEndian header ≤ limit then
        match readExact (ofBigEndian header) rest with
        | (none, rest) => (.error .finishedEarly, rest)
        | (some body, rest) => (.ok body, rest)
      else (.error (.tooLarge (ofBigEndian header)), rest)

variable {n limit : ℕ} {stream header body rest : List UInt8}

lemma readExact_append (h : header.length = n) (rest : List UInt8) :
    readExact n (header ++ rest) = (some header, rest) := by
  rw [readExact, if_pos (by rw [List.length_append]; omega), List.take_left' h, List.drop_left' h]

lemma readExact_of_lt (h : stream.length < n) : readExact n stream = (none, []) :=
  if_neg (not_le.mpr h)

/-- What is read comes off the front. -/
lemma eq_append_of_readExact (h : readExact n stream = (some header, rest)) :
    stream = header ++ rest ∧ header.length = n := by
  rw [readExact] at h
  split_ifs at h with hle
  · cases h
    exact ⟨(List.take_append_drop n stream).symm, List.length_take_of_le hle⟩
  · cases h

/-- A body behind any four bytes that say its length is read. -/
lemma readFrame_append (hheader : header.length = 4) (hbody : body.length = ofBigEndian header)
    (hlimit : body.length ≤ limit) (rest : List UInt8) :
    readFrame limit (header ++ (body ++ rest)) = (.ok body, rest) := by
  rw [readFrame, readExact_append hheader]
  simp only [if_pos (hbody ▸ hlimit), readExact_append hbody]

/-- **What was written** is read, and what follows is left. -/
theorem readFrame_frame (hlimit : body.length ≤ limit) (hlt : limit < 2 ^ 32)
    (rest : List UInt8) : readFrame limit (frame body ++ rest) = (.ok body, rest) := by
  have hmod : body.length % 2 ^ 32 = body.length := Nat.mod_eq_of_lt (by omega)
  rw [frame, hmod, List.append_assoc]
  refine readFrame_append (length_bigEndian _ _) ?_ hlimit rest
  exact (ofBigEndian_bigEndian (by omega)).symm

/-- **Reading succeeds** on a length up to the limit with as many bytes behind it. -/
theorem readFrame_eq_ok : readFrame limit stream = (.ok body, rest) ↔
    ∃ header, stream = header ++ (body ++ rest) ∧ header.length = 4
      ∧ body.length = ofBigEndian header ∧ body.length ≤ limit := by
  constructor
  · intro h
    rw [readFrame] at h
    split at h
    · cases h
    · rename_i header rest₁ hheader
      obtain ⟨rfl, hlen⟩ := eq_append_of_readExact hheader
      split_ifs at h with hle
      · split at h
        · cases h
        · rename_i body' rest₂ hbody
          obtain ⟨rfl, hbodylen⟩ := eq_append_of_readExact hbody
          cases h
          exact ⟨header, rfl, hlen, hbodylen, hbodylen ▸ hle⟩
      · cases h
  · rintro ⟨header, rfl, hheader, hbody, hlimit⟩
    exact readFrame_append hheader hbody hlimit rest

/-- **No read** goes past the frame at the front, whether it succeeds or not. -/
theorem exists_taken (limit : ℕ) (stream : List UInt8) :
    ∃ taken, stream = taken ++ (readFrame limit stream).2
      ∧ taken.length ≤ 4 + ofBigEndian (stream.take 4) := by
  rw [readFrame]
  by_cases hheader : stream.length < 4
  · rw [readExact_of_lt hheader]
    exact ⟨stream, (List.append_nil stream).symm, by omega⟩
  · obtain ⟨header, rest, rfl, hlen⟩ : ∃ header rest, stream = header ++ rest
        ∧ header.length = 4 :=
      ⟨stream.take 4, stream.drop 4, (List.take_append_drop 4 stream).symm,
        List.length_take_of_le (by omega)⟩
    rw [readExact_append hlen, List.take_left' hlen]
    simp only
    split_ifs
    · by_cases hbody : rest.length < ofBigEndian header
      · rw [readExact_of_lt hbody]
        exact ⟨header ++ rest, (List.append_nil _).symm, by rw [List.length_append]; omega⟩
      · rw [readExact, if_pos (by omega)]
        refine ⟨header ++ rest.take (ofBigEndian header), ?_, ?_⟩
        · rw [List.append_assoc, List.take_append_drop]
        · rw [List.length_append, List.length_take]
          omega
    · exact ⟨header, rfl, by omega⟩

/-- **A frame** that is cut off is not read. -/
theorem readFrame_of_prefix {cut : List UInt8} (hheader : header.length = 4)
    (hbody : body.length = ofBigEndian header) (hcut : cut <+: header ++ body)
    (hne : cut ≠ header ++ body) : ∃ e, (readFrame limit cut).1 = .error e := by
  rcases h : readFrame limit cut with ⟨e | body', rest⟩
  · exact ⟨e, rfl⟩
  · exfalso
    obtain ⟨header', rfl, hheader', hbody', -⟩ := readFrame_eq_ok.mp h
    have hsame : header' = header := by
      have hpre : header' <+: header ++ body := (List.prefix_append _ _).trans hcut
      have := List.prefix_of_prefix_length_le hpre (List.prefix_append header body) (by omega)
      exact this.eq_of_length (by omega)
    have hle := hcut.length_le
    subst hsame
    refine hne (hcut.eq_of_length (le_antisymm hle ?_))
    simp only [List.length_append]
    omega

end Framing
