import Mathlib.Tactic

/-!
Folding a byte string of any length into a block of fixed width by exclusive or.

* `fold`: byte `i` goes to place `i % width`; `bitCount`: how often a bit is set in the bytes
  of one place.
* `testBit_fold`: a bit of the block is the parity of its count, hence `fold_eq_iff`: two
  strings have one block if and only if all parities agree.
* `fold_twice_append`: a block that is repeated leaves no trace; `fold_eq_append`: a string
  that fits is only padded.
-/

namespace XorBlock

/-- One byte with its position goes into the block. -/
def absorb (width : ℕ) (block : List UInt8) (b : UInt8 × ℕ) : List UInt8 :=
  block.modify (b.2 % width) (· ^^^ b.1)

/-- All bytes go into a block of zeros. -/
def fold (width : ℕ) (bytes : List UInt8) : List UInt8 :=
  bytes.zipIdx.foldl (absorb width) (List.replicate width 0)

/-- How many of the bytes that go to a place have a bit set, when the first byte is at
position `start`. -/
def bitCountFrom (width : ℕ) (bytes : List UInt8) (start place bit : ℕ) : ℕ :=
  (bytes.zipIdx start).countP fun b => b.2 % width = place ∧ b.1.toNat.testBit bit

/-- The same from the first place on. -/
def bitCount (width : ℕ) (bytes : List UInt8) (place bit : ℕ) : ℕ :=
  bitCountFrom width bytes 0 place bit

/-- Every bit of every place is set equally often, up to an even number. -/
def SameParity (width : ℕ) (l l' : List UInt8) : Prop :=
  ∀ place < width, ∀ bit < 8, bitCount width l place bit % 2 = bitCount width l' place bit % 2

instance (width : ℕ) (l l' : List UInt8) : Decidable (SameParity width l l') :=
  inferInstanceAs (Decidable (∀ place < width, ∀ bit < 8, _ = _))

/-! ### Counting -/

@[simp]
lemma bitCountFrom_nil (width start place bit : ℕ) : bitCountFrom width [] start place bit = 0 :=
  rfl

lemma bitCountFrom_cons (width : ℕ) (b : UInt8) (bytes : List UInt8) (start place bit : ℕ) :
    bitCountFrom width (b :: bytes) start place bit
      = bitCountFrom width bytes (start + 1) place bit
        + if start % width = place ∧ b.toNat.testBit bit then 1 else 0 := by
  simp [bitCountFrom, List.zipIdx_cons, List.countP_cons]

lemma bitCountFrom_append (width : ℕ) (l l' : List UInt8) (start place bit : ℕ) :
    bitCountFrom width (l ++ l') start place bit
      = bitCountFrom width l start place bit
        + bitCountFrom width l' (start + l.length) place bit := by
  rw [bitCountFrom, List.zipIdx_append, List.countP_append]
  rfl

/-- Only the place of the start counts. -/
lemma bitCountFrom_congr {width start start' : ℕ} (h : start % width = start' % width)
    (bytes : List UInt8) (place bit : ℕ) :
    bitCountFrom width bytes start place bit = bitCountFrom width bytes start' place bit := by
  induction bytes generalizing start start' with
  | nil => rfl
  | cons b bytes ih =>
      have hnext : (start + 1) % width = (start' + 1) % width := by
        rw [Nat.add_mod, h, ← Nat.add_mod]
      rw [bitCountFrom_cons, bitCountFrom_cons, h, ih hnext]

/-! ### The block -/

@[simp]
lemma length_absorb (width : ℕ) (block : List UInt8) (b : UInt8 × ℕ) :
    (absorb width block b).length = block.length := List.length_modify ..

lemma length_foldl_absorb (width : ℕ) (l : List (UInt8 × ℕ)) (block : List UInt8) :
    (l.foldl (absorb width) block).length = block.length := by
  induction l generalizing block with
  | nil => rfl
  | cons b l ih => rw [List.foldl_cons, ih, length_absorb]

@[simp]
lemma length_fold (width : ℕ) (bytes : List UInt8) : (fold width bytes).length = width := by
  rw [fold, length_foldl_absorb, List.length_replicate]

/-- A bit of a byte of the block. -/
def bitAt (block : List UInt8) (place bit : ℕ) : Bool := (block.getD place 0).toNat.testBit bit

lemma bitAt_absorb {width : ℕ} {block : List UInt8} {place : ℕ} (h : place < block.length)
    (b : UInt8) (i bit : ℕ) :
    bitAt (absorb width block (b, i)) place bit
      = (bitAt block place bit ^^ decide (i % width = place ∧ b.toNat.testBit bit)) := by
  rw [bitAt, bitAt, absorb, List.getD_eq_getElem?_getD, List.getElem?_modify,
    List.getD_eq_getElem?_getD, List.getElem?_eq_getElem h]
  by_cases hi : i % width = place
  · simp [hi, Nat.testBit_xor]
  · simp [hi]

/-- A bit after the loop is the one before, turned once for every byte that has it. -/
lemma bitAt_foldl {width place : ℕ} {block : List UInt8} (h : place < block.length)
    (bytes : List UInt8) (start bit : ℕ) :
    bitAt ((bytes.zipIdx start).foldl (absorb width) block) place bit
      = (bitAt block place bit ^^ decide (bitCountFrom width bytes start place bit % 2 = 1)) := by
  induction bytes generalizing start block with
  | nil => simp
  | cons b bytes ih =>
      rw [List.zipIdx_cons, List.foldl_cons, ih (by rwa [length_absorb]), bitAt_absorb h,
        bitCountFrom_cons, Bool.xor_assoc]
      congr 1
      by_cases hb : start % width = place ∧ b.toNat.testBit bit
      · rw [if_pos hb, decide_eq_true hb, Bool.true_xor, ← decide_not]
        exact decide_eq_decide.mpr (by omega)
      · rw [if_neg hb, decide_eq_false hb, Bool.false_xor]
        rfl

/-- **A bit of the block** is set exactly if it is set in an odd number of the bytes. -/
lemma bitAt_fold {width place : ℕ} (h : place < width) (bytes : List UInt8) (bit : ℕ) :
    bitAt (fold width bytes) place bit = decide (bitCount width bytes place bit % 2 = 1) := by
  rw [fold, bitAt_foldl (by rwa [List.length_replicate])]
  have hzero : bitAt (List.replicate width 0) place bit = false := by
    simp [bitAt, List.getD_eq_getElem?_getD, h]
  rw [hzero, Bool.false_xor, bitCount]

/-- Bytes are their eight bits. -/
lemma byte_ext {a b : UInt8} (h : ∀ bit < 8, a.toNat.testBit bit = b.toNat.testBit bit) :
    a = b := by
  refine UInt8.toNat_inj.mp (Nat.eq_of_testBit_eq fun i => ?_)
  by_cases hi : i < 8
  · exact h i hi
  · have hlarge : ∀ c : UInt8, c.toNat.testBit i = false := fun c =>
      Nat.testBit_lt_two_pow (lt_of_lt_of_le c.toNat_lt
        (Nat.pow_le_pow_right (by omega) (by omega)))
    rw [hlarge, hlarge]

lemma block_ext {l l' : List UInt8} (hlen : l.length = l'.length)
    (h : ∀ place < l.length, ∀ bit < 8, bitAt l place bit = bitAt l' place bit) : l = l' := by
  refine List.ext_getElem hlen fun i hi hi' => byte_ext fun bit hbit => ?_
  simpa [bitAt, List.getD_eq_getElem?_getD, hi, hi'] using h i hi bit hbit

/-- **Equal blocks.**  Two strings fold into one block if and only if every bit of every place
has the same parity in both. -/
theorem fold_eq_iff {width : ℕ} {l l' : List UInt8} :
    fold width l = fold width l' ↔ SameParity width l l' := by
  constructor
  · intro h place hplace bit _
    have hbit := bitAt_fold hplace l bit
    rw [h, bitAt_fold hplace, decide_eq_decide] at hbit
    omega
  · intro h
    refine block_ext (by rw [length_fold, length_fold]) fun place hplace bit hbit => ?_
    rw [length_fold] at hplace
    rw [bitAt_fold hplace, bitAt_fold hplace, h place hplace bit hbit]

/-- A block that comes twice leaves no trace. -/
lemma fold_twice_append {width : ℕ} {block : List UInt8} (h : block.length = width)
    (rest : List UInt8) : fold width (block ++ block ++ rest) = fold width rest := by
  refine fold_eq_iff.mpr fun place _ bit _ => ?_
  have hstart : ∀ bytes start, (start = width ∨ start = width + width) →
      bitCountFrom width bytes start place bit = bitCountFrom width bytes 0 place bit := by
    rintro bytes start (rfl | rfl) <;> exact bitCountFrom_congr (by simp) bytes place bit
  rw [bitCount, bitCount, bitCountFrom_append, bitCountFrom_append, List.length_append, h,
    Nat.zero_add, Nat.zero_add, hstart _ _ (.inl rfl), hstart _ _ (.inr rfl)]
  omega

/-- In a string that does not reach around the block, each place has one byte. -/
lemma bitCountFrom_short {width : ℕ} (place bit : ℕ) {bytes : List UInt8} {start : ℕ}
    (h : start + bytes.length ≤ width) :
    bitCountFrom width bytes start place bit
      = if start ≤ place ∧ bitAt bytes (place - start) bit then 1 else 0 := by
  induction bytes generalizing start with
  | nil => simp [bitAt]
  | cons b bytes ih =>
      rw [List.length_cons] at h
      rw [bitCountFrom_cons, ih (by omega), Nat.mod_eq_of_lt (by omega)]
      rcases Nat.lt_trichotomy place start with hlt | rfl | hgt
      · rw [if_neg (by omega), if_neg (by omega), if_neg (by omega)]
      · rw [if_neg (by omega), Nat.sub_self]
        simp [bitAt]
      · have hat : bitAt (b :: bytes) (place - start) bit
            = bitAt bytes (place - (start + 1)) bit := by
          rw [show place - start = place - (start + 1) + 1 by omega]
          rfl
        simp [hat, show start ≤ place by omega, show start + 1 ≤ place by omega,
          show start ≠ place by omega]

/-- A string that fits into the block is padded with zeros. -/
lemma fold_eq_append {width : ℕ} {bytes : List UInt8} (h : bytes.length ≤ width) :
    fold width bytes = bytes ++ List.replicate (width - bytes.length) 0 := by
  refine block_ext (by simp; omega) fun place hplace bit hbit => ?_
  rw [length_fold] at hplace
  rw [bitAt_fold hplace, bitCount, bitCountFrom_short place bit (by omega), Nat.sub_zero]
  have hpad : bitAt (bytes ++ List.replicate (width - bytes.length) 0) place bit
      = bitAt bytes place bit := by
    rw [bitAt, bitAt, List.getD_eq_getElem?_getD, List.getD_eq_getElem?_getD]
    by_cases hlt : place < bytes.length
    · rw [List.getElem?_append_left hlt]
    · rw [List.getElem?_append_right (by omega), List.getElem?_replicate,
        List.getElem?_eq_none (by omega)]
      split_ifs <;> rfl
  rw [hpad]
  cases bitAt bytes place bit <;> simp

end XorBlock
