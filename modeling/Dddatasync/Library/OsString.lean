import Mathlib.Tactic

/-!
File names as the operating system has them: strings of bytes, most of them UTF-8.

* `Decoder`, `decode`: the decoding of a byte string, scalar value by scalar value, each
  maximal ill-formed piece giving one replacement mark (`none`).
* `toStr` (the strict conversion) and `toStringLossy` (the one with U+FFFD).
* `decode_ofStr`: the bytes of a string decode to its characters, hence `toStr_ofStr`
  and `toStringLossy_ofStr`.
* `head?_toStringLossy`: the lossy name starts with an ASCII character exactly when the
  bytes start with its code; `mem_ofStr_iff` and `mem_toStringLossy` are about occurrence
  anywhere.
-/

/-- A string of bytes, as the operating system keeps file names and paths. -/
abbrev OsString := List UInt8

namespace OsString

/-- The bytes of a string. -/
def ofStr (s : String) : OsString := s.toList.flatMap String.utf8EncodeChar

/-- Where a UTF-8 decoder stands: between characters, or owing `more + 1` continuation
bytes, the next one between `low` and `high`, with the bits read so far in `acc`. -/
inductive Decoder where
  | start
  | owing (more acc low high : ℕ)
  deriving DecidableEq

/-- The first byte of a character: what is put out and where the decoder stands then. -/
def lead (b : ℕ) : List (Option Char) × Decoder :=
  if b ≤ 0x7F then ([some (Char.ofNat b)], .start)
  else if 0xC2 ≤ b ∧ b ≤ 0xDF then ([], .owing 0 (b % 32) 0x80 0xBF)
  else if b = 0xE0 then ([], .owing 1 0 0xA0 0xBF)
  else if b = 0xED then ([], .owing 1 13 0x80 0x9F)
  else if 0xE1 ≤ b ∧ b ≤ 0xEF then ([], .owing 1 (b % 16) 0x80 0xBF)
  else if b = 0xF0 then ([], .owing 2 0 0x90 0xBF)
  else if b = 0xF4 then ([], .owing 2 4 0x80 0x8F)
  else if 0xF1 ≤ b ∧ b ≤ 0xF3 then ([], .owing 2 (b % 8) 0x80 0xBF)
  else ([none], .start)

/-- One byte.  A byte that cannot continue the character begun ends it with a replacement
mark and is read again as a first byte. -/
def feed : Decoder → ℕ → List (Option Char) × Decoder
  | .start, b => lead b
  | .owing more acc low high, b =>
      if low ≤ b ∧ b ≤ high then
        match more with
        | 0 => ([some (Char.ofNat (acc * 64 + b % 64))], .start)
        | more + 1 => ([], .owing more (acc * 64 + b % 64) 0x80 0xBF)
      else (none :: (lead b).1, (lead b).2)

/-- The characters of a byte string, `none` for every maximal ill-formed piece. -/
def decode : Decoder → List UInt8 → List (Option Char)
  | .start, [] => []
  | .owing .., [] => [none]
  | d, b :: bs => (feed d b.toNat).1 ++ decode (feed d b.toNat).2 bs

lemma feed_start (b : ℕ) : feed .start b = lead b := rfl

lemma feed_last {acc low high b : ℕ} (h : low ≤ b ∧ b ≤ high) :
    feed (.owing 0 acc low high) b = ([some (Char.ofNat (acc * 64 + b % 64))], .start) := if_pos h

lemma feed_more {more acc low high b : ℕ} (h : low ≤ b ∧ b ≤ high) :
    feed (.owing (more + 1) acc low high) b = ([], .owing more (acc * 64 + b % 64) 0x80 0xBF) :=
  if_pos h

lemma feed_other {more acc low high b : ℕ} (h : ¬ (low ≤ b ∧ b ≤ high)) :
    feed (.owing more acc low high) b = (none :: (lead b).1, (lead b).2) := if_neg h

@[simp]
lemma decode_nil : decode .start [] = [] := rfl

@[simp]
lemma decode_owing_nil (more acc low high : ℕ) : decode (.owing more acc low high) [] = [none] :=
  rfl

lemma decode_cons (d : Decoder) (b : UInt8) (bs : List UInt8) :
    decode d (b :: bs) = (feed d b.toNat).1 ++ decode (feed d b.toNat).2 bs := by
  cases d <;> rfl

/-- `OsStr::to_str`: the string these bytes encode, if they are UTF-8. -/
def toStr (name : OsString) : Option String :=
  ((decode .start name).mapM id).map String.ofList

/-- `OsStr::to_string_lossy`: ill-formed pieces become U+FFFD. -/
def toStringLossy (name : OsString) : String :=
  String.ofList ((decode .start name).map fun c => c.getD (Char.ofNat 0xFFFD))

lemma ofStr_append (s t : String) : ofStr (s ++ t) = ofStr s ++ ofStr t := by
  rw [ofStr, String.toList_append, List.flatMap_append, ofStr, ofStr]

/-! ### The bytes of a string decode to its characters -/

private lemma toNat_byte {n : ℕ} (h : n < 256) : (UInt8.ofNat n).toNat = n := by
  rw [UInt8.toNat_ofNat']
  omega

private lemma decode_last {acc low high b : ℕ} (hb : b < 256) (h : low ≤ b ∧ b ≤ high)
    (bs : List UInt8) : decode (.owing 0 acc low high) (UInt8.ofNat b :: bs)
      = some (Char.ofNat (acc * 64 + b % 64)) :: decode .start bs := by
  rw [decode_cons, toNat_byte hb, feed_last h, List.singleton_append]

private lemma decode_more {more acc low high b : ℕ} (hb : b < 256) (h : low ≤ b ∧ b ≤ high)
    (bs : List UInt8) : decode (.owing (more + 1) acc low high) (UInt8.ofNat b :: bs)
      = decode (.owing more (acc * 64 + b % 64) 0x80 0xBF) bs := by
  rw [decode_cons, toNat_byte hb, feed_more h, List.nil_append]

private lemma decode_lead {b : ℕ} {d : Decoder} (hb : b < 256) (h : lead b = ([], d))
    (bs : List UInt8) : decode .start (UInt8.ofNat b :: bs) = decode d bs := by
  rw [decode_cons, toNat_byte hb, feed_start, h, List.nil_append]

lemma lead_two {b : ℕ} (h : 0xC2 ≤ b ∧ b ≤ 0xDF) :
    lead b = ([], .owing 0 (b % 32) 0x80 0xBF) := by
  rw [lead, if_neg (by omega), if_pos h]

/-- The first byte of a three-byte character bounds the second: no overlong forms, no
surrogates. -/
lemma lead_three {b : ℕ} (h : 0xE0 ≤ b ∧ b ≤ 0xEF) :
    lead b = ([], .owing 1 (b % 16) (if b = 0xE0 then 0xA0 else 0x80)
      (if b = 0xED then 0x9F else 0xBF)) := by
  rw [lead, if_neg (by omega), if_neg (by omega)]
  by_cases h0 : b = 0xE0
  · subst h0; rfl
  by_cases hd : b = 0xED
  · subst hd; rfl
  rw [if_neg h0, if_neg hd, if_pos (by omega), if_neg h0, if_neg hd]

lemma lead_four {b : ℕ} (h : 0xF0 ≤ b ∧ b ≤ 0xF4) :
    lead b = ([], .owing 2 (b % 8) (if b = 0xF0 then 0x90 else 0x80)
      (if b = 0xF4 then 0x8F else 0xBF)) := by
  rw [lead, if_neg (by omega), if_neg (by omega), if_neg (by omega), if_neg (by omega),
    if_neg (by omega)]
  by_cases h0 : b = 0xF0
  · subst h0; rfl
  by_cases h4 : b = 0xF4
  · subst h4; rfl
  rw [if_neg h0, if_neg h4, if_pos (by omega), if_neg h0, if_neg h4]

lemma lead_other {b : ℕ} (h1 : ¬ b ≤ 0x7F) (h2 : ¬ (0xC2 ≤ b ∧ b ≤ 0xDF))
    (h3 : ¬ (0xE0 ≤ b ∧ b ≤ 0xEF)) (h4 : ¬ (0xF0 ≤ b ∧ b ≤ 0xF4)) :
    lead b = ([none], .start) := by
  rw [lead, if_neg h1, if_neg h2, if_neg (by omega), if_neg (by omega), if_neg (by omega),
    if_neg (by omega), if_neg (by omega), if_neg (by omega)]

lemma decode_encodeChar (c : Char) (bs : List UInt8) :
    decode .start (String.utf8EncodeChar c ++ bs) = some c :: decode .start bs := by
  have hv : c.toNat < 0xD800 ∨ (0xDFFF < c.toNat ∧ c.toNat < 0x110000) := c.valid
  have hc : c.val.toNat = c.toNat := rfl
  rw [String.utf8EncodeChar]
  simp only [hc]
  generalize hn : c.toNat = n at hv
  have hcn : Char.ofNat n = c := by rw [← hn]; exact Char.ofNat_toNat c
  split_ifs with h1 h2 h3
  · -- one byte
    simp [decode_cons, feed_start, toNat_byte (show n < 256 by omega), lead, h1, hcn]
  · -- two bytes
    simp only [List.cons_append, List.nil_append]
    rw [decode_lead (by omega) (lead_two (by omega)),
      decode_last (by omega) (by omega), ← hcn]
    congr 3
    omega
  · -- three bytes
    simp only [List.cons_append, List.nil_append]
    rw [decode_lead (by omega) (lead_three (by omega)),
      decode_more (by omega) (by split_ifs <;> omega), decode_last (by omega) (by omega), ← hcn]
    congr 3
    omega
  · -- four bytes
    simp only [List.cons_append, List.nil_append]
    rw [decode_lead (by omega) (lead_four (by omega)),
      decode_more (by omega) (by split_ifs <;> omega), decode_more (by omega) (by omega),
      decode_last (by omega) (by omega), ← hcn]
    congr 3
    omega

/-- The bytes of a string decode to exactly its characters. -/
lemma decode_ofStr (s : String) : decode .start (ofStr s) = s.toList.map some := by
  rw [ofStr]
  induction s.toList with
  | nil => rfl
  | cons c cs ih => rw [List.flatMap_cons, decode_encodeChar, ih, List.map_cons]

private lemma mapM_id_map_some {α : Type*} (l : List α) : (l.map some).mapM id = some l := by
  induction l with
  | nil => rfl
  | cons a l ih => simp [ih]

@[simp]
lemma toStr_ofStr (s : String) : toStr (ofStr s) = some s := by
  rw [toStr, decode_ofStr, mapM_id_map_some, Option.map_some, String.ofList_toList]

@[simp]
lemma toStringLossy_ofStr (s : String) : toStringLossy (ofStr s) = s := by
  rw [toStringLossy, decode_ofStr, List.map_map]
  simp [Function.comp_def]

lemma ofStr_injective : Function.Injective ofStr := fun s t h => by
  have := congrArg toStr h
  simpa using this

/-! ### ASCII characters in names -/

/-- The bytes of a character outside ASCII are all outside ASCII. -/
lemma le_of_mem_encodeChar {c : Char} (hc : 0x80 ≤ c.toNat) {b : UInt8}
    (hb : b ∈ String.utf8EncodeChar c) : 0x80 ≤ b.toNat := by
  have hv : c.val.toNat = c.toNat := rfl
  rw [String.utf8EncodeChar] at hb
  simp only [hv] at hb
  generalize c.toNat = n at hc hb
  split_ifs at hb with h1 h2 h3
  · omega
  all_goals
    simp only [List.mem_cons, List.not_mem_nil, or_false] at hb
    rcases hb with rfl | rfl | rfl | rfl <;> rw [toNat_byte (by omega)] <;> omega

lemma encodeChar_ascii {c : Char} (hc : c.toNat < 0x80) :
    String.utf8EncodeChar c = [UInt8.ofNat c.toNat] := by
  have hv : c.val.toNat = c.toNat := rfl
  rw [String.utf8EncodeChar]
  simp only [hv]
  rw [if_pos (by omega)]

lemma byte_inj {m n : ℕ} (hm : m < 256) (hn : n < 256) (h : UInt8.ofNat m = UInt8.ofNat n) :
    m = n := by
  have := congrArg UInt8.toNat h
  rwa [toNat_byte hm, toNat_byte hn] at this

/-- An ASCII character occurs in a string exactly when its code occurs in the bytes. -/
lemma mem_ofStr_iff {a : Char} (ha : a.toNat < 0x80) (s : String) :
    UInt8.ofNat a.toNat ∈ ofStr s ↔ a ∈ s.toList := by
  rw [ofStr, List.mem_flatMap]
  constructor
  · rintro ⟨c, hc, hb⟩
    by_cases hcc : c.toNat < 0x80
    · rw [encodeChar_ascii hcc, List.mem_singleton] at hb
      have := byte_inj (by omega) (by omega) hb
      rwa [← Char.toNat_inj.mp this] at hc
    · have := le_of_mem_encodeChar (by omega) hb
      rw [toNat_byte (by omega)] at this
      omega
  · intro h
    exact ⟨a, h, by rw [encodeChar_ascii ha]; exact List.mem_singleton_self _⟩

/-- A string starts with an ASCII character exactly when its bytes start with its code. -/
lemma head?_ofStr_iff {a : Char} (ha : a.toNat < 0x80) (s : String) :
    (ofStr s).head? = some (UInt8.ofNat a.toNat) ↔ s.toList.head? = some a := by
  rw [ofStr]
  cases s.toList with
  | nil => simp
  | cons c cs =>
      rw [List.flatMap_cons, List.head?_cons]
      by_cases hcc : c.toNat < 0x80
      · rw [encodeChar_ascii hcc, List.singleton_append, List.head?_cons]
        constructor
        · intro h
          rw [Char.toNat_inj.mp (byte_inj (by omega) (by omega) (Option.some.inj h))]
        · intro h
          rw [Option.some.inj h]
      · have hne := String.utf8EncodeChar_ne_nil (c := c)
        have hle := fun b => le_of_mem_encodeChar (c := c) (by omega) (b := b)
        obtain ⟨b, bs, hb⟩ := List.exists_cons_of_ne_nil hne
        rw [hb, List.cons_append, List.head?_cons]
        have hbig := hle b (by rw [hb]; exact List.mem_cons_self)
        constructor
        · intro h
          rw [Option.some.inj h, toNat_byte (by omega)] at hbig
          omega
        · intro h
          rw [Option.some.inj h] at hcc
          omega

private lemma ofNat_ne_ascii {v : ℕ} {a : Char} (hv : 0x80 ≤ v) (ha : a.toNat < 0x80)
    (h0 : 0 < a.toNat) : Char.ofNat v ≠ a := by
  rintro rfl
  by_cases hvalid : v.isValidChar
  · have : (Char.ofNat v).toNat = v := by
      rw [Char.ofNat, dif_pos hvalid]
      rfl
    omega
  · have : (Char.ofNat v).toNat = 0 := by
      rw [Char.ofNat, dif_neg hvalid]
      rfl
    omega

/-- Whatever the bytes still owed are, the character will not be in ASCII. -/
def Decoder.Wide : Decoder → Prop
  | .start => True
  | .owing more acc low high => 0x80 ≤ low ∧ high ≤ 0xBF
      ∧ 0x80 ≤ acc * 64 ^ (more + 1) + low % 64 * 64 ^ more

lemma wide_lead (b : ℕ) : (lead b).2.Wide := by
  by_cases h1 : b ≤ 0x7F
  · rw [lead, if_pos h1]
    trivial
  by_cases h2 : 0xC2 ≤ b ∧ b ≤ 0xDF
  · rw [lead_two h2]
    exact ⟨by omega, by omega, by omega⟩
  by_cases h3 : 0xE0 ≤ b ∧ b ≤ 0xEF
  · rw [lead_three h3]
    refine ⟨?_, ?_, ?_⟩ <;> split_ifs <;> omega
  by_cases h4 : 0xF0 ≤ b ∧ b ≤ 0xF4
  · rw [lead_four h4]
    refine ⟨?_, ?_, ?_⟩ <;> split_ifs <;> omega
  rw [lead_other h1 h2 h3 h4]
  trivial

lemma mem_lead {b : ℕ} {c : Char} (h : some c ∈ (lead b).1) : b ≤ 0x7F ∧ c = Char.ofNat b := by
  rw [lead] at h
  split_ifs at h with h1
  · exact ⟨h1, Option.some.inj (List.mem_singleton.mp h)⟩
  all_goals simp at h

private lemma wide_last {acc low high b : ℕ} (hd : (Decoder.owing 0 acc low high).Wide)
    (hb : low ≤ b ∧ b ≤ high) : 0x80 ≤ acc * 64 + b % 64 := by
  obtain ⟨hlow, hhigh, hbig⟩ := hd
  omega

/-- A continuation byte leaves a wide decoder wide. -/
private lemma wide_more {more acc low high b : ℕ}
    (hd : (Decoder.owing (more + 1) acc low high).Wide) (hb : low ≤ b ∧ b ≤ high) :
    (Decoder.owing more (acc * 64 + b % 64) 0x80 0xBF).Wide := by
  obtain ⟨hlow, hhigh, hbig⟩ := hd
  have hmod : low % 64 ≤ b % 64 := by omega
  have hpow := Nat.mul_le_mul_right (64 ^ (more + 1)) hmod
  refine ⟨by omega, by omega, ?_⟩
  rw [pow_succ 64 (more + 1)] at hbig
  rw [show (0x80 : ℕ) % 64 = 0 from rfl, Nat.zero_mul, Nat.add_zero, Nat.add_mul,
    Nat.mul_assoc, Nat.mul_comm 64]
  omega

/-- One byte of a wide decoder: an ASCII character comes from its own code. -/
lemma feed_wide {d : Decoder} (hd : d.Wide) (b : ℕ) : (feed d b).2.Wide
    ∧ ∀ a : Char, a.toNat < 0x80 → 0 < a.toNat → some a ∈ (feed d b).1 → b = a.toNat := by
  have hlead : ∀ a : Char, a.toNat < 0x80 → some a ∈ (lead b).1 → b = a.toNat := by
    rintro a - ha
    obtain ⟨hb, rfl⟩ := mem_lead ha
    rw [Char.ofNat, dif_pos (Or.inl (by omega))]
    rfl
  cases d with
  | start => exact ⟨wide_lead b, fun a ha _ => hlead a ha⟩
  | owing more acc low high =>
      by_cases hb : low ≤ b ∧ b ≤ high
      · cases more with
        | zero =>
            rw [feed_last hb]
            refine ⟨trivial, fun a ha h0 hmem => ?_⟩
            have := Option.some.inj (List.mem_singleton.mp hmem)
            exact absurd this.symm (ofNat_ne_ascii (wide_last hd hb) ha h0)
        | succ more =>
            rw [feed_more hb]
            exact ⟨wide_more hd hb, fun a _ _ hmem => absurd hmem List.not_mem_nil⟩
      · rw [feed_other hb]
        refine ⟨wide_lead b, fun a ha _ hmem => hlead a ha ?_⟩
        simpa using hmem

/-- What a begun multi-byte character puts out first is never an ASCII character. -/
lemma head?_decode_owing {a : Char} (ha : a.toNat < 0x80) (h0 : 0 < a.toNat) :
    ∀ (bs : List UInt8) (more acc low high : ℕ), (Decoder.owing more acc low high).Wide →
      (decode (.owing more acc low high) bs).head? ≠ some (some a)
  | [], _, _, _, _, _ => by simp
  | b :: bs, more, acc, low, high, hd => by
      rw [decode_cons]
      by_cases hb : low ≤ b.toNat ∧ b.toNat ≤ high
      · cases more with
        | zero =>
            rw [feed_last hb]
            simp only [List.singleton_append, List.head?_cons, ne_eq, Option.some.injEq]
            exact ofNat_ne_ascii (wide_last hd hb) ha h0
        | succ more =>
            rw [feed_more hb]
            exact head?_decode_owing ha h0 bs more _ _ _ (wide_more hd hb)
      · rw [feed_other hb]
        simp

/-- The lossy name starts with an ASCII character exactly when the bytes start with its
code. -/
lemma head?_toStringLossy {a : Char} (ha : a.toNat < 0x80) (h0 : 0 < a.toNat)
    (name : OsString) :
    (toStringLossy name).toList.head? = some a ↔ name.head? = some (UInt8.ofNat a.toNat) := by
  rw [toStringLossy, String.toList_ofList, List.head?_map]
  have hmark : ∀ c : Option Char, c.getD (Char.ofNat 0xFFFD) = a ↔ c = some a := by
    intro c
    cases c with
    | none => simpa using ofNat_ne_ascii (v := 0xFFFD) (by omega) ha h0
    | some c => simp
  have key : (decode .start name).head? = some (some a)
      ↔ name.head? = some (UInt8.ofNat a.toNat) := by
    cases name with
    | nil => simp
    | cons b bs =>
        have hbyte : b = UInt8.ofNat a.toNat ↔ b.toNat = a.toNat := by
          rw [← UInt8.toNat_inj, toNat_byte (by omega)]
        have hlt := b.toNat_lt
        rw [decode_cons, feed_start, List.head?_cons, Option.some.injEq, hbyte]
        by_cases h1 : b.toNat ≤ 0x7F
        · rw [lead, if_pos h1, List.singleton_append, List.head?_cons, Option.some.injEq,
            Option.some.injEq]
          have : (Char.ofNat b.toNat).toNat = b.toNat := by
            rw [Char.ofNat, dif_pos (Or.inl (by omega))]
            rfl
          rw [← Char.toNat_inj, this]
        · have hne : ¬ b.toNat = a.toNat := by omega
          rw [iff_false_right hne]
          have hwide := wide_lead b.toNat
          by_cases h2 : 0xC2 ≤ b.toNat ∧ b.toNat ≤ 0xDF
          · rw [lead_two h2] at hwide ⊢
            exact head?_decode_owing ha h0 bs _ _ _ _ hwide
          by_cases h3 : 0xE0 ≤ b.toNat ∧ b.toNat ≤ 0xEF
          · rw [lead_three h3] at hwide ⊢
            exact head?_decode_owing ha h0 bs _ _ _ _ hwide
          by_cases h4 : 0xF0 ≤ b.toNat ∧ b.toNat ≤ 0xF4
          · rw [lead_four h4] at hwide ⊢
            exact head?_decode_owing ha h0 bs _ _ _ _ hwide
          rw [lead_other h1 h2 h3 h4]
          simp
  rw [← key]
  cases (decode .start name).head? with
  | none => simp
  | some c => simp [hmark c]

lemma mem_decode {a : Char} (ha : a.toNat < 0x80) (h0 : 0 < a.toNat) {d : Decoder} (hd : d.Wide)
    {bs : List UInt8} (h : some a ∈ decode d bs) : UInt8.ofNat a.toNat ∈ bs := by
  induction bs generalizing d with
  | nil => cases d <;> simp at h
  | cons b bs ih =>
      rw [decode_cons, List.mem_append] at h
      obtain ⟨hwide, hbyte⟩ := feed_wide hd b.toNat
      rcases h with h | h
      · rw [← hbyte a ha h0 h, UInt8.ofNat_toNat]
        exact List.mem_cons_self
      · exact List.mem_cons_of_mem b (ih hwide h)

/-- An ASCII character in the lossy name is in the bytes. -/
lemma mem_toStringLossy {a : Char} (ha : a.toNat < 0x80) (h0 : 0 < a.toNat) {name : OsString}
    (h : a ∈ (toStringLossy name).toList) : UInt8.ofNat a.toNat ∈ name := by
  rw [toStringLossy, String.toList_ofList, List.mem_map] at h
  obtain ⟨c, hc, heq⟩ := h
  cases c with
  | none => exact absurd heq (ofNat_ne_ascii (v := 0xFFFD) (by omega) ha h0)
  | some c => exact mem_decode ha h0 (d := .start) trivial (heq ▸ hc)
end OsString
