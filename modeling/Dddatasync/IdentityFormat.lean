import Dddatasync.LocalLogin

/-!
The format of the identity file: what `load_from_path` and `hex_decode` of `src/auth.rs`
accept.

* `HexDigit`, `HexLine`, `denoted`: a line of 64 hexadecimal digits and the bytes it stands
  for.
* `pairUp`: a line as pairs of characters up to the first that is none; `hexDecode_eq`: what
  `hex_decode` makes of every line.
* `Exact`: the parser returns an identity exactly for well-formed contents, the right one,
  and never panics; `exact_iff`: exactly when.
-/

namespace Dddatasync

open OsString

/-! ### Lines of digits -/

/-- `[0-9a-fA-F]`. -/
def HexDigit (c : Char) : Prop :=
  (0x30 ≤ c.toNat ∧ c.toNat ≤ 0x39) ∨ (0x41 ≤ c.toNat ∧ c.toNat ≤ 0x46)
    ∨ (0x61 ≤ c.toNat ∧ c.toNat ≤ 0x66)

instance (c : Char) : Decidable (HexDigit c) := inferInstanceAs (Decidable (_ ∨ _))

/-- The value of a digit. -/
def digitValue (c : Char) : ℕ :=
  if c.toNat ≤ 0x39 then c.toNat - 0x30
  else if c.toNat ≤ 0x46 then c.toNat - 0x41 + 10
  else c.toNat - 0x61 + 10

/-- Exactly 64 digits. -/
def HexLine (line : List Char) : Prop := line.length = 64 ∧ ∀ c ∈ line, HexDigit c

/-- The bytes that pairs of digits denote. -/
def denoted : List Char → List UInt8
  | c :: d :: cs => UInt8.ofNat (16 * digitValue c + digitValue d) :: denoted cs
  | _ => []

/-- The second line. -/
def keyLine (contents : String) : Option (List Char) := (lines contents.toList)[1]?

/-- The parser returns or fails, without a panic; it returns exactly if the second line is
64 digits, and then the key is the bytes they denote and encodes to the same digits in lower
case. -/
def Exact (mode : ℕ) (contents : String) : Prop :=
  match loadFromPath ⟨mode, ofStr contents⟩ with
  | .ok identity => ∃ line, keyLine contents = some line ∧ HexLine line
      ∧ identity.nodeKey.bytes = denoted line
      ∧ (hexEncode identity.nodeKey.bytes).toList = line.map Char.toLower
  | .error e => e ≠ .badHex .panic ∧ ∀ line, keyLine contents = some line → ¬ HexLine line

/-! ### What goes wrong -/

/-- Two characters that `from_str_radix` takes for a byte: a sign may stand for the first. -/
def DigitPair (c d : Char) : Prop := (HexDigit c ∨ c = '+') ∧ HexDigit d

instance (c d : Char) : Decidable (DigitPair c d) := inferInstanceAs (Decidable (_ ∧ _))

/-- Nothing but such pairs. -/
def allPairs : List Char → Bool
  | [] => true
  | [_] => false
  | c :: d :: cs => decide (DigitPair c d) && allPairs cs

/-- After the pairs at the beginning, the next two bytes end inside a character: it is the
first of them and has three bytes or four, or it follows one of a single byte. -/
def cutAfterPairs : List Char → Bool
  | [] => false
  | [c] => decide (3 ≤ c.utf8Size)
  | c :: d :: cs =>
      if DigitPair c d then cutAfterPairs cs
      else decide (3 ≤ c.utf8Size ∨ c.utf8Size = 1 ∧ d.utf8Size ≠ 1)

/-- A line of an even number of bytes on which `hex_decode` slices through a character. -/
def Sliced (line : List Char) : Prop :=
  (ofStr (String.ofList line)).length % 2 = 0 ∧ cutAfterPairs line = true

/-- A line of 64 characters with a sign in it, all pairs of which are taken for bytes. -/
def Signed (line : List Char) : Prop := line.length = 64 ∧ allPairs line = true ∧ '+' ∈ line

instance (line : List Char) : Decidable (Sliced line) := inferInstanceAs (Decidable (_ ∧ _))

instance (line : List Char) : Decidable (Signed line) := inferInstanceAs (Decidable (_ ∧ _))

/-! ### Characters as bytes -/

/-- The bytes of a character: one below `0x80`, or a first one from `0xC0` on and then only
continuation bytes. -/
lemma encodeChar_cases (c : Char) :
    (c.toNat < 0x80 ∧ c.utf8Size = 1 ∧ String.utf8EncodeChar c = [UInt8.ofNat c.toNat])
      ∨ 0x80 ≤ c.toNat ∧ ∃ a b rest, String.utf8EncodeChar c = a :: b :: rest ∧ 0xC0 ≤ a
        ∧ isContinuation b = true ∧ (rest.head?.map isContinuation).getD true = true
        ∧ c.utf8Size = rest.length + 2 := by
  have hsize := String.length_utf8EncodeChar c
  by_cases hascii : c.toNat < 0x80
  · have henc := encodeChar_ascii hascii
    rw [henc] at hsize
    exact .inl ⟨hascii, hsize.symm, henc⟩
  · refine .inr ⟨by omega, ?_⟩
    have hc : c.val.toNat = c.toNat := rfl
    have hcont : ∀ n, isContinuation (UInt8.ofNat (n % 64 + 0x80)) = true := by
      intro n
      rw [isContinuation, decide_eq_true_iff, UInt8.le_iff_toNat_le, UInt8.lt_iff_toNat_lt,
        UInt8.toNat_ofNat']
      simp only [UInt8.reduceToNat]
      omega
    have hlead : ∀ n, n < 64 → (0xC0 : UInt8) ≤ UInt8.ofNat (n + 0xC0) := by
      intro n hn
      rw [UInt8.le_iff_toNat_le, UInt8.toNat_ofNat']
      simp only [UInt8.reduceToNat]
      omega
    rw [← hsize, String.utf8EncodeChar]
    simp only [hc]
    split_ifs with h1 h2 h3
    · omega
    · exact ⟨_, _, [], rfl, hlead _ (by omega), hcont _, rfl, rfl⟩
    · exact ⟨_, _, [_], rfl, hlead _ (by omega), hcont _, hcont _, rfl⟩
    · exact ⟨_, _, [_, _], rfl, hlead _ (by omega), hcont _, hcont _, rfl⟩

/-- A character boundary is no continuation byte. -/
lemma head_encode (cs : List Char) :
    ((cs.flatMap String.utf8EncodeChar).head?.map isContinuation).getD false = false := by
  cases cs with
  | nil => rfl
  | cons c cs =>
      rw [List.flatMap_cons]
      obtain ⟨hc, -, henc⟩ | ⟨-, a, b, rest, henc, ha, -⟩ := encodeChar_cases c
      · rw [henc]
        simp only [List.singleton_append, List.head?_cons, Option.map_some, Option.getD_some,
          isContinuation, decide_eq_false_iff_not, not_and, UInt8.le_iff_toNat_le,
          UInt8.toNat_ofNat', UInt8.reduceToNat]
        omega
      · rw [henc]
        rw [UInt8.le_iff_toNat_le] at ha
        simp only [List.cons_append, List.head?_cons, Option.map_some, Option.getD_some,
          isContinuation, decide_eq_false_iff_not, not_and, UInt8.lt_iff_toNat_lt]
        omega

/-- The value of an ASCII character as a digit. -/
lemma hexValue_ascii {c : Char} (hc : c.toNat < 0x80) :
    hexValue (UInt8.ofNat c.toNat)
      = if HexDigit c then some (UInt8.ofNat (digitValue c)) else none := by
  have hcodes : ∀ n < 0x80, hexValue (UInt8.ofNat n)
      = if (0x30 ≤ n ∧ n ≤ 0x39) ∨ (0x41 ≤ n ∧ n ≤ 0x46) ∨ (0x61 ≤ n ∧ n ≤ 0x66) then
          some (UInt8.ofNat (if n ≤ 0x39 then n - 0x30 else if n ≤ 0x46 then n - 0x41 + 10
            else n - 0x61 + 10))
        else none := by
    decide
  exact hcodes c.toNat hc

/-- Bytes from `0xC0` on are no digits and no sign. -/
lemma fromHex_lead {a : UInt8} (ha : 0xC0 ≤ a) (b : UInt8) : fromHex a b = none := by
  have hbig := UInt8.le_iff_toNat_le.mp ha
  have hplus : a ≠ 0x2b := by
    rintro rfl
    exact absurd ha (by decide)
  have hvalue : hexValue a = none := by
    simp only [hexValue, UInt8.le_iff_toNat_le, UInt8.reduceToNat] at hbig ⊢
    rw [if_neg (by omega), if_neg (by omega), if_neg (by omega)]
  rw [fromHex, if_neg hplus, hvalue]

lemma hexDigit_ascii {c : Char} (h : HexDigit c) : c.toNat < 0x80 := by
  rcases h with h | h | h <;> omega

lemma pair_ascii {c d : Char} (h : DigitPair c d) : c.toNat < 0x80 ∧ d.toNat < 0x80 := by
  obtain ⟨hc | rfl, hd⟩ := h
  · exact ⟨hexDigit_ascii hc, hexDigit_ascii hd⟩
  · exact ⟨by decide, hexDigit_ascii hd⟩

/-- What a slice of two ASCII characters is taken for. -/
lemma fromHex_ascii {c d : Char} (hc : c.toNat < 0x80) (hd : d.toNat < 0x80) :
    fromHex (UInt8.ofNat c.toNat) (UInt8.ofNat d.toNat)
      = if DigitPair c d then some (UInt8.ofNat (16 * digitValue c + digitValue d)) else none := by
  have hplus : UInt8.ofNat c.toNat = 0x2b ↔ c = '+' := by
    constructor
    · intro h
      exact Char.toNat_inj.mp (byte_inj (n := 0x2b) (by omega) (by omega) h)
    · rintro rfl
      rfl
  rw [fromHex, hexValue_ascii hc, hexValue_ascii hd]
  by_cases hsign : c = '+'
  · -- a sign is taken for a digit of value 0
    have hzero : digitValue '+' = 0 := rfl
    rw [if_pos (hplus.mpr hsign), hsign, hzero]
    by_cases hdd : HexDigit d <;> simp [DigitPair, hdd]
  · by_cases hcd : HexDigit c <;> by_cases hdd : HexDigit d <;>
      simp [hplus, hsign, DigitPair, hcd, hdd, UInt8.ofNat_add, UInt8.ofNat_mul, mul_comm]

/-! ### Lines as pairs -/

lemma nil_or_single {line : List Char} (h : ∀ c d cs, line = c :: d :: cs → False) :
    line = [] ∨ ∃ c, line = [c] := by
  cases line with
  | nil => exact .inl rfl
  | cons c cs =>
      cases cs with
      | nil => exact .inr ⟨c, rfl⟩
      | cons d cs => exact absurd rfl (h c d cs)

/-- What the loop makes of a line: a panic, its bytes, or the offset of a bad pair. -/
lemma hexPairs_encode (line : List Char)
    (heven : (line.flatMap String.utf8EncodeChar).length % 2 = 0) (offset : ℕ) :
    ∃ n, hexPairs offset (line.flatMap String.utf8EncodeChar)
      = if cutAfterPairs line then .error .panic
        else if allPairs line then .ok (denoted line)
        else .error (.invalid n) := by
  fun_induction denoted line generalizing offset with
  | case1 c d cs ih =>
      have hhead := head_encode cs
      simp only [List.flatMap_cons, List.length_append, String.length_utf8EncodeChar] at heven ⊢
      rw [cutAfterPairs, allPairs]
      obtain ⟨hc, hcsize, hcenc⟩ | ⟨hc, a, b, rest, hcenc, ha, hb, hrest, hcsize⟩ :=
        encodeChar_cases c
      · obtain ⟨hd, hdsize, hdenc⟩ | ⟨hd, a, b, rest, hdenc, ha, hb, hrest, hdsize⟩ :=
          encodeChar_cases d
        · -- two characters of one byte
          rw [hcenc, hdenc, List.singleton_append, List.singleton_append, hexPairs,
            if_neg (by rw [hhead]; decide), fromHex_ascii hc hd]
          by_cases hpair : DigitPair c d
          · obtain ⟨n, hn⟩ := ih (by omega) (offset + 2)
            refine ⟨n, ?_⟩
            simp only [hpair, if_true, hn, decide_true, Bool.true_and]
            split_ifs <;> rfl
          · refine ⟨offset, ?_⟩
            simp [hpair, hcsize, hdsize]
        · -- the second character begins in the slice and does not end there
          have hpair : ¬ DigitPair c d := fun h => absurd (pair_ascii h).2 (by omega)
          refine ⟨0, ?_⟩
          rw [hcenc, hdenc, List.singleton_append, List.cons_append, hexPairs]
          simp [hb, hpair, hcsize, hdsize]
      · have hpair : ¬ DigitPair c d := fun h => absurd (pair_ascii h).1 (by omega)
        rw [hcenc, List.cons_append, List.cons_append, hexPairs]
        cases rest with
        | nil =>
            -- a character of two bytes fills the slice
            have hnext := head_encode (d :: cs)
            rw [List.flatMap_cons] at hnext
            refine ⟨offset, ?_⟩
            rw [List.nil_append, if_neg (by rw [hnext]; decide), fromHex_lead ha]
            simp [hpair, hcsize]
        | cons x rest =>
            refine ⟨0, ?_⟩
            rw [List.head?_cons, Option.map_some, Option.getD_some] at hrest
            simp [hpair, hcsize, hrest]
  | case2 line hline =>
      rcases nil_or_single hline with rfl | ⟨c, rfl⟩
      · exact ⟨0, rfl⟩
      · rw [List.flatMap_singleton, String.length_utf8EncodeChar] at heven
        rw [List.flatMap_singleton]
        obtain ⟨-, hcsize, -⟩ | ⟨-, a, b, rest, hcenc, ha, hb, hrest, hcsize⟩ :=
          encodeChar_cases c
        · omega
        · rw [hcenc, hexPairs]
          cases rest with
          | nil =>
              refine ⟨offset, ?_⟩
              simp [fromHex_lead ha, cutAfterPairs, allPairs, hcsize]
          | cons x rest =>
              refine ⟨0, ?_⟩
              rw [List.head?_cons, Option.map_some, Option.getD_some] at hrest
              simp [cutAfterPairs, hcsize, hrest]

lemma ofStr_ofList (line : List Char) :
    ofStr (String.ofList line) = line.flatMap String.utf8EncodeChar := by
  rw [ofStr, String.toList_ofList]

/-- Pairs take two bytes each. -/
lemma even_of_allPairs {line : List Char} (h : allPairs line = true) :
    (ofStr (String.ofList line)).length % 2 = 0 := by
  rw [ofStr_ofList]
  fun_induction allPairs line with
  | case1 => rfl
  | case2 => cases h
  | case3 c d cs ih =>
      rw [Bool.and_eq_true, decide_eq_true_iff] at h
      obtain ⟨hc, hd⟩ := pair_ascii h.1
      rw [List.flatMap_cons, List.flatMap_cons, encodeChar_ascii hc, encodeChar_ascii hd]
      have hrest := ih h.2
      simp only [List.singleton_append, List.length_cons]
      omega

/-- **`hex_decode` on any line.** -/
theorem hexDecode_eq (line : List Char) : ∃ e : HexError, e ≠ .panic
    ∧ hexDecode (String.ofList line)
      = if Sliced line then .error .panic
        else if allPairs line then .ok (denoted line)
        else .error e := by
  by_cases heven : (ofStr (String.ofList line)).length % 2 = 0
  · have hcut : Sliced line ↔ cutAfterPairs line = true := and_iff_right heven
    obtain ⟨n, hn⟩ := hexPairs_encode line (by rwa [← ofStr_ofList]) 0
    refine ⟨.invalid n, by simp, ?_⟩
    rw [hexDecode, if_neg (not_not.mpr heven), ofStr_ofList, hn]
    simp only [hcut]
  · have hsliced : ¬ Sliced line := fun h => heven h.1
    have hpairs : ¬ allPairs line = true := fun h => heven (even_of_allPairs h)
    exact ⟨.oddLength, by simp, by rw [hexDecode, if_pos heven, if_neg hsliced, if_neg hpairs]⟩

/-! ### Well-formed lines -/

/-- Digits without a sign are pairs. -/
lemma allPairs_of_hexDigits {line : List Char} (hlen : line.length % 2 = 0)
    (h : ∀ c ∈ line, HexDigit c) : allPairs line = true := by
  fun_induction allPairs line with
  | case1 => rfl
  | case2 => simp at hlen
  | case3 c d cs ih =>
      simp only [List.forall_mem_cons] at h
      rw [Bool.and_eq_true, decide_eq_true_iff]
      rw [List.length_cons, List.length_cons] at hlen
      exact ⟨⟨.inl h.1, h.2.1⟩, ih (by omega) h.2.2⟩

/-- Pairs without a sign are digits. -/
lemma hexDigit_of_allPairs {line : List Char} (h : allPairs line = true) (hsign : '+' ∉ line) :
    ∀ c ∈ line, HexDigit c := by
  fun_induction allPairs line with
  | case1 => simp
  | case2 => cases h
  | case3 c d cs ih =>
      rw [Bool.and_eq_true, decide_eq_true_iff] at h
      simp only [List.mem_cons, not_or] at hsign
      simp only [List.forall_mem_cons]
      exact ⟨h.1.1.resolve_right (Ne.symm hsign.1), h.1.2, ih h.2 hsign.2.2⟩

lemma not_hexDigit_plus : ¬ HexDigit '+' := by decide

/-- The well-formed lines are the accepted ones without a sign. -/
lemma hexLine_iff {line : List Char} :
    HexLine line ↔ line.length = 64 ∧ allPairs line = true ∧ '+' ∉ line := by
  constructor
  · rintro ⟨hlen, h⟩
    exact ⟨hlen, allPairs_of_hexDigits (by omega) h, fun hsign => not_hexDigit_plus (h _ hsign)⟩
  · rintro ⟨hlen, hpairs, hsign⟩
    exact ⟨hlen, hexDigit_of_allPairs hpairs hsign⟩

lemma length_denoted {line : List Char} (h : allPairs line = true) :
    2 * (denoted line).length = line.length := by
  fun_induction allPairs line with
  | case1 => rfl
  | case2 => cases h
  | case3 c d cs ih =>
      rw [Bool.and_eq_true] at h
      rw [denoted, List.length_cons, List.length_cons, List.length_cons, mul_add, ih h.2]

lemma digitValue_lt {c : Char} (h : HexDigit c) : digitValue c < 16 := by
  rw [digitValue]
  rcases h with h | h | h <;> split_ifs <;> omega

lemma digitChar_digitValue {c : Char} (h : HexDigit c) :
    Nat.digitChar (digitValue c) = c.toLower := by
  have hcodes : ∀ n < 0x80, HexDigit (Char.ofNat n) →
      Nat.digitChar (digitValue (Char.ofNat n)) = (Char.ofNat n).toLower := by
    decide
  have hc := hcodes c.toNat (hexDigit_ascii h)
  rw [Char.ofNat_toNat] at hc
  exact hc h

/-- The digits of a byte in lower case. -/
lemma hexByte_digits {c d : Char} (hc : HexDigit c) (hd : HexDigit d) :
    hexByte (UInt8.ofNat (16 * digitValue c + digitValue d)) = [c.toLower, d.toLower] := by
  have hclt := digitValue_lt hc
  have hdlt := digitValue_lt hd
  have hnat : (UInt8.ofNat (16 * digitValue c + digitValue d)).toNat
      = 16 * digitValue c + digitValue d := by
    rw [UInt8.toNat_ofNat']
    omega
  rw [hexByte, hnat, ← digitChar_digitValue hc, ← digitChar_digitValue hd]
  congr 2
  · omega
  · congr 1
    omega

/-- What the digits denote encodes to the same digits in lower case. -/
lemma hexEncode_denoted {line : List Char} (hlen : line.length % 2 = 0)
    (h : ∀ c ∈ line, HexDigit c) :
    (hexEncode (denoted line)).toList = line.map Char.toLower := by
  rw [hexEncode, String.toList_ofList]
  fun_induction denoted line with
  | case1 c d cs ih =>
      simp only [List.forall_mem_cons] at h
      rw [List.length_cons, List.length_cons] at hlen
      rw [List.flatMap_cons, hexByte_digits h.1 h.2.1, ih (by omega) h.2.2]
      rfl
  | case2 line hline =>
      rcases nil_or_single hline with rfl | ⟨c, rfl⟩
      · rfl
      · simp at hlen

/-! ### The file -/

lemma loadFromPath_private {mode : ℕ} (hmode : mode % 0o1000 = 0o600) (contents : String) :
    loadFromPath ⟨mode, ofStr contents⟩ = parseIdentity contents := by
  rw [loadFromPath, if_neg (not_not.mpr hmode), toStr_ofStr]

/-- What becomes of the key line once it is decoded. -/
def identityOf (username : List Char) : Except HexError (List UInt8) → Except AuthError UserIdentity
  | .error e => .error (.badHex e)
  | .ok bytes =>
      if h : bytes.length = 32 then .ok ⟨String.ofList username, ⟨bytes, h⟩⟩
      else .error .keyLength

/-- The line of an exact file is the one the key was read from. -/
lemma exact_of_line {mode : ℕ} (hmode : mode % 0o1000 = 0o600) {contents : String}
    {username line : List Char} {rest : List (List Char)}
    (hlines : lines contents.toList = username :: line :: rest) :
    Exact mode contents ↔ ¬ Sliced line ∧ ¬ Signed line := by
  have hkey : keyLine contents = some line := by
    rw [keyLine, hlines]
    rfl
  obtain ⟨e, he, hdecode⟩ := hexDecode_eq line
  have hload : loadFromPath ⟨mode, ofStr contents⟩
      = identityOf username (hexDecode (String.ofList line)) := by
    rw [loadFromPath_private hmode, parseIdentity, hlines]
    rfl
  rw [Exact, hload, hdecode]
  simp only [hkey, Option.some.injEq, exists_eq_left', forall_eq']
  by_cases hsliced : Sliced line
  · simp [hsliced, identityOf]
  · by_cases hpairs : allPairs line = true
    · have hlen := length_denoted hpairs
      by_cases h32 : (denoted line).length = 32
      · -- a key of 32 bytes: right unless a sign was read as a digit
        have h64 : line.length = 64 := by omega
        have hsigned : Signed line ↔ '+' ∈ line := by simp [Signed, h64, hpairs]
        have hline : HexLine line ↔ '+' ∉ line := by simp [hexLine_iff, h64, hpairs]
        simp only [hsliced, hpairs, h32, hsigned, hline, identityOf, if_false, if_true, dite_true,
          not_false_iff, true_and]
        refine and_iff_left_of_imp fun hsign => ?_
        exact hexEncode_denoted (by omega) (hexDigit_of_allPairs hpairs hsign)
      · have hsigned : ¬ Signed line := fun h => h32 (by have := h.1; omega)
        have hline : ¬ HexLine line := fun h => h32 (by have := h.1; omega)
        simp [hsliced, hpairs, h32, hline, hsigned, identityOf]
    · have hline : ¬ HexLine line := fun h => hpairs (hexLine_iff.mp h).2.1
      have hsigned : ¬ Signed line := fun h => hpairs h.2.1
      simp [hsliced, hpairs, hline, hsigned, he, identityOf]

/-- **The identity file parser** is total and exact on a file of mode 0600 if and only if the
second line, where there is one, is neither sliced through a character nor 64 characters of
pairs with a sign in them. -/
theorem exact_iff {mode : ℕ} (hmode : mode % 0o1000 = 0o600) (contents : String) :
    Exact mode contents ↔
      ∀ line, keyLine contents = some line → ¬ Sliced line ∧ ¬ Signed line := by
  cases hlines : lines contents.toList with
  | nil =>
      have hkey : keyLine contents = none := by rw [keyLine, hlines]; rfl
      simp [Exact, loadFromPath_private hmode, parseIdentity, hlines, hkey]
  | cons username more =>
      cases more with
      | nil =>
          have hkey : keyLine contents = none := by rw [keyLine, hlines]; rfl
          simp [Exact, loadFromPath_private hmode, parseIdentity, hlines, hkey]
      | cons line rest =>
          have hkey : keyLine contents = some line := by rw [keyLine, hlines]; rfl
          rw [exact_of_line hmode hlines, hkey]
          simp

/-- A file with a key in digits of both cases. -/
theorem exact_iff_key_line : Exact 0o100600
    "alice\n00112233445566778899aabbccddeeffFFEEDDCCBBAA99887766554433221100\n" := by
  rw [exact_iff (by decide)]
  intro line hline
  obtain rfl : "00112233445566778899aabbccddeeffFFEEDDCCBBAA99887766554433221100".toList = line :=
    Option.some.inj hline
  exact ⟨by decide, by decide⟩

/-- The loader panics on a key line of three characters of which the second has two bytes;
and it takes signs for digits, so the key it returns does not encode to its line. -/
theorem malformed_not_exact :
    ¬ Exact 0o600 "alice\naéb\n" ∧ ¬ Exact 0o600
      "alice\n+1+1+1+1+1+1+1+1+1+1+1+1+1+1+1+1+1+1+1+1+1+1+1+1+1+1+1+1+1+1+1+1\n" := by
  have hmode : 0o600 % 0o1000 = 0o600 := by decide
  constructor
  · rw [exact_of_line hmode rfl]
    exact fun h => h.1 (by decide)
  · rw [exact_of_line hmode rfl]
    exact fun h => h.2 (by decide)

end Dddatasync
