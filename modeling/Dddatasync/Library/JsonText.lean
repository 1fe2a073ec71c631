import Dddatasync.Library.OsString

/-!
JSON text as bytes, written without blanks.

* `escapeByte`, `quote`: a string in quotes; `quoteList`, `quoteOption`: several of them, one
  or `null`; `boolText`.
* `literal`, `unquote`, `unquoteList`, `unquoteOption`, `unbool`: read them from the front;
  `unquote_quote` and its companions: what was written is read, and what follows is left.
-/

namespace JsonText

open OsString

/-! ### Writing -/

/-- A hexadecimal digit. -/
def hexDigit (n : UInt8) : UInt8 := if n < 10 then 0x30 + n else 0x57 + n

/-- A byte inside quotes: the quote, the backslash and the control characters are escaped. -/
def escapeByte (b : UInt8) : List UInt8 :=
  if b = 0x22 then [0x5C, 0x22]
  else if b = 0x5C then [0x5C, 0x5C]
  else if b = 0x08 then [0x5C, 0x62]
  else if b = 0x09 then [0x5C, 0x74]
  else if b = 0x0A then [0x5C, 0x6E]
  else if b = 0x0C then [0x5C, 0x66]
  else if b = 0x0D then [0x5C, 0x72]
  else if b < 0x20 then [0x5C, 0x75, 0x30, 0x30, hexDigit (b / 16), hexDigit (b % 16)]
  else [b]

/-- The inside of the quotes. -/
def escape (s : String) : List UInt8 := (ofStr s).flatMap escapeByte

/-- A string. -/
def quote (s : String) : List UInt8 := 0x22 :: escape s ++ [0x22]

/-- The strings of a list, each behind a comma. -/
def quoteMore : List String → List UInt8
  | [] => []
  | s :: ss => 0x2C :: quote s ++ quoteMore ss

/-- A list of strings. -/
def quoteList : List String → List UInt8
  | [] => ofStr "[]"
  | s :: ss => 0x5B :: quote s ++ quoteMore ss ++ [0x5D]

/-- A string or `null`. -/
def quoteOption : Option String → List UInt8
  | none => ofStr "null"
  | some s => quote s

/-- A truth value. -/
def boolText (b : Bool) : List UInt8 := ofStr (if b then "true" else "false")

/-! ### Reading -/

/-- A fixed text. -/
def literal (text : String) (bytes : List UInt8) : Option (List UInt8) :=
  if ofStr text <+: bytes then some (bytes.drop (ofStr text).length) else none

/-- The value of a hexadecimal digit. -/
def hexValue (d : UInt8) : UInt8 := if d < 0x57 then d - 0x30 else d - 0x57

/-- The byte an escape of two characters stands for. -/
def escaped (c : UInt8) : Option UInt8 :=
  if c = 0x22 then some 0x22
  else if c = 0x5C then some 0x5C
  else if c = 0x62 then some 0x08
  else if c = 0x74 then some 0x09
  else if c = 0x6E then some 0x0A
  else if c = 0x66 then some 0x0C
  else if c = 0x72 then some 0x0D
  else none

/-- The bytes up to the closing quote. -/
def unescape : List UInt8 → Option (List UInt8 × List UInt8)
  | [] => none
  | b :: bs =>
      if b = 0x22 then some ([], bs)
      else if b = 0x5C then
        match bs with
        | [] => none
        | c :: cs =>
            if c = 0x75 then
              match cs with
              | _ :: _ :: h :: l :: ds =>
                  (unescape ds).map fun r => ((hexValue h * 16 + hexValue l) :: r.1, r.2)
              | _ => none
            else
              match escaped c with
              | none => none
              | some d => (unescape cs).map fun r => (d :: r.1, r.2)
      else (unescape bs).map fun r => (b :: r.1, r.2)

/-- A string. -/
def unquote : List UInt8 → Option (String × List UInt8)
  | 0x22 :: bytes =>
      match unescape bytes with
      | none => none
      | some (inside, rest) => (toStr inside).map fun s => (s, rest)
  | _ => none

/-- The strings up to the end of a list, each behind a comma. -/
def unquoteMore : ℕ → List UInt8 → Option (List String × List UInt8)
  | _, 0x5D :: rest => some ([], rest)
  | n + 1, 0x2C :: bytes =>
      match unquote bytes with
      | none => none
      | some (s, rest) => (unquoteMore n rest).map fun r => (s :: r.1, r.2)
  | _, _ => none

/-- A list of strings. -/
def unquoteList : List UInt8 → Option (List String × List UInt8)
  | 0x5B :: 0x5D :: rest => some ([], rest)
  | 0x5B :: bytes =>
      match unquote bytes with
      | none => none
      | some (s, rest) => (unquoteMore rest.length rest).map fun r => (s :: r.1, r.2)
  | _ => none

/-- A string or `null`. -/
def unquoteOption (bytes : List UInt8) : Option (Option String × List UInt8) :=
  match literal "null" bytes with
  | some rest => some (none, rest)
  | none => (unquote bytes).map fun r => (some r.1, r.2)

/-- A truth value. -/
def unbool (bytes : List UInt8) : Option (Bool × List UInt8) :=
  match literal "true" bytes with
  | some rest => some (true, rest)
  | none => (literal "false" bytes).map fun rest => (false, rest)

/-! ### What was written is read -/

lemma escape_append (s t : String) : escape (s ++ t) = escape s ++ escape t := by
  rw [escape, escape, escape, ofStr, String.toList_append, List.flatMap_append,
    List.flatMap_append]
  rfl

@[simp]
lemma literal_append (text : String) (rest : List UInt8) :
    literal text (ofStr text ++ rest) = some rest := by
  rw [literal, if_pos (List.prefix_append _ _), List.drop_left]

lemma hexValue_hexDigit {b : UInt8} (h : b < 0x20) :
    hexValue (hexDigit (b / 16)) * 16 + hexValue (hexDigit (b % 16)) = b := by
  have hall : ∀ n : Fin 32, hexValue (hexDigit (UInt8.ofNat n / 16)) * 16
      + hexValue (hexDigit (UInt8.ofNat n % 16)) = UInt8.ofNat n := by decide
  have hlt : b.toNat < 32 := h
  have := hall ⟨b.toNat, hlt⟩
  rwa [UInt8.ofNat_toNat] at this

section Escapes

variable {b c h l : UInt8} {bs : List UInt8}

lemma unescape_plain (hquote : b ≠ 0x22) (hslash : b ≠ 0x5C) :
    unescape (b :: bs) = (unescape bs).map fun r => (b :: r.1, r.2) := by
  rw [unescape.eq_def]
  simp only [if_neg hquote, if_neg hslash]

lemma unescape_escaped (hc : escaped c = some b) :
    unescape (0x5C :: c :: bs) = (unescape bs).map fun r => (b :: r.1, r.2) := by
  have hne : c ≠ 0x75 := by
    rintro rfl
    cases hc
  rw [unescape.eq_def]
  simp only [if_neg (show ¬ (0x5C : UInt8) = 0x22 by decide), if_true, if_neg hne, hc]

lemma unescape_hex {z z' : UInt8} : unescape (0x5C :: 0x75 :: z :: z' :: h :: l :: bs)
    = (unescape bs).map fun r => ((hexValue h * 16 + hexValue l) :: r.1, r.2) := by
  rw [unescape.eq_def]
  simp only [if_neg (show ¬ (0x5C : UInt8) = 0x22 by decide), if_true]

end Escapes

/-- One byte is read back. -/
lemma unescape_escapeByte (b : UInt8) (rest : List UInt8) :
    unescape (escapeByte b ++ rest) = (unescape rest).map fun r => (b :: r.1, r.2) := by
  rw [escapeByte]
  split_ifs with hquote hslash hb ht hn hf hr hlow
  · exact unescape_escaped (by rw [hquote]; rfl)
  · exact unescape_escaped (by rw [hslash]; rfl)
  · exact unescape_escaped (by rw [hb]; rfl)
  · exact unescape_escaped (by rw [ht]; rfl)
  · exact unescape_escaped (by rw [hn]; rfl)
  · exact unescape_escaped (by rw [hf]; rfl)
  · exact unescape_escaped (by rw [hr]; rfl)
  · have h : unescape (0x5C :: 0x75 :: 0x30 :: 0x30 :: hexDigit (b / 16) :: hexDigit (b % 16)
        :: rest) = (unescape rest).map fun r =>
          ((hexValue (hexDigit (b / 16)) * 16 + hexValue (hexDigit (b % 16))) :: r.1, r.2) :=
      unescape_hex
    rwa [hexValue_hexDigit hlow] at h
  · exact unescape_plain hquote hslash

lemma unescape_escape (bytes rest : List UInt8) :
    unescape (bytes.flatMap escapeByte ++ 0x22 :: rest) = some (bytes, rest) := by
  induction bytes with
  | nil =>
      rw [List.flatMap_nil, List.nil_append, unescape.eq_def]
      rfl
  | cons b bytes ih =>
      rw [List.flatMap_cons, List.append_assoc, unescape_escapeByte, ih]
      rfl

@[simp]
lemma unquote_quote (s : String) (rest : List UInt8) :
    unquote (quote s ++ rest) = some (s, rest) := by
  have hbytes : quote s ++ rest = 0x22 :: ((ofStr s).flatMap escapeByte ++ 0x22 :: rest) := by
    simp only [quote, escape, List.cons_append, List.append_assoc, List.nil_append]
  rw [hbytes, unquote, unescape_escape]
  simp only [toStr_ofStr, Option.map_some]

lemma length_quoteMore_le (ss : List String) : ss.length ≤ (quoteMore ss).length := by
  induction ss with
  | nil => exact le_refl _
  | cons s ss ih =>
      rw [quoteMore, List.length_append, List.length_cons, List.length_cons]
      omega

lemma unquoteMore_quoteMore (ss : List String) (rest : List UInt8) {n : ℕ} (h : ss.length ≤ n) :
    unquoteMore n (quoteMore ss ++ 0x5D :: rest) = some (ss, rest) := by
  induction ss generalizing n with
  | nil => rw [quoteMore, List.nil_append, unquoteMore]
  | cons s ss ih =>
      obtain ⟨n, rfl⟩ : ∃ m, n = m + 1 := ⟨n - 1, by rw [List.length_cons] at h; omega⟩
      rw [quoteMore, List.cons_append, List.cons_append, List.append_assoc, unquoteMore,
        unquote_quote]
      simp only [ih (Nat.le_of_succ_le_succ h), Option.map_some]

@[simp]
lemma unquoteList_quoteList (ss : List String) (rest : List UInt8) :
    unquoteList (quoteList ss ++ rest) = some (ss, rest) := by
  cases ss with
  | nil => rfl
  | cons s ss =>
      have hbytes : quoteList (s :: ss) ++ rest
          = 0x5B :: (quote s ++ (quoteMore ss ++ 0x5D :: rest)) := by
        simp only [quoteList, List.cons_append, List.append_assoc, List.nil_append]
      have hle : ss.length ≤ (quoteMore ss ++ 0x5D :: rest).length := by
        rw [List.length_append]
        exact le_add_right (length_quoteMore_le ss)
      rw [hbytes, quote, List.cons_append, List.cons_append, unquoteList]
      · rw [← List.cons_append, ← List.cons_append, ← quote, unquote_quote]
        simp only [unquoteMore_quoteMore ss rest hle, Option.map_some]
      · simp

@[simp]
lemma unquoteOption_quoteOption (s : Option String) (rest : List UInt8) :
    unquoteOption (quoteOption s ++ rest) = some (s, rest) := by
  cases s with
  | none => rw [quoteOption, unquoteOption, literal_append]
  | some s =>
      have hnull : literal "null" (quote s ++ rest) = none := by
        rw [literal, if_neg]
        rw [quote, List.cons_append, List.cons_append]
        intro h
        have := List.cons_prefix_cons.mp (show (0x6E :: ofStr "ull") <+: _ from h)
        exact absurd this.1 (by decide)
      rw [quoteOption, unquoteOption, hnull]
      simp only [unquote_quote, Option.map_some]

@[simp]
lemma unbool_boolText (b : Bool) (rest : List UInt8) :
    unbool (boolText b ++ rest) = some (b, rest) := by
  cases b with
  | true => rw [boolText, if_pos rfl, unbool, literal_append]
  | false => rfl

end JsonText
