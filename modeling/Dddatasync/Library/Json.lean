import Mathlib.Tactic

/-!
JSON values, and the two ways a program reads the members of an object.

* `Json`: values with the members of an object in their order, repeats included; a text or a
  name may have lone surrogates, `LoneText`.
* `within`: the values a reader with limits on digits and nesting can read.
* `occurrences`: all values under a name; `last`: the value a dictionary keeps.
* `requiredText`, `optionalText`, `requiredTexts`: a reader that insists on the type of each
  member and refuses a repeated one; `last_of_requiredText` and its companions: what it
  reads is what the dictionary keeps.
-/

/-- A text with a lone surrogate, which JSON can spell as an escape and which has no UTF-8: its
code points. -/
structure LoneText where
  codes : List ℕ
  lone : ∃ c ∈ codes, 0xD800 ≤ c ∧ c ≤ 0xDFFF

/-- The name of a member. -/
inductive Key where
  | str (s : String)
  | lone (l : LoneText)

instance : Coe String Key := ⟨Key.str⟩

/-- The name as a text that has a UTF-8. -/
def Key.text : Key → Option String
  | .str s => some s
  | .lone _ => none

@[simp]
lemma Key.text_str (s : String) : (Key.str s).text = some s := rfl

/-- A JSON value.  A number is an integer, or it has a fraction or an exponent:
`mantissa * 10 ^ exponent`. -/
inductive Json where
  | null
  | bool (b : Bool)
  | int (n : ℤ)
  | float (mantissa exponent : ℤ)
  | str (s : String)
  | lone (l : LoneText)
  | arr (items : List Json)
  | obj (members : List (Key × Json))

namespace Json

/-- A text. -/
def text : Json → Option String
  | .str s => some s
  | _ => none

/-- A text or nothing. -/
def textOrNull : Json → Option (Option String)
  | .null => some none
  | .str s => some (some s)
  | _ => none

/-- A list of texts. -/
def texts : Json → Option (List String)
  | .arr items => items.mapM text
  | _ => none

/-- The value can be read: no integer has more than `digits` digits, and lists and objects are
nested at most `depth` deep. -/
def within (digits : ℕ) : ℕ → Json → Bool
  | _, .int n => (Nat.toDigits 10 n.natAbs).length ≤ digits
  | 0, .arr _ => false
  | 0, .obj _ => false
  | depth + 1, .arr items => items.all (within digits depth)
  | depth + 1, .obj members => members.all fun m => within digits depth m.2
  | _, _ => true

/-- Every member has a name that is a text. -/
def named (members : List (Key × Json)) : Bool := members.all fun m => m.1.text.isSome

/-- The values under a name, in their order. -/
def occurrences (name : String) (members : List (Key × Json)) : List Json :=
  (members.filter fun m => m.1.text = some name).map Prod.snd

/-- The value a dictionary keeps under a name: the last one. -/
def last (name : String) (members : List (Key × Json)) : Option Json :=
  (occurrences name members).getLast?

/-- The only value under a name. -/
def only (name : String) (members : List (Key × Json)) : Option Json :=
  match occurrences name members with
  | [v] => some v
  | _ => none

/-- A text that must be there, once. -/
def requiredText (name : String) (members : List (Key × Json)) : Option String :=
  (only name members).bind text

/-- A list of texts that must be there, once. -/
def requiredTexts (name : String) (members : List (Key × Json)) : Option (List String) :=
  (only name members).bind texts

/-- A text that may be missing or null, but not repeated. -/
def optionalText (name : String) (members : List (Key × Json)) : Option (Option String) :=
  match occurrences name members with
  | [] => some none
  | [v] => v.textOrNull
  | _ => none

variable {name : String} {members : List (Key × Json)}

lemma text_eq_some {v : Json} {s : String} (h : v.text = some s) : v = .str s := by
  cases v with
  | str t => exact congrArg _ (Option.some.inj h)
  | null | bool | int | float | lone | arr | obj => cases h

/-- The only value is the last one. -/
lemma last_of_only {v : Json} (h : only name members = some v) : last name members = some v := by
  rw [only] at h
  split at h
  · rename_i w hw
    rw [last, hw]
    exact h
  · cases h

/-- A text that is read once is what the dictionary keeps. -/
lemma last_of_requiredText {s : String} (h : requiredText name members = some s) :
    last name members = some (.str s) := by
  obtain ⟨v, hv, hs⟩ := Option.bind_eq_some_iff.mp h
  rw [last_of_only hv, text_eq_some hs]

/-- A list of texts that is read once is what the dictionary keeps. -/
lemma last_of_requiredTexts {l : List String} (h : requiredTexts name members = some l) :
    ∃ v, last name members = some v ∧ v.texts = some l := by
  obtain ⟨v, hv, hl⟩ := Option.bind_eq_some_iff.mp h
  exact ⟨v, last_of_only hv, hl⟩

/-- A name that occurs at most once. -/
def Once (name : String) (members : List (Key × Json)) : Prop :=
  (occurrences name members).length ≤ 1

/-- What the dictionary keeps is the only value, if the name occurs once. -/
lemma only_of_last {v : Json} (h : last name members = some v) (honce : Once name members) :
    only name members = some v := by
  rw [last] at h
  rw [Once] at honce
  rw [only]
  match hocc : occurrences name members with
  | [] => simp [hocc] at h
  | [w] =>
      rw [hocc, List.getLast?_singleton] at h
      exact h
  | v :: w :: vs => simp [hocc] at honce

/-- A text the dictionary keeps and that occurs once is read. -/
lemma requiredText_of_last {s : String} (h : last name members = some (.str s))
    (honce : Once name members) : requiredText name members = some s := by
  rw [requiredText, only_of_last h honce]
  rfl

/-- A text or nothing that the dictionary keeps and that occurs at most once is read. -/
lemma isSome_optionalText (h : ((last name members).getD .null).textOrNull.isSome)
    (honce : Once name members) : (optionalText name members).isSome := by
  rw [last] at h
  rw [Once] at honce
  rw [optionalText]
  match hocc : occurrences name members with
  | [] => rfl
  | [w] =>
      rw [hocc, List.getLast?_singleton] at h
      exact h
  | v :: w :: vs => simp [hocc] at honce

section Within

variable {digits depth : ℕ}

@[simp]
lemma within_str (s : String) : within digits depth (.str s) = true := by
  cases depth <;> rfl

@[simp]
lemma within_null : within digits depth .null = true := by
  cases depth <;> rfl

@[simp]
lemma within_texts (l : List String) : within digits (depth + 1) (.arr (l.map .str)) = true := by
  rw [within, List.all_eq_true]
  intro v hv
  obtain ⟨s, -, rfl⟩ := List.mem_map.mp hv
  exact within_str s

lemma within_obj {members : List (Key × Json)} :
    within digits (depth + 1) (.obj members) = true ↔
      ∀ m ∈ members, within digits depth m.2 = true := by
  rw [within, List.all_eq_true]

end Within

lemma mapM_text (l : List String) : (l.map Json.str).mapM text = some l := by
  induction l with
  | nil => rfl
  | cons s l ih =>
      rw [List.map_cons, List.mapM_cons, ih]
      rfl

end Json
