import Dddatasync.Library.FileSystem
import Mathlib.Data.Nat.Digits.Defs

/-!
The names of temporary entries: `uuid_simple` of `src/store.rs`, `nonce` of
`src/sync.rs` and the four prefixes they are put behind.

* `Stamp`: the process id and the clock reading a name is made from.
* `uuidSimple`, `nonce`: the two suffixes; `tmpName`, `recvName`, `exportName`,
  `sendName`: the names.
* `plain_tmpName` and its companions: every such name is an ordinary hidden file name,
  whatever the clock says; `exists_fresh_stamp`: some such names are always free.
-/

namespace Dddatasync

open Fs OsString

/-- The process id and the time since the epoch in nanoseconds. -/
structure Stamp where
  pid : ℕ
  nanos : ℕ
  deriving DecidableEq, Repr

/-- A number in lower-case hexadecimal, padded with zeros to `width`. -/
def hexPad (width n : ℕ) : String :=
  let digits := (Nat.digits 16 n).reverse.map Nat.digitChar
  String.ofList (List.replicate (width - digits.length) '0' ++ digits)

/-- A number in decimal. -/
def decimal (n : ℕ) : String :=
  if n = 0 then "0" else String.ofList ((Nat.digits 10 n).reverse.map Nat.digitChar)

/-- `uuid_simple`: the nanoseconds since the epoch, cut to 64 bits. -/
def uuidSimple (t : Stamp) : String := hexPad 8 t.pid ++ "-" ++ hexPad 16 (t.nanos % 2 ^ 64)

/-- `nonce`: the sub-second part of the clock only. -/
def nonce (t : Stamp) : String := hexPad 8 t.pid ++ "-" ++ decimal (t.nanos % 10 ^ 9)

/-- The temp file of `add`. -/
def tmpName (t : Stamp) : OsString := ofStr (".tmp-" ++ uuidSimple t)

/-- The blob store of a `pull`. -/
def recvName (t : Stamp) : OsString := ofStr (".dddatasync-recv-" ++ nonce t)

/-- The exported file of a `pull` before its rename. -/
def exportName (t : Stamp) : OsString := ofStr (".dddatasync-export-" ++ nonce t)

/-- The blob store of a `push`. -/
def sendName (t : Stamp) : OsString := ofStr (".dddatasync-send-" ++ nonce t)

/-! ### Temp names are ordinary hidden names -/

/-- No slash and no zero byte. -/
def SafeChars (s : String) : Prop := ∀ c ∈ s.toList, c ≠ '/' ∧ c ≠ '\x00'

-- named, as `∀ c : Char` has a decision procedure of its own
instance (s : String) : Decidable (SafeChars s) :=
  List.decidableBAll (fun c => c ≠ '/' ∧ c ≠ '\x00') s.toList

lemma SafeChars.append {s t : String} (hs : SafeChars s) (ht : SafeChars t) :
    SafeChars (s ++ t) := by
  intro c hc
  rw [String.toList_append, List.mem_append] at hc
  rcases hc with hc | hc
  · exact hs c hc
  · exact ht c hc

lemma digitChar_safe {d : ℕ} (h : d < 16) :
    Nat.digitChar d ≠ '/' ∧ Nat.digitChar d ≠ '\x00' := by
  interval_cases d <;> decide

lemma safeChars_digits {b n : ℕ} (hb : 1 < b) (hb16 : b ≤ 16) :
    ∀ c ∈ (Nat.digits b n).reverse.map Nat.digitChar, c ≠ '/' ∧ c ≠ '\x00' := by
  intro c hc
  obtain ⟨d, hd, rfl⟩ := List.mem_map.mp hc
  have := Nat.digits_lt_base hb (List.mem_reverse.mp hd)
  exact digitChar_safe (by omega)

lemma safeChars_hexPad (width n : ℕ) : SafeChars (hexPad width n) := by
  intro c hc
  rw [hexPad, String.toList_ofList, List.mem_append] at hc
  rcases hc with hc | hc
  · rw [List.eq_of_mem_replicate hc]
    decide
  · exact safeChars_digits (by omega) le_rfl c hc

lemma safeChars_decimal (n : ℕ) : SafeChars (decimal n) := by
  intro c hc
  rw [decimal] at hc
  split_ifs at hc
  · exact (by decide : SafeChars "0") c hc
  · rw [String.toList_ofList] at hc
    exact safeChars_digits (by omega) (by omega) c hc

lemma safeChars_nonce (t : Stamp) : SafeChars (nonce t) :=
  ((safeChars_hexPad _ _).append (by decide)).append (safeChars_decimal _)

lemma safeChars_uuidSimple (t : Stamp) : SafeChars (uuidSimple t) :=
  ((safeChars_hexPad _ _).append (by decide)).append (safeChars_hexPad _ _)

/-- A string is an ordinary name unless it is empty, `.`, `..` or has a slash or a zero
byte in it. -/
lemma plain_ofStr {s : String} (h0 : s ≠ "") (h1 : s ≠ ".") (h2 : s ≠ "..")
    (hs : SafeChars s) : Plain (ofStr s) where
  ne_nil := fun h => h0 (ofStr_injective (h.trans (by rfl : [] = ofStr "")))
  ne_dot := fun h => h1 (ofStr_injective (h.trans (by rfl : dot = ofStr ".")))
  ne_dotdot := fun h => h2 (ofStr_injective (h.trans (by rfl : dotdot = ofStr "..")))
  no_slash := fun h => (hs '/' ((mem_ofStr_iff (by decide) s).mp h)).1 rfl
  no_nul := fun h => (hs '\x00' ((mem_ofStr_iff (by decide) s).mp h)).2 rfl

private lemma ne_of_length_lt {s t : String} (h : t.toList.length < s.toList.length) : s ≠ t := by
  rintro rfl
  omega

/-- A prefix of at least three characters makes an ordinary name out of safe characters. -/
lemma plain_prefix {p s : String} (hp : 2 < p.toList.length) (hsp : SafeChars p)
    (hs : SafeChars s) : Plain (ofStr (p ++ s)) := by
  have hlen : (p ++ s).toList.length = p.toList.length + s.toList.length := by
    rw [String.toList_append, List.length_append]
  refine plain_ofStr (ne_of_length_lt ?_) (ne_of_length_lt ?_) (ne_of_length_lt ?_)
    (hsp.append hs) <;>
  · rw [hlen]
    simp
    omega

lemma plain_tmpName (t : Stamp) : Plain (tmpName t) :=
  plain_prefix (by decide) (by decide) (safeChars_uuidSimple t)

lemma plain_recvName (t : Stamp) : Plain (recvName t) :=
  plain_prefix (by decide) (by decide) (safeChars_nonce t)

lemma plain_exportName (t : Stamp) : Plain (exportName t) :=
  plain_prefix (by decide) (by decide) (safeChars_nonce t)

lemma plain_sendName (t : Stamp) : Plain (sendName t) :=
  plain_prefix (by decide) (by decide) (safeChars_nonce t)

/-- A name behind a prefix that starts with `.` starts with `.`. -/
private lemma head?_prefix {p s : String} (h : p.toList.head? = some '.') :
    (ofStr (p ++ s)).head? = some 46 := by
  refine (head?_ofStr_iff (a := '.') (by decide) _).mpr ?_
  rw [String.toList_append, List.head?_append, h]
  rfl

lemma head?_tmpName (t : Stamp) : (tmpName t).head? = some 46 := head?_prefix (by decide)

lemma head?_recvName (t : Stamp) : (recvName t).head? = some 46 := head?_prefix (by decide)

lemma head?_exportName (t : Stamp) : (exportName t).head? = some 46 := head?_prefix (by decide)

lemma head?_sendName (t : Stamp) : (sendName t).head? = some 46 := head?_prefix (by decide)

/-! ### Fresh names -/

lemma length_le_length_ofStr (s : String) : s.toList.length ≤ (ofStr s).length := by
  rw [ofStr]
  induction s.toList with
  | nil => simp
  | cons c cs ih =>
      have hc : 0 < (String.utf8EncodeChar c).length := by
        rw [String.length_utf8EncodeChar]
        exact c.utf8Size_pos
      rw [List.flatMap_cons, List.length_append, List.length_cons]
      omega

/-- Names grow with the process id. -/
lemma lt_length_nonce (m : ℕ) : m < (nonce ⟨16 ^ m, 0⟩).toList.length := by
  have h : m < (Nat.digits 16 (16 ^ m)).length :=
    (Nat.lt_digits_length_iff (by omega) _).mpr le_rfl
  simp only [nonce, hexPad, String.toList_append, String.toList_ofList, List.length_append,
    List.length_map, List.length_reverse, List.length_replicate]
  omega

lemma lt_length_stamped (p : String) (m : ℕ) : m < (ofStr (p ++ nonce ⟨16 ^ m, 0⟩)).length := by
  refine lt_of_lt_of_le ?_ (length_le_length_ofStr _)
  rw [String.toList_append, List.length_append]
  exact Nat.lt_add_left _ (lt_length_nonce m)

/-- There is always a clock reading whose names are not in use. -/
lemma exists_fresh_stamp {C : Type*} (fs : FileSystem C) (root : AbsPath) :
    ∃ t : Stamp, entry fs root (recvName t) = none ∧ entry fs root (exportName t) = none := by
  have hbound : ∀ n x, entry fs root n = some x
      → n.length ≤ ((children fs root).map fun e => e.1.length).sum := by
    intro n x hx
    exact List.le_sum_of_mem (List.mem_map.mpr ⟨(n, x), mem_children.mpr hx, rfl⟩)
  generalize ((children fs root).map fun e => e.1.length).sum = m at hbound
  have hfree : ∀ n : OsString, m < n.length → entry fs root n = none := by
    intro n hn
    cases hx : entry fs root n with
    | none => rfl
    | some x => exact absurd (hbound n x hx) (by omega)
  exact ⟨⟨16 ^ m, 0⟩, hfree _ (lt_length_stamped _ m), hfree _ (lt_length_stamped _ m)⟩

end Dddatasync
