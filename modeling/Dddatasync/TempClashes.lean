import Dddatasync.Sync

/-!
When the names of two temporary entries differ.

* `hexPad_injective`, `decimal_injective`: a number can be read off its digits, padded or
  not; `uuidSimple_inj`, `nonce_inj`: what two suffixes have in common when they are equal.
* `tempNames`: the names made from one clock reading; `disjoint_tempNames_iff`.
* `suffixes_differ_iff`: exactly when two readings give different suffixes on both sides;
  `pulls_apart_iff`: two pulls.
-/

namespace Dddatasync

open Fs OsString

/-! ### Numbers from their digits -/

lemma digitChar_injOn {d e : ℕ} (hd : d < 16) (he : e < 16)
    (h : Nat.digitChar d = Nat.digitChar e) : d = e := by
  interval_cases d <;> interval_cases e <;> first | rfl | exact absurd h (by decide)

/-- Digits are characters that give them back. -/
lemma map_digitChar_inj {l l' : List ℕ} (hl : ∀ d ∈ l, d < 16) (hl' : ∀ d ∈ l', d < 16)
    (h : l.map Nat.digitChar = l'.map Nat.digitChar) : l = l' := by
  induction l generalizing l' with
  | nil => exact (List.map_eq_nil_iff.mp h.symm).symm
  | cons d l ih =>
      cases l' with
      | nil => simp at h
      | cons e l' =>
          rw [List.map_cons, List.map_cons, List.cons.injEq] at h
          rw [List.forall_mem_cons] at hl hl'
          rw [digitChar_injOn hl.1 hl'.1 h.1, ih hl.2 hl'.2 h.2]

/-- The digits behind a padded number, the least one first. -/
def paddedDigits (width n : ℕ) : List ℕ :=
  Nat.digits 16 n ++ List.replicate (width - (Nat.digits 16 n).length) 0

lemma lt_of_mem_paddedDigits {width n : ℕ} : ∀ d ∈ paddedDigits width n, d < 16 := by
  intro d hd
  rcases List.mem_append.mp hd with hd | hd
  · exact Nat.digits_lt_base (by omega) hd
  · rw [List.eq_of_mem_replicate hd]
    omega

lemma toList_hexPad (width n : ℕ) :
    (hexPad width n).toList = (paddedDigits width n).reverse.map Nat.digitChar := by
  simp [hexPad, paddedDigits, Nat.digitChar]

/-- A padded number can be read back. -/
lemma hexPad_injective (width : ℕ) : Function.Injective (hexPad width) := by
  intro m n h
  have hdigits : (paddedDigits width m).reverse = (paddedDigits width n).reverse := by
    refine map_digitChar_inj ?_ ?_ (by rw [← toList_hexPad, h, toList_hexPad])
    all_goals exact fun d hd => lt_of_mem_paddedDigits d (List.mem_reverse.mp hd)
  have hvalue := congrArg (Nat.ofDigits 16) (List.reverse_injective hdigits)
  rwa [paddedDigits, paddedDigits, Nat.ofDigits_append_replicate_zero,
    Nat.ofDigits_append_replicate_zero, Nat.ofDigits_digits, Nat.ofDigits_digits] at hvalue

/-- The digits behind a decimal number, the least one first. -/
def decimalDigits (n : ℕ) : List ℕ := if n = 0 then [0] else Nat.digits 10 n

lemma toList_decimal (n : ℕ) :
    (decimal n).toList = (decimalDigits n).reverse.map Nat.digitChar := by
  rw [decimal, decimalDigits]
  split_ifs
  · rfl
  · rw [String.toList_ofList]

lemma ofDigits_decimalDigits (n : ℕ) : Nat.ofDigits 10 (decimalDigits n) = n := by
  rw [decimalDigits]
  split_ifs with h
  · rw [h]
    rfl
  · exact Nat.ofDigits_digits 10 n

lemma lt_of_mem_decimalDigits {n : ℕ} : ∀ d ∈ decimalDigits n, d < 16 := by
  intro d hd
  rw [decimalDigits] at hd
  split_ifs at hd
  · rw [List.mem_singleton.mp hd]
    omega
  · have := Nat.digits_lt_base (b := 10) (by omega) hd
    omega

/-- A number in decimal can be read back. -/
lemma decimal_injective : Function.Injective decimal := by
  intro m n h
  have hdigits : (decimalDigits m).reverse = (decimalDigits n).reverse := by
    refine map_digitChar_inj ?_ ?_ (by rw [← toList_decimal, h, toList_decimal])
    all_goals exact fun d hd => lt_of_mem_decimalDigits d (List.mem_reverse.mp hd)
  have hvalue := congrArg (Nat.ofDigits 10) (List.reverse_injective hdigits)
  rwa [ofDigits_decimalDigits, ofDigits_decimalDigits] at hvalue

/-- No digit is the hyphen between the two numbers of a suffix. -/
lemma hyphen_not_mem {l : List ℕ} (hl : ∀ d ∈ l, d < 16) : '-' ∉ l.reverse.map Nat.digitChar := by
  intro h
  obtain ⟨d, hd, heq⟩ := List.mem_map.mp h
  have := hl d (List.mem_reverse.mp hd)
  interval_cases d <;> exact absurd heq (by decide)

/-! ### The two suffixes -/

/-- The process id of a suffix ends at its only hyphen. -/
lemma stamped_inj {pid pid' : ℕ} {s s' : String} (hs : '-' ∉ s.toList)
    (h : hexPad 8 pid ++ "-" ++ s = hexPad 8 pid' ++ "-" ++ s') : pid = pid' ∧ s = s' := by
  have hpid : '-' ∉ (hexPad 8 pid).toList := by
    rw [toList_hexPad]
    exact hyphen_not_mem lt_of_mem_paddedDigits
  have hlist : (hexPad 8 pid).toList ++ '-' :: s.toList
      = (hexPad 8 pid').toList ++ '-' :: s'.toList := by
    simpa [String.toList_append] using congrArg String.toList h
  obtain ⟨hleft, -, hright⟩ := (List.append_cons_inj_of_notMem hpid hs).mp hlist
  exact ⟨hexPad_injective 8 (String.toList_injective hleft), String.toList_injective hright⟩

/-- Two suffixes of the store are the same only for one process and one clock reading, of
which 64 bits are kept. -/
lemma uuidSimple_inj {t t' : Stamp} :
    uuidSimple t = uuidSimple t' ↔ t.pid = t'.pid ∧ t.nanos % 2 ^ 64 = t'.nanos % 2 ^ 64 := by
  constructor
  · intro h
    have hs : '-' ∉ (hexPad 16 (t.nanos % 2 ^ 64)).toList := by
      rw [toList_hexPad]
      exact hyphen_not_mem lt_of_mem_paddedDigits
    obtain ⟨hpid, hnanos⟩ := stamped_inj hs h
    exact ⟨hpid, hexPad_injective 16 hnanos⟩
  · rintro ⟨hpid, hnanos⟩
    rw [uuidSimple, uuidSimple, hpid, hnanos]

/-- Two suffixes of the sync side are the same for one process and one place within the
second. -/
lemma nonce_inj {t t' : Stamp} :
    nonce t = nonce t' ↔ t.pid = t'.pid ∧ t.nanos % 10 ^ 9 = t'.nanos % 10 ^ 9 := by
  constructor
  · intro h
    have hs : '-' ∉ (decimal (t.nanos % 10 ^ 9)).toList := by
      rw [toList_decimal]
      exact hyphen_not_mem lt_of_mem_decimalDigits
    obtain ⟨hpid, hnanos⟩ := stamped_inj hs h
    exact ⟨hpid, decimal_injective hnanos⟩
  · rintro ⟨hpid, hnanos⟩
    rw [nonce, nonce, hpid, hnanos]

/-! ### The names -/

/-- The four names made from one clock reading. -/
def tempNames (t : Stamp) : List OsString := [tmpName t, recvName t, exportName t, sendName t]

/-- The prefixes of temporary names. -/
def tempPrefixes : List String :=
  [".tmp-", ".dddatasync-recv-", ".dddatasync-export-", ".dddatasync-send-"]

/-- What stands behind a prefix. -/
def suffix (p : String) (t : Stamp) : String := if p = ".tmp-" then uuidSimple t else nonce t

lemma mem_tempNames {t : Stamp} {n : OsString} :
    n ∈ tempNames t ↔ ∃ p ∈ tempPrefixes, n = ofStr (p ++ suffix p t) := by
  simp [tempNames, tempPrefixes, suffix, tmpName, recvName, exportName, sendName]

/-- No prefix begins with another. -/
lemma tempPrefixes_apart :
    ∀ p ∈ tempPrefixes, ∀ q ∈ tempPrefixes, p ≠ q → ¬ p.toList <+: q.toList := by
  decide

/-- A name gives its prefix and its suffix back. -/
lemma tempName_inj {p q s s' : String} (hp : p ∈ tempPrefixes) (hq : q ∈ tempPrefixes) :
    ofStr (p ++ s) = ofStr (q ++ s') ↔ p = q ∧ s = s' := by
  constructor
  · intro h
    have hlist : p.toList ++ s.toList = q.toList ++ s'.toList := by
      simpa using congrArg String.toList (ofStr_injective h)
    have hpq : p = q := by
      by_contra hne
      have hpre : p.toList <+: q.toList ++ s'.toList := ⟨_, hlist⟩
      rcases List.prefix_or_prefix_of_prefix hpre (List.prefix_append _ _) with h | h
      · exact tempPrefixes_apart p hp q hq hne h
      · exact tempPrefixes_apart q hq p hp (Ne.symm hne) h
    rw [hpq, List.append_cancel_left_eq] at hlist
    exact ⟨hpq, String.toList_injective hlist⟩
  · rintro ⟨rfl, rfl⟩
    rfl

/-- Two readings have no name in common if and only if both suffixes are different. -/
lemma disjoint_tempNames_iff {t t' : Stamp} :
    (tempNames t).Disjoint (tempNames t') ↔ uuidSimple t ≠ uuidSimple t' ∧ nonce t ≠ nonce t' := by
  have hsuffix : (tempNames t).Disjoint (tempNames t')
      ↔ ∀ p ∈ tempPrefixes, suffix p t ≠ suffix p t' := by
    constructor
    · intro h p hp heq
      exact h (mem_tempNames.mpr ⟨p, hp, rfl⟩) (mem_tempNames.mpr ⟨p, hp, by rw [heq]⟩)
    · intro h n hn hn'
      obtain ⟨p, hp, rfl⟩ := mem_tempNames.mp hn
      obtain ⟨q, hq, heq⟩ := mem_tempNames.mp hn'
      obtain ⟨rfl, hsame⟩ := (tempName_inj hp hq).mp heq
      exact h p hp hsame
  rw [hsuffix]
  simp [tempPrefixes, suffix]

/-! ### Different readings -/

/-- The suffixes of two readings are different, on both sides, and so are all names made
from them: a store or a download of the one shares no temporary entry with the other. -/
def Apart (t t' : Stamp) : Prop :=
  uuidSimple t ≠ uuidSimple t' ∧ nonce t ≠ nonce t' ∧ (tempNames t).Disjoint (tempNames t')

/-- **Clashes.**  For two different readings, of one process or of two, and before the clock
passes 64 bits: the suffixes of the store always differ, those of the sync side if and only if
the process or the place within the second does. -/
theorem apart_iff {t t' : Stamp} (ht : t.nanos < 2 ^ 64) (ht' : t'.nanos < 2 ^ 64)
    (hne : t.nanos ≠ t'.nanos ∨ t.pid ≠ t'.pid) :
    Apart t t' ↔ t.pid ≠ t'.pid ∨ t.nanos % 10 ^ 9 ≠ t'.nanos % 10 ^ 9 := by
  have huuid : uuidSimple t ≠ uuidSimple t' := by
    rw [ne_eq, uuidSimple_inj, Nat.mod_eq_of_lt ht, Nat.mod_eq_of_lt ht']
    rintro ⟨hpid, hnanos⟩
    exact hne.elim (fun h => h hnanos) fun h => h hpid
  rw [Apart, disjoint_tempNames_iff, ne_eq (nonce t), nonce_inj]
  constructor
  · rintro ⟨-, hnonce, -⟩
    exact not_and_or.mp hnonce
  · intro h
    have hnonce := not_and_or.mpr h
    exact ⟨huuid, hnonce, huuid, hnonce⟩

theorem apart_iff_half_second : Apart ⟨7, 500000000⟩ ⟨7, 0⟩
    ↔ (7 : ℕ) ≠ 7 ∨ 500000000 % 10 ^ 9 ≠ 0 % 10 ^ 9 := by
  have ht : (⟨7, 500000000⟩ : Stamp).nanos < 2 ^ 64 := by decide
  have ht' : (⟨7, 0⟩ : Stamp).nanos < 2 ^ 64 := by decide
  exact apart_iff ht ht' (.inl (by decide))

/-- Two pulls of one process that start a second apart have one directory for their
downloads. -/
theorem second_later_clashes :
    nonce ⟨7, 1700000000000000005⟩ = nonce ⟨7, 1700000001000000005⟩
      ∧ recvName ⟨7, 1700000000000000005⟩ = recvName ⟨7, 1700000001000000005⟩
      ∧ ¬ Apart ⟨7, 1700000000000000005⟩ ⟨7, 1700000001000000005⟩ := by
  have hnonce : nonce ⟨7, 1700000000000000005⟩ = nonce ⟨7, 1700000001000000005⟩ :=
    nonce_inj.mpr ⟨rfl, by norm_num⟩
  exact ⟨hnonce, by rw [recvName, hnonce, recvName], fun h => h.2.1 hnonce⟩

/-- Two pulls share neither directory nor exported file exactly if the readings behind either
have different nonces. -/
theorem pulls_apart_iff {C : Type*} {io io' : Pulling C} :
    [recvName io.recv, exportName io.exportStamp].Disjoint
        [recvName io'.recv, exportName io'.exportStamp]
      ↔ nonce io.recv ≠ nonce io'.recv ∧ nonce io.exportStamp ≠ nonce io'.exportStamp := by
  have hrecv : recvName io.recv = recvName io'.recv ↔ nonce io.recv = nonce io'.recv := by
    rw [recvName, recvName, tempName_inj (by decide) (by decide), and_iff_right rfl]
  have hexport : exportName io.exportStamp = exportName io'.exportStamp
      ↔ nonce io.exportStamp = nonce io'.exportStamp := by
    rw [exportName, exportName, tempName_inj (by decide) (by decide), and_iff_right rfl]
  simp [hrecv, hexport, exportName_ne_recvName, (exportName_ne_recvName _ _).symm, eq_comm]

end Dddatasync
