import Mathlib.Data.List.DropRight
import Mathlib.Tactic

/-!
Taking blanks off both ends of a text, and lowercasing it.

* `strip`: drop the elements with a property at both ends, with `strip_eq_self_iff` and
  `strip_strip`.
* `CaseTable`: the data of a version of Unicode that lowercasing reads, with the laws every
  version keeps; `toLowercase` is the conversion with the rule for a final sigma.
* `toLowercase_toLowercase`, `strip_toLowercase`: lowercasing twice is lowercasing once, and
  a stripped text stays stripped.
-/

namespace Text

/-! ### Blanks at the ends -/

section Strip

variable {α : Type*} (p : α → Bool)

/-- Drop the elements with `p` at both ends. -/
def strip (l : List α) : List α := (l.dropWhile p).rdropWhile p

variable {p} {l : List α}

lemma strip_eq_self_iff :
    strip p l = l ↔ (∀ c ∈ l.head?, p c = false) ∧ ∀ c ∈ l.getLast?, p c = false := by
  have hfirst : l.dropWhile p = l ↔ ∀ c ∈ l.head?, p c = false := by
    cases l with
    | nil => simp
    | cons c cs => simp
  have hlast : l.rdropWhile p = l ↔ ∀ c ∈ l.getLast?, p c = false := by
    rw [List.rdropWhile_eq_self_iff]
    cases l using List.reverseRecOn with
    | nil => simp
    | append_singleton cs c => simp
  constructor
  · intro h
    -- both drops shorten the list, so neither does
    have hsub : (l.dropWhile p).rdropWhile p <+: l.dropWhile p := List.rdropWhile_prefix p _
    have hlen : l.length ≤ (l.dropWhile p).length := by
      have := hsub.length_le
      rwa [← strip, h] at this
    have hd : l.dropWhile p = l := (List.dropWhile_suffix p).eq_of_length_le hlen
    refine ⟨hfirst.mp hd, hlast.mp ?_⟩
    rw [strip, hd] at h
    exact h
  · rintro ⟨h1, h2⟩
    rw [strip, hfirst.mpr h1, hlast.mpr h2]

/-- The first and the last element of a stripped list are no blanks. -/
lemma strip_strip (l : List α) : strip p (strip p l) = strip p l := by
  have hpre : (l.dropWhile p).rdropWhile p <+: l.dropWhile p := List.rdropWhile_prefix p _
  rw [strip_eq_self_iff]
  constructor
  · intro c hc
    obtain ⟨t, ht⟩ := hpre
    have hc' : c ∈ (l.dropWhile p).head? := by
      rw [← ht, List.head?_append, ← strip, hc]
      rfl
    cases hd : l.dropWhile p with
    | nil => simp [hd] at hc'
    | cons d ds =>
        have hnot := List.head_dropWhile_not (p := p) (l := l) (by simp [hd])
        simp only [hd, List.head_cons] at hnot
        simp only [hd, List.head?_cons, Option.mem_def, Option.some.injEq] at hc'
        rw [← hc', hnot]
  · intro c hc
    have hne : strip p l ≠ [] := by
      intro h
      simp [h] at hc
    have hnot : ¬ p ((strip p l).getLast hne) := List.rdropWhile_last_not p (l.dropWhile p) hne
    rw [List.getLast?_eq_getLast_of_ne_nil hne, Option.mem_def, Option.some.injEq] at hc
    rw [← hc]
    exact Bool.not_eq_true _ ▸ hnot

end Strip

/-! ### Lowercasing -/

/-- The character data lowercasing reads.  The laws hold in every version of Unicode: what
lowercasing gives is lowercase already, and it makes no blanks. -/
structure CaseTable (blank : Char → Bool) where
  lower : Char → List Char
  cased : Char → Bool
  caseIgnorable : Char → Bool
  lower_ne_nil : ∀ c, lower c ≠ []
  lower_lower : ∀ c, ∀ d ∈ lower c, lower d = [d] ∧ d ≠ 'Σ'
  lower_blank : ∀ c, blank c = false → ∀ d ∈ lower c, blank d = false
  lower_sigma : lower 'σ' = ['σ'] ∧ lower 'ς' = ['ς']
  blank_sigma : blank 'σ' = false ∧ blank 'ς' = false

namespace CaseTable

variable {blank : Char → Bool} (t : CaseTable blank)

/-- The first character that is not case-ignorable is cased. -/
def ignorableThenCased (cs : List Char) : Bool :=
  match cs.dropWhile t.caseIgnorable with
  | [] => false
  | c :: _ => t.cased c

/-- One character between what stands before it, read backwards, and after it: a capital
sigma at the end of a word has a form of its own. -/
def lowerAt (before after : List Char) (c : Char) : List Char :=
  if c = 'Σ' then
    if t.ignorableThenCased before && !t.ignorableThenCased after then ['ς'] else ['σ']
  else t.lower c

/-- The characters of the lowercase text. -/
def lowerFrom (before : List Char) : List Char → List Char
  | [] => []
  | c :: cs => t.lowerAt before cs c ++ lowerFrom (c :: before) cs

/-- The lowercase text. -/
def toLowercase (s : String) : String := String.ofList (t.lowerFrom [] s.toList)

variable {t}

lemma lowerAt_ne_nil (before after : List Char) (c : Char) : t.lowerAt before after c ≠ [] := by
  rw [lowerAt]
  split_ifs
  · simp
  · simp
  · exact t.lower_ne_nil c

/-- The result is lowercase and has no capital sigma. -/
lemma lower_of_mem_lowerAt {before after : List Char} {c d : Char}
    (h : d ∈ t.lowerAt before after c) : t.lower d = [d] ∧ d ≠ 'Σ' := by
  rw [lowerAt] at h
  split_ifs at h
  · obtain rfl := List.mem_singleton.mp h
    exact ⟨t.lower_sigma.2, by decide⟩
  · obtain rfl := List.mem_singleton.mp h
    exact ⟨t.lower_sigma.1, by decide⟩
  · exact t.lower_lower c d h

lemma blank_of_mem_lowerAt {before after : List Char} {c d : Char} (hc : blank c = false)
    (h : d ∈ t.lowerAt before after c) : blank d = false := by
  rw [lowerAt] at h
  split_ifs at h
  · obtain rfl := List.mem_singleton.mp h
    exact t.blank_sigma.2
  · obtain rfl := List.mem_singleton.mp h
    exact t.blank_sigma.1
  · exact t.lower_blank c hc d h

lemma lower_of_mem_lowerFrom {before cs : List Char} {d : Char}
    (h : d ∈ t.lowerFrom before cs) : t.lower d = [d] ∧ d ≠ 'Σ' := by
  induction cs generalizing before with
  | nil => cases h
  | cons c cs ih =>
      rcases List.mem_append.mp h with h | h
      · exact lower_of_mem_lowerAt h
      · exact ih h

/-- A lowercase text without capital sigmas is its own lowercase text. -/
lemma lowerFrom_eq_self {before cs : List Char} (h : ∀ c ∈ cs, t.lower c = [c] ∧ c ≠ 'Σ') :
    t.lowerFrom before cs = cs := by
  induction cs generalizing before with
  | nil => rfl
  | cons c cs ih =>
      obtain ⟨hlower, hsigma⟩ := h c List.mem_cons_self
      rw [lowerFrom, ih fun d hd => h d (List.mem_cons_of_mem _ hd), lowerAt, if_neg hsigma, hlower]
      rfl

/-- **Lowercasing twice is lowercasing once.** -/
theorem toLowercase_toLowercase (s : String) :
    t.toLowercase (t.toLowercase s) = t.toLowercase s := by
  rw [toLowercase, toLowercase, String.toList_ofList]
  exact congrArg _ (lowerFrom_eq_self fun c hc => lower_of_mem_lowerFrom hc)

lemma head?_lowerFrom (before : List Char) (c : Char) (cs : List Char) :
    (t.lowerFrom before (c :: cs)).head? = (t.lowerAt before cs c).head? := by
  rw [lowerFrom, List.head?_append]
  cases h : t.lowerAt before cs c with
  | nil => exact absurd h (lowerAt_ne_nil _ _ _)
  | cons d ds => rfl

/-- The last character of the result comes from the last character. -/
lemma mem_getLast?_lowerFrom {before cs : List Char} {d : Char}
    (h : d ∈ (t.lowerFrom before cs).getLast?) :
    ∃ c ∈ cs.getLast?, ∃ before', d ∈ t.lowerAt before' [] c := by
  induction cs generalizing before with
  | nil => cases h
  | cons c cs ih =>
      cases cs with
      | nil =>
          rw [lowerFrom, lowerFrom, List.append_nil] at h
          exact ⟨c, rfl, before, List.mem_of_getLast? h⟩
      | cons c' cs =>
          have hne : t.lowerFrom (c :: before) (c' :: cs) ≠ [] := by
            rw [lowerFrom]
            exact List.append_ne_nil_of_left_ne_nil (lowerAt_ne_nil _ _ _) _
          rw [lowerFrom, List.getLast?_append_of_ne_nil _ hne] at h
          obtain ⟨e, he, before', hd⟩ := ih h
          exact ⟨e, by rwa [List.getLast?_cons_cons], before', hd⟩

/-- **A stripped text stays stripped.** -/
theorem strip_toLowercase {s : String} (h : strip blank s.toList = s.toList) :
    strip blank (t.toLowercase s).toList = (t.toLowercase s).toList := by
  rw [toLowercase, String.toList_ofList]
  obtain ⟨hhead, hlast⟩ := strip_eq_self_iff.mp h
  rw [strip_eq_self_iff]
  constructor
  · intro d hd
    cases hs : s.toList with
    | nil => simp [hs, lowerFrom] at hd
    | cons c cs =>
        rw [hs, head?_lowerFrom] at hd
        exact blank_of_mem_lowerAt (hhead c (by simp [hs])) (List.mem_of_mem_head? hd)
  · intro d hd
    obtain ⟨c, hc, before, hmem⟩ := mem_getLast?_lowerFrom hd
    exact blank_of_mem_lowerAt (hlast c hc) hmem

end CaseTable

end Text
