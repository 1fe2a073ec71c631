import Mathlib.Data.List.Infix
import Mathlib.Tactic

/-!
The last write to a key in a history of writes and erasures.

* `Change`: one write or erasure; `LastWrite`: a value that was written to a key and not
  touched since.
* `lastWrite_snoc`: how one more change moves the last writes.
-/

/-- A change of a map: a key gets a value or is erased. -/
inductive Change (K V : Type*) where
  | put (k : K) (v : V)
  | del (k : K)

namespace Change

variable {K V : Type*}

/-- The key a change is about. -/
def key : Change K V → K
  | put k _ => k
  | del k => k

/-- `v` was written to `k`, and no later change of the history is about `k`. -/
def LastWrite (h : List (Change K V)) (k : K) (v : V) : Prop :=
  ∃ before after, h = before ++ put k v :: after ∧ ∀ c ∈ after, c.key ≠ k

lemma not_lastWrite_nil (k : K) (v : V) : ¬ LastWrite [] k v := by
  rintro ⟨before, after, h, -⟩
  simp at h

lemma LastWrite.mem {h : List (Change K V)} {k : K} {v : V} (hl : LastWrite h k v) :
    put k v ∈ h := by
  obtain ⟨before, after, rfl, -⟩ := hl
  exact List.mem_append_right before List.mem_cons_self

/-- What one more change makes of the last writes. -/
lemma lastWrite_snoc {h : List (Change K V)} {c : Change K V} {k : K} {v : V} :
    LastWrite (h ++ [c]) k v ↔ c = put k v ∨ c.key ≠ k ∧ LastWrite h k v := by
  constructor
  · rintro ⟨before, after, heq, hafter⟩
    rcases List.eq_nil_or_concat' after with rfl | ⟨after, d, rfl⟩
    · exact .inl (List.singleton_inj.mp (List.append_inj' heq rfl).2)
    · rw [← List.cons_append, ← List.append_assoc] at heq
      obtain ⟨rfl, hd⟩ := List.append_inj' heq rfl
      obtain rfl := List.singleton_inj.mp hd
      exact .inr ⟨hafter c (by simp), before, after, rfl,
        fun e he => hafter e (List.mem_append_left _ he)⟩
  · rintro (rfl | ⟨hne, before, after, rfl, hafter⟩)
    · exact ⟨h, [], rfl, by simp⟩
    · refine ⟨before, after ++ [c], by simp, fun e he => ?_⟩
      rcases List.mem_append.mp he with he | he
      · exact hafter e he
      · rwa [List.mem_singleton.mp he]

end Change
