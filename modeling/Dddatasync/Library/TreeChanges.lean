import Dddatasync.Library.FileSystem

/-!
What differs between two trees.

* `Changes`: everything that differs lies at certain paths; `write_changes` and its companions
  say it of the calls on a tree.
* `SameBelow`: nothing differs in a directory, at any depth; `sameBelow_iff`: what that comes
  to when only one entry can have changed.
-/

namespace Fs

variable {C : Type*}

/-- All that differs lies at the paths in `S`. -/
def Changes (S : AbsPath → Prop) (fs fs' : FileSystem C) : Prop :=
  ∀ q, fs'.lookup q ≠ fs.lookup q → S q

/-- Nothing differs at the directory and below it. -/
def SameBelow (root : AbsPath) (fs fs' : FileSystem C) : Prop :=
  ∀ q, root <+: q → fs'.lookup q = fs.lookup q

variable {S T : AbsPath → Prop} {fs fs' : FileSystem C} {q : AbsPath} {root : AbsPath}
  {n : OsString}

lemma Changes.refl (S : AbsPath → Prop) (fs : FileSystem C) : Changes S fs fs :=
  fun _ h => absurd rfl h

lemma Changes.mono (h : Changes S fs fs') (hST : ∀ q, S q → T q) : Changes T fs fs' :=
  fun q hq => hST q (h q hq)

lemma Changes.trans {fs'' : FileSystem C} (h : Changes S fs fs') (h' : Changes S fs' fs'') :
    Changes S fs fs'' := by
  intro q hq
  by_cases heq : fs'.lookup q = fs.lookup q
  · exact h' q (heq ▸ hq)
  · exact h q heq

lemma Changes.lookup_eq (h : Changes S fs fs') (hq : ¬ S q) : fs'.lookup q = fs.lookup q := by
  by_contra hne
  exact hq (h q hne)

lemma SameBelow.refl (root : AbsPath) (fs : FileSystem C) : SameBelow root fs fs := fun _ _ => rfl

/-- Where only one entry can have changed, nothing has when that one has not. -/
lemma sameBelow_iff (h : Changes (· = root ++ [n]) fs fs') :
    SameBelow root fs fs' ↔ entry fs' root n = entry fs root n := by
  constructor
  · exact fun hsame => hsame _ (List.prefix_append root [n])
  · intro heq q _
    by_cases hq : q = root ++ [n]
    · rw [hq]
      exact heq
    · exact h.lookup_eq hq

/-! ### The calls -/

lemma changes_insert (fs : FileSystem C) (q : AbsPath) (x : Node C) :
    Changes (· = q) fs (fs.insert q x) := by
  intro p hp
  by_contra hne
  exact hp (AList.lookup_insert_ne hne)

lemma changes_erase (fs : FileSystem C) (q : AbsPath) : Changes (· = q) fs (fs.erase q) := by
  intro p hp
  by_contra hne
  exact hp (AList.lookup_erase_ne hne)

/-- Writing under an ordinary name. -/
lemma write_plain (fs : FileSystem C) (root : AbsPath) (c : C) (hn : Plain n) :
    write fs ⟨root, n⟩ c = match entry fs root n with
      | some .dir => .error .isADirectory
      | _ => .ok (fs.insert (root ++ [n]) (.file c)) := by
  cases hentry : entry fs root n with
  | none => simp only [write, resolve_plain fs root hn, node_snoc, hentry]
  | some x => cases x <;> simp only [write, resolve_plain fs root hn, node_snoc, hentry]

lemma write_changes {c : C} (hn : Plain n) (h : write fs ⟨root, n⟩ c = .ok fs') :
    Changes (· = root ++ [n]) fs fs' := by
  simp only [write, resolve_plain fs root hn] at h
  split at h
  · cases h
  · cases h
    exact changes_insert fs _ _

lemma createDirAll_changes (hn : Plain n) (h : createDirAll fs ⟨root, n⟩ = .ok fs') :
    Changes (· = root ++ [n]) fs fs' := by
  simp only [createDirAll, resolve_plain fs root hn] at h
  split at h
  · cases h
    exact changes_insert fs _ _
  · cases h
    exact .refl _ _
  · cases h

/-- A rename to an ordinary name. -/
lemma rename_changes {m : OsString} (hn : Plain n) (hm : Plain m)
    (h : Fs.rename fs ⟨root, n⟩ ⟨root, m⟩ = .ok fs') :
    Changes (fun q => q = root ++ [n] ∨ q = root ++ [m]) fs fs' := by
  simp only [Fs.rename, resolve_plain fs root hn, resolve_plain fs root hm] at h
  split at h
  · cases h
  · cases h
  · cases h
  · cases h
    exact ((changes_erase fs _).mono fun q => Or.inl).trans
      ((changes_insert _ _ _).mono fun q => Or.inr)

end Fs
