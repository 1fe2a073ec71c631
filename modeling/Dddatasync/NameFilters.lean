import Dddatasync.Cleanup
import Dddatasync.Sync
import Dddatasync.Watcher

/-!
The three filters on file names: the listing of `src/store.rs`, the event filter of
`src/watcher.rs`, and what `push` offers and `pull` accepts in `src/sync.rs`.

* `listed_iff`, `watched_iff`, `offered_iff`: what each of them lets through.
* `FiltersAgree`, `filtersAgree_iff`: for a regular file of the store they agree exactly if
  its name is hidden, or UTF-8 without a backslash.
* `hidden_not_synced`: no hidden file gets past any of them.
-/

namespace Dddatasync

open Fs OsString

variable {C : Type*} [HasLen C] {root : AbsPath} {fs : FileSystem C} {n : OsString} {c : C}

/-- The name `push` puts into its offers. -/
def pushName (path : PathBuf) : Option String := (fileName path).bind toStr

/-- `push` can offer the file under a name that passes the check of `pull`. -/
def Offered (path : PathBuf) : Prop := ∃ s, pushName path = some s ∧ safeName s = true

/-- `files` lists the file `n` of content `c`. -/
def ListsFile (root : AbsPath) (fs : FileSystem C) (n : OsString) (c : C) : Prop :=
  ∃ l, files root {} fs = .ok l ∧ ⟨toStringLossy n, HasLen.len c⟩ ∈ l

/-- The file is listed, watched and offered, or nothing of it. -/
def FiltersAgree (root : AbsPath) (fs : FileSystem C) (n : OsString) (c : C) : Prop :=
  (ListsFile root fs n c ↔ isDotFile ⟨root, n⟩ = false)
    ∧ (isDotFile ⟨root, n⟩ = false ↔ Offered ⟨root, n⟩)

/-! ### Each filter -/

lemma eq_map_some_of_mapM_id {α : Type*} {l : List (Option α)} {as : List α}
    (h : l.mapM id = some as) : l = as.map some := by
  induction l generalizing as with
  | nil =>
      rw [← Option.some.inj h]
      rfl
  | cons a l ih =>
      rw [List.mapM_cons] at h
      cases a with
      | none => cases h
      | some a =>
          obtain ⟨_, ha, h⟩ := Option.bind_eq_some_iff.mp h
          obtain rfl := Option.some.inj ha
          obtain ⟨rest, hrest, heq⟩ := Option.bind_eq_some_iff.mp h
          rw [← Option.some.inj heq, ih hrest]
          rfl

/-- The strict conversion gives nothing but what the lossy one gives. -/
lemma toStringLossy_of_toStr {s : String} (h : toStr n = some s) : toStringLossy n = s := by
  obtain ⟨cs, hcs, rfl⟩ := Option.map_eq_some_iff.mp h
  rw [toStringLossy, eq_map_some_of_mapM_id hcs, List.map_map]
  exact congrArg String.ofList (List.map_id' cs)

/-- A name in UTF-8 is visible if its text does not begin with a dot. -/
lemma visible_of_toStr {s : String} (h : toStr n = some s) :
    startsWithDot s = false ↔ Visible n := by
  rw [← toStringLossy_of_toStr h, ← Bool.not_eq_true, startsWithDot_toStringLossy, not_not]

/-- `files` lists the visible files. -/
lemma listed_iff (hdir : node fs root = some .dir) (hf : entry fs root n = some (.file c)) :
    ListsFile root fs n c ↔ Visible n := by
  constructor
  · rintro ⟨l, hl, hmem⟩
    obtain ⟨-, rfl⟩ := eq_visibleFiles_of_files hl
    obtain ⟨m, d, -, hv, heq⟩ := mem_visibleFiles.mp hmem
    rw [FileEntry.mk.injEq] at heq
    by_contra hn
    rw [← startsWithDot_toStringLossy, heq.1, startsWithDot_toStringLossy] at hn
    exact hn hv
  · exact fun hv => ⟨_, files_eq hdir rfl, mem_visibleFiles.mpr ⟨n, c, hf, hv, rfl⟩⟩

/-- The watcher lets through the visible names in UTF-8. -/
lemma watched_iff (hn : Plain n) :
    isDotFile ⟨root, n⟩ = false ↔ (toStr n).isSome = true ∧ Visible n := by
  rw [isDotFile, fileName_plain root hn]
  cases h : toStr n with
  | none => simp [h]
  | some s => simp [h, visible_of_toStr h]

/-- A receiver accepts the visible names in UTF-8 without a backslash. -/
lemma offered_iff (hn : Plain n) :
    Offered ⟨root, n⟩ ↔ ∃ s, toStr n = some s ∧ '\\' ∉ s.toList ∧ Visible n := by
  rw [Offered, pushName, fileName_plain root hn, Option.bind_some]
  refine exists_congr fun s => and_congr_right fun h => ?_
  have hslash : '/' ∉ s.toList := by
    rw [← toStringLossy_of_toStr h]
    exact fun hmem => hn.no_slash (mem_toStringLossy (a := '/') (by decide) (by decide) hmem)
  simp [safeName, hslash, visible_of_toStr h]

/-! ### Together -/

/-- **The three filters** agree on a regular file of a store if and only if its name begins
with a dot, or is UTF-8 and has no backslash in it. -/
theorem filtersAgree_iff (hstore : StoreDir root fs) (hf : entry fs root n = some (.file c)) :
    FiltersAgree root fs n c ↔ ¬ Visible n ∨ ∃ s, toStr n = some s ∧ '\\' ∉ s.toList := by
  have hn := hstore.plain n _ hf
  rw [FiltersAgree, listed_iff hstore.dir hf, watched_iff hn, offered_iff hn]
  by_cases hv : Visible n
  · cases h : toStr n with
    | none => simp [hv]
    | some s => simp [hv]
  · simp [hv]

omit [HasLen C] in
/-- A hidden file is neither pushed on an event nor offered under a name that is accepted. -/
theorem hidden_not_synced (hstore : StoreDir root fs) (hf : entry fs root n = some (.file c))
    (hv : ¬ Visible n) : isDotFile ⟨root, n⟩ = true ∧ ¬ Offered ⟨root, n⟩ := by
  have hn := hstore.plain n _ hf
  constructor
  · rw [← Bool.not_eq_false, watched_iff hn]
    exact fun h => hv h.2
  · rw [offered_iff hn]
    rintro ⟨s, -, -, h⟩
    exact hv h

/-- A store with a file whose name has a backslash in it, one whose name is not UTF-8, and an
ordinary one. -/
def oddNames : FileSystem (List UInt8) :=
  (((AList.insert [ofStr "store"] .dir ∅).insert [ofStr "store", ofStr "a\\b"] (.file [1])).insert
    [ofStr "store", [0xFF]] (.file [2])).insert [ofStr "store", ofStr "c"] (.file [3])

lemma storeDir_oddNames : StoreDir [ofStr "store"] oddNames where
  dir := rfl
  plain := fun n x hx => by
    have hmem : (n, x) ∈ [(ofStr "c", Node.file [3]), ([0xFF], Node.file [2]),
        (ofStr "a\\b", Node.file [1])] := mem_children.mpr hx
    simp only [List.mem_cons, List.not_mem_nil, or_false, Prod.mk.injEq] at hmem
    rcases hmem with ⟨rfl, -⟩ | ⟨rfl, -⟩ | ⟨rfl, -⟩ <;> decide

theorem filtersAgree_c : FiltersAgree [ofStr "store"] oddNames (ofStr "c") [3] :=
  (filtersAgree_iff storeDir_oddNames (by rfl)).mpr (.inr ⟨"c", by decide, by decide⟩)

/-- Both odd names are listed; the watcher passes over the one that is not UTF-8, and no
receiver accepts the one with the backslash. -/
theorem odd_names_not_synced :
    files [ofStr "store"] {} oddNames
        = .ok [⟨"c", 1⟩, ⟨toStringLossy [0xFF], 1⟩, ⟨"a\\b", 1⟩]
      ∧ isDotFile ⟨[ofStr "store"], [0xFF]⟩ = true
      ∧ ¬ Offered ⟨[ofStr "store"], ofStr "a\\b"⟩
      ∧ ¬ FiltersAgree [ofStr "store"] oddNames [0xFF] [2]
      ∧ ¬ FiltersAgree [ofStr "store"] oddNames (ofStr "a\\b") [1] := by
  have hback : ¬ Offered ⟨[ofStr "store"], ofStr "a\\b"⟩ := by
    rw [offered_iff (by decide)]
    rintro ⟨s, hs, hback, -⟩
    rw [toStr_ofStr, Option.some.injEq] at hs
    subst hs
    exact absurd hback (by decide)
  refine ⟨by decide, by decide, hback, ?_, ?_⟩
  · rintro ⟨hlisted, -⟩
    rw [listed_iff storeDir_oddNames.dir (by rfl)] at hlisted
    exact absurd (hlisted.mp (by decide)) (by decide)
  · rintro ⟨-, hoffered⟩
    exact hback (hoffered.mp (by decide))

end Dddatasync
