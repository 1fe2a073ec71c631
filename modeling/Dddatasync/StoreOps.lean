import Dddatasync.Store

/-!
What the operations of the store do to the tree, and to what can be seen of it.

* `added_of_add`, `add_error`, `remove_cases`: every outcome of `add` and `remove`, as a
  change of the tree.
* `SameVisible`, `Placed`, `Dropped`: the three changes of the listing an operation can
  make, with `fileCount_placed` and `fileCount_dropped`.
* `WithinLimits`: the limits as a property of a tree; `withinLimits_placed_iff`: when a
  new content keeps them.
* `Added.placed`, `add_error_sameVisible`, `remove_visible`: the operations in these terms.
-/

namespace Dddatasync

open Fs OsString

variable {C : Type*} [HasLen C]

/-! ### The operations on the tree -/

omit [HasLen C] in
/-- What a failing copy leaves: nothing, or some content under the temp name. -/
lemma copyToTmp_error {root : AbsPath} {src : PathBuf} {tmp : OsString} {io : Faults C}
    {fs fs' : FileSystem C} {e : IoError} (htmp : Plain tmp)
    (h : copyToTmp root src tmp io fs = (.error e, fs')) :
    fs' = fs ∨ ∃ c, fs' = fs.insert (root ++ [tmp]) (.file c) := by
  have hwrite : ∀ {c : C} {fs₁ : FileSystem C}, write fs ⟨root, tmp⟩ c = .ok fs₁ →
      fs₁ = fs.insert (root ++ [tmp]) (.file c) := by
    intro c fs₁ hw
    simp only [write, resolve_plain fs root htmp] at hw
    split at hw
    · cases hw
    · exact (Except.ok.inj hw).symm
  rw [copyToTmp] at h
  split at h
  · split at h
    · exact .inl (Prod.mk.inj h).2.symm
    · split at h
      · exact .inl (Prod.mk.inj h).2.symm
      · rename_i hw
        rw [← (Prod.mk.inj h).2]
        exact .inr ⟨_, hwrite hw⟩
  · split at h
    · exact .inl (Prod.mk.inj h).2.symm
    · exact absurd (Prod.mk.inj h).1 (by simp)

omit [HasLen C] in
/-- A copy that succeeds puts the content of the source under the temp name. -/
lemma copyToTmp_ok {root : AbsPath} {src : PathBuf} {tmp : OsString} {io : Faults C}
    {fs fs' : FileSystem C} (htmp : Plain tmp)
    (h : copyToTmp root src tmp io fs = (.ok (), fs')) :
    ∃ c, metadata fs src = .ok (.file c) ∧ fs' = fs.insert (root ++ [tmp]) (.file c) := by
  rw [copyToTmp] at h
  split at h
  · split at h
    · exact absurd (Prod.mk.inj h).1 (by simp)
    · split at h <;> exact absurd (Prod.mk.inj h).1 (by simp)
  · split at h
    · exact absurd (Prod.mk.inj h).1 (by simp)
    · rename_i fs₁ hc
      rw [← (Prod.mk.inj h).2]
      rw [copy] at hc
      split at hc
      · cases hc
      · cases hc
      · rename_i c hm
        refine ⟨c, hm, ?_⟩
        simp only [write, resolve_plain fs root htmp] at hc
        split at hc
        · cases hc
        · exact (Except.ok.inj hc).symm

omit [HasLen C] in
lemma discardTmp_cases {root : AbsPath} {tmp : OsString} {io : Faults C} {fs : FileSystem C}
    (htmp : Plain tmp) :
    discardTmp root tmp io fs = fs ∨ discardTmp root tmp io fs = fs.erase (root ++ [tmp]) := by
  rw [discardTmp]
  split
  · exact .inl rfl
  · simp only [removeFile, resolve_plain fs root htmp]
    cases node fs (root ++ [tmp]) with
    | none => exact .inl rfl
    | some x =>
        cases x with
        | dir => exact .inl rfl
        | file c => exact .inr rfl

/-- A refused commit leaves the temp file alone or takes it away. -/
lemma commit_error {root : AbsPath} {size : ℕ} {name tmp : OsString} {io : Faults C}
    {fs fs' : FileSystem C} {e : StoreError} (htmp : Plain tmp)
    (h : commit root size name tmp io fs = (.error e, fs')) :
    fs' = fs ∨ fs' = fs.erase (root ++ [tmp]) := by
  rw [commit] at h
  split at h
  · rw [← (Prod.mk.inj h).2]
    exact discardTmp_cases htmp
  · split at h
    · rw [← (Prod.mk.inj h).2]
      exact discardTmp_cases htmp
    · split at h
      · exact .inl (Prod.mk.inj h).2.symm
      · split at h
        · exact .inl (Prod.mk.inj h).2.symm
        · exact absurd (Prod.mk.inj h).1 (by simp)

/-- A commit that succeeds found the limits respected and the name free, and moved the
temp file there. -/
lemma commit_ok {root : AbsPath} {size : ℕ} {name tmp : OsString} {io : Faults C}
    {fs fs' : FileSystem C} {c : C} (htmp : Plain tmp) (hname : Plain name)
    (hc : entry fs root tmp = some (.file c))
    (h : commit root size name tmp io fs = (.ok (), fs')) :
    canAddLocked root io fs size = .ok () ∧ entry fs root name = none
      ∧ fs' = (fs.erase (root ++ [tmp])).insert (root ++ [name]) (.file c) := by
  rw [commit] at h
  split at h
  · exact absurd (Prod.mk.inj h).1 (by simp)
  · rename_i hgate
    rw [pathExists_plain hname] at h
    split at h
    · exact absurd (Prod.mk.inj h).1 (by simp)
    · rename_i hfree
      rw [Bool.not_eq_true, Option.isSome_eq_false_iff, Option.isNone_iff_eq_none] at hfree
      refine ⟨hgate, hfree, ?_⟩
      split at h
      · exact absurd (Prod.mk.inj h).1 (by simp)
      · simp only [rename, resolve_plain fs root htmp, resolve_plain fs root hname, node_snoc,
          hc, hfree] at h
        exact (Prod.mk.inj h).2.symm

/-- What a successful `add` did: the source is a file under an ordinary name that was
free, the limits hold, and the name now has the content of the source. -/
structure Added (root : AbsPath) (src : PathBuf) (stamp : Stamp) (io : Faults C)
    (fs fs' : FileSystem C) (n : OsString) (c : C) : Prop where
  fileName : fileName src = some n
  source : metadata fs src = .ok (.file c)
  plain : Plain n
  ne_tmp : n ≠ tmpName stamp
  free : entry fs root n = none
  gate : canAddLocked root io (fs.insert (root ++ [tmpName stamp]) (.file c)) (HasLen.len c)
    = .ok ()
  eq : fs' = ((fs.insert (root ++ [tmpName stamp]) (.file c)).erase
    (root ++ [tmpName stamp])).insert (root ++ [n]) (.file c)

omit [HasLen C] in
lemma nul_notMem_of_metadata {fs : FileSystem C} {p : PathBuf} {x : Node C}
    (h : metadata fs p = .ok x) : (0 : UInt8) ∉ p.text := by
  intro h0
  simp [metadata, resolve, h0] at h

lemma added_of_add {root : AbsPath} {src : PathBuf} {stamp : Stamp} {io : Faults C}
    {fs fs' : FileSystem C} (h : add root src stamp io fs = (.ok (), fs')) :
    ∃ n c, Added root src stamp io fs fs' n c := by
  have htmp := plain_tmpName stamp
  rw [add] at h
  split at h
  · exact absurd (Prod.mk.inj h).1 (by simp)
  · split at h
    · exact absurd (Prod.mk.inj h).1 (by simp)
    · rename_i stat hstat
      split at h
      · exact absurd (Prod.mk.inj h).1 (by simp)
      · rename_i n hn
        split at h
        · exact absurd (Prod.mk.inj h).1 (by simp)
        · rename_i fs₁ hcopy
          obtain ⟨c, hc, rfl⟩ := copyToTmp_ok htmp hcopy
          have hplain : Plain n := plain_of_fileName hn (nul_notMem_of_metadata hc)
          obtain rfl : stat = .file c := Except.ok.inj (hstat.symm.trans hc)
          obtain ⟨hgate, hfree, hfs⟩ := commit_ok htmp hplain (entry_insert_self _ _ _ _) h
          have hne : n ≠ tmpName stamp := by
            intro heq
            rw [heq, entry_insert_self] at hfree
            cases hfree
          exact ⟨n, c, hn, hc, hplain, hne,
            by rwa [entry_insert_of_ne _ _ (by simpa using hne)] at hfree, hgate, hfs⟩

/-- A refused `add` leaves at most a temp file behind. -/
lemma add_error {root : AbsPath} {src : PathBuf} {stamp : Stamp} {io : Faults C}
    {fs fs' : FileSystem C} {e : StoreError} (h : add root src stamp io fs = (.error e, fs')) :
    fs' = fs ∨ ∃ c, fs' = fs.insert (root ++ [tmpName stamp]) (.file c)
      ∨ fs' = (fs.insert (root ++ [tmpName stamp]) (.file c)).erase
        (root ++ [tmpName stamp]) := by
  have htmp := plain_tmpName stamp
  rw [add] at h
  split at h
  · exact .inl (Prod.mk.inj h).2.symm
  · split at h
    · exact .inl (Prod.mk.inj h).2.symm
    · split at h
      · exact .inl (Prod.mk.inj h).2.symm
      · split at h
        · rename_i hcopy
          rw [← (Prod.mk.inj h).2]
          exact (copyToTmp_error htmp hcopy).imp_right fun ⟨c, hc⟩ => ⟨c, .inl hc⟩
        · rename_i fs₁ hcopy
          obtain ⟨c, -, rfl⟩ := copyToTmp_ok htmp hcopy
          exact .inr ⟨c, commit_error htmp h⟩

omit [HasLen C] in
/-- `remove` takes out the regular file its argument denotes, or changes nothing. -/
lemma remove_cases {root : AbsPath} {name : String} {io : Faults C} {fs fs' : FileSystem C}
    {r : Except StoreError Unit} (h : remove root name io fs = (r, fs')) :
    (r = .ok () ∧ ∃ q c, resolve fs ⟨root, ofStr name⟩ = .ok q ∧ node fs q = some (.file c)
        ∧ fs' = fs.erase q)
      ∨ (∃ e, r = .error e) ∧ fs' = fs := by
  rw [remove] at h
  split at h
  · split at h
    · exact .inr ⟨⟨_, (Prod.mk.inj h).1.symm⟩, (Prod.mk.inj h).2.symm⟩
    · split at h
      · exact .inr ⟨⟨_, (Prod.mk.inj h).1.symm⟩, (Prod.mk.inj h).2.symm⟩
      · rename_i fs₁ hrm
        obtain ⟨rfl, rfl⟩ := Prod.mk.inj h
        rw [removeFile] at hrm
        split at hrm
        · cases hrm
        · rename_i q hq
          split at hrm
          · cases hrm
          · cases hrm
          · rename_i c hc
            exact .inl ⟨rfl, q, c, hq, hc, (Except.ok.inj hrm).symm⟩
  · exact .inr ⟨⟨_, (Prod.mk.inj h).1.symm⟩, (Prod.mk.inj h).2.symm⟩

/-! ### Changes of the listing -/

/-- The two trees have the same visible entries in the root. -/
structure SameVisible (root : AbsPath) (fs fs' : FileSystem C) : Prop where
  root_eq : node fs' root = node fs root
  entry_eq : ∀ n, Visible n → entry fs' root n = entry fs root n

/-- The two trees have the same entries in the root, the entry `m` apart. -/
structure SameExcept (root : AbsPath) (m : OsString) (fs fs' : FileSystem C) : Prop where
  root_eq : node fs' root = node fs root
  entry_eq : ∀ n, n ≠ m → entry fs' root n = entry fs root n

/-- The entry `n` now is a file with content `c`, and no other visible entry changed. -/
structure Placed (root : AbsPath) (n : OsString) (c : C) (fs fs' : FileSystem C) : Prop where
  root_eq : node fs' root = node fs root
  entry_self : entry fs' root n = some (.file c)
  entry_ne : ∀ m, Visible m → m ≠ n → entry fs' root m = entry fs root m

/-- The entry `n`, a file before, is gone, and no other visible entry changed. -/
structure Dropped (root : AbsPath) (n : OsString) (fs fs' : FileSystem C) : Prop where
  root_eq : node fs' root = node fs root
  was_file : ∃ c, entry fs root n = some (.file c)
  entry_self : entry fs' root n = none
  entry_ne : ∀ m, Visible m → m ≠ n → entry fs' root m = entry fs root m

variable {root : AbsPath} {fs fs' fs'' : FileSystem C} {n : OsString} {c : C}

omit [HasLen C] in
lemma SameVisible.refl (fs : FileSystem C) : SameVisible root fs fs := ⟨rfl, fun _ _ => rfl⟩

omit [HasLen C] in
lemma SameVisible.trans (h : SameVisible root fs fs') (h' : SameVisible root fs' fs'') :
    SameVisible root fs fs'' :=
  ⟨h'.root_eq.trans h.root_eq, fun n hn => (h'.entry_eq n hn).trans (h.entry_eq n hn)⟩

omit [HasLen C] in
lemma SameExcept.refl (m : OsString) (fs : FileSystem C) : SameExcept root m fs fs :=
  ⟨rfl, fun _ _ => rfl⟩

omit [HasLen C] in
lemma SameExcept.trans (h : SameExcept root n fs fs') (h' : SameExcept root n fs' fs'') :
    SameExcept root n fs fs'' :=
  ⟨h'.root_eq.trans h.root_eq, fun m hm => (h'.entry_eq m hm).trans (h.entry_eq m hm)⟩

omit [HasLen C] in
/-- A change of one hidden entry cannot be seen. -/
lemma SameExcept.sameVisible (h : SameExcept root n fs fs') (hn : ¬ Visible n) :
    SameVisible root fs fs' :=
  ⟨h.root_eq, fun m hm => h.entry_eq m fun heq => hn (heq ▸ hm)⟩

omit [HasLen C] in
lemma SameVisible.placed (h : SameVisible root fs fs') (h' : Placed root n c fs' fs'') :
    Placed root n c fs fs'' :=
  ⟨h'.root_eq.trans h.root_eq, h'.entry_self,
    fun m hm hne => (h'.entry_ne m hm hne).trans (h.entry_eq m hm)⟩

omit [HasLen C] in
lemma Placed.sameVisible (h : Placed root n c fs fs') (h' : SameVisible root fs' fs'')
    (hn : Visible n) : Placed root n c fs fs'' :=
  ⟨h'.root_eq.trans h.root_eq, (h'.entry_eq n hn).trans h.entry_self,
    fun m hm hne => (h'.entry_eq m hm).trans (h.entry_ne m hm hne)⟩

lemma root_ne_child (root : AbsPath) (n : OsString) : root ≠ root ++ [n] := by simp

omit [HasLen C] in
lemma sameExcept_insert (root : AbsPath) (n : OsString) (x : Node C) (fs : FileSystem C) :
    SameExcept root n fs (fs.insert (root ++ [n]) x) where
  root_eq := node_insert_of_ne fs x (root_ne_child root n)
  entry_eq := fun _ hne => entry_insert_of_ne fs x (by simpa using hne)

omit [HasLen C] in
lemma sameExcept_erase (root : AbsPath) (n : OsString) (fs : FileSystem C) :
    SameExcept root n fs (fs.erase (root ++ [n])) where
  root_eq := node_erase_of_ne fs (root_ne_child root n)
  entry_eq := fun _ hne => entry_erase_of_ne fs (by simpa using hne)

omit [HasLen C] in
/-- Writing a hidden entry cannot be seen. -/
lemma sameVisible_insert (x : Node C) (h : ¬ Visible n) :
    SameVisible root fs (fs.insert (root ++ [n]) x) :=
  (sameExcept_insert root n x fs).sameVisible h

omit [HasLen C] in
/-- Erasing a hidden entry cannot be seen. -/
lemma sameVisible_erase (h : ¬ Visible n) : SameVisible root fs (fs.erase (root ++ [n])) :=
  (sameExcept_erase root n fs).sameVisible h

omit [HasLen C] in
lemma placed_insert (root : AbsPath) (n : OsString) (c : C) (fs : FileSystem C) :
    Placed root n c fs (fs.insert (root ++ [n]) (.file c)) where
  root_eq := (sameExcept_insert root n _ fs).root_eq
  entry_self := entry_insert_self fs root n _
  entry_ne := fun m _ => (sameExcept_insert root n _ fs).entry_eq m

omit [HasLen C] in
lemma dropped_erase (h : entry fs root n = some (.file c)) :
    Dropped root n fs (fs.erase (root ++ [n])) where
  root_eq := (sameExcept_erase root n fs).root_eq
  was_file := ⟨c, h⟩
  entry_self := entry_erase_self fs root n
  entry_ne := fun m _ => (sameExcept_erase root n fs).entry_eq m

lemma SameVisible.fileCount_eq (h : SameVisible root fs fs') :
    fileCount root fs' = fileCount root fs :=
  fileCount_congr h.entry_eq

/-- Placing a file adds one to the count unless the name is listed already. -/
lemma fileCount_placed (h : Placed root n c fs fs') (hn : Visible n) :
    (Listed root fs n ∧ fileCount root fs' = fileCount root fs)
      ∨ (¬ Listed root fs n ∧ fileCount root fs' = fileCount root fs + 1) := by
  have hcount : fileCount root fs' = fileCount root (fs.insert (root ++ [n]) (.file c)) := by
    refine fileCount_congr fun m hm => ?_
    by_cases hmn : m = n
    · rw [hmn, h.entry_self, entry_insert_self]
    · rw [h.entry_ne m hm hmn, (placed_insert root n c fs).entry_ne m hm hmn]
  by_cases hl : Listed root fs n
  · exact .inl ⟨hl, by rw [hcount, fileCount_insert_listed c hl]⟩
  · exact .inr ⟨hl, by rw [hcount, fileCount_insert_new c hn hl]⟩

lemma fileCount_dropped (h : Dropped root n fs fs') (hn : Visible n) :
    fileCount root fs = fileCount root fs' + 1 := by
  have hcount : fileCount root fs' = fileCount root (fs.erase (root ++ [n])) := by
    obtain ⟨c, hc⟩ := h.was_file
    refine fileCount_congr fun m hm => ?_
    by_cases hmn : m = n
    · rw [hmn, h.entry_self, entry_erase_self]
    · rw [h.entry_ne m hm hmn, (dropped_erase hc).entry_ne m hm hmn]
  rw [hcount, fileCount_erase_listed ⟨hn, h.was_file⟩]

/-! ### The limits -/

/-- At most `maxFiles` visible files, each at most `maxFileBytes` long. -/
structure WithinLimits (root : AbsPath) (fs : FileSystem C) : Prop where
  count : fileCount root fs ≤ maxFiles
  size : ∀ n c, Visible n → entry fs root n = some (.file c) → HasLen.len c ≤ maxFileBytes

/-- The limits in terms of what `files` returns. -/
lemma withinLimits_iff : WithinLimits root fs ↔ (visibleFiles root fs).length ≤ maxFiles
    ∧ ∀ e ∈ visibleFiles root fs, e.size ≤ maxFileBytes := by
  constructor
  · rintro ⟨hcount, hsize⟩
    refine ⟨hcount, fun e he => ?_⟩
    obtain ⟨n, c, hc, hn, rfl⟩ := mem_visibleFiles.mp he
    exact hsize n c hn hc
  · rintro ⟨hcount, hsize⟩
    exact ⟨hcount, fun n c hn hc => hsize _ (mem_visibleFiles.mpr ⟨n, c, hc, hn, rfl⟩)⟩

instance : Decidable (WithinLimits root fs) := decidable_of_iff _ withinLimits_iff.symm

lemma SameVisible.withinLimits (h : SameVisible root fs fs') (hw : WithinLimits root fs) :
    WithinLimits root fs' where
  count := h.fileCount_eq.trans_le hw.count
  size := fun n c hn hc => hw.size n c hn (by rw [← h.entry_eq n hn, hc])

/-- Placing a file keeps the limits exactly when there is room for it and it is not too
large. -/
lemma withinLimits_placed_iff (h : Placed root n c fs fs') (hn : Visible n)
    (hw : WithinLimits root fs) :
    WithinLimits root fs'
      ↔ (Listed root fs n ∨ fileCount root fs < maxFiles) ∧ HasLen.len c ≤ maxFileBytes := by
  have hcount := fileCount_placed h hn
  constructor
  · intro hw'
    refine ⟨?_, hw'.size n c hn h.entry_self⟩
    rcases hcount with ⟨hl, -⟩ | ⟨-, hc⟩
    · exact .inl hl
    · have := hw'.count
      exact .inr (by omega)
  · rintro ⟨hroom, hlen⟩
    refine ⟨?_, fun m d hm hd => ?_⟩
    · rcases hcount with ⟨-, hc⟩ | ⟨hl, hc⟩
      · exact hc.trans_le hw.count
      · have := hroom.resolve_left hl
        omega
    · by_cases hmn : m = n
      · rw [hmn, h.entry_self] at hd
        cases hd
        exact hlen
      · exact hw.size m d hm (by rw [← h.entry_ne m hm hmn, hd])

lemma Dropped.withinLimits (h : Dropped root n fs fs') (hn : Visible n)
    (hw : WithinLimits root fs) : WithinLimits root fs' where
  count := by
    have := fileCount_dropped h hn
    have := hw.count
    omega
  size := fun m d hm hd => by
    by_cases hmn : m = n
    · rw [hmn, h.entry_self] at hd
      cases hd
    · exact hw.size m d hm (by rw [← h.entry_ne m hm hmn, hd])

/-! ### The operations in the listing -/

lemma not_visible_tmpName (t : Stamp) : ¬ Visible (tmpName t) := by
  rw [Visible, head?_tmpName]
  simp

lemma Added.placed {src : PathBuf} {t : Stamp} {io : Faults C}
    (h : Added root src t io fs fs' n c) : Placed root n c fs fs' := by
  have hsame : SameVisible root fs
      ((fs.insert (root ++ [tmpName t]) (.file c)).erase (root ++ [tmpName t])) :=
    (sameVisible_insert _ (not_visible_tmpName t)).trans
      (sameVisible_erase (not_visible_tmpName t))
  rw [h.eq]
  exact hsame.placed (placed_insert root n c _)

/-- The gate of a successful `add` in terms of the tree before it. -/
lemma Added.room {src : PathBuf} {t : Stamp} {io : Faults C}
    (h : Added root src t io fs fs' n c) :
    node fs root = some .dir ∧ fileCount root fs < maxFiles
      ∧ HasLen.len c ≤ maxFileBytes := by
  have hsame : SameVisible root fs (fs.insert (root ++ [tmpName t]) (.file c)) :=
    sameVisible_insert _ (not_visible_tmpName t)
  have hg := h.gate
  have hio : io.readDir = false ∧
      node (fs.insert (root ++ [tmpName t]) (.file c)) root = some .dir := by
    rw [canAddLocked] at hg
    split_ifs at hg
    split at hg
    · cases hg
    · rename_i l hl
      refine ⟨?_, (eq_visibleFiles_of_files hl).1⟩
      rw [files] at hl
      split_ifs at hl with hr
      simpa using hr
  rw [canAddLocked_eq_ok_iff io _ hio.2 hio.1, hsame.fileCount_eq] at hg
  exact ⟨by rw [← hsame.root_eq, hio.2], hg.2, hg.1⟩

lemma add_error_sameVisible {src : PathBuf} {t : Stamp} {io : Faults C} {e : StoreError}
    (h : add root src t io fs = (.error e, fs')) : SameVisible root fs fs' := by
  obtain rfl | ⟨c, rfl | rfl⟩ := add_error h
  · exact .refl _
  · exact sameVisible_insert _ (not_visible_tmpName t)
  · exact (sameVisible_insert _ (not_visible_tmpName t)).trans
      (sameVisible_erase (not_visible_tmpName t))

/-- A name without slash and without a leading dot is ordinary, empty or refused. -/
lemma visible_name_cases {n : OsString} (hs : slash ∉ n) (hv : Visible n) :
    n = [] ∨ (0 : UInt8) ∈ n ∨ Plain n := by
  by_cases h0 : n = []
  · exact .inl h0
  · by_cases hz : (0 : UInt8) ∈ n
    · exact .inr (.inl hz)
    · exact .inr (.inr ⟨h0, fun h => hv (by rw [h]; rfl), fun h => hv (by rw [h]; rfl), hs, hz⟩)

omit [HasLen C] in
/-- `remove` of a visible name takes that file out of the listing or changes nothing. -/
lemma remove_visible {s : String} {io : Faults C} {r : Except StoreError Unit}
    (hroot : node fs root = some .dir) (hs : slash ∉ ofStr s) (hv : Visible (ofStr s))
    (h : remove root s io fs = (r, fs')) :
    (r = .ok () ∧ Plain (ofStr s) ∧ Dropped root (ofStr s) fs fs')
      ∨ (∃ e, r = .error e) ∧ fs' = fs := by
  refine (remove_cases h).imp_left fun ⟨hr, q, c, hq, hc, hfs⟩ => ?_
  obtain h0 | h0 | hp := visible_name_cases hs hv
  · rw [h0, resolve_nil] at hq
    obtain rfl := Except.ok.inj hq
    rw [hroot] at hc
    cases hc
  · rw [resolve, if_pos h0] at hq
    cases hq
  · rw [resolve_plain fs root hp] at hq
    obtain rfl := Except.ok.inj hq
    rw [node_snoc] at hc
    exact ⟨hr, hp, hfs ▸ dropped_erase hc⟩

end Dddatasync
